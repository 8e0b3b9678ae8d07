import TincQuic.Lib.Scan

/-!
# Numbers as they are written

An unsigned conversion of `sscanf` keeps some bits of the number that it reads.  Here is the number
itself.

* `numeral base piece` is the number that a piece of text spells in full, with the white space, the
  sign and the prefix that the conversions allow in front of the digits.
* `kept bits w` is what an unsigned conversion to `bits` bits keeps of the number `w`.
* **`sscanf_pieces`**: a format of conversions with a separator between them reads the whole text
  exactly if the text has as many pieces as the format has conversions and each of them is a
  numeral, and it stores what is kept of the numbers.
-/

namespace CText

open Bytes

/-! ## One number -/

/-- A number from its sign and its digits. -/
def signed (neg : Bool) (n : ℕ) : ℤ := if neg then -n else n

/-- The number that a piece of text spells, if nothing stands behind it. -/
def numeral (base : ℕ) (piece : Text) : Option ℤ :=
  match scanNumber base (skipSpace piece) with
  | none => none
  | some (neg, digits, n) =>
      if n = (skipSpace piece).length then some (signed neg (ofBase base digits)) else none

/-- What is left of a number in `bits` bits, by way of an `unsigned long`. -/
def kept (bits : ℕ) (w : ℤ) : ℕ :=
  (if 2 ^ 64 ≤ w.natAbs then 2 ^ 64 - 1 else (w % 2 ^ 64).toNat) % 2 ^ bits

lemma toULong_eq (neg : Bool) (n bits : ℕ) : toULong neg n % 2 ^ bits = kept bits (signed neg n) := by
  have hlong : toULong neg n = if 2 ^ 64 ≤ (signed neg n).natAbs then 2 ^ 64 - 1
      else (signed neg n % 2 ^ 64).toNat := by
    unfold toULong signed
    cases neg with
    | false =>
        simp only [if_false, Bool.false_eq_true]
        split_ifs <;> omega
    | true =>
        simp only [if_true]
        split_ifs <;> omega
  rw [hlong, kept]

lemma kept_of_lt {bits : ℕ} (hbits : bits ≤ 64) {n : ℕ} (h : n < 2 ^ bits) :
    kept bits n = n := by
  have hlong : n < 2 ^ 64 := h.trans_le (Nat.pow_le_pow_right (by decide) hbits)
  have hmod : ((n : ℤ) % 2 ^ 64).toNat = n := by omega
  rw [kept, if_neg (by omega), hmod, Nat.mod_eq_of_lt h]

/-- What may stand behind a number: nothing that belongs to one, no sign and no white space. -/
def Parts (sep : UInt8) : Prop :=
  (hexValue sep = none ∧ toLower sep ≠ 120) ∧ sep ≠ 45 ∧ sep ≠ 43 ∧ isSpace sep = false

instance decidableParts (sep : UInt8) : Decidable (Parts sep) :=
  inferInstanceAs (Decidable (_ ∧ _))

/-- The rest of the text behind a piece: it is empty, or begins with the separator. -/
def Behind (sep : UInt8) (rest : Text) : Prop := ∀ c ∈ rest.head?, c = sep

lemma behind_nil (sep : UInt8) : Behind sep [] := by simp [Behind]

lemma behind_cons (sep : UInt8) (rest : Text) : Behind sep (sep :: rest) := by simp [Behind]

section Number

variable {base : ℕ} {sep : UInt8} {rest : Text}

lemma skipSpace_append (hsep : Parts sep) (hrest : Behind sep rest) (p : Text) :
    skipSpace (p ++ rest) = skipSpace p ++ rest := by
  unfold skipSpace
  induction p with
  | nil =>
      cases rest with
      | nil => rfl
      | cons c rest =>
          obtain rfl : c = sep := hrest c rfl
          simp [hsep.2.2.2]
  | cons c p ih =>
      cases hc : isSpace c with
      | true => simpa [hc] using ih
      | false => simp [hc]

/-- The digits at the front of a text end before the separator. -/
lemma takeWhile_behind (hsep : Parts sep) (hrest : Behind sep rest) (t : Text) :
    (t ++ rest).takeWhile (fun c => (hexValue c).any (· < base)) =
      t.takeWhile fun c => (hexValue c).any (· < base) := by
  induction t with
  | nil =>
      cases rest with
      | nil => rfl
      | cons c rest =>
          obtain rfl : c = sep := hrest c rfl
          simp [hsep.1.1]
  | cons c t ih =>
      rw [List.cons_append, List.takeWhile_cons, List.takeWhile_cons, ih]

/-- The prefix of a hexadecimal number is not completed by the separator. -/
lemma hexPrefix_append (hsep : Parts sep) (hrest : Behind sep rest) (t : Text) :
    (t ++ rest).head? = some 48 ∧ ((t ++ rest).drop 1).head?.map toLower = some 120 ↔
      t.head? = some 48 ∧ (t.drop 1).head?.map toLower = some 120 := by
  have hzero : hexValue 48 ≠ none := by decide
  cases t with
  | nil =>
      cases rest with
      | nil => simp
      | cons c rest =>
          obtain rfl : c = sep := hrest c rfl
          have hc : c ≠ 48 := fun h => hzero (h ▸ hsep.1.1)
          simp [hc]
  | cons d t =>
      cases t with
      | nil =>
          cases rest with
          | nil => simp
          | cons c rest =>
              obtain rfl : c = sep := hrest c rfl
              simp [hsep.1.2]
      | cons e t => simp

lemma two_le_of_hexPrefix {t : Text} (h : (t.drop 1).head?.map toLower = some 120) :
    2 ≤ t.length := by
  cases t with
  | nil => simp at h
  | cons d t =>
      cases t with
      | nil => simp at h
      | cons e t => simp

/-- The number at the front of a piece is not changed by what stands behind the piece. -/
lemma scanNumber_append (hsep : Parts sep) (hrest : Behind sep rest) (q : Text) :
    scanNumber base (q ++ rest) = scanNumber base q := by
  have hhead : ∀ c, c = 45 ∨ c = 43 → ((q ++ rest).head? = some c ↔ q.head? = some c) := by
    intro c hc
    cases q with
    | nil =>
        cases rest with
        | nil => simp
        | cons d rest =>
            obtain rfl : d = sep := hrest d rfl
            rcases hc with rfl | rfl
            · simpa using hsep.2.1
            · simpa using hsep.2.2.1
    | cons d q => simp
  have hneg := hhead 45 (.inl rfl)
  have hpos := hhead 43 (.inr rfl)
  have htail : (if q.head? = some 45 ∨ q.head? = some 43 then (q ++ rest).tail else q ++ rest) =
      (if q.head? = some 45 ∨ q.head? = some 43 then q.tail else q) ++ rest := by
    cases q with
    | nil => simp
    | cons d q => split <;> simp
  unfold scanNumber
  simp only [hneg, hpos, htail]
  generalize (if q.head? = some 45 ∨ q.head? = some 43 then q.tail else q) = t
  simp only [hexPrefix_append hsep hrest t]
  by_cases hpre : base = 16 ∧ t.head? = some 48 ∧ (t.drop 1).head?.map toLower = some 120
  · rw [List.drop_append_of_le_length (two_le_of_hexPrefix hpre.2.2)]
    simp only [hpre, and_self, if_true, takeWhile_behind hsep hrest]
  · simp only [hpre, if_false, takeWhile_behind hsep hrest]

lemma scanNumber_le {q : Text} {neg : Bool} {digits : List ℕ} {n : ℕ}
    (h : scanNumber base q = some (neg, digits, n)) : n ≤ q.length := by
  have hlength : (if q.head? = some 45 ∨ q.head? = some 43 then q.tail else q).length +
      (if q.head? = some 45 ∨ q.head? = some 43 then 1 else 0) = q.length := by
    cases q with
    | nil => simp
    | cons c q => split_ifs <;> simp
  unfold scanNumber at h
  simp only at h
  generalize (if q.head? = some 45 ∨ q.head? = some 43 then q.tail else q) = t at h hlength
  generalize (if q.head? = some 45 ∨ q.head? = some 43 then 1 else 0) = sign at h hlength
  have hdigits : ∀ body : Text, ((body.takeWhile fun c => (hexValue c).any (· < base)).filterMap
      hexValue).length ≤ body.length := fun body =>
    (List.length_filterMap_le _ _).trans (List.takeWhile_prefix _).length_le
  by_cases hpre : base = 16 ∧ t.head? = some 48 ∧ (t.drop 1).head?.map toLower = some 120
  · have htwo := two_le_of_hexPrefix hpre.2.2
    have hle := hdigits (t.drop 2)
    rw [List.length_drop] at hle
    simp only [if_pos hpre] at h
    rw [if_neg fun hnone => hnone.2 hpre] at h
    simp only [Option.some.injEq, Prod.mk.injEq] at h
    omega
  · have hle := hdigits t
    simp only [if_neg hpre] at h
    split at h
    · cases h
    · simp only [Option.some.injEq, Prod.mk.injEq] at h
      omega

end Number

/-! ## Pieces -/

/-- All of a format of `count` conversions was read, and all of the text. -/
def whole (count : ℕ) (r : List Item × Text) : Option (List Item) :=
  if r.1.length = count ∧ r.2 = [] then some r.1 else none

/-- The numbers that `count` pieces spell. -/
def numerals (base count : ℕ) (pieces : List Text) : Option (List ℤ) :=
  if pieces.length = count then pieces.mapM (numeral base) else none

/-- The pieces of a text hold no separator. -/
lemma notMem_of_mem_splitOn {sep : UInt8} (t : Text) : ∀ p ∈ t.splitOn sep, sep ∉ p := by
  induction t with
  | nil => simp
  | cons c t ih =>
      rw [List.splitOn_cons_eq_if_modifyHead]
      split
      next => simpa using ih
      next hc =>
        obtain ⟨q, pieces, hq⟩ := List.exists_cons_of_ne_nil (List.splitOn_ne_nil sep t)
        rw [hq] at ih ⊢
        intro p hp
        rcases List.mem_cons.mp hp with rfl | hp
        · have hq := ih q List.mem_cons_self
          simp only [beq_iff_eq] at hc
          simp [hq, Ne.symm hc]
        · exact ih p (List.mem_cons_of_mem _ hp)

section Pieces

variable {k : Conversion} {base bits : ℕ} {sep : UInt8}

/-- A conversion at a piece: it reads the piece up to its end, or the piece is no numeral. -/
lemma scan_piece (hk : ∀ t, k.scan t = scanUnsigned base none bits t) (hsep : Parts sep)
    {p rest : Text} (hp : sep ∉ p) (hrest : Behind sep rest) :
    (∃ w, numeral base p = some w ∧ k.scan (p ++ rest) = some (.uint (kept bits w), rest)) ∨
    (numeral base p = none ∧ ∀ item t, k.scan (p ++ rest) = some (item, t) →
      t ≠ [] ∧ t.head? ≠ some sep) := by
  rw [hk, scanUnsigned, limit, skipSpace_append hsep hrest, scanNumber_append hsep hrest, numeral]
  have hq : sep ∉ skipSpace p := fun h => hp ((List.dropWhile_suffix _).subset h)
  generalize skipSpace p = q at hq
  cases hscan : scanNumber base q with
  | none => exact .inr ⟨rfl, by simp⟩
  | some r =>
      obtain ⟨neg, digits, n⟩ := r
      have hle := scanNumber_le hscan
      simp only [Option.map_some, toULong_eq, List.drop_append_of_le_length hle]
      by_cases hn : n = q.length
      · exact .inl ⟨_, if_pos hn, by simp [hn]⟩
      · refine .inr ⟨if_neg hn, ?_⟩
        rintro item t ht
        obtain ⟨-, rfl⟩ := Prod.mk.inj (Option.some.inj ht)
        have hdrop : q.drop n ≠ [] := by
          rw [Ne, List.drop_eq_nil_iff]
          omega
        refine ⟨by simp [hdrop], fun hhead => ?_⟩
        rw [List.head?_append_of_ne_nil _ hdrop] at hhead
        exact hq ((List.drop_suffix n q).subset (List.mem_of_mem_head? hhead))

lemma whole_conv (n : ℕ) (f : List Directive) (t : Text) :
    whole (n + 1) (sscanf (.conv k :: f) t) =
      (k.scan t).bind fun r => (whole n (sscanf f r.2)).map (r.1 :: ·) := by
  rw [sscanf]
  cases k.scan t with
  | none => simp [whole]
  | some r =>
      simp only [whole, List.length_cons, Nat.add_right_cancel_iff, Option.bind_some]
      split_ifs <;> rfl

lemma whole_lit (n : ℕ) (f : List Directive) (t : Text) :
    whole (n + 1) (sscanf (.lit sep :: f) t) =
      if t.head? = some sep then whole (n + 1) (sscanf f t.tail) else none := by
  rw [sscanf]
  split
  · rfl
  · simp [whole]

lemma numerals_cons (p : Text) (pieces : List Text) (n : ℕ) :
    numerals base (n + 1) (p :: pieces) =
      (numeral base p).bind fun w => (numerals base n pieces).map (w :: ·) := by
  unfold numerals
  simp only [List.length_cons, Nat.add_right_cancel_iff]
  split
  · rw [List.mapM_cons]
    cases numeral base p with
    | none => rfl
    | some w => cases pieces.mapM (numeral base) <;> rfl
  · simp

/-- **A format of conversions reads numerals.** -/
lemma sscanf_pieces (hk : ∀ t, k.scan t = scanUnsigned base none bits t) (hsep : Parts sep)
    {pieces : List Text} (hne : pieces ≠ []) (hfree : ∀ p ∈ pieces, sep ∉ p) (n : ℕ) :
    whole (n + 1) (sscanf (separated k sep (n + 1)) ([sep].intercalate pieces)) =
      (numerals base (n + 1) pieces).map (List.map fun w => .uint (kept bits w)) := by
  induction pieces generalizing n with
  | nil => exact absurd rfl hne
  | cons p pieces ih =>
      have hp := hfree p List.mem_cons_self
      -- the text behind the first piece
      obtain ⟨rest, htext, hrest, hstep⟩ : ∃ rest, [sep].intercalate (p :: pieces) = p ++ rest ∧
          Behind sep rest ∧
          ((pieces = [] ∧ rest = []) ∨
            (pieces ≠ [] ∧ rest = sep :: [sep].intercalate pieces)) := by
        cases pieces with
        | nil => exact ⟨[], by simp, behind_nil sep, .inl ⟨rfl, rfl⟩⟩
        | cons p' pieces =>
            refine ⟨sep :: [sep].intercalate (p' :: pieces), ?_, behind_cons sep _,
              .inr ⟨by simp, rfl⟩⟩
            rw [List.intercalate_cons_cons]
            simp
      rw [htext, numerals_cons]
      rcases scan_piece hk hsep hp hrest with ⟨w, hw, hscan⟩ | ⟨hw, hscan⟩
      · rw [hw]
        cases n with
        | zero =>
            rw [show separated k sep (0 + 1) = [.conv k] from rfl, whole_conv, hscan]
            obtain ⟨rfl, rfl⟩ | ⟨hpieces, rfl⟩ := hstep
            · simp [whole, sscanf, numerals]
            · simp [whole, sscanf, numerals, hpieces]
        | succ n =>
            rw [separated_succ, whole_conv, hscan]
            simp only [Option.bind_some, whole_lit]
            obtain ⟨rfl, rfl⟩ | ⟨hpieces, rfl⟩ := hstep
            · simp [numerals]
            · have ih := ih hpieces (fun p' hp' => hfree p' (List.mem_cons_of_mem _ hp')) n
              simp only [List.head?_cons, if_true, List.tail_cons, ih, Option.map_map]
              rfl
      · rw [hw]
        cases n with
        | zero =>
            rw [show separated k sep (0 + 1) = [.conv k] from rfl, whole_conv]
            cases hr : k.scan (p ++ rest) with
            | none => rfl
            | some r => simp [whole, sscanf, (hscan r.1 r.2 hr).1]
        | succ n =>
            rw [separated_succ, whole_conv]
            cases hr : k.scan (p ++ rest) with
            | none => rfl
            | some r => simp [whole_lit, (hscan r.1 r.2 hr).2]

end Pieces

end CText
