import TincQuic.Lib.Comparison

/-!
# What `printf` wrote, `sscanf` reads

The conversions of `sscanf` on text that the conversions of `printf` wrote.

* `Stops` is what may stand behind a number: anything that does not continue it.
* `Reads k n w` says that the conversion `k` reads the word `w` as the number `n`, whatever stops
  it.  `reads_hex` and `reads_decimal` are the words of `%x` and `%u`; `scan_int` is `%d`.
* **`sscanf_separated`**: a format of conversions with a separator between them reads as many words
  as there are; `sscanf_terminated` is the step of that, for the words in front.
* `Takes` is the same for a directive of any kind on a word without white space, and
  **`sscanf_words`** reads words with blanks between them, also by a format that asks for more.
-/

namespace CText

open Bytes Comparison

/-! ## Digits -/

lemma hexValue_digitByte {d : ℕ} (h : d < 16) : hexValue (digitByte d) = some d := by
  revert h
  revert d
  decide

/-- The byte of a digit is no sign, no white space and not the letter of a prefix. -/
lemma digitByte_plain {d : ℕ} (h : d < 16) :
    digitByte d ≠ 45 ∧ digitByte d ≠ 43 ∧ isSpace (digitByte d) = false ∧
      toLower (digitByte d) ≠ 120 := by
  revert h
  revert d
  decide

lemma toBase_ne_nil (base fuel n : ℕ) : toBase base fuel n ≠ [] := by
  cases fuel with
  | zero => simp [toBase]
  | succ fuel =>
      rw [toBase]
      split <;> simp

lemma ofBase_append (base : ℕ) (ds : List ℕ) (d : ℕ) :
    ofBase base (ds ++ [d]) = ofBase base ds * base + d := by
  simp [ofBase]

lemma ofBase_toBase {base : ℕ} (hbase : 0 < base) {fuel n : ℕ} (h : n < base ^ (fuel + 1)) :
    ofBase base (toBase base fuel n) = n := by
  induction fuel generalizing n with
  | zero => simp [toBase, ofBase]
  | succ fuel ih =>
      rw [toBase]
      split
      · simp [ofBase]
      · rw [ofBase_append, ih]
        · exact Nat.div_add_mod' n base
        · rw [Nat.div_lt_iff_lt_mul hbase, ← pow_succ]
          exact h

/-! ## One number -/

/-- What does not continue a number, in any base. -/
def Stops (rest : Text) : Prop := ∀ c ∈ rest.head?, hexValue c = none ∧ toLower c ≠ 120

lemma stops_nil : Stops [] := by simp [Stops]

lemma stops_cons {c : UInt8} (h : hexValue c = none ∧ toLower c ≠ 120) (rest : Text) :
    Stops (c :: rest) := by
  simpa [Stops] using h

/-- The digits at the front of a text that stops behind them. -/
lemma takeWhile_digits {base : ℕ} (hbase : base ≤ 16) {ds : List ℕ} (hds : ∀ d ∈ ds, d < base)
    {rest : Text} (hrest : Stops rest) :
    ((ds.map digitByte ++ rest).takeWhile fun c => (hexValue c).any (· < base)).filterMap
      hexValue = ds := by
  induction ds with
  | nil =>
      cases rest with
      | nil => rfl
      | cons c rest =>
          have hc : hexValue c = none := (hrest c (by simp)).1
          simp [hc]
  | cons d ds ih =>
      have hd : d < base := hds d (by simp)
      have hvalue := hexValue_digitByte (show d < 16 by omega)
      have ih := ih fun e he => hds e (by simp [he])
      simp only [List.map_cons, List.cons_append]
      rw [List.takeWhile_cons_of_pos (by simp [hvalue, hd]), List.filterMap_cons, hvalue, ih]

/-- Behind the first digit no prefix `0x` is completed. -/
lemma no_prefix {base : ℕ} (hbase : base ≤ 16) {d : ℕ} {ds : List ℕ}
    (hds : ∀ e ∈ d :: ds, e < base) {rest : Text} (hrest : Stops rest) :
    (((d :: ds).map digitByte ++ rest).drop 1).head?.map toLower ≠ some 120 := by
  cases ds with
  | nil =>
      cases rest with
      | nil => simp
      | cons c rest => simpa using (hrest c (by simp)).2
  | cons e ds =>
      have he : e < base := hds e (by simp)
      simpa using (digitByte_plain (show e < 16 by omega)).2.2.2

lemma scanNumber_digits {base : ℕ} (hbase : base ≤ 16) {ds : List ℕ} (hne : ds ≠ [])
    (hds : ∀ d ∈ ds, d < base) {rest : Text} (hrest : Stops rest) :
    scanNumber base (ds.map digitByte ++ rest) = some (false, ds, ds.length) := by
  obtain ⟨d, ds', rfl⟩ := List.exists_cons_of_ne_nil hne
  have hd := digitByte_plain (show d < 16 from (hds d (by simp)).trans_le hbase)
  have hneg : ((d :: ds').map digitByte ++ rest).head? ≠ some 45 := by simpa using hd.1
  have hpos : ((d :: ds').map digitByte ++ rest).head? ≠ some 43 := by simpa using hd.2.1
  have hpre := no_prefix hbase hds hrest
  have htake := takeWhile_digits hbase hds hrest
  unfold scanNumber
  simp only [hneg, hpos, or_self, if_false, hpre, and_false, htake, decide_false]
  simp

lemma scanNumber_neg {base : ℕ} (hbase : base ≤ 16) {ds : List ℕ} (hne : ds ≠ [])
    (hds : ∀ d ∈ ds, d < base) {rest : Text} (hrest : Stops rest) :
    scanNumber base (45 :: ds.map digitByte ++ rest) = some (true, ds, 1 + ds.length) := by
  obtain ⟨d, ds', rfl⟩ := List.exists_cons_of_ne_nil hne
  have hpre := no_prefix hbase hds hrest
  have htake := takeWhile_digits hbase hds hrest
  unfold scanNumber
  simp only [List.cons_append, List.head?_cons, true_or, if_true, List.tail_cons, decide_true]
  simp only [hpre, and_false, if_false, htake]
  simp

lemma skipSpace_digits {ds : List ℕ} (hne : ds ≠ []) (hds : ∀ d ∈ ds, d < 16) (rest : Text) :
    skipSpace (ds.map digitByte ++ rest) = ds.map digitByte ++ rest := by
  obtain ⟨d, ds', rfl⟩ := List.exists_cons_of_ne_nil hne
  have hd := (digitByte_plain (hds d (by simp))).2.2.1
  rw [List.map_cons, List.cons_append, skipSpace, List.dropWhile_cons_of_neg (by simp [hd])]

/-- The digits of a number, however long they are allowed to become. -/
lemma scanUnsigned_digits {base : ℕ} (hbase : base ≤ 16) {ds : List ℕ} (hne : ds ≠ [])
    (hds : ∀ d ∈ ds, d < base) {bits : ℕ} (hbits : bits ≤ 64) (hvalue : ofBase base ds < 2 ^ bits)
    {rest : Text} (hrest : Stops rest) :
    scanUnsigned base none bits (ds.map digitByte ++ rest) =
      some (.uint (ofBase base ds), rest) := by
  have hlong : ofBase base ds < 2 ^ 64 :=
    hvalue.trans_le (Nat.pow_le_pow_right (by decide) hbits)
  have hulong : toULong false (ofBase base ds) = ofBase base ds := by
    rw [toULong, if_neg (by omega), if_neg (by simp)]
  unfold scanUnsigned limit
  rw [skipSpace_digits hne fun d hd => (hds d hd).trans_le hbase]
  simp only [scanNumber_digits hbase hne hds hrest, Option.map_some, hulong,
    Nat.mod_eq_of_lt hvalue]
  rw [List.drop_left' (by simp)]

/-- The conversion `k` reads `w` as `n`, whatever stops the number. -/
def Reads (k : Conversion) (n : ℕ) (w : Text) : Prop :=
  ∀ rest, Stops rest → k.scan (w ++ rest) = some (.uint n, rest)

lemma lt_pow_succ_self {base : ℕ} (hbase : 1 < base) (n : ℕ) : n < base ^ (n + 1) :=
  (Nat.lt_succ_self n).trans (Nat.lt_pow_self hbase)

lemma reads_hex {n bits : ℕ} (hbits : bits ≤ 64) (h : n < 2 ^ bits) :
    Reads (.x none bits) n (hex n) := by
  intro rest hrest
  have hn : n < 16 ^ (n + 1) := lt_pow_succ_self (by decide) n
  have hvalue := ofBase_toBase (by decide) hn
  have hread := scanUnsigned_digits (le_refl 16) (toBase_ne_nil 16 n n)
    (toBase_lt (by decide) hn) hbits (by rw [hvalue]; exact h) hrest
  rw [hvalue] at hread
  exact hread

lemma reads_decimal {n bits : ℕ} (hbits : bits ≤ 64) (h : n < 2 ^ bits) :
    Reads (.u none bits) n (decimal n) := by
  intro rest hrest
  have hn : n < 10 ^ (n + 1) := lt_ten_pow n
  have hvalue := ofBase_toBase (by decide) hn
  have hread := scanUnsigned_digits (by decide) (toBase_ne_nil 10 n n)
    (toBase_lt (by decide) hn) hbits (by rw [hvalue]; exact h) hrest
  rw [hvalue] at hread
  rw [decimal, if_neg (by omega)]
  exact hread

lemma toInt32_of_isInt {n : ℤ} (h : IsInt n) : toInt32 (clampLong n) = n := by
  unfold IsInt at h
  unfold toInt32 clampLong
  omega

/-- `%d` reads what `%d` wrote. -/
lemma scan_int {n : ℤ} (h : IsInt n) {rest : Text} (hrest : Stops rest) :
    (Conversion.d none).scan (decimal n ++ rest) = some (.int n, rest) := by
  have hn := lt_ten_pow n.natAbs
  have hne := toBase_ne_nil 10 n.natAbs n.natAbs
  have hds := toBase_lt (by decide) hn
  have hvalue := ofBase_toBase (by decide) hn
  unfold Conversion.scan limit
  by_cases hneg : n < 0
  · have hskip : skipSpace (decimal n ++ rest) = decimal n ++ rest := by
      rw [decimal, if_pos hneg, List.cons_append, skipSpace,
        List.dropWhile_cons_of_neg (by decide)]
    rw [hskip, decimal, if_pos hneg]
    simp only [scanNumber_neg (by decide) hne hds hrest, Option.map_some, hvalue, if_true]
    rw [show -(n.natAbs : ℤ) = n by omega, toInt32_of_isInt h, List.drop_left' (by simp; omega)]
  · rw [decimal, if_neg hneg, skipSpace_digits hne fun d hd => (hds d hd).trans (by decide)]
    simp only [scanNumber_digits (by decide) hne hds hrest, Option.map_some, hvalue,
      Bool.false_eq_true, if_false]
    rw [show (n.natAbs : ℤ) = n by omega, toInt32_of_isInt h, List.drop_left' (by simp)]

/-! ## Numbers with a separator between them -/

/-- `count` conversions with `sep` between them. -/
def separated (k : Conversion) (sep : UInt8) (count : ℕ) : List Directive :=
  (List.replicate count (Directive.conv k)).intersperse (.lit sep)

/-- The words with `sep` behind each. -/
def terminated (sep : UInt8) (ws : List Text) : Text := ws.flatMap (· ++ [sep])

variable {k : Conversion} {sep : UInt8}

lemma terminated_append (ws ws' : List Text) :
    terminated sep (ws ++ ws') = terminated sep ws ++ terminated sep ws' :=
  List.flatMap_append

/-- With a separator behind the last word too, the words between separators are as they were. -/
lemma intercalate_append_sep {ws : List Text} (h : ws ≠ []) :
    [sep].intercalate ws ++ [sep] = terminated sep ws := by
  induction ws with
  | nil => exact absurd rfl h
  | cons w ws ih =>
      cases ws with
      | nil => simp [terminated]
      | cons v ws =>
          rw [List.intercalate_cons_cons, List.append_assoc, ih (by simp)]
          simp [terminated]

lemma intercalate_eq_dropLast (ws : List Text) :
    [sep].intercalate ws = (terminated sep ws).dropLast := by
  cases ws with
  | nil => rfl
  | cons w ws => rw [← intercalate_append_sep (by simp), List.dropLast_concat]

lemma separated_succ (n : ℕ) :
    separated k sep (n + 2) = .conv k :: .lit sep :: separated k sep (n + 1) := rfl

/-- Words with a separator behind each are read one after the other. -/
lemma sscanf_terminated (hsep : hexValue sep = none ∧ toLower sep ≠ 120) {ns : List ℕ}
    {ws : List Text} (h : List.Forall₂ (Reads k) ns ws) (n : ℕ) (rest : Text) :
    sscanf (separated k sep (ws.length + (n + 1))) (terminated sep ws ++ rest) =
      (ns.map Item.uint ++ (sscanf (separated k sep (n + 1)) rest).1,
        (sscanf (separated k sep (n + 1)) rest).2) := by
  induction h with
  | nil => simp [terminated]
  | @cons m w ns ws hread h ih =>
      have hscan := hread (sep :: (terminated sep ws ++ rest)) (stops_cons hsep _)
      have htext : terminated sep (w :: ws) ++ rest = w ++ sep :: (terminated sep ws ++ rest) := by
        simp [terminated]
      rw [List.length_cons, show ws.length + 1 + (n + 1) = ws.length + n + 2 by omega,
        separated_succ, htext, sscanf, hscan]
      simp only [sscanf, List.head?_cons, if_true, List.tail_cons]
      rw [show ws.length + n + 1 = ws.length + (n + 1) by omega, ih]
      simp

lemma sscanf_one {m : ℕ} {w : Text} (h : Reads k m w) {rest : Text} (hrest : Stops rest) :
    sscanf (separated k sep 1) (w ++ rest) = ([.uint m], rest) := by
  rw [show separated k sep 1 = [.conv k] from rfl, sscanf, h rest hrest]
  rfl

/-- As many words as the format has conversions. -/
lemma sscanf_separated (hsep : hexValue sep = none ∧ toLower sep ≠ 120) {ns : List ℕ}
    {ws : List Text} (h : List.Forall₂ (Reads k) ns ws) (hne : ws ≠ []) {rest : Text}
    (hrest : Stops rest) :
    sscanf (separated k sep ws.length) ([sep].intercalate ws ++ rest) =
      (ns.map Item.uint, rest) := by
  induction h with
  | nil => exact absurd rfl hne
  | @cons m w ns ws hread h ih =>
      cases h with
      | nil => simpa using sscanf_one hread hrest
      | @cons m' w' ns ws hread' h =>
          have ih := ih (by simp)
          have hfirst := sscanf_terminated hsep (.cons hread .nil) ws.length
            ([sep].intercalate (w' :: ws) ++ rest)
          rw [List.length_cons] at ih
          rw [ih] at hfirst
          rw [List.intercalate_cons_cons]
          simpa [terminated, Nat.add_comm] using hfirst

/-! ## Formats that do not match -/

/-- A conversion takes its text from the front. -/
lemma scan_suffix {t t' : Text} {item : Item} (h : k.scan t = some (item, t')) : t' <:+ t := by
  have hskip : ∀ n, (skipSpace t).drop n <:+ t := fun n =>
    (List.drop_suffix n _).trans (List.dropWhile_suffix _)
  cases k with
  | d width =>
      obtain ⟨r, -, hr⟩ := Option.map_eq_some_iff.mp h
      exact (Prod.mk.inj hr).2 ▸ hskip _
  | x width bits =>
      obtain ⟨r, -, hr⟩ := Option.map_eq_some_iff.mp h
      exact (Prod.mk.inj hr).2 ▸ hskip _
  | u width bits =>
      obtain ⟨r, -, hr⟩ := Option.map_eq_some_iff.mp h
      exact (Prod.mk.inj hr).2 ▸ hskip _
  | s width =>
      simp only [Conversion.scan] at h
      split at h
      · cases h
      · exact (Prod.mk.inj (Option.some.inj h)).2 ▸ hskip _

/-- Without the separator at most one number is read. -/
lemma sscanf_separated_notMem {t : Text} (h : sep ∉ t) (n : ℕ) :
    (sscanf (separated k sep (n + 2)) t).1.length ≤ 1 := by
  rw [separated_succ, sscanf]
  cases hscan : k.scan t with
  | none => simp
  | some r =>
      have hhead : r.2.head? ≠ some sep := fun hhead =>
        h ((scan_suffix hscan).subset (List.mem_of_mem_head? hhead))
      simp [sscanf, hhead]

/-- Letters at the front of a format have to be there. -/
lemma sscanf_lits (w : Text) (f : List Directive) (t : Text) :
    (sscanf (w.map Directive.lit ++ f) t).1 =
      if w <+: t then (sscanf f (t.drop w.length)).1 else [] := by
  induction w generalizing t with
  | nil => simp
  | cons c w ih =>
      cases t with
      | nil => simp [sscanf]
      | cons d t =>
          rw [List.map_cons, List.cons_append, sscanf]
          by_cases hc : d = c
          · subst hc
            simp [ih]
          · simp [hc, Ne.symm hc]

/-! ## Words with blanks between them -/

/-- Something without white space in it. -/
def IsWord (w : Text) : Prop := w ≠ [] ∧ ∀ c ∈ w, isSpace c = false

lemma IsWord.skipSpace_append {w : Text} (h : IsWord w) (rest : Text) :
    skipSpace (w ++ rest) = w ++ rest := by
  obtain ⟨c, w', rfl⟩ := List.exists_cons_of_ne_nil h.1
  have hc := h.2 c (by simp)
  rw [List.cons_append, skipSpace, List.dropWhile_cons_of_neg (by simp [hc])]

lemma isWord_digits {ds : List ℕ} (hne : ds ≠ []) (hds : ∀ d ∈ ds, d < 16) :
    IsWord (ds.map digitByte) := by
  refine ⟨by simpa using hne, fun c hc => ?_⟩
  obtain ⟨d, hd, rfl⟩ := List.mem_map.mp hc
  exact (digitByte_plain (hds d hd)).2.2.1

lemma isWord_hex (n : ℕ) : IsWord (hex n) :=
  isWord_digits (toBase_ne_nil 16 n n) (toBase_lt (by decide) (lt_pow_succ_self (by decide) n))

lemma isWord_decimal (n : ℤ) : IsWord (decimal n) := by
  have hdigits : IsWord ((toBase 10 n.natAbs n.natAbs).map digitByte) :=
    isWord_digits (toBase_ne_nil 10 _ _) fun d hd =>
      (toBase_lt (by decide) (lt_ten_pow n.natAbs) d hd).trans (by decide)
  rw [decimal]
  split
  · refine ⟨by simp, fun c hc => ?_⟩
    rcases List.mem_cons.mp hc with rfl | hc
    · decide
    · exact hdigits.2 c hc
  · exact hdigits

/-- What may stand behind a word: nothing, or a blank. -/
def EndsWord (rest : Text) : Prop := ∀ c ∈ rest.head?, c = 32

lemma EndsWord.stops {rest : Text} (h : EndsWord rest) : Stops rest := by
  intro c hc
  rw [h c hc]
  decide

/-- The directive `k` reads the word `w` and stores `items`, whatever ends the word. -/
def Takes (k : Directive × List Item) (w : Text) : Prop :=
  IsWord w ∧ ∀ rest, EndsWord rest → ∀ f,
    sscanf (k.1 :: f) (w ++ rest) = (k.2 ++ (sscanf f rest).1, (sscanf f rest).2)

lemma takes_string {w : Text} (h : IsWord w) {width : ℕ} (hlength : w.length ≤ width) :
    Takes (.conv (.s width), [.str w]) w := by
  refine ⟨h, fun rest hrest f => ?_⟩
  have hword : ((w ++ rest).take width).takeWhile (fun c => !isSpace c) = w := by
    rw [List.take_append, List.take_of_length_le hlength,
      List.takeWhile_append_of_pos fun c hc => by simp [h.2 c hc]]
    cases rest with
    | nil => simp
    | cons c rest =>
        obtain rfl := hrest c (by simp)
        cases width - w.length with
        | zero => simp
        | succ n => simp [isSpace]
  simp only [sscanf, Conversion.scan, h.skipSpace_append, hword, if_neg h.1, List.drop_left]
  rfl

lemma takes_int {n : ℤ} (h : IsInt n) : Takes (.conv (.d none), [.int n]) (decimal n) := by
  refine ⟨isWord_decimal n, fun rest hrest f => ?_⟩
  rw [sscanf, scan_int h hrest.stops]
  rfl

lemma takes_hex {n bits : ℕ} (hbits : bits ≤ 64) (h : n < 2 ^ bits) :
    Takes (.conv (.x none bits), [.uint n]) (hex n) := by
  refine ⟨isWord_hex n, fun rest hrest f => ?_⟩
  rw [sscanf, reads_hex hbits h rest hrest.stops]
  rfl

/-- A conversion that is not stored reads the same word. -/
lemma Takes.skip {k : Conversion} {items : List Item} {w : Text}
    (h : Takes (.conv k, items) w) : Takes (.skip k, []) w := by
  refine ⟨h.1, fun rest hrest f => ?_⟩
  have hread := h.2 rest hrest []
  simp only [sscanf] at hread ⊢
  cases hscan : k.scan (w ++ rest) with
  | none =>
      rw [hscan] at hread
      have hrest' : w ++ rest = rest := (Prod.mk.inj hread).2
      exact absurd (List.append_left_eq_self.mp hrest') h.1.1
  | some r =>
      rw [hscan] at hread
      have hrest' : r.2 = rest := (Prod.mk.inj hread).2
      rw [← hrest']
      rfl

/-- Words with blanks between them, read by a format with blanks between its directives.  What is
left of the format when the words are used up sees an empty text. -/
lemma sscanf_words {ks : List (Directive × List Item)} {ws : List Text}
    (h : List.Forall₂ Takes ks ws) (hne : ws ≠ []) (f : List Directive) :
    sscanf ((ks.map Prod.fst).intersperse .space ++ f) ([32].intercalate ws) =
      (ks.flatMap Prod.snd ++ (sscanf f []).1, (sscanf f []).2) := by
  induction h with
  | nil => exact absurd rfl hne
  | @cons k w ks ws hk h ih =>
      cases h with
      | nil => simpa using hk.2 [] (by simp [EndsWord]) f
      | @cons k' w' ks ws hk' h =>
          have ih := ih (by simp)
          have hstart : skipSpace ([32].intercalate (w' :: ws)) = [32].intercalate (w' :: ws) := by
            cases ws with
            | nil => simpa using hk'.1.skipSpace_append []
            | cons v ws => exact hk'.1.skipSpace_append _
          have hblank : skipSpace (32 :: [32].intercalate (w' :: ws)) =
              [32].intercalate (w' :: ws) := by
            rw [skipSpace, List.dropWhile_cons_of_pos (by decide)]
            exact hstart
          rw [List.intercalate_cons_cons, List.append_assoc, List.singleton_append]
          simp only [List.map_cons, List.intersperse_cons_cons, List.cons_append]
          rw [hk.2 _ (by simp [EndsWord]), sscanf, hblank]
          simp only [List.map_cons] at ih
          rw [ih]
          simp

end CText
