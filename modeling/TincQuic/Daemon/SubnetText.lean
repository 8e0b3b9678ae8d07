import TincQuic.Daemon.Subnet
import TincQuic.Lib.Scan

/-!
# The text of a subnet

`net2str` writes a subnet and `str2net` reads it.  The three kinds of address have texts of three
grammars, and `str2net` tries them one after the other, so each text must also fail the grammars
that are tried before its own.

* `Net.Sized` says that the address has the bytes of its kind and the prefix length its bits.
* `zeroRun_longestZeros` is what the loop of `net2str` finds: a run of zero groups.  With it
  `printIpv6_cases` gives the two forms of an address: eight groups, or the groups before and
  behind a double colon.
* **`expandZeros_elided`**: the expansion of the double colon restores the eight groups.
* **`str2net_net2str`**: what was written is read back.
-/

namespace Tinc

open Bytes CText Comparison

/-- The address has the bytes of its kind, and the prefix is not longer than the address. -/
def Net.Sized : Net → Prop
  | .mac address => address.length = 6
  | .ipv4 address prefixlength => address.length = 4 ∧ prefixlength ≤ 32
  | .ipv6 address prefixlength => address.length = 16 ∧ prefixlength ≤ 128

instance : DecidablePred Net.Sized := fun n =>
  match n with
  | .mac _ => inferInstanceAs (Decidable (_ = _))
  | .ipv4 _ _ => inferInstanceAs (Decidable (_ ∧ _))
  | .ipv6 _ _ => inferInstanceAs (Decidable (_ ∧ _))

/-! ## Numbers of a fixed count -/

lemma fields_eq (k : Conversion) (separator : UInt8) (count : ℕ) :
    fields k separator count = separated k separator count := rfl

lemma uints_map (ns : List ℕ) : uints (ns.map Item.uint) = ns := by
  simp [uints, List.filterMap_map]

variable {k : Conversion} {sep : UInt8} {ns : List ℕ} {ws : List Text}

/-- As many words as there should be. -/
lemma scanFields_words (hsep : hexValue sep = none ∧ toLower sep ≠ 120)
    (h : List.Forall₂ (Reads k) ns ws) (hne : ws ≠ []) :
    scanFields k sep ws.length ([sep].intercalate ws) = some ns := by
  have hread := sscanf_separated hsep h hne stops_nil
  rw [List.append_nil] at hread
  simp [scanFields, fields_eq, hread, h.length_eq, uints_map]

/-- More words than there should be. -/
lemma scanFields_more (hsep : hexValue sep = none ∧ toLower sep ≠ 120)
    (h : List.Forall₂ (Reads k) ns ws) (hne : ws ≠ []) (rest : Text) :
    scanFields k sep ws.length ([sep].intercalate ws ++ sep :: rest) = none := by
  have hread := sscanf_separated hsep h hne (stops_cons hsep rest)
  simp [scanFields, fields_eq, hread]

/-- An empty word where another should be. -/
lemma scanFields_less (hsep : hexValue sep = none ∧ toLower sep ≠ 120)
    (h : List.Forall₂ (Reads k) ns ws) (n : ℕ) {rest : Text} (hrest : k.scan rest = none) :
    scanFields k sep (ws.length + (n + 1)) (terminated sep ws ++ rest) = none := by
  have hnext : (sscanf (separated k sep (n + 1)) rest).1 = [] := by
    cases n with
    | zero => simp [separated, sscanf, hrest]
    | succ n => simp [separated_succ, sscanf, hrest]
  have hread := sscanf_terminated hsep h n rest
  rw [scanFields, fields_eq, hread, hnext]
  simp [h.length_eq]

/-- Text without a separator is not more than one word. -/
lemma scanFields_notMem {t : Text} (h : sep ∉ t) (n : ℕ) : scanFields k sep (n + 2) t = none := by
  have hle := sscanf_separated_notMem (k := k) h n
  rw [scanFields, fields_eq]
  simp only [ite_eq_right_iff]
  omega

lemma stops_colon : hexValue 58 = none ∧ toLower 58 ≠ 120 := by decide

lemma stops_dot : hexValue 46 = none ∧ toLower 46 ≠ 120 := by decide

/-! ## Weight and prefix length -/

lemma scanWholeInt_decimal {n : ℤ} (h : IsInt n) : scanWholeInt (decimal n) = some n := by
  have hscan := scan_int h stops_nil
  rw [List.append_nil] at hscan
  simp [scanWholeInt, sscanf, hscan]

lemma cutInt_none {t : Text} (h : sep ∉ t) : cutInt sep t = some (t, none) := by
  have htake : t.takeWhile (· ≠ sep) = t := by
    rw [List.takeWhile_eq_self_iff]
    intro c hc
    simpa using fun he : c = sep => h (he ▸ hc)
  simp only [cutInt, htake, List.drop_length]

lemma cutInt_some {t : Text} (h : sep ∉ t) {n : ℤ} (hn : IsInt n) :
    cutInt sep (t ++ sep :: decimal n) = some (t, some n) := by
  have htake : (t ++ sep :: decimal n).takeWhile (· ≠ sep) = t := by
    rw [List.takeWhile_append_of_pos, List.takeWhile_cons_of_neg (by simp), List.append_nil]
    intro c hc
    simpa using fun he : c = sep => h (he ▸ hc)
  simp only [cutInt, htake, List.drop_left, scanWholeInt_decimal hn, Option.map_some]

/-- A number behind a separator, which stands there unless it is the default. -/
lemma cutInt_suffix {t : Text} (h : sep ∉ t) {n : ℤ} (hn : IsInt n) (default : ℤ) :
    (cutInt sep (t ++ if n = default then [] else sep :: decimal n)) =
      some (t, if n = default then none else some n) := by
  split
  · rw [List.append_nil, cutInt_none h]
  · exact cutInt_some h hn

/-! ## Words -/

/-- A word of hexadecimal digits that the conversion `k` reads as `n`. -/
structure Word (k : Conversion) (n : ℕ) (w : Text) : Prop where
  reads : Reads k n w
  ne_nil : w ≠ []
  digits : ∀ c ∈ w, (hexValue c).isSome

lemma digitByte_isSome {ds : List ℕ} (h : ∀ d ∈ ds, d < 16) :
    ∀ c ∈ ds.map digitByte, (hexValue c).isSome := by
  intro c hc
  obtain ⟨d, hd, rfl⟩ := List.mem_map.mp hc
  rw [hexValue_digitByte (h d hd)]
  rfl

lemma word_hex {n : ℕ} (h : n < 65536) : Word shortHex n (hex n) where
  reads := reads_hex (by decide) h
  ne_nil := by simp [hex, toBase_ne_nil]
  digits := digitByte_isSome (toBase_lt (by decide) (lt_pow_succ_self (by decide) n))

lemma word_decimal {n : ℕ} (h : n < 65536) : Word shortDec n (decimal n) where
  reads := reads_decimal (by decide) h
  ne_nil := decimal_ne_nil n
  digits := by
    rw [decimal, if_neg (by omega)]
    exact digitByte_isSome fun d hd =>
      (toBase_lt (by decide) (lt_ten_pow n) d hd).trans (by decide)

lemma hexByte_lt {n : ℕ} (h : n < 256) : ∀ d ∈ [n / 16, n % 16], d < 16 := by
  intro d hd
  rcases List.mem_pair.mp hd with rfl | rfl
  · omega
  · omega

lemma word_hexByte {n : ℕ} (h : n < 256) : Word shortHex n (hexByte n) where
  reads := by
    intro rest hrest
    have hvalue : ofBase 16 [n / 16, n % 16] = n := by
      simp only [ofBase, List.foldl_cons, List.foldl_nil]
      omega
    have hbits : ofBase 16 [n / 16, n % 16] < 2 ^ 16 := by
      rw [hvalue]
      omega
    have hread := scanUnsigned_digits (le_refl 16) (by simp) (hexByte_lt h) (by decide) hbits hrest
    rw [hvalue] at hread
    exact hread
  ne_nil := by simp [hexByte]
  digits := digitByte_isSome (hexByte_lt h)

lemma mem_intercalate {c : UInt8} (h : c ∈ [sep].intercalate ws) : c = sep ∨ ∃ w ∈ ws, c ∈ w := by
  rw [intercalate_eq_dropLast] at h
  obtain ⟨w, hw, hc⟩ := List.mem_flatMap.mp (List.dropLast_subset _ h)
  rcases List.mem_append.mp hc with hc | hc
  · exact .inr ⟨w, hw, hc⟩
  · exact .inl (List.mem_singleton.mp hc)

/-- Words and separators hold nothing else than digits and separators. -/
lemma notMem_intercalate {c : UInt8} (hws : ∀ w ∈ ws, ∀ c ∈ w, (hexValue c).isSome)
    (hc : hexValue c = none) (hne : c ≠ sep) : c ∉ [sep].intercalate ws := by
  intro h
  rcases mem_intercalate h with h | ⟨w, hw, h⟩
  · exact hne h
  · have := hws w hw c h
    rw [hc] at this
    exact absurd this (by simp)

/-! ## MAC and IPv4 -/

lemma forall₂_words {α : Type*} {f : α → Text} {g : α → ℕ} {l : List α}
    (h : ∀ a ∈ l, Word k (g a) (f a)) : List.Forall₂ (Reads k) (l.map g) (l.map f) := by
  rw [List.forall₂_map_left_iff, List.forall₂_map_right_iff, List.forall₂_same]
  exact fun a ha => (h a ha).reads

lemma digits_of_words {α : Type*} {f : α → Text} {g : α → ℕ} {l : List α}
    (h : ∀ a ∈ l, Word k (g a) (f a)) : ∀ w ∈ l.map f, ∀ c ∈ w, (hexValue c).isSome := by
  intro w hw
  obtain ⟨a, ha, rfl⟩ := List.mem_map.mp hw
  exact (h a ha).digits

lemma word_macByte (b : UInt8) : Word shortHex b.toNat (hexByte b.toNat) :=
  word_hexByte b.toNat_lt

lemma word_ipv4Byte (b : UInt8) : Word shortDec b.toNat (decimal b.toNat) :=
  word_decimal (b.toNat_lt.trans (by decide))

lemma map_ofNat_toNat (address : List UInt8) :
    (address.map UInt8.toNat).map UInt8.ofNat = address := by
  simp [Function.comp_def]

lemma str2address_mac {address : List UInt8} (h : address.length = 6) :
    str2address (Net.print (.mac address)) none = some (.mac address) := by
  have hread := scanFields_words stops_colon
    (forall₂_words (l := address) fun b _ => word_macByte b) (by
      rw [Ne, List.map_eq_nil_iff, ← List.length_eq_zero_iff]
      omega)
  rw [List.length_map, h] at hread
  simp only [str2address, Net.print, hread, map_ofNat_toNat]
  rfl

/-- The text of an IPv4 address without its prefix length. -/
def printIpv4 (address : List UInt8) : Text :=
  [46].intercalate (address.map fun b => decimal b.toNat)

lemma digits_ipv4 (address : List UInt8) :
    ∀ w ∈ address.map (fun b => decimal b.toNat), ∀ c ∈ w, (hexValue c).isSome :=
  digits_of_words fun b _ => word_ipv4Byte b

lemma str2address_ipv4 {address : List UInt8} (h : address.length = 4) {len : Option ℕ}
    (hlen : len.getD 32 ≤ 32) :
    str2address (printIpv4 address) len = some (.ipv4 address (len.getD 32)) := by
  have hmac : scanFields shortHex 58 6 (printIpv4 address) = none :=
    scanFields_notMem (notMem_intercalate (digits_ipv4 address) (by decide) (by decide)) 4
  have hread := scanFields_words stops_dot
    (forall₂_words (l := address) fun b _ => word_ipv4Byte b) (by
      rw [Ne, List.map_eq_nil_iff, ← List.length_eq_zero_iff]
      omega)
  rw [List.length_map, h] at hread
  have hbytes : ¬ (address.map UInt8.toNat).any (255 < ·) = true := by
    simp only [List.any_map, List.any_eq_true, Function.comp_apply, decide_eq_true_eq, not_exists]
    rintro b ⟨-, hb⟩
    have := b.toNat_lt
    omega
  rw [printIpv4] at hmac ⊢
  simp only [str2address, hmac, hread, map_ofNat_toNat]
  rw [if_neg]
  rintro (h | h)
  · omega
  · exact hbytes h

/-! ## The groups of an IPv6 address -/

/-- `r` is where a run of zeros begins and how long it is. -/
def ZeroRun (l : List ℕ) (r : ℕ × ℕ) : Prop := ∀ j < r.2, l[r.1 + j]? = some 0

/-- The loop of `net2str` keeps the current run, which ends where it stands, and the best one. -/
lemma zeroRun_longestZeros {done groups : List ℕ} {current best : ℕ × ℕ}
    (hcurrent : ZeroRun (done ++ groups) current)
    (hend : current.2 ≠ 0 → current.1 + current.2 = done.length)
    (hbest : ZeroRun (done ++ groups) best) :
    ZeroRun (done ++ groups) (longestZeros done.length groups current best) := by
  induction groups generalizing done current best with
  | nil => exact hbest
  | cons x groups ih =>
      have hmove : done ++ x :: groups = (done ++ [x]) ++ groups := by simp
      have hlength : done.length + 1 = (done ++ [x]).length := by simp
      rw [longestZeros]
      split
      · rw [hmove] at hbest ⊢
        rw [hlength]
        exact ih (fun j hj => absurd hj (Nat.not_lt_zero j)) (fun h => absurd rfl h) hbest
      · rename_i hx
        have hx : (done ++ x :: groups)[done.length]? = some 0 := by simpa using hx
        obtain ⟨next, hnext⟩ : ∃ next, next =
            if current.2 = 0 then (done.length, 1) else (current.1, current.2 + 1) := ⟨_, rfl⟩
        have hnew : ZeroRun (done ++ x :: groups) next ∧ next.1 + next.2 = done.length + 1 := by
          rw [hnext]
          by_cases hne : current.2 = 0
          · rw [if_pos hne]
            refine ⟨fun j hj => ?_, rfl⟩
            rw [Nat.lt_one_iff.mp hj]
            exact hx
          · rw [if_neg hne]
            have hend := hend hne
            refine ⟨fun j hj => ?_, by dsimp only; omega⟩
            rcases Nat.lt_succ_iff_lt_or_eq.mp hj with hj | rfl
            · exact hcurrent j hj
            · rw [hend]
              exact hx
        dsimp only
        rw [← hnext, hlength]
        rw [hmove, hlength] at hnew
        rw [hmove] at hbest ⊢
        refine ih hnew.1 (fun _ => hnew.2) ?_
        split
        · exact hnew.1
        · exact hbest

/-- A run of zeros with what stands before and behind it. -/
lemma ZeroRun.split {l : List ℕ} {r : ℕ × ℕ} (h : ZeroRun l r) (hr : r.2 ≠ 0) :
    r.1 + r.2 ≤ l.length ∧ l = l.take r.1 ++ List.replicate r.2 0 ++ l.drop (r.1 + r.2) := by
  have hle : r.1 + r.2 ≤ l.length := by
    have := (List.getElem?_eq_some_iff.mp (h (r.2 - 1) (by omega))).1
    omega
  have hrun : (l.drop r.1).take r.2 = List.replicate r.2 0 := by
    refine List.ext_getElem? fun j => ?_
    rw [List.getElem?_take, List.getElem?_replicate]
    split
    · rename_i hj
      rw [List.getElem?_drop, h j hj]
    · rfl
  refine ⟨hle, ?_⟩
  rw [← hrun, List.append_assoc, ← List.drop_drop, List.take_append_drop, List.take_append_drop]

lemma length_groupsOf : ∀ {address : List UInt8} {n : ℕ}, address.length = 2 * n →
    (groupsOf address).length = n
  | [], n, h => by
      rw [List.length_nil] at h
      simp only [groupsOf, List.length_nil]
      omega
  | [_], n, h => by
      rw [List.length_singleton] at h
      omega
  | a :: b :: address, n, h => by
      simp only [List.length_cons] at h
      rw [groupsOf, List.length_cons, length_groupsOf (show address.length = 2 * (n - 1) by omega)]
      omega

lemma groupsOf_lt : ∀ (address : List UInt8), ∀ x ∈ groupsOf address, x < 65536
  | [] => by simp [groupsOf]
  | [_] => by simp [groupsOf]
  | a :: b :: address => by
      intro x hx
      rw [groupsOf, List.mem_cons] at hx
      rcases hx with rfl | hx
      · have := a.toNat_lt
        have := b.toNat_lt
        omega
      · exact groupsOf_lt address x hx

lemma groupBytes_groupsOf : ∀ {address : List UInt8} {n : ℕ}, address.length = 2 * n →
    groupBytes (groupsOf address) = address
  | [], _, _ => rfl
  | [_], n, h => by
      rw [List.length_singleton] at h
      omega
  | a :: b :: address, n, h => by
      simp only [List.length_cons] at h
      have ih := groupBytes_groupsOf (show address.length = 2 * (n - 1) by omega)
      have hb := b.toNat_lt
      have hdiv : (a.toNat * 256 + b.toNat) / 256 = a.toNat := by omega
      have hmod : (a.toNat * 256 + b.toNat) % 256 = b.toNat := by omega
      rw [groupBytes] at ih ⊢
      rw [groupsOf, List.flatMap_cons, ih, hdiv, hmod]
      simp

/-! ## The two forms of an IPv6 address -/

/-- Groups with colons between them. -/
def joinGroups (groups : List ℕ) : Text := [58].intercalate (groups.map hex)

lemma print_groups (groups : List ℕ) :
    (groups.flatMap fun x => hex x ++ [58]) = terminated 58 (groups.map hex) := by
  simp [terminated, List.flatMap_map]

lemma joinGroups_append_colon {groups : List ℕ} (h : groups ≠ []) :
    joinGroups groups ++ [58] = terminated 58 (groups.map hex) :=
  intercalate_append_sep (by simpa using h)

/-- The colons that `net2str` writes for a run of zeros, with the groups around them. -/
lemma print_elided (before behind : List ℕ) :
    (terminated 58 (before.map hex) ++
      List.replicate (1 + (if before = [] then 1 else 0) + (if behind = [] then 1 else 0)) 58 ++
        terminated 58 (behind.map hex)).dropLast =
      joinGroups before ++ 58 :: 58 :: joinGroups behind := by
  have hfront : terminated 58 (before.map hex) ++
      List.replicate (1 + if before = [] then 1 else 0) 58 = joinGroups before ++ [58, 58] := by
    by_cases hb : before = []
    · simp [hb, terminated, joinGroups]
    · rw [if_neg hb, ← joinGroups_append_colon hb]
      simp
  have hback : (List.replicate (if behind = [] then 1 else 0) 58 ++
      terminated 58 (behind.map hex)) = joinGroups behind ++ [58] := by
    by_cases ha : behind = []
    · simp [ha, terminated, joinGroups]
    · rw [if_neg ha, ← joinGroups_append_colon ha]
      simp
  rw [List.replicate_add, ← List.append_assoc, List.append_assoc _ (List.replicate _ _), hfront,
    hback, ← List.append_assoc, List.dropLast_concat]
  simp

/-- **The two forms of an address**: all its groups, or those around a run of zeros. -/
lemma printIpv6_cases {address : List UInt8} (h : address.length = 16) :
    printIpv6 address = joinGroups (groupsOf address) ∨
    ∃ before len behind, 2 ≤ len ∧
      groupsOf address = before ++ List.replicate len 0 ++ behind ∧
      printIpv6 address = joinGroups before ++ 58 :: 58 :: joinGroups behind := by
  have hlength := length_groupsOf (show address.length = 2 * 8 from h)
  obtain ⟨r, hr⟩ : ∃ r, r = longestZeros 0 (groupsOf address) (0, 0) (0, 0) := ⟨_, rfl⟩
  have hrun : ZeroRun (groupsOf address) r := by
    have hzero : ZeroRun ([] ++ groupsOf address) (0, 0) :=
      fun j hj => absurd hj (Nat.not_lt_zero j)
    rw [hr]
    exact zeroRun_longestZeros hzero (fun h => absurd rfl h) hzero
  simp only [printIpv6, ← hr, print_groups]
  by_cases hlen : r.2 ≤ 1
  · left
    rw [if_pos hlen, joinGroups, intercalate_eq_dropLast]
  · right
    obtain ⟨hle, hsplit⟩ := hrun.split (by omega)
    refine ⟨_, r.2, _, by omega, hsplit, ?_⟩
    have hbefore : (groupsOf address).take r.1 = [] ↔ r.1 = 0 := by
      rw [List.take_eq_nil_iff, ← List.length_eq_zero_iff (l := groupsOf address)]
      omega
    have hbehind : (groupsOf address).drop (r.1 + r.2) = [] ↔ r.1 + r.2 = 8 := by
      rw [List.drop_eq_nil_iff]
      omega
    rw [if_neg hlen, ← print_elided]
    simp only [hbefore, hbehind]

/-! ## The double colon -/

lemma digits_hex (n : ℕ) : ∀ c ∈ hex n, (hexValue c).isSome :=
  digitByte_isSome (toBase_lt (by decide) (lt_pow_succ_self (by decide) n))

lemma hex_ne_nil (n : ℕ) : hex n ≠ [] := by
  simp [hex, toBase_ne_nil]

lemma notMem_hex (n : ℕ) {c : UInt8} (h : hexValue c = none) : c ∉ hex n := by
  intro hc
  have := digits_hex n c hc
  rw [h] at this
  exact absurd this (by simp)

lemma notMem_joinGroups (groups : List ℕ) {c : UInt8} (h : hexValue c = none) (hne : c ≠ 58) :
    c ∉ joinGroups groups := by
  refine notMem_intercalate (fun w hw => ?_) h hne
  obtain ⟨x, -, rfl⟩ := List.mem_map.mp hw
  exact digits_hex x

/-- The groups begin with a digit. -/
lemma head?_joinGroups_ne (groups : List ℕ) : (joinGroups groups).head? ≠ some 58 := by
  cases groups with
  | nil => simp [joinGroups]
  | cons x groups =>
      obtain ⟨c, w, hw⟩ := List.exists_cons_of_ne_nil (hex_ne_nil x)
      have hc : c ≠ 58 := by
        rintro rfl
        exact notMem_hex x (show hexValue 58 = none by decide) (by simp [hw])
      cases groups with
      | nil => simp [joinGroups, hw, hc]
      | cons y groups => simp [joinGroups, List.intercalate_cons_cons, hw, hc]

lemma joinGroups_cons_cons (x y : ℕ) (groups : List ℕ) :
    joinGroups (x :: y :: groups) = hex x ++ 58 :: joinGroups (y :: groups) := by
  simp [joinGroups, List.intercalate_cons_cons]

lemma joinGroups_ne_nil {groups : List ℕ} (h : groups ≠ []) : joinGroups groups ≠ [] := by
  cases groups with
  | nil => exact absurd rfl h
  | cons x groups =>
      cases groups with
      | nil => simp [joinGroups, hex_ne_nil]
      | cons y groups => simp [joinGroups_cons_cons]

lemma countGroups_colon (t : Text) : countGroups (58 :: t) = countGroups t := by
  simp [countGroups]

lemma countGroups_word {w : Text} (hw : w ≠ []) (hcolon : 58 ∉ w) {t : Text}
    (ht : t = [] ∨ t.head? = some 58) : countGroups (w ++ t) = 1 + countGroups t := by
  induction w with
  | nil => exact absurd rfl hw
  | cons c w ih =>
      rw [List.mem_cons, not_or] at hcolon
      cases w with
      | nil => simp [countGroups, Ne.symm hcolon.1, ht]
      | cons c' w =>
          have hc' : c' ≠ 58 := fun h => hcolon.2 (by simp [h])
          have hnext : ¬ (c ≠ 58 ∧ (c' :: w ++ t = [] ∨ (c' :: w ++ t).head? = some 58)) := by
            simp [hc']
          rw [List.cons_append, countGroups, if_neg hnext, ih (by simp) hcolon.2]
          omega

lemma countGroups_joinGroups (groups : List ℕ) {t : Text} (ht : t = [] ∨ t.head? = some 58) :
    countGroups (joinGroups groups ++ t) = groups.length + countGroups t := by
  have hcolon : ∀ x, 58 ∉ hex x := fun x => notMem_hex x (by decide)
  induction groups with
  | nil => simp [joinGroups]
  | cons x groups ih =>
      cases groups with
      | nil =>
          have hone := countGroups_word (hex_ne_nil x) (hcolon x) ht
          simpa [joinGroups] using hone
      | cons y groups =>
          rw [joinGroups_cons_cons, List.append_assoc,
            countGroups_word (hex_ne_nil x) (hcolon x) (.inr rfl), List.cons_append,
            countGroups_colon, ih, List.length_cons (a := x)]
          omega

lemma splitDoubleColon_cons {c : UInt8} {t : Text} (h : c ≠ 58 ∨ t.head? ≠ some 58) :
    splitDoubleColon (c :: t) = (splitDoubleColon t).map fun (a, b) => (c :: a, b) := by
  cases t with
  | nil => rfl
  | cons c' t =>
      rw [splitDoubleColon, if_neg]
      rintro ⟨rfl, rfl⟩
      simp at h

lemma splitDoubleColon_word {w : Text} (hcolon : 58 ∉ w) (t : Text) :
    splitDoubleColon (w ++ t) = (splitDoubleColon t).map fun (a, b) => (w ++ a, b) := by
  induction w with
  | nil => simp
  | cons c w ih =>
      rw [List.mem_cons, not_or] at hcolon
      rw [List.cons_append, splitDoubleColon_cons (.inl (Ne.symm hcolon.1)), ih hcolon.2,
        Option.map_map]
      rfl

/-- No double colon stands in the groups. -/
lemma splitDoubleColon_joinGroups (groups : List ℕ) (t : Text) :
    splitDoubleColon (joinGroups groups ++ t) =
      (splitDoubleColon t).map fun (a, b) => (joinGroups groups ++ a, b) := by
  have hcolon : ∀ x, 58 ∉ hex x := fun x => notMem_hex x (by decide)
  induction groups with
  | nil => simp [joinGroups]
  | cons x groups ih =>
      cases groups with
      | nil => simpa [joinGroups] using splitDoubleColon_word (hcolon x) t
      | cons y groups =>
          have hhead : (joinGroups (y :: groups) ++ t).head? ≠ some 58 := by
            rw [List.head?_append_of_ne_nil _ (joinGroups_ne_nil (by simp))]
            exact head?_joinGroups_ne _
          rw [joinGroups_cons_cons, List.append_assoc, splitDoubleColon_word (hcolon x),
            List.cons_append, splitDoubleColon_cons (.inr hhead), ih, Option.map_map,
            Option.map_map]
          refine congrArg (fun f => Option.map f _) (funext fun p => ?_)
          simp

/-- Text without a dot ends in no dotted quad. -/
lemma expandQuad_notMem {str : Text} (h : 46 ∉ str) : expandQuad str = some str := by
  rw [expandQuad]
  cases hsplit : splitLastColon str with
  | none => rfl
  | some r =>
      have hsuffix : 46 ∉ r.2.tail := by
        rw [splitLastColon] at hsplit
        split at hsplit
        · cases hsplit
        · obtain rfl := Option.some.inj hsplit
          exact fun hmem => h (List.mem_of_mem_drop (List.mem_of_mem_tail hmem))
      have hquad : scanFields shortDec 46 4 r.2.tail = none := scanFields_notMem hsuffix 2
      simp only [hquad]

lemma expandZeros_joinGroups (groups : List ℕ) :
    expandZeros (joinGroups groups) = some (joinGroups groups) := by
  have hsplit := splitDoubleColon_joinGroups groups []
  rw [List.append_nil] at hsplit
  rw [expandZeros, hsplit]
  rfl

lemma joinGroups_append (before : List ℕ) {behind : List ℕ} (h : behind ≠ []) :
    joinGroups (before ++ behind) = terminated 58 (before.map hex) ++ joinGroups behind := by
  have hcolon := joinGroups_append_colon (show before ++ behind ≠ [] by simp [h])
  rw [List.map_append, terminated_append, ← joinGroups_append_colon h,
    ← List.append_assoc] at hcolon
  exact (List.append_cancel_right hcolon)

/-- The leading colon goes if no group stands before it. -/
lemma expanded_front (before : List ℕ) (zeros : Text) :
    (let str := joinGroups before ++ 58 :: zeros
      if str.head? = some 58 then str.tail else str) =
        terminated 58 (before.map hex) ++ zeros := by
  dsimp only
  by_cases hb : before = []
  · simp [hb, joinGroups, terminated]
  · have hhead : (joinGroups before ++ 58 :: zeros).head? ≠ some 58 := by
      rw [List.head?_append_of_ne_nil _ (joinGroups_ne_nil hb)]
      exact head?_joinGroups_ne _
    rw [if_neg hhead, ← joinGroups_append_colon hb]
    simp

lemma getLast?_joinGroups_ne {groups : List ℕ} (h : groups ≠ []) :
    (joinGroups groups).getLast? ≠ some 58 := by
  obtain ⟨front, x, rfl⟩ : ∃ front x, groups = front ++ [x] :=
    ⟨_, _, (List.dropLast_append_getLast h).symm⟩
  have hx : joinGroups [x] = hex x := by simp [joinGroups]
  rw [joinGroups_append _ (by simp), hx, List.getLast?_append_of_ne_nil _ (hex_ne_nil x)]
  exact fun hlast => notMem_hex x (show hexValue 58 = none by decide)
    (List.mem_of_getLast? hlast)

/-- The trailing colon goes if no group stands behind it. -/
lemma expanded_back (behind : List ℕ) {front : List ℕ} (hfront : front ≠ []) :
    (let str := terminated 58 (front.map hex) ++ joinGroups behind
      if str.getLast? = some 58 then str.dropLast else str) = joinGroups (front ++ behind) := by
  dsimp only
  by_cases ha : behind = []
  · have hlast : (terminated 58 (front.map hex)).getLast? = some 58 := by
      rw [← joinGroups_append_colon hfront]
      simp
    rw [ha, show joinGroups [] = [] from rfl, List.append_nil, if_pos hlast, List.append_nil,
      joinGroups, intercalate_eq_dropLast]
  · rw [← joinGroups_append _ ha, if_neg]
    have := getLast?_joinGroups_ne (show front ++ behind ≠ [] by simp [ha])
    exact this

/-- **The double colon becomes the zero groups it stands for.** -/
lemma expandZeros_elided {before behind : List ℕ} {len : ℕ} (hlen : 1 ≤ len)
    (h : before.length + len + behind.length = 8) :
    expandZeros (joinGroups before ++ 58 :: 58 :: joinGroups behind) =
      some (joinGroups (before ++ List.replicate len 0 ++ behind)) := by
  have hsplit := splitDoubleColon_joinGroups before (58 :: 58 :: joinGroups behind)
  have hcount : countGroups (joinGroups before ++ 58 :: 58 :: joinGroups behind) = 8 - len := by
    have hbehind := countGroups_joinGroups behind (.inl rfl)
    rw [List.append_nil] at hbehind
    rw [countGroups_joinGroups before (.inr rfl), countGroups_colon, countGroups_colon, hbehind]
    simp only [countGroups]
    omega
  have hzeros : (List.replicate len [48, 58]).flatten =
      terminated 58 ((List.replicate len 0).map hex) := by
    simp [terminated, List.flatMap, hex, toBase, digitByte]
  have hfront := expanded_front before
    (terminated 58 ((List.replicate len 0).map hex) ++ joinGroups behind)
  have hback := expanded_back behind
    (show before ++ List.replicate len 0 ≠ [] from
      List.append_ne_nil_of_right_ne_nil _ (by rw [Ne, List.replicate_eq_nil_iff]; omega))
  rw [List.map_append, terminated_append] at hback
  dsimp only at hfront hback
  rw [expandZeros, hsplit]
  simp only [splitDoubleColon, and_self, if_true, Option.map_some, List.append_nil, hcount]
  rw [if_neg (by omega), show 8 - (8 - len) = len by omega, hzeros]
  simp only [List.append_assoc, List.cons_append] at hfront hback ⊢
  rw [hfront, hback]

/-! ## Reading an IPv6 address -/

lemma words_hex {groups : List ℕ} (h : ∀ x ∈ groups, x < 65536) :
    List.Forall₂ (Reads shortHex) groups (groups.map hex) := by
  have := forall₂_words fun x hx => word_hex (h x hx)
  rwa [List.map_id'] at this

/-- Eight groups are more than a MAC address has. -/
lemma scanMac_joinGroups {groups : List ℕ} (h : ∀ x ∈ groups, x < 65536)
    (hlength : groups.length = 8) : scanFields shortHex 58 6 (joinGroups groups) = none := by
  have hne : groups.drop 6 ≠ [] := by
    rw [Ne, List.drop_eq_nil_iff]
    omega
  have hsix : (groups.take 6).length = 6 := by
    rw [List.length_take]
    omega
  have htake : groups.take 6 ≠ [] := fun h6 => by simp [h6] at hsix
  have htext : joinGroups groups =
      [58].intercalate ((groups.take 6).map hex) ++ 58 :: joinGroups (groups.drop 6) := by
    have hsplit := joinGroups_append (groups.take 6) hne
    rw [List.take_append_drop, ← joinGroups_append_colon htake] at hsplit
    simpa [joinGroups] using hsplit
  have hmore := scanFields_more stops_colon (words_hex fun x hx => h x (List.mem_of_mem_take hx))
    (mt List.map_eq_nil_iff.mp htake) (joinGroups (groups.drop 6))
  rw [List.length_map, hsix] at hmore
  rw [htext, hmore]

/-- The groups before a double colon are too few for a MAC address, or more follows. -/
lemma scanMac_elided {before : List ℕ} (h : ∀ x ∈ before, x < 65536) (hlength : before.length ≤ 6)
    (behind : Text) :
    scanFields shortHex 58 6 (joinGroups before ++ 58 :: 58 :: behind) = none := by
  have hcolon : ∀ rest, Conversion.scan (58 :: rest) shortHex = none := by
    intro rest
    simp [shortHex, Conversion.scan, scanUnsigned, skipSpace, isSpace, limit, scanNumber, hexValue,
      isDigit]
  by_cases hsix : before.length = 6
  · have hmore := scanFields_more stops_colon (words_hex h)
      (mt List.map_eq_nil_iff.mp fun h6 => by simp [h6] at hsix) (58 :: behind)
    rw [List.length_map, hsix] at hmore
    exact hmore
  · obtain ⟨rest, hrest⟩ : ∃ rest, joinGroups before ++ 58 :: 58 :: behind =
        terminated 58 (before.map hex) ++ 58 :: rest := by
      by_cases hb : before = []
      · exact ⟨58 :: behind, by simp [hb, joinGroups, terminated]⟩
      · exact ⟨behind, by rw [← joinGroups_append_colon hb]; simp⟩
    have hless := scanFields_less stops_colon (words_hex h) (5 - before.length) (hcolon rest)
    rw [List.length_map, show before.length + (5 - before.length + 1) = 6 by omega] at hless
    rw [hrest, hless]

lemma notMem_printIpv6 {address : List UInt8} (h : address.length = 16) {c : UInt8}
    (hc : hexValue c = none) (hne : c ≠ 58) : c ∉ printIpv6 address := by
  rcases printIpv6_cases h with htext | ⟨before, len, behind, -, -, htext⟩
  · rw [htext]
    exact notMem_joinGroups _ hc hne
  · rw [htext]
    simp only [List.mem_append, List.mem_cons, not_or]
    exact ⟨notMem_joinGroups _ hc hne, hne, hne, notMem_joinGroups _ hc hne⟩

lemma scanMac_printIpv6 {address : List UInt8} (h : address.length = 16) :
    scanFields shortHex 58 6 (printIpv6 address) = none := by
  have hlt := groupsOf_lt address
  have hlength := length_groupsOf (show address.length = 2 * 8 from h)
  rcases printIpv6_cases h with htext | ⟨before, len, behind, hlen, hgroups, htext⟩
  · rw [htext]
    exact scanMac_joinGroups hlt hlength
  · rw [hgroups] at hlt hlength
    simp only [List.length_append, List.length_replicate] at hlength
    rw [htext]
    exact scanMac_elided (fun x hx => hlt x (by simp [hx])) (by omega) _

lemma expandZeros_printIpv6 {address : List UInt8} (h : address.length = 16) :
    expandZeros (printIpv6 address) = some (joinGroups (groupsOf address)) := by
  have hlength := length_groupsOf (show address.length = 2 * 8 from h)
  rcases printIpv6_cases h with htext | ⟨before, len, behind, hlen, hgroups, htext⟩
  · rw [htext, expandZeros_joinGroups]
  · rw [hgroups] at hlength ⊢
    simp only [List.length_append, List.length_replicate] at hlength
    rw [htext, expandZeros_elided (by omega) hlength]

lemma str2address_ipv6 {address : List UInt8} (h : address.length = 16) {len : Option ℕ}
    (hlen : len.getD 128 ≤ 128) :
    str2address (printIpv6 address) len = some (.ipv6 address (len.getD 128)) := by
  have hlength := length_groupsOf (show address.length = 2 * 8 from h)
  have hdot : 46 ∉ printIpv6 address := notMem_printIpv6 h (by decide) (by decide)
  have hipv4 : scanFields shortDec 46 4 (printIpv6 address) = none := scanFields_notMem hdot 2
  have hread := scanFields_words stops_colon (words_hex (groupsOf_lt address)) (by
    rw [Ne, List.map_eq_nil_iff, ← List.length_eq_zero_iff]
    omega)
  rw [List.length_map, hlength, ← joinGroups] at hread
  simp only [str2address, scanMac_printIpv6 h, hipv4, expandQuad_notMem hdot,
    expandZeros_printIpv6 h, hread, Option.bind_eq_bind, Option.bind_some,
    groupBytes_groupsOf (show address.length = 2 * 8 from h)]
  rw [if_neg (by omega)]

/-! ## The round trip -/

/-- A prefix length behind the address, which stands there unless it is the greatest. -/
lemma cutInt_prefixlength {t : Text} (h : 47 ∉ t) {len bits : ℕ} (hlen : len ≤ bits)
    (hbits : bits ≤ 128) :
    (cutInt 47 (t ++ if len = bits then [] else 47 :: decimal len)) =
      some (t, if len = bits then none else some (len : ℤ)) := by
  have hint : IsInt len := by
    unfold IsInt
    omega
  simpa using cutInt_suffix h hint bits

lemma getD_prefixlength (len bits : ℕ) :
    ((if len = bits then none else some (len : ℤ)).map Int.toNat).getD bits = len := by
  split
  · rename_i h
    exact h.symm
  · simp

lemma not_neg_prefixlength (len bits : ℕ) :
    ¬ (if len = bits then none else some (len : ℤ)).any (· < 0) = true := by
  split
  · simp
  · simp

/-- The address and the prefix length that `net2str` wrote. -/
lemma cut_print {net : Net} (h : net.Sized) : ∃ str len,
    cutInt 47 net.print = some (str, len) ∧ ¬ len.any (· < 0) = true ∧
      str2address str (len.map Int.toNat) = some net := by
  cases net with
  | mac address =>
      have hslash : 47 ∉ Net.print (.mac address) :=
        notMem_intercalate (digits_of_words fun b _ => word_macByte b) (by decide) (by decide)
      exact ⟨_, none, cutInt_none hslash, by simp, str2address_mac h⟩
  | ipv4 address len =>
      have hslash : 47 ∉ printIpv4 address :=
        notMem_intercalate (digits_ipv4 address) (by decide) (by decide)
      have haddress := str2address_ipv4 h.1 ((getD_prefixlength len 32).trans_le h.2)
      rw [getD_prefixlength] at haddress
      exact ⟨_, _, cutInt_prefixlength hslash h.2 (by decide), not_neg_prefixlength len 32,
        haddress⟩
  | ipv6 address len =>
      have hslash : 47 ∉ printIpv6 address := notMem_printIpv6 h.1 (by decide) (by decide)
      have haddress := str2address_ipv6 h.1 ((getD_prefixlength len 128).trans_le h.2)
      rw [getD_prefixlength] at haddress
      exact ⟨_, _, cutInt_prefixlength hslash h.2 (by decide), not_neg_prefixlength len 128,
        haddress⟩

/-- Between the digits of an address and its prefix length are dots, colons and a slash. -/
lemma notMem_print {net : Net} (h : net.Sized) {c : UInt8} (hc : hexValue c = none)
    (hdot : c ≠ 46) (hslash : c ≠ 47) (hcolon : c ≠ 58) : c ∉ net.print := by
  have hsuffix : ∀ len bits : ℕ, c ∉ if len = bits then [] else 47 :: decimal len := by
    intro len bits
    split
    · simp
    · rw [List.mem_cons, not_or]
      refine ⟨hslash, fun hmem => ?_⟩
      have hdigit := decimal_digits len c hmem
      simp [hexValue, hdigit] at hc
  cases net with
  | mac address =>
      exact notMem_intercalate (digits_of_words fun b _ => word_macByte b) hc hcolon
  | ipv4 address len =>
      rw [Net.print, List.mem_append, not_or]
      exact ⟨notMem_intercalate (digits_ipv4 address) hc hdot, hsuffix len 32⟩
  | ipv6 address len =>
      rw [Net.print, List.mem_append, not_or]
      exact ⟨notMem_printIpv6 h.1 hc hcolon, hsuffix len 128⟩

/-- **What `net2str` wrote, `str2net` reads.** -/
lemma str2net_net2str {s : Subnet} (h : s.net.Sized) (hweight : IsInt s.weight)
    (hlength : (net2str s).length ≤ 1023) :
    str2net (net2str s) = some { s with owner := none, expires := 0 } := by
  obtain ⟨str, len, hcut, hneg, haddress⟩ := cut_print h
  have hhash : 35 ∉ s.net.print :=
    notMem_print h (by decide) (by decide) (by decide) (by decide)
  have hweightcut := cutInt_suffix hhash hweight defaultWeight
  have hgetD : (if s.weight = defaultWeight then none else some s.weight).getD defaultWeight =
      s.weight := by
    split
    · rename_i hw
      exact hw.symm
    · rfl
  rw [str2net, List.take_of_length_le hlength, net2str, hweightcut]
  simp only [Option.bind_eq_bind, Option.bind_some, hcut]
  rw [if_neg hneg, haddress]
  simp only [Option.bind_some, hgetD]

/-! ## The length of the text -/

lemma length_decimal_int_le {n : ℤ} (h : IsInt n) : (decimal n).length ≤ 11 := by
  have habs : n.natAbs < 10 ^ (9 + 1) := by
    unfold IsInt at h
    omega
  have hdigits : (toBase 10 n.natAbs n.natAbs).length ≤ 10 := length_toBase_le (by decide) habs
  rw [decimal]
  split
  · rw [List.length_cons, List.length_map]
    omega
  · rw [List.length_map]
    omega

end Tinc
