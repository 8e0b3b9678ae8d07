import TincQuic.Daemon.LongestPrefix
import TincQuic.Lib.CBuffer

/-!
# Prefix masks

Four routines work on the first bits of an address: `maskcmp` compares them, `mask` clears the
others, `maskcpy` copies with the others cleared, and `maskcheck` asks whether the others are clear
already.  Each walks over whole bytes and treats the byte that the prefix ends in by itself.  Here
every access is checked, so a result says that all positions were inside.

* `masked` is the address with only the first bits, defined along the list and without positions.
  `addressBit_masked` are its bits.
* The loops are described where they stand: in front of them is what they have done, behind them
  the rest (`clearFrom_spec`, `maskcpyFrom_spec`, `maskcmpFrom_spec`, `isClearFrom_spec`).
* **The four agree, at every length**: `masks_coherent`.
-/

namespace Tinc

open CBuffer

/-- The `m` most significant bits of a byte: `0x100 - (1 << (8 - m))`. -/
def highBits (m : ℕ) : UInt8 := UInt8.ofNat (0x100 - 1 <<< (8 - m))

/-- The loop of `maskcmp` from the position `i` on. -/
def maskcmpFrom (va vb : List UInt8) (i m : ℕ) : Option ℤ :=
  if 8 ≤ m then do
    let a ← va[i]?
    let b ← vb[i]?
    let result := charValue a - charValue b
    if result ≠ 0 then some result else maskcmpFrom va vb (i + 1) (m - 8)
  else if m ≠ 0 then do
    let a ← va[i]?
    let b ← vb[i]?
    some (((a &&& highBits m).toNat : ℤ) - (b &&& highBits m).toNat)
  else some 0
termination_by m

/-- The loop that writes zeros up to `len`. -/
def clearFrom (len : ℕ) (va : List UInt8) (i : ℕ) : Option (List UInt8) :=
  if i < len then do
    let va ← store va i [0]
    clearFrom len va (i + 1)
  else some va
termination_by len - i

/-- `mask` -/
def mask (va : List UInt8) (masklen len : ℕ) : Option (List UInt8) :=
  let i := masklen / 8
  let masklen := masklen % 8
  if masklen ≠ 0 then do
    let a ← va[i]?
    let va ← store va i [a &&& highBits masklen]
    clearFrom len va (i + 1)
  else clearFrom len va i

/-- The loop of `maskcpy` from the position `i` on, and what comes after it. -/
def maskcpyFrom (vb : List UInt8) (len : ℕ) (va : List UInt8) (i m : ℕ) : Option (List UInt8) :=
  if 8 ≤ m then do
    let b ← vb[i]?
    let va ← store va i [b]
    maskcpyFrom vb len va (i + 1) (m - 8)
  else if m ≠ 0 then do
    let b ← vb[i]?
    let va ← store va i [b &&& highBits m]
    clearFrom len va (i + 1)
  else clearFrom len va i
termination_by m

/-- `maskcpy` -/
def maskcpy (va vb : List UInt8) (masklen len : ℕ) : Option (List UInt8) :=
  maskcpyFrom vb len va 0 masklen

/-- The loop that looks for a byte that is not zero. -/
def isClearFrom (len : ℕ) (va : List UInt8) (i : ℕ) : Option Bool :=
  if i < len then do
    let a ← va[i]?
    if a ≠ 0 then some false else isClearFrom len va (i + 1)
  else some true
termination_by len - i

/-- `maskcheck` -/
def maskcheck (va : List UInt8) (masklen len : ℕ) : Option Bool :=
  let i := masklen / 8
  let masklen := masklen % 8
  if masklen ≠ 0 then do
    let a ← va[i]?
    if a &&& UInt8.ofNat (0xff >>> masklen) ≠ 0 then some false else isClearFrom len va (i + 1)
  else isClearFrom len va i

/-! ## An address with only its first bits -/

/-- The first `n` bits of an address; the others are zero. -/
def masked : List UInt8 → ℕ → List UInt8
  | [], _ => []
  | a :: address, n =>
      if 8 ≤ n then a :: masked address (n - 8) else (a &&& highBits n) :: masked address 0

variable {va vb front frontb address : List UInt8} {i m n : ℕ}

@[simp]
lemma length_masked (address : List UInt8) (n : ℕ) :
    (masked address n).length = address.length := by
  induction address generalizing n with
  | nil => rfl
  | cons a address ih =>
      rw [masked]
      split <;> simp [ih]

lemma and_highBits_zero (a : UInt8) : a &&& highBits 0 = 0 := by
  rw [show highBits 0 = 0 from rfl, UInt8.and_zero]

/-- Without bits nothing is left. -/
lemma masked_zero (address : List UInt8) : masked address 0 = List.replicate address.length 0 := by
  induction address with
  | nil => rfl
  | cons a address ih =>
      rw [masked, if_neg (by omega), and_highBits_zero, ih]
      rfl

lemma masked_zero_cons (a : UInt8) (address : List UInt8) :
    masked (a :: address) 0 = 0 :: masked address 0 := by
  rw [masked, if_neg (by omega), and_highBits_zero]

/-- Whole bytes are kept. -/
lemma masked_append (front address : List UInt8) (m : ℕ) :
    masked (front ++ address) (8 * front.length + m) = front ++ masked address m := by
  induction front with
  | nil => simp
  | cons a front ih =>
      rw [List.cons_append, masked, if_pos (by simp; omega), List.length_cons,
        show 8 * (front.length + 1) + m - 8 = 8 * front.length + m by omega, ih]
      rfl

/-- **The bits of a masked address.** -/
lemma addressBit_masked (address : List UInt8) (n i : ℕ) :
    addressBit (masked address n) i = (addressBit address i && decide (i < n)) := by
  induction address generalizing n i with
  | nil => simp [masked, addressBit]
  | cons a address ih =>
      rw [masked]
      by_cases h8 : i < 8
      · split
        · rename_i hn
          rw [addressBit_zero a _ h8, addressBit_zero a _ h8, decide_eq_true (by omega),
            Bool.and_true]
        · rename_i hn
          rw [addressBit_zero _ _ h8, addressBit_zero a _ h8, UInt8.toNat_and, Nat.testBit_and,
            highBits, testBit_mask (by omega) (by omega)]
          congr 1
          simp only [decide_eq_decide]
          omega
      · obtain ⟨j, rfl⟩ : ∃ j, i = 8 + j := ⟨i - 8, by omega⟩
        split
        · rw [addressBit_succ, addressBit_succ, ih]
          congr 1
          simp only [decide_eq_decide]
          omega
        · rw [addressBit_succ, addressBit_succ, ih, decide_eq_false (by omega),
            decide_eq_false (by omega)]

/-! ## The loops -/

/-- The byte behind the front. -/
lemma getElem?_behind (front : List UInt8) (a : UInt8) (address : List UInt8) :
    (front ++ a :: address)[front.length]? = some a := by
  rw [List.getElem?_append_right le_rfl, Nat.sub_self]
  rfl

lemma store_behind_front (front : List UInt8) (a b : UInt8) (address : List UInt8) :
    store (front ++ a :: address) front.length [b] = some ((front ++ [b]) ++ address) := by
  have h := @store_append front [a] address [b] rfl
  rwa [List.append_assoc, List.singleton_append] at h

/-- The rest is cleared. -/
lemma clearFrom_spec (front address : List UInt8) :
    clearFrom (front.length + address.length) (front ++ address) front.length =
      some (front ++ masked address 0) := by
  induction address generalizing front with
  | nil =>
      rw [clearFrom, if_neg (by simp)]
      rfl
  | cons a address ih =>
      have ih := ih (front ++ [0])
      rw [List.length_append, List.length_singleton] at ih
      rw [clearFrom, if_pos (by simp), store_behind_front, masked_zero_cons, List.length_cons,
        show front.length + (address.length + 1) = front.length + 1 + address.length by omega]
      refine ih.trans ?_
      simp

/-- The first `m` bits of the rest are copied. -/
lemma maskcpyFrom_spec (hfront : frontb.length = front.length) (hrest : vb.length = va.length)
    (hm : m ≤ 8 * va.length) :
    maskcpyFrom (frontb ++ vb) (front.length + va.length) (front ++ va) front.length m =
      some (front ++ masked vb m) := by
  induction vb generalizing va front frontb m with
  | nil =>
      rw [List.length_nil] at hrest
      rw [List.length_eq_zero_iff.mp hrest.symm, maskcpyFrom, if_neg (by omega), if_neg (by omega)]
      exact clearFrom_spec front []
  | cons b vb ih =>
      obtain ⟨a, va, rfl⟩ := List.exists_cons_of_length_eq_add_one hrest.symm
      simp only [List.length_cons, Nat.add_right_cancel_iff] at hrest hm
      have hread : (frontb ++ b :: vb)[front.length]? = some b := by
        rw [← hfront]
        exact getElem?_behind frontb b vb
      have hlen : front.length + (a :: va).length = (front ++ [b]).length + va.length := by
        simp
        omega
      rw [maskcpyFrom, hread]
      by_cases h8 : 8 ≤ m
      · have ih := ih (show (frontb ++ [b]).length = (front ++ [b]).length by simp [hfront]) hrest
          (show m - 8 ≤ 8 * va.length by omega)
        rw [if_pos h8, masked, if_pos h8, hlen]
        simp only [Option.bind_eq_bind, Option.bind_some, store_behind_front]
        simpa using ih
      · rw [if_neg h8, masked, if_neg h8]
        by_cases h0 : m = 0
        · subst h0
          rw [if_neg (by omega)]
          have hclear := clearFrom_spec front (a :: va)
          rw [masked_zero_cons] at hclear
          rw [and_highBits_zero, hclear, masked_zero, masked_zero, hrest]
        · have hclear := clearFrom_spec (front ++ [b &&& highBits m]) va
          rw [if_pos h0, hlen]
          simp only [Option.bind_eq_bind, Option.bind_some, store_behind_front]
          rw [masked_zero, hrest, ← masked_zero]
          simpa using hclear

/-- The rest is looked through for a bit. -/
lemma isClearFrom_spec (front address : List UInt8) :
    isClearFrom (front.length + address.length) (front ++ address) front.length =
      some (decide (masked address 0 = address)) := by
  induction address generalizing front with
  | nil =>
      rw [isClearFrom, if_neg (by simp)]
      rfl
  | cons a address ih =>
      have ih := ih (front ++ [a])
      rw [List.length_append, List.length_singleton, List.append_assoc, List.singleton_append] at ih
      rw [isClearFrom, if_pos (by simp), getElem?_behind, masked_zero_cons, List.length_cons,
        show front.length + (address.length + 1) = front.length + 1 + address.length by omega]
      simp only [Option.bind_eq_bind, Option.bind_some]
      by_cases ha : a = 0
      · rw [if_neg (by simp [ha]), ih]
        simp [ha]
      · rw [if_pos ha]
        simp [Ne.symm ha]

/-- **The checked loop of `maskcmp` is `maskcmp` of the rest.** -/
lemma maskcmpFrom_spec (hfront : frontb.length = front.length) (hrest : vb.length = va.length)
    (hm : m ≤ 8 * va.length) :
    maskcmpFrom (front ++ va) (frontb ++ vb) front.length m = some (maskcmp va vb m) := by
  induction va generalizing vb front frontb m with
  | nil =>
      obtain rfl : m = 0 := by simpa using hm
      rw [maskcmpFrom, if_neg (by omega), if_neg (by omega)]
      rfl
  | cons a va ih =>
      obtain ⟨b, vb, rfl⟩ := List.exists_cons_of_length_eq_add_one hrest
      simp only [List.length_cons, Nat.add_right_cancel_iff] at hrest hm
      have hread : (frontb ++ b :: vb)[front.length]? = some b := by
        rw [← hfront]
        exact getElem?_behind frontb b vb
      rw [maskcmpFrom, maskcmp, getElem?_behind, hread]
      simp only [Option.bind_eq_bind, Option.bind_some]
      by_cases h8 : 8 ≤ m
      · have ih := ih (show (frontb ++ [b]).length = (front ++ [a]).length by simp [hfront]) hrest
          (show m - 8 ≤ 8 * va.length by omega)
        rw [if_pos h8, if_pos h8]
        by_cases hab : charValue a - charValue b = 0
        · rw [if_neg (by simp [hab]), if_neg (by simp [hab])]
          simpa using ih
        · rw [if_pos hab, if_pos hab]
      · rw [if_neg h8, if_neg h8]
        by_cases h0 : m = 0
        · rw [if_neg (by simp [h0]), if_pos h0]
        · rw [if_pos h0, if_neg h0]
          rfl

/-! ## The routines -/

/-- The bytes before the one that the prefix ends in, and the rest. -/
lemma exists_prefix (hn : n ≤ 8 * va.length) :
    ∃ front rest, va = front ++ rest ∧ front.length = n / 8 := by
  refine ⟨va.take (n / 8), va.drop (n / 8), (List.take_append_drop _ _).symm, ?_⟩
  rw [List.length_take]
  omega

lemma mask_eq (hn : n ≤ 8 * va.length) : mask va n va.length = some (masked va n) := by
  obtain ⟨front, rest, rfl, hfront⟩ := exists_prefix hn
  have hsplit : n = 8 * front.length + n % 8 := by omega
  rw [mask, ← hfront, List.length_append]
  conv_rhs => rw [hsplit, masked_append]
  by_cases h0 : n % 8 = 0
  · rw [if_neg (by simp [h0]), clearFrom_spec, h0]
  · rw [List.length_append] at hn
    obtain ⟨a, rest, rfl⟩ : ∃ a rest', rest = a :: rest' :=
      List.exists_cons_of_ne_nil fun hnil => by simp [hnil] at hn; omega
    have hclear := clearFrom_spec (front ++ [a &&& highBits (n % 8)]) rest
    rw [List.length_append, List.length_singleton] at hclear
    rw [if_pos h0, getElem?_behind, masked, if_neg (by omega), List.length_cons,
      show front.length + (rest.length + 1) = front.length + 1 + rest.length by omega]
    simp only [Option.bind_eq_bind, Option.bind_some, store_behind_front]
    rw [hclear]
    simp

/-- The bits below the prefix, and those of the prefix. -/
lemma and_lowBits_eq_zero {m : ℕ} (hm : m < 8) (a : UInt8) :
    a &&& UInt8.ofNat (0xff >>> m) = 0 ↔ a &&& highBits m = a := by
  have hlow : ∀ m < 8, ∀ j < 8,
      (UInt8.ofNat (0xff >>> m)).toNat.testBit j = decide (j < 8 - m) := by decide
  rw [byte_eq_iff, byte_eq_iff]
  refine forall₂_congr fun i hi => ?_
  rw [UInt8.toNat_and, UInt8.toNat_and, Nat.testBit_and, Nat.testBit_and,
    hlow m hm (7 - i) (by omega), highBits, testBit_mask hm (by omega)]
  by_cases him : i < m
  · rw [decide_eq_false (by omega), decide_eq_true (by omega)]
    simp
  · rw [decide_eq_true (by omega), decide_eq_false (by omega)]
    cases a.toNat.testBit (7 - i) <;> simp

lemma maskcheck_eq (hn : n ≤ 8 * va.length) :
    maskcheck va n va.length = some (decide (masked va n = va)) := by
  obtain ⟨front, rest, rfl, hfront⟩ := exists_prefix hn
  have hsplit : n = 8 * front.length + n % 8 := by omega
  have hmasked : masked (front ++ rest) n = front ++ masked rest (n % 8) := by
    conv_lhs => rw [hsplit, masked_append]
  rw [maskcheck, ← hfront, List.length_append, hmasked]
  simp only [List.append_cancel_left_eq]
  by_cases h0 : n % 8 = 0
  · rw [if_neg (by simp [h0]), isClearFrom_spec, h0]
  · rw [List.length_append] at hn
    obtain ⟨a, rest, rfl⟩ : ∃ a rest', rest = a :: rest' :=
      List.exists_cons_of_ne_nil fun hnil => by simp [hnil] at hn; omega
    have hclear := isClearFrom_spec (front ++ [a]) rest
    rw [List.length_append, List.length_singleton, List.append_assoc, List.singleton_append]
      at hclear
    rw [if_pos h0, getElem?_behind, masked, if_neg (by omega), List.length_cons,
      show front.length + (rest.length + 1) = front.length + 1 + rest.length by omega]
    simp only [Option.bind_eq_bind, Option.bind_some]
    have hlow := and_lowBits_eq_zero (by omega : n % 8 < 8) a
    by_cases ha : a &&& highBits (n % 8) = a
    · rw [if_neg (by simp [hlow.mpr ha]), hclear, ha]
      simp
    · rw [if_pos (hlow.not.mpr ha)]
      simp [ha]

/-- **The four routines agree on what a prefix is**, at every length and with every access
inside. -/
theorem masks_coherent (a b : List UInt8) (L n : ℕ) (ha : a.length = L) (hb : b.length = L)
    (hn : n ≤ 8 * L) :
    (∃ r, maskcmpFrom a b 0 n = some r ∧
      (r = 0 ↔ ∀ i < n, addressBit a i = addressBit b i)) ∧
    (∃ c, mask a n L = some c ∧ c.length = L ∧ (∀ i < n, addressBit c i = addressBit a i) ∧
      ∀ i, n ≤ i → addressBit c i = false) ∧
    maskcpy a b n L = mask b n L ∧
    ∃ ok, maskcheck a n L = some ok ∧ (ok = true ↔ mask a n L = some a) := by
  subst ha
  refine ⟨⟨maskcmp a b n, ?_, maskcmp_eq_zero_iff hb.symm hn⟩,
    ⟨masked a n, mask_eq hn, length_masked a n, fun i hi => ?_, fun i hi => ?_⟩, ?_,
    ⟨_, maskcheck_eq hn, ?_⟩⟩
  · exact @maskcmpFrom_spec a b [] [] n rfl hb hn
  · rw [addressBit_masked, decide_eq_true hi, Bool.and_true]
  · rw [addressBit_masked, decide_eq_false (by omega), Bool.and_false]
  · have hcopy := @maskcpyFrom_spec a b [] [] n rfl hb hn
    have hmask : mask b n b.length = some (masked b n) := mask_eq (by omega)
    rw [hb] at hmask
    rw [hmask, maskcpy]
    simpa using hcopy
  · rw [mask_eq hn]
    simp

/-- The prefix 10.192.0.0/10, and an address in it. -/
theorem masks_coherent_ten :
    (∃ r, maskcmpFrom [10, 200, 3, 4] [10, 192, 0, 0] 0 10 = some r ∧
      (r = 0 ↔ ∀ i < 10, addressBit [10, 200, 3, 4] i = addressBit [10, 192, 0, 0] i)) ∧
    maskcpy [10, 200, 3, 4] [10, 192, 0, 0] 10 4 = mask [10, 192, 0, 0] 10 4 :=
  have h := masks_coherent [10, 200, 3, 4] [10, 192, 0, 0] 4 10 rfl rfl (by decide)
  ⟨h.1, h.2.2.1⟩

end Tinc
