import Mathlib.Data.Nat.ModEq
import Mathlib.Tactic.Common
import Mathlib.Tactic.Ring
import TincQuic.Lib.Loop

/-!
# One's complement sums of 16-bit words

The checksum of the internet protocols is the complement of a sum of words in which every carry is
added again.  Such sums are numbers modulo 65535, but that there are two zeros.

* `carry` adds the carries once.  **The loop that repeats it ends after three rounds at most**:
  `run_carryBody`, and `fold` is its result.
* `weigh x y` is a sum of bytes with the weights `x` and `y` in turn, so that `weigh 256 1` is the
  sum of the words in network order, and `weigh 1 256` that of a little-endian machine.
* **Both orders agree on what verifies**: `verifies_iff_le`.
* `complement_mod` is why a checksum that was computed verifies, and `weigh_set` is the rule
  for a byte that changes.
-/

namespace Checksum

/-! ## Carries -/

/-- The carries of a sum of 16-bit words are added to it. -/
def carry (n : ℕ) : ℕ := n % 65536 + n / 65536

/-- What three rounds make of a sum. -/
def fold (n : ℕ) : ℕ := carry (carry (carry n))

/-- The body of the loop that adds carries while there are any. -/
def carryBody (n : ℕ) : ℕ ⊕ ℕ := if n / 65536 = 0 then .inl n else .inr (carry n)

lemma carry_of_lt {n : ℕ} (h : n < 65536) : carry n = n := by
  unfold carry
  omega

lemma carry_mod (n : ℕ) : carry n ≡ n [MOD 65535] := by
  unfold carry Nat.ModEq
  omega

lemma carry_eq_zero {n : ℕ} : carry n = 0 ↔ n = 0 := by
  unfold carry
  omega

lemma fold_mod (n : ℕ) : fold n ≡ n [MOD 65535] :=
  ((carry_mod _).trans (carry_mod _)).trans (carry_mod n)

lemma fold_eq_zero {n : ℕ} : fold n = 0 ↔ n = 0 := by simp [fold, carry_eq_zero]

lemma fold_of_lt {n : ℕ} (h : n < 65536) : fold n = n := by simp [fold, carry_of_lt h]

lemma fold_lt {n : ℕ} (h : n < 2 ^ 32) : fold n < 65536 := by
  unfold fold carry
  omega

/-- **The loop ends**, and its result is what three rounds make. -/
lemma run_carryBody {n : ℕ} (h : n < 2 ^ 32) : Loop.run carryBody 4 n = some (fold n) := by
  have hturn : ∀ m k : ℕ, Loop.run carryBody (k + 1) m =
      if m < 65536 then some m else Loop.run carryBody k (carry m) := by
    intro m k
    rw [Loop.run, carryBody]
    by_cases hm : m < 65536
    · rw [if_pos hm, if_pos (by omega)]
    · rw [if_neg hm, if_neg (by omega)]
  have h1 : carry n < 131072 := by
    unfold carry
    omega
  have h2 : carry (carry n) ≤ 65536 := by
    unfold carry at h1 ⊢
    omega
  rw [hturn, hturn, hturn, hturn]
  by_cases hn : n < 65536
  · rw [if_pos hn, fold_of_lt hn]
  · rw [if_neg hn]
    by_cases hc : carry n < 65536
    · rw [if_pos hc, fold, carry_of_lt hc, carry_of_lt hc]
    · rw [if_neg hc]
      by_cases hcc : carry (carry n) < 65536
      · rw [if_pos hcc, fold, carry_of_lt hcc]
      · have hlast : carry (carry (carry n)) < 65536 := fold_lt h
        rw [if_neg hcc, if_pos hlast, fold]

/-- The sum is all ones just when it is a zero but not the first of the two. -/
lemma fold_eq_ones {n : ℕ} (h : n < 2 ^ 32) : fold n = 65535 ↔ n ≠ 0 ∧ n ≡ 0 [MOD 65535] := by
  have hlt := fold_lt h
  have hmod := fold_mod n
  have hzero := fold_eq_zero (n := n)
  unfold Nat.ModEq at hmod ⊢
  omega

/-! ## Sums of bytes -/

/-- A sum of bytes with the weights `x` and `y` in turn. -/
def weigh (x y : ℕ) : List UInt8 → ℕ
  | [] => 0
  | a :: data => a.toNat * x + weigh y x data

@[simp] lemma weigh_nil (x y : ℕ) : weigh x y [] = 0 := rfl

@[simp] lemma weigh_cons (x y : ℕ) (a : UInt8) (data : List UInt8) :
    weigh x y (a :: data) = a.toNat * x + weigh y x data := rfl

/-- The weight of the byte at `i`. -/
def weight (x y i : ℕ) : ℕ := if i % 2 = 0 then x else y

lemma weight_succ (x y i : ℕ) : weight x y (i + 1) = weight y x i := by
  unfold weight
  split <;> split <;> omega

lemma weigh_append (x y : ℕ) (s t : List UInt8) :
    weigh x y (s ++ t) = weigh x y s + weigh (weight x y s.length) (weight y x s.length) t := by
  induction s generalizing x y with
  | nil => simp [weight]
  | cons a s ih => simp [ih, weight_succ, Nat.add_assoc]

/-- Behind an even number of bytes the words are the same. -/
lemma weigh_append_even (x y : ℕ) {s : List UInt8} (h : s.length % 2 = 0) (t : List UInt8) :
    weigh x y (s ++ t) = weigh x y s + weigh x y t := by
  simp [weigh_append, weight, h]

/-- A byte that changes, changes the sum with its weight. -/
lemma weigh_set (x y : ℕ) {t : List UInt8} {i : ℕ} (h : i < t.length) (b : UInt8) :
    weigh x y (t.set i b) + t[i].toNat * weight x y i = weigh x y t + b.toNat * weight x y i := by
  induction t generalizing x y i with
  | nil => simp at h
  | cons a t ih =>
      cases i with
      | zero =>
          simp [weight]
          omega
      | succ i =>
          have hrest := ih y x (by simpa using h)
          simp only [List.set_cons_succ, weigh_cons, List.getElem_cons_succ, weight_succ]
          omega

lemma weigh_eq_zero {x y : ℕ} (hx : 0 < x) (hy : 0 < y) {t : List UInt8} :
    weigh x y t = 0 ↔ ∀ a ∈ t, a = 0 := by
  induction t generalizing x y with
  | nil => simp
  | cons a t ih =>
      have hzero : a.toNat = 0 ↔ a = 0 := UInt8.toNat_inj (b := 0)
      simp [ih hy hx, hx.ne', hzero]

lemma weigh_le {x y : ℕ} (hx : x ≤ 256) (hy : y ≤ 256) (t : List UInt8) :
    weigh x y t ≤ 65280 * t.length := by
  induction t generalizing x y with
  | nil => simp
  | cons a t ih =>
      have hrest := ih hy hx
      have hbyte : a.toNat * x ≤ 255 * 256 :=
        Nat.mul_le_mul (Nat.le_of_lt_succ a.toNat_lt) hx
      simp only [weigh_cons, List.length_cons]
      omega

/-- The words of one order are those of the other, up to a factor. -/
lemma weigh_swap (t : List UInt8) : 256 * weigh 256 1 t ≡ weigh 1 256 t [MOD 65535] ∧
    256 * weigh 1 256 t ≡ weigh 256 1 t [MOD 65535] := by
  induction t with
  | nil => exact ⟨rfl, rfl⟩
  | cons a t ih =>
      obtain ⟨h1, h2⟩ := ih
      simp only [weigh_cons]
      unfold Nat.ModEq at h1 h2 ⊢
      omega

/-! ## Verification -/

/-- The words in network order add up to all ones. -/
def Verifies (t : List UInt8) : Prop := fold (weigh 256 1 t) = 65535

lemma weigh_lt {x y : ℕ} (hx : x ≤ 256) (hy : y ≤ 256) {t : List UInt8} (h : t.length < 65536) :
    weigh x y t < 2 ^ 32 := by
  have := weigh_le hx hy t
  omega

lemma verifies_iff {t : List UInt8} (h : t.length < 65536) :
    Verifies t ↔ (∃ a ∈ t, a ≠ 0) ∧ weigh 256 1 t ≡ 0 [MOD 65535] := by
  have hzero : weigh 256 1 t ≠ 0 ↔ ∃ a ∈ t, a ≠ 0 := by
    rw [Ne, weigh_eq_zero (by decide) (by decide)]
    push Not
    rfl
  rw [Verifies, fold_eq_ones (weigh_lt le_rfl (by decide) h), hzero]

/-- It does not matter in which order the bytes of the words are. -/
lemma verifies_iff_le {t : List UInt8} (h : t.length < 65536) :
    Verifies t ↔ (∃ a ∈ t, a ≠ 0) ∧ weigh 1 256 t ≡ 0 [MOD 65535] := by
  obtain ⟨h1, h2⟩ := weigh_swap t
  rw [verifies_iff h]
  refine and_congr_right fun _ => ?_
  unfold Nat.ModEq at h1 h2 ⊢
  omega

/-- The sum of a text with its checksum, which is the complement of the sum of the rest, or of
another number that stands for it. -/
lemma complement_mod {n m c : ℕ} (h : m < 2 ^ 32) (hmod : m ≡ n [MOD 65535])
    (hzero : m = 0 ↔ n = 0) (hc : c = 65535 - fold m) :
    n + c ≡ 0 [MOD 65535] ∧ n + c ≠ 0 := by
  have hlt := fold_lt h
  have hfold := fold_mod m
  have hfoldZero := fold_eq_zero (n := m)
  unfold Nat.ModEq at hmod hfold ⊢
  omega

end Checksum
