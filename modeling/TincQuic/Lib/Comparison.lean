import TincQuic.Lib.OrdList
import TincQuic.Lib.CText

/-!
# Comparisons as orders

A comparison in the style of `qsort` returns a number whose sign says which of two values comes
first.  A search structure works with it only as long as it is a strict total order on the values
that are in the structure.

* `StrictTotalOn` is that condition, and `StrictTotalOn.of_key` is the usual way to prove it.
* **The difference of two 32-bit numbers, taken modulo `2 ^ 32`, orders a set of them only if
  the set lies in one half of the circle**: `HalfCircle.of_trans`, and conversely
  `toInt32_sub_eq`.
-/

namespace Comparison

open CText

variable {α : Type*} {cmp : α → α → ℤ} {same : α → α → Prop} {s : Set α}

/-- On `s` the comparison is a strict total order, and what compares equal is the `same`. -/
structure StrictTotalOn (cmp : α → α → ℤ) (same : α → α → Prop) (s : Set α) : Prop where
  antisymm : ∀ a ∈ s, ∀ b ∈ s, (cmp a b).sign = -(cmp b a).sign
  trans : ∀ a ∈ s, ∀ b ∈ s, ∀ c ∈ s, cmp a b < 0 → cmp b c < 0 → cmp a c < 0
  eq_of_zero : ∀ a ∈ s, ∀ b ∈ s, cmp a b = 0 → same a b

/-- A comparison of keys is a strict total order if the key says what is the same. -/
lemma StrictTotalOn.of_key {κ : Type*} [LinearOrder κ] {key : α → κ}
    (h : ∀ a ∈ s, ∀ b ∈ s, (cmp a b = 0 ↔ key a = key b) ∧ (cmp a b < 0 ↔ key a < key b))
    (hsame : ∀ a ∈ s, ∀ b ∈ s, key a = key b → same a b) : StrictTotalOn cmp same s where
  antisymm a ha b hb := by
    obtain ⟨h0, hlt⟩ := h a ha b hb
    obtain ⟨h0', hlt'⟩ := h b hb a ha
    rcases lt_trichotomy (key a) (key b) with hab | hab | hab
    · have hpos : 0 < cmp b a := by
        have := hlt'.not.mpr hab.asymm
        have := h0'.not.mpr hab.ne'
        omega
      rw [Int.sign_eq_neg_one_of_neg (hlt.mpr hab), Int.sign_eq_one_of_pos hpos]
    · rw [h0.mpr hab, h0'.mpr hab.symm]
      rfl
    · have hpos : 0 < cmp a b := by
        have := hlt.not.mpr hab.asymm
        have := h0.not.mpr hab.ne'
        omega
      rw [Int.sign_eq_neg_one_of_neg (hlt'.mpr hab), Int.sign_eq_one_of_pos hpos]
      rfl
  trans a ha b hb c hc hab hbc :=
    (h a ha c hc).2.mpr (((h a ha b hb).2.mp hab).trans ((h b hb c hc).2.mp hbc))
  eq_of_zero a ha b hb h0 := hsame a ha b hb ((h a ha b hb).1.mp h0)

/-! ## Differences modulo `2 ^ 32` -/

/-- The values of an `int`. -/
def IsInt (n : ℤ) : Prop := -2 ^ 31 ≤ n ∧ n < 2 ^ 31

lemma isInt_toInt32 (n : ℤ) : IsInt (toInt32 n) := by
  unfold IsInt toInt32
  omega

/-- The numbers lie in one half of the circle of 32-bit numbers. -/
def HalfCircle (s : Set ℤ) : Prop := ∃ r, ∀ n ∈ s, (n - r) % 2 ^ 32 < 2 ^ 31

variable {v w r : ℤ}

/-- Within one half, the difference is that of the places. -/
lemma toInt32_sub_eq (hv : (v - r) % 2 ^ 32 < 2 ^ 31) (hw : (w - r) % 2 ^ 32 < 2 ^ 31) :
    toInt32 (v - w) = (v - r) % 2 ^ 32 - (w - r) % 2 ^ 32 := by
  unfold toInt32
  omega

lemma toInt32_sub_eq_zero (hv : IsInt v) (hw : IsInt w) : toInt32 (v - w) = 0 ↔ v = w := by
  unfold toInt32
  unfold IsInt at hv hw
  omega

/-- An `int` is known by its place. -/
lemma eq_of_place (hv : IsInt v) (hw : IsInt w)
    (h : (v - r) % 2 ^ 32 = (w - r) % 2 ^ 32) : v = w := by
  unfold IsInt at hv hw
  omega

/-- If the difference is transitive on a set of `int`s, the set has a least element, and all the
others are less than half the circle ahead of it. -/
lemma HalfCircle.of_trans {s : Set ℤ} (hint : ∀ n ∈ s, IsInt n)
    (htrans : ∀ a ∈ s, ∀ b ∈ s, ∀ c ∈ s, toInt32 (a - b) < 0 → toInt32 (b - c) < 0 →
      toInt32 (a - c) < 0) : HalfCircle s := by
  rcases s.eq_empty_or_nonempty with rfl | ⟨n, hn⟩
  · exact ⟨0, by simp⟩
  have hfin : s.Finite :=
    (Set.finite_Icc (-2 ^ 31 : ℤ) (2 ^ 31)).subset fun n hn => ⟨(hint n hn).1, (hint n hn).2.le⟩
  have : Finite s := hfin
  let before : s → s → Prop := fun a b => toInt32 (a.1 - b.1) < 0
  have : IsTrans s before := ⟨fun a b c => htrans a a.2 b b.2 c c.2⟩
  have : Std.Irrefl before := ⟨fun a h => by simp [before, toInt32] at h⟩
  obtain ⟨m, -, hm⟩ :=
    (Finite.wellFounded_of_trans_of_irrefl before).has_min Set.univ ⟨⟨n, hn⟩, trivial⟩
  refine ⟨m, fun k hk => ?_⟩
  have hk : ¬ toInt32 (k - m.1) < 0 := hm ⟨k, hk⟩ trivial
  unfold toInt32 at hk
  omega

end Comparison
