import Mathlib

/-!
# An ordered list as a search structure

A list that is kept in the order of a comparison, with the operations of a search tree.  A search
compares what it looks for with one element after the other and gives up at the first that is
greater, so the operations mean what they should only while the comparison is an order.

* What holds for any comparison: `search` returns an element that compares equal, `insert` adds
  only the new one, `delete` takes away only an element that compares equal.
* `Follows` says that a comparison is that of a key in a linear order.  **On a sorted list it
  makes the operations those of a set**: `search_eq_none_iff`, `mem_delete_iff`,
  `insert_eq_none_iff`.
-/

namespace OrdList

variable {α : Type*}

/-- The element that compares equal; `f a` compares what is looked for with `a`. -/
def search (f : α → ℤ) : List α → Option α
  | [] => none
  | a :: l => if f a = 0 then some a else if f a < 0 then none else search f l

/-- `x` put in its place, unless an element compares equal. -/
def insert (f : α → ℤ) (x : α) : List α → Option (List α)
  | [] => some [x]
  | a :: l =>
      if f a = 0 then none else if f a < 0 then some (x :: a :: l) else (insert f x l).map (a :: ·)

/-- The list without the element that compares equal. -/
def delete (f : α → ℤ) : List α → List α
  | [] => []
  | a :: l => if f a = 0 then l else if f a < 0 then a :: l else a :: delete f l

variable {f : α → ℤ} {l l' : List α} {a b x : α}

/-! ## Any comparison -/

lemma search_some (h : search f l = some a) : a ∈ l ∧ f a = 0 := by
  induction l with
  | nil => simp [search] at h
  | cons b l ih =>
      rw [search] at h
      split at h
      · obtain rfl := Option.some.inj h
        exact ⟨List.mem_cons_self, by assumption⟩
      · split at h
        · simp at h
        · exact ⟨List.mem_cons_of_mem _ (ih h).1, (ih h).2⟩

lemma delete_sublist (f : α → ℤ) (l : List α) : (delete f l).Sublist l := by
  induction l with
  | nil => exact List.Sublist.slnil
  | cons b l ih =>
      rw [delete]
      split
      · exact List.sublist_cons_self b l
      · split
        · exact List.Sublist.refl _
        · exact ih.cons_cons b

lemma mem_of_mem_delete (h : a ∈ delete f l) : a ∈ l := (delete_sublist f l).subset h

/-- Only an element that compares equal is taken away. -/
lemma mem_delete_of_ne (h : a ∈ l) (hne : f a ≠ 0) : a ∈ delete f l := by
  induction l with
  | nil => simp at h
  | cons b l ih =>
      rw [delete]
      rcases List.mem_cons.mp h with rfl | h
      · rw [if_neg hne]
        split <;> exact List.mem_cons_self
      · split
        · exact h
        · split
          · exact List.mem_cons_of_mem _ h
          · exact List.mem_cons_of_mem _ (ih h)

/-- What does not compare equal keeps its place. -/
lemma filter_delete {p : α → Bool} (h : ∀ a ∈ l, p a → f a ≠ 0) :
    (delete f l).filter p = l.filter p := by
  induction l with
  | nil => rfl
  | cons b l ih =>
      have ih := ih (fun a ha => h a (List.mem_cons_of_mem _ ha))
      rw [delete]
      split
      · have hb : p b = false := by
          by_contra hp
          exact h b List.mem_cons_self (by simpa using hp) (by assumption)
        simp [hb]
      · split
        · rfl
        · rw [List.filter_cons, List.filter_cons, ih]

lemma mem_insert (h : insert f x l = some l') : a ∈ l' ↔ a = x ∨ a ∈ l := by
  induction l generalizing l' with
  | nil =>
      obtain rfl := Option.some.inj h
      simp
  | cons b l ih =>
      rw [insert] at h
      split at h
      · simp at h
      · split at h
        · obtain rfl := Option.some.inj h
          simp
        · obtain ⟨m, hm, rfl⟩ := Option.map_eq_some_iff.mp h
          rw [List.mem_cons, ih hm, List.mem_cons]
          tauto

/-- What was in the list keeps its place. -/
lemma filter_insert {p : α → Bool} (h : insert f x l = some l') (hx : p x = false) :
    l'.filter p = l.filter p := by
  induction l generalizing l' with
  | nil =>
      obtain rfl := Option.some.inj h
      simp [hx]
  | cons b l ih =>
      rw [insert] at h
      split at h
      · simp at h
      · split at h
        · obtain rfl := Option.some.inj h
          rw [List.filter_cons, if_neg (by simp [hx])]
        · obtain ⟨m, hm, rfl⟩ := Option.map_eq_some_iff.mp h
          rw [List.filter_cons, List.filter_cons, ih hm]

/-- What is not found can be inserted. -/
lemma exists_insert (h : search f l = none) (x : α) : ∃ l', insert f x l = some l' := by
  induction l with
  | nil => exact ⟨_, rfl⟩
  | cons a l ih =>
      rw [search] at h
      rw [insert]
      split at h
      · cases h
      · rename_i hne
        rw [if_neg hne]
        split at h
        · rename_i hlt
          exact ⟨_, if_pos hlt⟩
        · rename_i hge
          obtain ⟨l', hl'⟩ := ih h
          exact ⟨_, by rw [if_neg hge, hl']; rfl⟩

lemma search_congr {g : α → ℤ} (h : ∀ a ∈ l, f a = g a) : search f l = search g l := by
  induction l with
  | nil => rfl
  | cons b l ih =>
      rw [search, search, h b List.mem_cons_self,
        ih (fun a ha => h a (List.mem_cons_of_mem _ ha))]

/-! ## The comparison of a key -/

variable {κ : Type*} [LinearOrder κ] {key : α → κ} {k : κ}

/-- On `l`, `f` compares the key `k` with the keys of the elements. -/
def Follows (f : α → ℤ) (k : κ) (key : α → κ) (l : List α) : Prop :=
  ∀ a ∈ l, (f a = 0 ↔ k = key a) ∧ (f a < 0 ↔ k < key a)

/-- The keys of the list ascend. -/
def Sorted (key : α → κ) (l : List α) : Prop := l.Pairwise (fun a b => key a < key b)

lemma Follows.tail (h : Follows f k key (b :: l)) : Follows f k key l :=
  fun a ha => h a (List.mem_cons_of_mem _ ha)

lemma Sorted.nodup (h : Sorted key l) : l.Nodup :=
  h.imp (fun hlt heq => absurd hlt (by rw [heq]; exact lt_irrefl _))

/-- An element is known by its key. -/
lemma Sorted.eq_of_key (h : Sorted key l) (ha : a ∈ l) (hb : b ∈ l) (he : key a = key b) :
    a = b := by
  induction l with
  | nil => simp at ha
  | cons c l ih =>
      obtain ⟨hc, hl⟩ := List.pairwise_cons.mp h
      rcases List.mem_cons.mp ha with hac | ha <;> rcases List.mem_cons.mp hb with hbc | hb
      · rw [hac, hbc]
      · exact absurd (hc b hb) (by rw [← hac, he]; exact lt_irrefl _)
      · exact absurd (hc a ha) (by rw [← hbc, he]; exact lt_irrefl _)
      · exact ih hl ha hb

lemma search_eq_none_iff (hf : Follows f k key l) (hs : Sorted key l) :
    search f l = none ↔ ∀ a ∈ l, key a ≠ k := by
  induction l with
  | nil => simp [search]
  | cons b l ih =>
      obtain ⟨h0, hlt⟩ := hf b List.mem_cons_self
      obtain ⟨hb, hl⟩ := List.pairwise_cons.mp hs
      rw [search]
      by_cases heq : f b = 0
      · simp [heq, (h0.mp heq).symm]
      · rw [if_neg heq]
        have hne : key b ≠ k := fun h => heq (h0.mpr h.symm)
        by_cases hneg : f b < 0
        · rw [if_pos hneg]
          refine ⟨fun _ a ha => ?_, fun _ => rfl⟩
          rcases List.mem_cons.mp ha with rfl | ha
          · exact hne
          · exact (lt_trans (hlt.mp hneg) (hb a ha)).ne'
        · rw [if_neg hneg, ih hf.tail hl]
          simp [hne]

lemma search_eq_some_iff (hf : Follows f k key l) (hs : Sorted key l) :
    search f l = some a ↔ a ∈ l ∧ key a = k := by
  constructor
  · intro h
    exact ⟨(search_some h).1, ((hf a (search_some h).1).1.mp (search_some h).2).symm⟩
  · rintro ⟨ha, hk⟩
    cases h : search f l with
    | none => exact absurd hk ((search_eq_none_iff hf hs).mp h a ha)
    | some b =>
        have hb := search_some h
        rw [hs.eq_of_key ha hb.1 (by rw [hk, (hf b hb.1).1.mp hb.2])]

lemma insert_eq_none_iff (hf : Follows f k key l) (hs : Sorted key l) :
    insert f x l = none ↔ ∃ a ∈ l, key a = k := by
  induction l with
  | nil => simp [insert]
  | cons b l ih =>
      obtain ⟨h0, hlt⟩ := hf b List.mem_cons_self
      obtain ⟨hb, hl⟩ := List.pairwise_cons.mp hs
      rw [insert]
      by_cases heq : f b = 0
      · simp [heq, (h0.mp heq).symm]
      · rw [if_neg heq]
        have hne : key b ≠ k := fun h => heq (h0.mpr h.symm)
        by_cases hneg : f b < 0
        · rw [if_pos hneg]
          simp only [reduceCtorEq, List.mem_cons, exists_eq_or_imp, false_iff, not_or, not_exists,
            not_and]
          exact ⟨hne, fun a ha => (lt_trans (hlt.mp hneg) (hb a ha)).ne'⟩
        · rw [if_neg hneg, Option.map_eq_none_iff, ih hf.tail hl]
          simp [hne]

/-- An insertion keeps the order as soon as unequal elements are compared as their keys are; what
compares equal may have different keys. -/
lemma Sorted.insert_of (hs : Sorted key l) (hlt : ∀ a ∈ l, f a < 0 → key x < key a)
    (hgt : ∀ a ∈ l, 0 < f a → key a < key x) (h : OrdList.insert f x l = some l') :
    Sorted key l' := by
  induction l generalizing l' with
  | nil =>
      obtain rfl := Option.some.inj h
      exact List.pairwise_singleton _ _
  | cons b l ih =>
      obtain ⟨hb, hl⟩ := List.pairwise_cons.mp hs
      rw [OrdList.insert] at h
      split at h
      · simp at h
      · split at h
        · rename_i hneg
          obtain rfl := Option.some.inj h
          refine List.pairwise_cons.mpr ⟨fun a ha => ?_, hs⟩
          have hxb := hlt b List.mem_cons_self hneg
          rcases List.mem_cons.mp ha with rfl | ha
          · exact hxb
          · exact lt_trans hxb (hb a ha)
        · obtain ⟨m, hm, rfl⟩ := Option.map_eq_some_iff.mp h
          have hsorted := ih hl (fun a ha => hlt a (List.mem_cons_of_mem _ ha))
            (fun a ha => hgt a (List.mem_cons_of_mem _ ha)) hm
          refine List.pairwise_cons.mpr ⟨fun a ha => ?_, hsorted⟩
          rcases (mem_insert hm).mp ha with rfl | ha
          · exact hgt b List.mem_cons_self (by omega)
          · exact hb a ha

lemma Sorted.insert (hs : Sorted key l) (hf : Follows f (key x) key l)
    (h : OrdList.insert f x l = some l') : Sorted key l' := by
  refine hs.insert_of (fun a ha hneg => (hf a ha).2.mp hneg) (fun a ha hpos => ?_) h
  obtain ⟨h0, hlt⟩ := hf a ha
  refine lt_of_le_of_ne (not_lt.mp fun hka => ?_) fun hka => ?_
  · have := hlt.mpr hka
    omega
  · have := h0.mpr hka.symm
    omega

/-- Where the keys do not descend, the elements with one key stand together. -/
lemma exists_run (h : l.Pairwise fun a b => key a ≤ key b) (k : κ) :
    ∃ front mid back, l = front ++ mid ++ back ∧ (∀ a ∈ front, key a < k) ∧
      (∀ a ∈ mid, key a = k) ∧ ∀ a ∈ back, k < key a := by
  induction l with
  | nil => exact ⟨[], [], [], rfl, by simp, by simp, by simp⟩
  | cons a l ih =>
      obtain ⟨ha, hl⟩ := List.pairwise_cons.mp h
      rcases lt_trichotomy (key a) k with hlt | heq | hgt
      · obtain ⟨front, mid, back, rfl, hfront, hmid, hback⟩ := ih hl
        exact ⟨a :: front, mid, back, rfl, List.forall_mem_cons.mpr ⟨hlt, hfront⟩, hmid, hback⟩
      · obtain ⟨front, mid, back, rfl, hfront, hmid, hback⟩ := ih hl
        have hnil : front = [] := by
          refine List.eq_nil_iff_forall_not_mem.mpr fun b hb => ?_
          exact absurd (hfront b hb) (not_lt.mpr (heq ▸ ha b (by simp [hb])))
        subst hnil
        exact ⟨[], a :: mid, back, rfl, by simp, List.forall_mem_cons.mpr ⟨heq, hmid⟩, hback⟩
      · refine ⟨[], [], a :: l, rfl, by simp, by simp, List.forall_mem_cons.mpr ⟨hgt, ?_⟩⟩
        exact fun b hb => hgt.trans_le (ha b hb)

/-- A list is split in one way into elements with `p` and a rest without. -/
lemma split_unique {p : α → Prop} {l₁ r₁ l₂ r₂ : List α} (h : l₁ ++ r₁ = l₂ ++ r₂)
    (h₁ : ∀ a ∈ l₁, p a) (h₁' : ∀ a ∈ r₁, ¬ p a) (h₂ : ∀ a ∈ l₂, p a) (h₂' : ∀ a ∈ r₂, ¬ p a) :
    r₁ = r₂ := by
  rcases List.append_eq_append_iff.mp h with ⟨m, rfl, rfl⟩ | ⟨m, rfl, rfl⟩
  · cases m with
    | nil => rfl
    | cons a m => exact absurd (h₂ a (by simp)) (h₁' a (by simp))
  · cases m with
    | nil => rfl
    | cons a m => exact absurd (h₁ a (by simp)) (h₂' a (by simp))

/-- The first element that satisfies `p` has the least key among those. -/
lemma Sorted.find?_le (hs : Sorted key l) {p : α → Bool} (h : l.find? p = some a) :
    a ∈ l ∧ p a = true ∧ ∀ b ∈ l, p b = true → key a ≤ key b := by
  obtain ⟨hp, front, back, rfl, hfront⟩ := List.find?_eq_some_iff_append.mp h
  refine ⟨by simp, hp, fun b hb hpb => ?_⟩
  rcases List.mem_append.mp hb with hb | hb
  · have hno := hfront b hb
    simp [hpb] at hno
  · obtain ⟨hle, -⟩ := List.pairwise_cons.mp (List.pairwise_append.mp hs).2.1
    rcases List.mem_cons.mp hb with rfl | hb
    · exact le_rfl
    · exact (hle b hb).le

/-- The last element has the greatest key. -/
lemma Sorted.le_getLast? (hs : Sorted key l) (h : l.getLast? = some a) :
    a ∈ l ∧ ∀ b ∈ l, key b ≤ key a := by
  obtain ⟨front, rfl⟩ := List.getLast?_eq_some_iff.mp h
  refine ⟨by simp, fun b hb => ?_⟩
  rcases List.mem_append.mp hb with hb | hb
  · exact ((List.pairwise_append.mp hs).2.2 b hb a (by simp)).le
  · rw [List.mem_singleton.mp hb]

/-- A sorted list is determined by its members. -/
lemma Sorted.ext {l' : List α} (hs : Sorted key l) (hs' : Sorted key l') (h : ∀ a, a ∈ l ↔ a ∈ l') :
    l = l' := by
  have hirrefl : Std.Irrefl fun a b => key a < key b := ⟨fun _ => lt_irrefl _⟩
  have hantisymm : Std.Antisymm fun a b => key a < key b :=
    ⟨fun _ _ hab hba => absurd (hab.trans hba) (lt_irrefl _)⟩
  exact List.Pairwise.eq_of_mem_iff hs hs' h

lemma Sorted.delete (hs : Sorted key l) : Sorted key (OrdList.delete f l) :=
  List.Pairwise.sublist (delete_sublist f l) hs

lemma mem_delete_iff (hf : Follows f k key l) (hs : Sorted key l) :
    a ∈ delete f l ↔ a ∈ l ∧ key a ≠ k := by
  induction l with
  | nil => simp [delete]
  | cons b l ih =>
      obtain ⟨h0, hlt⟩ := hf b List.mem_cons_self
      obtain ⟨hb, hl⟩ := List.pairwise_cons.mp hs
      rw [delete]
      by_cases heq : f b = 0
      · rw [if_pos heq]
        have hk := h0.mp heq
        constructor
        · intro ha
          exact ⟨List.mem_cons_of_mem _ ha, by rw [hk]; exact (hb a ha).ne'⟩
        · rintro ⟨ha, hne⟩
          rcases List.mem_cons.mp ha with rfl | ha
          · exact absurd hk.symm hne
          · exact ha
      · rw [if_neg heq]
        have hne : key b ≠ k := fun h => heq (h0.mpr h.symm)
        by_cases hneg : f b < 0
        · rw [if_pos hneg]
          refine ⟨fun ha => ⟨ha, ?_⟩, And.left⟩
          rcases List.mem_cons.mp ha with rfl | ha
          · exact hne
          · exact (lt_trans (hlt.mp hneg) (hb a ha)).ne'
        · rw [if_neg hneg, List.mem_cons, ih hf.tail hl, List.mem_cons]
          constructor
          · rintro (rfl | ⟨ha, hk⟩)
            · exact ⟨.inl rfl, hne⟩
            · exact ⟨.inr ha, hk⟩
          · rintro ⟨rfl | ha, hk⟩
            · exact .inl rfl
            · exact .inr ⟨ha, hk⟩

end OrdList
