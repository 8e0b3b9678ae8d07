import Mathlib.Logic.Relation
import Mathlib.Data.Nat.Find
import Mathlib.Data.Set.Insert
import Mathlib.Tactic.Common

/-!
# Paths by their length, and the layers of a breadth-first search

Paths over a relation `R`, counted in steps.

* `Path R k a b` is a path of `k` steps, and `Least R k a b` one that is as short as possible.
* `Layered` is the state of a search that takes the next element from the front of a list and puts
  elements at its end, also those that it has seen before.  **Whatever is put on the list twice, the
  elements are seen for the first time in the order of their distance**: `Layered.unseen`.
-/

namespace Hops

variable {α : Type*} {R : α → α → Prop} {a b c : α} {j k : ℕ}

/-- A path of so many steps. -/
inductive Path (R : α → α → Prop) (a : α) : ℕ → α → Prop
  | nil : Path R a 0 a
  | tail {k : ℕ} {b c : α} : Path R a k b → R b c → Path R a (k + 1) c

namespace Path

lemma trans (h : Path R a j b) (h' : Path R b k c) : Path R a (j + k) c := by
  induction h' with
  | nil => exact h
  | tail _ hstep ih => exact ih.tail hstep

lemma single (h : R a b) : Path R a 1 b := Path.nil.tail h

lemma head (h : R a b) (h' : Path R b k c) : Path R a (k + 1) c := by
  rw [Nat.add_comm]
  exact (single h).trans h'

lemma reflTransGen (h : Path R a k b) : Relation.ReflTransGen R a b := by
  induction h with
  | nil => exact .refl
  | tail _ hstep ih => exact ih.tail hstep

end Path

lemma exists_path (h : Relation.ReflTransGen R a b) : ∃ k, Path R a k b := by
  induction h with
  | refl => exact ⟨0, .nil⟩
  | tail _ hstep ih =>
      obtain ⟨k, hk⟩ := ih
      exact ⟨k + 1, hk.tail hstep⟩

/-- The least number of steps. -/
structure Least (R : α → α → Prop) (a : α) (k : ℕ) (b : α) : Prop where
  path : Path R a k b
  le : ∀ j, Path R a j b → k ≤ j

lemma Path.exists_least (h : Path R a k b) : ∃ j ≤ k, Least R a j b := by
  classical
  have hex : ∃ j, Path R a j b := ⟨k, h⟩
  exact ⟨Nat.find hex, Nat.find_min' hex h, Nat.find_spec hex, fun j hj => Nat.find_min' hex hj⟩

namespace Least

lemma unique (h : Least R a j b) (h' : Least R a k b) : j = k :=
  le_antisymm (h.le k h'.path) (h'.le j h.path)

lemma zero : Least R a 0 a := ⟨.nil, fun _ _ => Nat.zero_le _⟩

lemma eq_of_zero (h : Least R a 0 b) : b = a := by
  cases h.path
  rfl

/-- A step leads at most one further. -/
lemma le_succ (h : Least R a j b) (hstep : R b c) (h' : Least R a k c) : k ≤ j + 1 :=
  h'.le _ (h.path.tail hstep)

/-- The element before the last on a shortest path. -/
lemma pred (h : Least R a (k + 1) c) : ∃ b, R b c ∧ Least R a k b := by
  cases h.path with
  | @tail _ b _ hpath hstep =>
      refine ⟨b, hstep, hpath, fun j hj => ?_⟩
      have := h.le _ (hj.tail hstep)
      omega

end Least

/-! ## Layers -/

/-- A search from `a`: the elements in `E` have been examined and those in `V` have been seen.  The
list is `A ++ B`; what is left of the layer at distance `L` is in `A`. -/
structure Layered (R : α → α → Prop) (a : α) (E V : Set α) (L : ℕ) (A B : List α) : Prop where
  seen : ∀ n ∈ E, n ∈ V
  listed : ∀ n ∈ A ++ B, n ∈ V
  targets : ∀ n ∈ E, ∀ m, R n m → m ∈ V
  within : ∀ n ∈ E, ∃ k ≤ L, Least R a k n
  inner : ∀ n, ∀ k < L, Least R a k n → n ∈ E
  layer : ∀ n, Least R a L n → n ∈ E ∨ n ∈ A
  front : ∀ n ∈ A, n ∈ E ∨ Least R a L n
  outer : ∀ n ∈ V, n ∈ E ∨ Least R a L n ∨ Least R a (L + 1) n ∧ n ∈ B

namespace Layered

variable {E V V' : Set α} {L : ℕ} {A B new : List α} {n m : α}

lemma start (a : α) : Layered R a ∅ {a} 0 [a] [] := by
  refine ⟨by simp, by simp, by simp, by simp, by simp, fun n hn => ?_, fun n hn => ?_,
    fun n hn => ?_⟩
  · rw [hn.eq_of_zero]
    exact .inr (List.mem_singleton_self a)
  · rw [List.mem_singleton.mp hn]
    exact .inr .zero
  · rw [Set.mem_singleton_iff.mp hn]
    exact .inr (.inl .zero)

/-- When a layer has been examined, the next one is on the list. -/
lemma advance (h : Layered R a E V L [] B) : Layered R a E V (L + 1) B [] := by
  have hlayer : ∀ n, Least R a L n → n ∈ E := fun n hn =>
    (h.layer n hn).resolve_right List.not_mem_nil
  have hout : ∀ n ∈ V, n ∈ E ∨ Least R a (L + 1) n ∧ n ∈ B := by
    intro n hn
    rcases h.outer n hn with hE | hL | hB
    · exact .inl hE
    · exact .inl (hlayer n hL)
    · exact .inr hB
  refine ⟨h.seen, ?_, h.targets, ?_, ?_, ?_, ?_, ?_⟩
  · simpa using h.listed
  · intro n hn
    obtain ⟨k, hk, hleast⟩ := h.within n hn
    exact ⟨k, by omega, hleast⟩
  · intro n k hk hleast
    by_cases hkL : k < L
    · exact h.inner n k hkL hleast
    · obtain rfl : k = L := by omega
      exact hlayer n hleast
  · intro n hn
    obtain ⟨m, hstep, hm⟩ := hn.pred
    have hV := h.targets m (hlayer m hm) n hstep
    exact (hout n hV).imp_right And.right
  · intro n hn
    exact (hout n (h.listed n (by simpa using hn))).imp_right And.left
  · intro n hn
    rcases hout n hn with hE | hB
    · exact .inl hE
    · exact .inr (.inl hB.1)

/-- **What is seen for the first time is one step further than what is being examined.** -/
lemma unseen (h : Layered R a E V L (n :: A) B) (hstep : R n m) (hm : m ∉ V) :
    Least R a L n ∧ Least R a (L + 1) m := by
  have hn : Least R a L n := by
    rcases h.front n List.mem_cons_self with hE | hL
    · exact absurd (h.targets n hE m hstep) hm
    · exact hL
  obtain ⟨k, hk, hleast⟩ := (hn.path.tail hstep).exists_least
  refine ⟨hn, ?_⟩
  rcases Nat.lt_or_ge L k with hLk | hkL
  · obtain rfl : k = L + 1 := by omega
    exact hleast
  · refine absurd ?_ hm
    rcases Nat.lt_or_eq_of_le hkL with hlt | rfl
    · exact h.seen m (h.inner m k hlt hleast)
    · rcases h.layer m hleast with hE | hA
      · exact h.seen m hE
      · exact h.listed m (List.mem_append_left _ hA)

/-- One element is examined: all that can be reached from it in one step has been seen now, and
what is new is on the list. -/
lemma examine (h : Layered R a E V L (n :: A) B) (hkept : ∀ m ∈ V, m ∈ V')
    (hnew : ∀ m ∈ V', m ∈ V ∨ R n m ∧ m ∈ new) (hlisted : ∀ m ∈ new, m ∈ V')
    (htargets : ∀ m, R n m → m ∈ V') :
    Layered R a (insert n E) V' L A (B ++ new) := by
  refine ⟨?_, ?_, ?_, ?_, ?_, ?_, ?_, ?_⟩
  · rintro m (rfl | hm)
    · exact hkept _ (h.listed _ (by simp))
    · exact hkept m (h.seen m hm)
  · intro m hm
    rw [← List.append_assoc] at hm
    rcases List.mem_append.mp hm with hm | hm
    · refine hkept m (h.listed m ?_)
      rw [List.cons_append]
      exact List.mem_cons_of_mem n hm
    · exact hlisted m hm
  · rintro m (rfl | hm) x hx
    · exact htargets x hx
    · exact hkept x (h.targets m hm x hx)
  · rintro m (rfl | hm)
    · rcases h.front _ List.mem_cons_self with hE | hL
      · exact h.within _ hE
      · exact ⟨L, le_rfl, hL⟩
    · exact h.within m hm
  · exact fun m k hk hleast => .inr (h.inner m k hk hleast)
  · intro m hm
    rcases h.layer m hm with hE | hA
    · exact .inl (.inr hE)
    · rcases List.mem_cons.mp hA with rfl | hA
      · exact .inl (.inl rfl)
      · exact .inr hA
  · intro m hm
    exact (h.front m (List.mem_cons_of_mem n hm)).imp_left .inr
  · intro m hm
    by_cases hV : m ∈ V
    · rcases h.outer m hV with hE | hL | hB
      · exact .inl (.inr hE)
      · exact .inr (.inl hL)
      · exact .inr (.inr ⟨hB.1, List.mem_append_left _ hB.2⟩)
    · obtain ⟨hstep, hmem⟩ := (hnew m hm).resolve_left hV
      exact .inr (.inr ⟨(h.unseen hstep hV).2, List.mem_append_right _ hmem⟩)

end Layered

end Hops
