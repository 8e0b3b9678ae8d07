import Mathlib.Data.List.Nodup
import Mathlib.Logic.Function.Basic
import Mathlib.Tactic.Common

/-!
# Lists that are moved to the front

A list of bounded length keeps what was used last: what is used comes first, and what was not used
for the longest time falls off the end.

* `recent n l` is what such a list should hold, for a history `l` with the last use first.
* **It is what using one after the other makes of it**: `recent_cons`.
* In memory the list is the begin of an array.  Elements are moved by one place, and the new one is
  written in front of them: `slots_shift`.
-/

namespace MoveToFront

open Function

universe u

variable {α : Type u}

/-! ## The list -/

section Recent

variable [DecidableEq α]

/-- A list without repetitions: each element stays where it is first. -/
def distinct : List α → List α
  | [] => []
  | a :: l => a :: (distinct l).filter (fun b => b ≠ a)

/-- The `n` last elements of a history in which the last one comes first. -/
def recent (n : ℕ) (l : List α) : List α := (distinct l).take n

/-- An element is used. -/
def touch (n : ℕ) (a : α) (l : List α) : List α := (a :: l.filter (fun b => b ≠ a)).take n

lemma mem_distinct {l : List α} {a : α} : a ∈ distinct l ↔ a ∈ l := by
  induction l with
  | nil => simp [distinct]
  | cons b l ih =>
      rw [distinct, List.mem_cons, List.mem_cons, List.mem_filter, ih]
      by_cases hab : a = b
      · simp [hab]
      · simp [hab]

lemma nodup_distinct (l : List α) : (distinct l).Nodup := by
  induction l with
  | nil => exact List.nodup_nil
  | cons a l ih => exact List.nodup_cons.mpr ⟨by simp, ih.filter _⟩

lemma nodup_recent (n : ℕ) (l : List α) : (recent n l).Nodup :=
  (nodup_distinct l).sublist (List.take_sublist n _)

lemma length_recent_le (n : ℕ) (l : List α) : (recent n l).length ≤ n := List.length_take_le n _

lemma mem_of_mem_recent {n : ℕ} {l : List α} {a : α} (h : a ∈ recent n l) : a ∈ l :=
  mem_distinct.mp (List.mem_of_mem_take h)

/-- Removing an element that occurs once moves the rest by one place at most. -/
lemma take_filter_take {l : List α} (h : l.Nodup) (a : α) (n : ℕ) :
    ((l.take (n + 1)).filter (fun b => b ≠ a)).take n = (l.filter (fun b => b ≠ a)).take n := by
  induction l generalizing n with
  | nil => simp
  | cons b l ih =>
      obtain ⟨hb, hl⟩ := List.nodup_cons.mp h
      rw [List.take_succ_cons]
      by_cases hba : b = a
      · subst hba
        have hkeep : ∀ m, (l.take m).filter (fun c => c ≠ b) = l.take m := by
          intro m
          refine List.filter_eq_self.mpr fun c hc => ?_
          have hne : c ≠ b := fun e => hb (e ▸ List.mem_of_mem_take hc)
          simpa using hne
        have hall : l.filter (fun c => c ≠ b) = l := by
          have := hkeep l.length
          rwa [List.take_length] at this
        rw [List.filter_cons_of_neg (by simp), List.filter_cons_of_neg (by simp), hkeep n, hall,
          List.take_take, Nat.min_self]
      · rw [List.filter_cons_of_pos (by simpa using hba), List.filter_cons_of_pos (by simpa using hba)]
        cases n with
        | zero => simp
        | succ n => rw [List.take_succ_cons, List.take_succ_cons, ih hl n]

/-- **Using an element** keeps the list what it should be. -/
lemma recent_cons (n : ℕ) (a : α) (l : List α) : recent n (a :: l) = touch n a (recent n l) := by
  cases n with
  | zero => simp [recent, touch]
  | succ n =>
      rw [recent, touch, recent, distinct, List.take_succ_cons, List.take_succ_cons,
        take_filter_take (nodup_distinct l)]

/-- An element that is in the list is moved to the front. -/
lemma touch_of_mem {n : ℕ} {l : List α} (hl : l.Nodup) (hn : l.length ≤ n) {i : ℕ}
    (hi : i < l.length) : touch n l[i] l = l[i] :: l.eraseIdx i := by
  have hfilter : l.filter (fun b => b ≠ l[i]) = l.eraseIdx i := by
    rw [← hl.erase_getElem i hi, hl.erase_eq_filter]
    refine List.filter_congr fun b _ => ?_
    rw [Bool.eq_iff_iff, decide_eq_true_iff, bne_iff_ne]
  rw [touch, hfilter, List.take_of_length_le]
  rw [List.length_cons, List.length_eraseIdx_of_lt hi]
  omega

/-- One that is not is put in front, and the last one falls off. -/
lemma touch_of_notMem {n : ℕ} {l : List α} {a : α} (ha : a ∉ l) :
    touch n a l = (a :: l).take n := by
  have hfilter : l.filter (fun b => b ≠ a) = l := by
    refine List.filter_eq_self.mpr fun b hb => ?_
    have hne : b ≠ a := fun e => ha (e ▸ hb)
    simpa using hne
  rw [touch, hfilter]

end Recent

/-! ## The array -/

/-- The first `n` elements of an array. -/
def slots (f : ℕ → α) (n : ℕ) : List α := (List.range n).map f

/-- The first `n` elements are moved by one place. -/
def shift (f : ℕ → α) (n : ℕ) : ℕ → α := fun i => if 0 < i ∧ i ≤ n then f (i - 1) else f i

@[simp] lemma length_slots (f : ℕ → α) (n : ℕ) : (slots f n).length = n := by simp [slots]

@[simp] lemma getElem_slots (f : ℕ → α) (n i : ℕ) (h : i < (slots f n).length) :
    (slots f n)[i] = f i := by simp [slots]

/-- **The array after the move**: the element at `i` is lost, and the new one comes first. -/
lemma slots_shift (f : ℕ → α) {n i : ℕ} (h : i < n) (a : α) :
    slots (update (shift f i) 0 a) n = a :: (slots f n).eraseIdx i := by
  have hlen : ((slots f n).eraseIdx i).length = n - 1 := by
    rw [List.length_eraseIdx_of_lt (by simpa using h), length_slots]
  refine List.ext_getElem (by rw [length_slots, List.length_cons, hlen]; omega) fun k hk hk' => ?_
  rw [getElem_slots]
  cases k with
  | zero => simp
  | succ k =>
      rw [update_of_ne (Nat.succ_ne_zero k), List.getElem_cons_succ, List.getElem_eraseIdx, shift]
      by_cases hki : k < i
      · rw [dif_pos hki, getElem_slots, if_pos ⟨by omega, by omega⟩]
        rfl
      · rw [dif_neg hki, getElem_slots, if_neg (by omega)]

end MoveToFront
