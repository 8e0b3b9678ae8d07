import Mathlib.Data.Nat.Notation
import Mathlib.Logic.Function.Basic

/-!
# A direct-mapped cache

A cache in which every key has one slot, so that an entry is lost when another key of the same
slot is stored.

* `Agrees` says that every entry satisfies a property.  It survives the loss of entries, so
  **an entry that is found has the property, whatever the slots are**: `Agrees.search`.
* `lookup` answers from the cache, or computes the answer and stores it; `Agrees.lookup` is what
  it keeps, and `Agrees.lookup_fst_eq` says that the cache is transparent.
-/

namespace DirectMapped

variable {κ ν : Type*} {slot : κ → ℕ}

/-- The entries of the slots. -/
abbrev Cache (κ ν : Type*) := ℕ → Option (κ × ν)

/-- No entry. -/
def clear : Cache κ ν := fun _ => none

def insert (slot : κ → ℕ) (cache : Cache κ ν) (k : κ) (v : ν) : Cache κ ν :=
  Function.update cache (slot k) (some (k, v))

/-- The value that is stored for `k`, unless its slot is free or used for another key. -/
def search [DecidableEq κ] (slot : κ → ℕ) (cache : Cache κ ν) (k : κ) : Option ν :=
  match cache (slot k) with
  | none => none
  | some (k', v) => if k' = k then some v else none

/-- The value is searched, and else computed and stored. -/
def lookup [DecidableEq κ] (slot : κ → ℕ) (cache : Cache κ ν) (k : κ) (compute : Option ν) :
    Option ν × Cache κ ν :=
  match search slot cache k with
  | some v => (some v, cache)
  | none =>
      match compute with
      | none => (none, cache)
      | some v => (some v, insert slot cache k v)

/-- Every entry has the property. -/
def Agrees (P : κ → ν → Prop) (cache : Cache κ ν) : Prop := ∀ i k v, cache i = some (k, v) → P k v

variable {P Q : κ → ν → Prop} {cache : Cache κ ν} {k : κ} {v : ν}

namespace Agrees

lemma clear : Agrees P (clear : Cache κ ν) := fun _ _ _ h => by cases h

lemma imp (h : Agrees P cache) (hPQ : ∀ k v, P k v → Q k v) : Agrees Q cache :=
  fun i k v hi => hPQ k v (h i k v hi)

lemma insert (h : Agrees P cache) (hv : P k v) : Agrees P (insert slot cache k v) := by
  intro i k' v' hi
  unfold DirectMapped.insert at hi
  by_cases hik : i = slot k
  · subst hik
    simp only [Function.update_self, Option.some.injEq, Prod.mk.injEq] at hi
    rw [← hi.1, ← hi.2]
    exact hv
  · rw [Function.update_of_ne hik] at hi
    exact h i k' v' hi

lemma search [DecidableEq κ] (h : Agrees P cache) (hs : search slot cache k = some v) : P k v := by
  unfold DirectMapped.search at hs
  split at hs
  · cases hs
  · rename_i k' v' hi
    split at hs
    · rename_i hk
      obtain rfl := Option.some.inj hs
      rw [← hk]
      exact h _ k' v' hi
    · cases hs

lemma lookup [DecidableEq κ] (h : Agrees P cache) {compute : Option ν} (hc : ∀ v ∈ compute, P k v) :
    Agrees P (lookup slot cache k compute).2 := by
  unfold DirectMapped.lookup
  split
  · exact h
  · split
    · exact h
    · exact h.insert (hc _ rfl)

end Agrees

/-- What is answered was found or computed. -/
lemma lookup_fst [DecidableEq κ] (slot : κ → ℕ) (cache : Cache κ ν) (k : κ)
    (compute : Option ν) :
    (lookup slot cache k compute).1 = (search slot cache k).or compute := by
  unfold lookup
  split
  · rename_i hs
    simp [hs]
  · rename_i hs
    split <;> simp [hs]

/-- If every entry is what would be computed, then so is the answer. -/
lemma Agrees.lookup_fst_eq [DecidableEq κ] {compute : κ → Option ν}
    (h : Agrees (fun k v => compute k = some v) cache) (k : κ) :
    (DirectMapped.lookup slot cache k (compute k)).1 = compute k := by
  rw [DirectMapped.lookup_fst]
  cases hs : DirectMapped.search slot cache k with
  | none => rfl
  | some v => exact (h.search hs).symm

end DirectMapped
