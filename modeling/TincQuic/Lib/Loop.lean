import Mathlib.Logic.Relation
import Mathlib.Tactic.Common

/-!
# Loops that may turn for ever

The body of a loop returns a result or the state to go on with.  `run` runs it with a bound on the
rounds, and returns nothing if they do not suffice.

* `Comes body s s'` says that the loop comes from `s` to `s'`.
* `Held` are states that the loop does not leave once it is in them; in all others it gets closer to
  its end.  **It ends exactly if it never comes to a held state**: `run_eq_none`, `isSome_run`.
-/

namespace Loop

universe u v

variable {σ : Type u} {ρ : Type v}

/-- The loop, with a bound on the rounds. -/
def run (body : σ → ρ ⊕ σ) : ℕ → σ → Option ρ
  | 0, _ => none
  | n + 1, s =>
      match body s with
      | .inl r => some r
      | .inr s => run body n s

/-- The loop comes from one state to the other. -/
def Comes (body : σ → ρ ⊕ σ) : σ → σ → Prop :=
  Relation.ReflTransGen fun s s' => body s = .inr s'

variable {body : σ → ρ ⊕ σ} {Held : σ → Prop} {size : σ → ℕ} {s s' : σ} {r r' : ρ} {n : ℕ}

lemma run_of_inl (h : body s = .inl r) (n : ℕ) : run body (n + 1) s = some r := by
  rw [run, h]

lemma run_of_inr (h : body s = .inr s') (n : ℕ) : run body (n + 1) s = run body n s' := by
  rw [run, h]

/-- What the loop comes to, it comes to with fewer rounds left. -/
lemma Comes.run_eq (h : Comes body s s') (n : ℕ) : ∃ m, run body n s = run body m s' := by
  induction h using Relation.ReflTransGen.head_induction_on generalizing n with
  | refl => exact ⟨n, rfl⟩
  | head hstep _ ih =>
      cases n with
      | zero => exact ⟨0, rfl⟩
      | succ n =>
          rw [run_of_inr hstep]
          exact ih n

/-- A result is the one of the last state. -/
lemma Comes.result (h : Comes body s s') (hr : body s' = .inl r) (hrun : run body n s = some r') :
    r' = r := by
  obtain ⟨m, hm⟩ := h.run_eq n
  cases m with
  | zero =>
      rw [hrun] at hm
      cases hm
  | succ m =>
      rw [hrun, run_of_inl hr] at hm
      exact Option.some.inj hm

/-- A loop that ends comes to the state it ends in. -/
lemma comes_of_run (h : run body n s = some r) : ∃ s', Comes body s s' ∧ body s' = .inl r := by
  induction n generalizing s with
  | zero => cases h
  | succ n ih =>
      cases hbody : body s with
      | inl r' =>
          rw [run_of_inl hbody] at h
          obtain rfl := Option.some.inj h
          exact ⟨s, .refl, hbody⟩
      | inr s₁ =>
          rw [run_of_inr hbody] at h
          obtain ⟨s', hcomes, hr⟩ := ih h
          exact ⟨s', .head hbody hcomes, hr⟩

/-- In a held state the loop turns for ever. -/
lemma run_of_held (hheld : ∀ s, Held s → ∃ s', body s = .inr s' ∧ Held s') (h : Held s) (n : ℕ) :
    run body n s = none := by
  induction n generalizing s with
  | zero => rfl
  | succ n ih =>
      obtain ⟨s', hbody, hs'⟩ := hheld s h
      rw [run_of_inr hbody]
      exact ih hs'

/-- A loop that comes to a held state does not end. -/
lemma run_eq_none (hheld : ∀ s, Held s → ∃ s', body s = .inr s' ∧ Held s') (h : Comes body s s')
    (hs' : Held s') (n : ℕ) : run body n s = none := by
  obtain ⟨m, hm⟩ := h.run_eq n
  rw [hm, run_of_held hheld hs']

/-- A loop that comes to none ends, after as many rounds as its state is large. -/
lemma isSome_run (hless : ∀ s s', ¬ Held s → body s = .inr s' → size s' < size s)
    (hfree : ∀ s', Comes body s s' → ¬ Held s') (hn : size s < n) : (run body n s).isSome := by
  induction n generalizing s with
  | zero => omega
  | succ n ih =>
      cases hbody : body s with
      | inl r =>
          rw [run_of_inl hbody]
          rfl
      | inr s' =>
          have hlt := hless s s' (hfree s .refl) hbody
          rw [run_of_inr hbody]
          exact ih (fun t ht => hfree t (.head hbody ht)) (by omega)

/-- On its way the loop does not grow. -/
lemma Comes.size_le (hle : ∀ s s', body s = .inr s' → size s' ≤ size s) (h : Comes body s s') :
    size s' ≤ size s := by
  induction h with
  | refl => exact Nat.le_refl _
  | tail _ hstep ih => exact Nat.le_trans (hle _ _ hstep) ih

end Loop
