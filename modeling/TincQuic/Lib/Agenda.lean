import Mathlib.Data.Finset.Card
import Mathlib.Order.Defs.LinearOrder
import Mathlib.Tactic.Common

/-!
# Agendas

An agenda says for every key when something is due, if anything is.  What is due before a moment is
worked off: the earliest first, and while it is worked off others may be put on the agenda, moved or
taken off it, but not to a time before that moment.

* `write` are changes one after the other, and an `Entry` is what was worked off, with the changes
  that were made meanwhile.
* `Worked now A log B` says that the entries of `log` lead from `A` to an agenda `B` on which nothing
  is due before `now`.
* **They are worked off in order and all of them**: `Worked.ordered`, `Worked.complete`.
* **There are no more of them than were due before**: `Overdue.write`, which is the measure for a
  loop that works them off.
-/

namespace Agenda

open Function

universe u v

variable {κ : Type u} {τ : Type v}

section Changes

variable [DecidableEq κ]

/-- Changes of an agenda, of which the last one counts. -/
def write (A : κ → Option τ) (ws : List (κ × Option τ)) : κ → Option τ :=
  ws.foldl (fun A w => update A w.1 w.2) A

@[simp] lemma write_nil (A : κ → Option τ) : write A [] = A := rfl

@[simp] lemma write_cons (A : κ → Option τ) (w : κ × Option τ) (ws : List (κ × Option τ)) :
    write A (w :: ws) = write (update A w.1 w.2) ws := rfl

lemma write_append (A : κ → Option τ) (ws ws' : List (κ × Option τ)) :
    write A (ws ++ ws') = write (write A ws) ws' := by
  rw [write, List.foldl_append, write, write]

/-- What is not changed stays. -/
lemma write_of_notMem {ws : List (κ × Option τ)} {i : κ} (h : ∀ w ∈ ws, w.1 ≠ i)
    (A : κ → Option τ) : write A ws i = A i := by
  induction ws generalizing A with
  | nil => rfl
  | cons w ws ih =>
      have hw : w.1 ≠ i := h w List.mem_cons_self
      rw [write_cons, ih fun w' hw' => h w' (List.mem_cons_of_mem w hw'), update_of_ne hw.symm]

end Changes

variable [LinearOrder κ] [LinearOrder τ]

/-- What was worked off: its key, when it was due, and the changes that were made meanwhile. -/
structure Entry (κ : Type u) (τ : Type v) where
  key : κ
  due : τ
  writes : List (κ × Option τ)

/-- What is worked off is off the agenda, unless it is put there again. -/
def Entry.changes (e : Entry κ τ) : List (κ × Option τ) := (e.key, none) :: e.writes

/-- At `t` something is due, and nothing is due before it.  Keys decide between equal times. -/
structure Earliest (A : κ → Option τ) (i : κ) (t : τ) : Prop where
  due : A i = some t
  first : ∀ j u, A j = some u → t < u ∨ t = u ∧ i ≤ j

/-- Nothing is put before this moment. -/
def Later (now : τ) (ws : List (κ × Option τ)) : Prop := ∀ w ∈ ws, ∀ t, w.2 = some t → now ≤ t

/-- The entries are worked off. -/
inductive Worked (now : τ) : (κ → Option τ) → List (Entry κ τ) → (κ → Option τ) → Prop where
  | done {A : κ → Option τ} (h : ∀ i t, A i = some t → now ≤ t) : Worked now A [] A
  | next {A B : κ → Option τ} {e : Entry κ τ} {log : List (Entry κ τ)}
      (h : Earliest A e.key e.due) (hlt : e.due < now) (hlater : Later now e.writes)
      (rest : Worked now (write A e.changes) log B) : Worked now A (e :: log) B

variable {A B : κ → Option τ} {ws : List (κ × Option τ)} {e : Entry κ τ} {log : List (Entry κ τ)}
  {now t : τ} {i : κ}

/-! ## What is due -/

/-- What is due before the moment was so before the changes. -/
lemma Later.of_write (h : Later now ws) (hi : write A ws i = some t) (ht : t < now) :
    A i = some t := by
  induction ws generalizing A with
  | nil => exact hi
  | cons w ws ih =>
      have hrest : update A w.1 w.2 i = some t :=
        ih (fun w' hw' => h w' (List.mem_cons_of_mem w hw')) hi
      by_cases hw : i = w.1
      · subst hw
        rw [update_self] at hrest
        have hle := h w List.mem_cons_self t hrest
        exact absurd ht (not_lt.mpr hle)
      · rwa [update_of_ne hw] at hrest

/-- It makes no difference whether a key is cleared before the changes, or after them if it is still
due. -/
lemma Later.clear (h : Later now ws) (hi : A i = some t) (ht : t < now) :
    ((∃ u, write A ws i = some u ∧ u < now) →
      update (write A ws) i none = write A ((i, none) :: ws)) ∧
    ((¬ ∃ u, write A ws i = some u ∧ u < now) → write A ws = write A ((i, none) :: ws)) := by
  induction ws generalizing A with
  | nil => exact ⟨fun _ => rfl, fun hnot => absurd ⟨t, hi, ht⟩ hnot⟩
  | cons w ws ih =>
      have hlater : Later now ws := fun w' hw' => h w' (List.mem_cons_of_mem w hw')
      by_cases hw : w.1 = i
      · -- the change of the key itself makes both agendas one
        have hsame : write A ((i, none) :: w :: ws) = write A (w :: ws) := by
          rw [write_cons, write_cons, write_cons, hw, update_idem]
        rw [hsame]
        refine ⟨?_, fun _ => rfl⟩
        rintro ⟨u, hu, hlt⟩
        have hput : update A w.1 w.2 i = some u := hlater.of_write hu hlt
        rw [← hw, update_self] at hput
        exact absurd hlt (not_lt.mpr (h w List.mem_cons_self u hput))
      · have hstill : update A w.1 w.2 i = some t := by rw [update_of_ne (Ne.symm hw), hi]
        have hcomm : write A ((i, none) :: w :: ws) =
            write (update A w.1 w.2) ((i, none) :: ws) := by
          rw [write_cons, write_cons, write_cons, update_comm hw]
        rw [hcomm, write_cons]
        exact ih hlater hstill

/-- After an entry was worked off, what is due before the moment was so before, and is not the
entry itself. -/
lemma Later.of_changes (h : Later now e.writes) (hi : write A e.changes i = some t) (ht : t < now) :
    i ≠ e.key ∧ A i = some t := by
  have hcleared : update A e.key none i = some t := h.of_write hi ht
  have hne : i ≠ e.key := by
    rintro rfl
    rw [update_self] at hcleared
    cases hcleared
  rw [update_of_ne hne] at hcleared
  exact ⟨hne, hcleared⟩

/-! ## The entries -/

namespace Worked

/-- The agenda at the end is what the changes make of the first one. -/
lemma result (h : Worked now A log B) : B = write A (log.flatMap Entry.changes) := by
  induction h with
  | done => rfl
  | next _ _ _ _ ih => rw [ih, List.flatMap_cons, write_append]

/-- In the end nothing is due before the moment. -/
lemma le_due (h : Worked now A log B) (hi : B i = some t) : now ≤ t := by
  induction h with
  | done h => exact h i t hi
  | next _ _ _ _ ih => exact ih hi

lemma due_lt (h : Worked now A log B) : ∀ e ∈ log, e.due < now := by
  induction h with
  | done => simp
  | next _ hlt _ _ ih =>
      intro f hf
      rcases List.mem_cons.mp hf with rfl | hf
      · exact hlt
      · exact ih f hf

/-- Only what was due from the beginning is worked off. -/
lemma due (h : Worked now A log B) : ∀ e ∈ log, A e.key = some e.due := by
  induction h with
  | done => simp
  | next hfirst _ hlater rest ih =>
      intro f hf
      rcases List.mem_cons.mp hf with rfl | hfs
      · exact hfirst.due
      · exact (hlater.of_changes (ih f hfs) (rest.due_lt f hfs)).2

/-- **The entries are in order.** -/
lemma ordered (h : Worked now A log B) :
    log.Pairwise fun e f => e.due < f.due ∨ e.due = f.due ∧ e.key < f.key := by
  induction h with
  | done => exact List.Pairwise.nil
  | next hfirst _ hlater rest ih =>
      refine List.pairwise_cons.mpr ⟨fun f hf => ?_, ih⟩
      obtain ⟨hne, hdue⟩ := hlater.of_changes (rest.due f hf) (rest.due_lt f hf)
      rcases hfirst.first _ _ hdue with hlt | ⟨heq, hle⟩
      · exact .inl hlt
      · exact .inr ⟨heq, lt_of_le_of_ne hle hne.symm⟩

/-- **Nothing is skipped**: what was due is worked off, unless it was changed before. -/
lemma complete (h : Worked now A log B) (hi : A i = some t) (ht : t < now) :
    (∃ e ∈ log, e.key = i ∧ e.due = t) ∨ ∃ e ∈ log, ∃ w ∈ e.writes, w.1 = i := by
  induction h with
  | done h => exact absurd ht (not_lt.mpr (h i t hi))
  | @next A B e log hfirst _ _ _ ih =>
      by_cases hkey : e.key = i
      · subst hkey
        have hdue : e.due = t := Option.some.inj (hfirst.due.symm.trans hi)
        exact .inl ⟨e, List.mem_cons_self, rfl, hdue⟩
      · by_cases hwrite : ∃ w ∈ e.writes, w.1 = i
        · exact .inr ⟨e, List.mem_cons_self, hwrite⟩
        · push Not at hwrite
          have hsame : write A e.changes i = some t := by
            rw [Entry.changes, write_cons, write_of_notMem hwrite, update_of_ne (Ne.symm hkey), hi]
          rcases ih hsame with ⟨f, hf, hdue⟩ | ⟨f, hf, hw⟩
          · exact .inl ⟨f, List.mem_cons_of_mem e hf, hdue⟩
          · exact .inr ⟨f, List.mem_cons_of_mem e hf, hw⟩

/-- What is not on the agenda gets there only by a change. -/
lemma eq_none (h : Worked now A log B) (hi : A i = none)
    (hnever : ∀ e ∈ log, ∀ w ∈ e.writes, w.1 ≠ i) : B i = none := by
  induction h with
  | done => exact hi
  | @next A B e log _ _ _ _ ih =>
      rw [List.forall_mem_cons] at hnever
      refine ih ?_ hnever.2
      rw [Entry.changes, write_cons, write_of_notMem hnever.1]
      by_cases hkey : i = e.key
      · rw [hkey, update_self]
      · rw [update_of_ne hkey, hi]

/-- What is worked off is off the agenda, unless it is put there again. -/
lemma cleared (h : Worked now A log B) (he : e ∈ log)
    (hnever : ∀ f ∈ log, ∀ w ∈ f.writes, w.1 ≠ e.key) : B e.key = none := by
  induction h with
  | done => cases he
  | @next A B f log _ _ _ rest ih =>
      rw [List.forall_mem_cons] at hnever
      rcases List.mem_cons.mp he with rfl | he
      · refine rest.eq_none ?_ hnever.2
        rw [Entry.changes, write_cons, write_of_notMem hnever.1, update_self]
      · exact ih he hnever.2

end Worked

/-! ## How many there are -/

/-- These are all keys at which something is due before the moment. -/
def Overdue (now : τ) (A : κ → Option τ) (F : Finset κ) : Prop :=
  ∀ i t, A i = some t → t < now → i ∈ F

/-- An entry that was worked off is not due any more. -/
lemma Overdue.write {F : Finset κ} (h : Overdue now A F) (hlater : Later now e.writes) :
    Overdue now (write A e.changes) (F.erase e.key) := by
  intro i t hi ht
  obtain ⟨hne, hdue⟩ := hlater.of_changes hi ht
  exact Finset.mem_erase.mpr ⟨hne, h i t hdue ht⟩

end Agenda
