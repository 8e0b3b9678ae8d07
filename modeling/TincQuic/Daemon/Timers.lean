import TincQuic.Lib.Agenda
import TincQuic.Lib.Loop
import TincQuic.Splay.Refinement

/-!
# Timers

The timers of `event.c` are nodes of a splay tree that is ordered by their expiry.  A timer says in
three ways that it is armed: it has a callback, its expiry is not zero, and its node is in the tree.

* `Timers` is the tree with the memory of the timers, `Call` what others do with a timer, and
  `getTimeRemaining` fires those that have expired.  Callbacks make calls themselves.
* `Agenda` is what the timers are for: `Timers.agenda`.
* **The timers are consistent, and they fire in order**: `timers_right`.
-/

namespace Tinc

open Splay Agenda Function

/-! ## The source -/

/-- `struct timeval` -/
structure Timeval where
  sec : ℤ
  usec : ℤ
deriving DecidableEq

/-- `timerisset` -/
def timerisset (t : Timeval) : Prop := t.sec ≠ 0 ∨ t.usec ≠ 0

instance (t : Timeval) : Decidable (timerisset t) := inferInstanceAs (Decidable (_ ∨ _))

/-- `timercmp(a, b, <)` -/
def timercmpLt (a b : Timeval) : Prop := if a.sec = b.sec then a.usec < b.usec else a.sec < b.sec

instance (a b : Timeval) : Decidable (timercmpLt a b) := by
  unfold timercmpLt
  infer_instance

/-- `timeradd` -/
def timeradd (a b : Timeval) : Timeval :=
  if 1000000 ≤ a.usec + b.usec then ⟨a.sec + b.sec + 1, a.usec + b.usec - 1000000⟩
  else ⟨a.sec + b.sec, a.usec + b.usec⟩

/-- `timersub` -/
def timersub (a b : Timeval) : Timeval :=
  if a.usec - b.usec < 0 then ⟨a.sec - b.sec - 1, a.usec - b.usec + 1000000⟩
  else ⟨a.sec - b.sec, a.usec - b.usec⟩

/-- `timeout_compare`, on the addresses of two timers.  It is never called with a null pointer: that
is a fault before. -/
def timeoutCompare (tv : ℕ → Timeval) : Option ℕ → Option ℕ → ℤ
  | some a, some b =>
      let diff := timersub (tv a) (tv b)
      if diff.sec < 0 then -1
      else if 0 < diff.sec then 1
      else if diff.usec < 0 then -1
      else if 0 < diff.usec then 1
      else if a < b then -1
      else if b < a then 1
      else 0
  | none, none => 0
  | none, some _ => -1
  | some _, none => 1

/-- What ends the program. -/
inductive Fault where
  | abort
  | null
deriving DecidableEq

/-- The timers, by their addresses, and `timeout_tree`, in which `Loc.node i` is the node of the timer
`i`.  The payload of the node is the pointer `node.data`.  Callbacks are known by their addresses. -/
structure Timers where
  now : Timeval
  tree : SplayTree (Option ℕ)
  tv : ℕ → Timeval
  cb : ℕ → Option ℕ

/-- All timers are zero. -/
def Timers.init : Timers where
  now := ⟨0, 0⟩
  tree := splayAllocTree
  tv := fun _ => ⟨0, 0⟩
  cb := fun _ => none

/-- `splay_unlink_node` -/
def Timers.unlink (s : Timers) (i : ℕ) : Except Fault Timers :=
  match splayUnlinkNode s.tree (.node i) with
  | none => .error .null
  | some tree => .ok { s with tree := tree }

/-- `splay_insert_node`, and `abort` if that fails. -/
def Timers.insert (s : Timers) (i : ℕ) : Except Fault Timers :=
  -- the payloads of the node and of the root are compared first
  if s.tree.root.any fun root => s.tree.data (.node i) = none ∨ s.tree.data root = none then
    .error .null
  else
    match splayInsertNode (timeoutCompare s.tv) s.tree (.node i) with
    | none => .error .null
    | some (_, none) => .error .abort
    | some (tree, some _) => .ok { s with tree := tree }

/-- `timeout_set`, when the clock shows `clock` -/
def Timers.timeoutSet (s : Timers) (clock : Timeval) (i : ℕ) (tv : Timeval) : Except Fault Timers :=
  match if timerisset (s.tv i) then s.unlink i else .ok s with
  | .error e => .error e
  | .ok s =>
      let now := if s.now.sec = 0 then clock else s.now
      { s with now := now, tv := update s.tv i (timeradd now tv) }.insert i

/-- `timeout_add` -/
def Timers.timeoutAdd (s : Timers) (clock : Timeval) (i cb : ℕ) (tv : Timeval) :
    Except Fault Timers :=
  { s with cb := update s.cb i (some cb), tree := ownNode s.tree i (some i) }.timeoutSet clock i tv

/-- `timeout_del` -/
def Timers.timeoutDel (s : Timers) (i : ℕ) : Except Fault Timers :=
  if s.cb i = none then .ok s
  else
    match s.unlink i with
    | .error e => .error e
    | .ok s => .ok { s with cb := update s.cb i none, tv := update s.tv i ⟨0, 0⟩ }

/-- A call to one of the functions above. -/
inductive Call where
  | add (i cb : ℕ) (tv : Timeval)
  | set (i : ℕ) (tv : Timeval)
  | del (i : ℕ)
deriving DecidableEq

def Timers.call (clock : Timeval) (s : Timers) : Call → Except Fault Timers
  | .add i cb tv => s.timeoutAdd clock i cb tv
  | .set i tv => s.timeoutSet clock i tv
  | .del i => s.timeoutDel i

/-- Calls one after the other. -/
def Timers.calls (clock : Timeval) : Timers → List Call → Except Fault Timers
  | s, [] => .ok s
  | s, c :: cs =>
      match s.call clock c with
      | .error e => .error e
      | .ok s => s.calls clock cs

/-- A timer has been fired that expired at `expiry`, and its callback has made these calls. -/
structure Firing where
  timer : ℕ
  expiry : Timeval
  calls : List Call
deriving DecidableEq

/-- The timer `i` is fired: its callback makes these calls. -/
def Timers.fire (s : Timers) (i : ℕ) (cs : List Call) : Except Fault Timers :=
  if s.cb i = none then .error .null
  else
    match s.calls s.now cs with
    | .error e => .error e
    | .ok s => if timercmpLt (s.tv i) s.now then s.timeoutDel i else .ok s

/-- What `get_time_remaining` leaves: the timers, those that were fired, and what it returns. -/
abbrev Remaining := Timers × List Firing × Option Timeval

/-- A turn of the loop of `get_time_remaining`.  The `n`-th callback makes the calls `acts n`. -/
def remainingBody (acts : ℕ → List Call) :
    Timers × List Firing → Except Fault Remaining ⊕ (Timers × List Firing)
  | (s, log) =>
      match s.tree.head with
      | none => .inl (.ok (s, log, none))
      | some head =>
          match s.tree.data head with
          | none => .inl (.error .null)
          | some i =>
              let diff := timersub (s.tv i) s.now
              if diff.sec < 0 then
                match s.fire i (acts log.length) with
                | .error e => .inl (.error e)
                | .ok s' => .inr (s', log ++ [⟨i, s.tv i, acts log.length⟩])
              else .inl (.ok (s, log, some diff))

/-- `get_time_remaining`, when the clock shows `clock`, with a bound on the rounds -/
def getTimeRemaining (acts : ℕ → List Call) (fuel : ℕ) (clock : Timeval) (s : Timers) :
    Option (Except Fault Remaining) :=
  Loop.run (remainingBody acts) fuel ({ s with now := clock }, [])

/-! ## Time -/

/-- The microseconds are less than a second. -/
def Timeval.Normal (t : Timeval) : Prop := 0 ≤ t.usec ∧ t.usec < 1000000

instance (t : Timeval) : Decidable t.Normal := inferInstanceAs (Decidable (_ ∧ _))

/-- All microseconds. -/
def Timeval.micros (t : Timeval) : ℤ := t.sec * 1000000 + t.usec

section Time

variable {a b : Timeval}

lemma micros_lt_iff (ha : a.Normal) (hb : b.Normal) : timercmpLt a b ↔ a.micros < b.micros := by
  unfold timercmpLt Timeval.micros
  unfold Timeval.Normal at ha hb
  split <;> omega

lemma normal_timeradd (ha : a.Normal) (hb : b.Normal) : (timeradd a b).Normal := by
  unfold timeradd
  unfold Timeval.Normal at ha hb ⊢
  split <;> dsimp only <;> omega

lemma micros_timeradd (a b : Timeval) : (timeradd a b).micros = a.micros + b.micros := by
  unfold timeradd Timeval.micros
  split <;> dsimp only <;> omega

lemma normal_timersub (ha : a.Normal) (hb : b.Normal) : (timersub a b).Normal := by
  unfold timersub
  unfold Timeval.Normal at ha hb ⊢
  split <;> dsimp only <;> omega

lemma micros_timersub (a b : Timeval) : (timersub a b).micros = a.micros - b.micros := by
  unfold timersub Timeval.micros
  split <;> dsimp only <;> omega

lemma sec_neg_iff (ha : a.Normal) : a.sec < 0 ↔ a.micros < 0 := by
  unfold Timeval.micros
  unfold Timeval.Normal at ha
  omega

lemma timerisset_of_micros (h : a.micros ≠ 0) : timerisset a := by
  unfold timerisset
  unfold Timeval.micros at h
  omega

end Time

/-! ## The comparison -/

section Compare

variable {tv : ℕ → Timeval} (hnormal : ∀ i, (tv i).Normal)

include hnormal

lemma timeoutCompare_spec (a b : ℕ) :
    (timeoutCompare tv (some a) (some b) < 0 ↔
      (tv a).micros < (tv b).micros ∨ (tv a).micros = (tv b).micros ∧ a < b) ∧
    (timeoutCompare tv (some a) (some b) ≤ 0 ↔
      (tv a).micros < (tv b).micros ∨ (tv a).micros = (tv b).micros ∧ a ≤ b) ∧
    (0 ≤ timeoutCompare tv (some a) (some b) ↔
      (tv b).micros < (tv a).micros ∨ (tv b).micros = (tv a).micros ∧ b ≤ a) := by
  have hdiff := normal_timersub (hnormal a) (hnormal b)
  have hmicros := micros_timersub (tv a) (tv b)
  unfold timeoutCompare
  dsimp only
  unfold Timeval.Normal at hdiff
  generalize timersub (tv a) (tv b) = diff at hdiff hmicros ⊢
  rw [Timeval.micros] at hmicros
  split
  · omega
  · split
    · omega
    · split
      · omega
      · split
        · omega
        · split
          · omega
          · split <;> omega

/-- Expiry and address order the timers. -/
lemma lawful_timeoutCompare : LawfulCompare (timeoutCompare tv) where
  swap x y := by
    rcases x with - | a <;> rcases y with - | b
    · simp [timeoutCompare]
    · simp [timeoutCompare]
    · simp [timeoutCompare]
    · rw [(timeoutCompare_spec hnormal a b).2.1, (timeoutCompare_spec hnormal b a).2.2]
  trans x y z hxy hyz := by
    cases x with
    | none => cases z <;> simp [timeoutCompare]
    | some a =>
        cases y with
        | none => simp [timeoutCompare] at hxy
        | some b =>
            cases z with
            | none => simp [timeoutCompare] at hyz
            | some c =>
                rw [(timeoutCompare_spec hnormal a b).2.1] at hxy
                rw [(timeoutCompare_spec hnormal b c).2.1] at hyz
                rw [(timeoutCompare_spec hnormal a c).2.1]
                omega

lemma timeoutCompare_ne_zero {a b : ℕ} (h : a ≠ b) :
    timeoutCompare tv (some a) (some b) ≠ 0 := by
  obtain ⟨-, hle, hge⟩ := timeoutCompare_spec hnormal a b
  omega

end Compare

/-! ## The tree -/

/-- The tree holds the timers of `l`, in this order, and their nodes point to them. -/
structure Holds (tv : ℕ → Timeval) (tree : SplayTree (Option ℕ)) (l : List ℕ) : Prop where
  inv : Inv (timeoutCompare tv) tree (l.map Loc.node)
  data : ∀ i ∈ l, tree.data (.node i) = some i

section Tree

variable {tv : ℕ → Timeval} {tree : SplayTree (Option ℕ)} {l : List ℕ} {i : ℕ} {t : Timeval}

lemma Holds.nodup (h : Holds tv tree l) : l.Nodup := List.Nodup.of_map _ h.inv.nodup

lemma Holds.count (h : Holds tv tree l) : tree.count = l.length := by
  rw [h.inv.count, List.length_map]

lemma Holds.nodes (h : Holds tv tree l) : tree.nodes = l.map Loc.node := h.inv.nodes_eq

lemma Holds.head (h : Holds tv tree l) : tree.head = l.head?.map Loc.node := by
  rw [h.inv.head, List.head?_map]

/-- A timer in the tree has memory that no other is given. -/
lemma Holds.fresh (h : Holds tv tree l) (hi : i ∈ l) : i < tree.fresh := by
  obtain ⟨j, hj, heq⟩ := h.inv.heap (.node i) (List.mem_map_of_mem hi)
  cases heq
  exact hj

lemma node_mem {l : List ℕ} {i : ℕ} : Loc.node i ∈ l.map Loc.node ↔ i ∈ l := by simp

/-- The timers in the tree are in order. -/
lemma Holds.sorted (h : Holds tv tree l) :
    l.Pairwise fun i j => timeoutCompare tv (some i) (some j) < 0 := by
  have hsorted := List.pairwise_map.mp h.inv.sorted
  refine hsorted.imp_of_mem fun {i j} hi hj hlt => ?_
  rwa [h.data i hi, h.data j hj] at hlt

/-- A timer that is not in the tree may be set to another time. -/
lemma Holds.retime (h : Holds tv tree l) (hi : i ∉ l) (t : Timeval) :
    Holds (update tv i t) tree l := by
  refine ⟨{ h.inv with sorted := ?_ }, h.data⟩
  refine h.inv.sorted.imp_of_mem fun {a b} ha hb hlt => ?_
  obtain ⟨j, hj, rfl⟩ := List.mem_map.mp ha
  obtain ⟨k, hk, rfl⟩ := List.mem_map.mp hb
  have hji : j ≠ i := fun e => hi (e ▸ hj)
  have hki : k ≠ i := fun e => hi (e ▸ hk)
  rw [h.data j hj, h.data k hk] at hlt ⊢
  rw [timeoutCompare, update_of_ne hji, update_of_ne hki]
  rwa [timeoutCompare] at hlt

/-- The node of a timer points to it from now on, if it did not before. -/
lemma Holds.own (h : Holds tv tree l) (i : ℕ) : Holds tv (ownNode tree i (some i)) l := by
  by_cases hi : i ∈ l
  · have hsame : (ownNode tree i (some i)).data = tree.data := by
      funext a
      by_cases ha : a = .node i
      · rw [ha, h.data i hi]
        simp [ownNode]
      · simp [ownNode, ha]
    refine ⟨{ h.inv with sorted := ?_, heap := fun a ha => ?_ }, ?_⟩
    · rw [hsame]
      exact h.inv.sorted
    · obtain ⟨j, hj, heq⟩ := h.inv.heap a ha
      exact ⟨j, lt_of_lt_of_le hj (Nat.le_max_left _ _), heq⟩
    · rw [hsame]
      exact h.data
  · refine ⟨ownNode_inv h.inv (by rwa [node_mem]) (some i), fun j hj => ?_⟩
    have hji : j ≠ i := fun e => hi (e ▸ hj)
    have hne : Loc.node j ≠ .node i := fun e => hji (Loc.node.inj e)
    simp [ownNode, hne, h.data j hj]

/-- `splay_unlink_node` takes the timer out of the tree. -/
lemma Holds.unlink (h : Holds tv tree l) (hi : i ∈ l) :
    ∃ tree', splayUnlinkNode tree (.node i) = some tree' ∧ Holds tv tree' (l.erase i) ∧
      tree'.data = tree.data ∧ tree'.fresh = tree.fresh := by
  obtain ⟨a, b, rfl⟩ := List.append_of_mem hi
  have hnotin : i ∉ a := fun ha => (List.nodup_append.mp h.nodup).2.2 i ha i (by simp) rfl
  have herase : (a ++ i :: b).erase i = a ++ b := by
    rw [List.erase_append_right _ hnotin, List.erase_cons_head]
  have hinv := h.inv
  rw [List.map_append, List.map_cons] at hinv
  obtain ⟨tree', htree, hinv', hdata, hfresh⟩ := splayUnlinkNode_inv hinv
  refine ⟨tree', htree, ⟨?_, fun j hj => ?_⟩, hdata, hfresh⟩
  · rw [herase, List.map_append]
    exact hinv'
  · rw [hdata]
    exact h.data j (List.mem_of_mem_erase hj)

/-- `splay_insert_node` puts the timer into the tree, which never fails. -/
lemma Holds.insert (hnormal : ∀ i, (tv i).Normal) (h : Holds tv tree l) (hi : i ∉ l)
    (hdata : tree.data (.node i) = some i) (hfresh : i < tree.fresh) :
    ∃ tree' l', splayInsertNode (timeoutCompare tv) tree (.node i) =
        some (tree', some (.node i)) ∧ Holds tv tree' l' ∧ ∀ j, j ∈ l' ↔ j = i ∨ j ∈ l := by
  have hnode : Loc.node i ∉ l.map Loc.node := by rwa [node_mem]
  obtain ⟨tree', n, hrun, hcase⟩ :=
    splayInsertNode_inv (lawful_timeoutCompare hnormal) h.inv hnode hfresh
  rcases hcase with ⟨-, ⟨a, ha, hzero⟩, -⟩ | ⟨rfl, -, s', hinv, hmem, hsame⟩
  · -- no two timers are equal
    obtain ⟨j, hj, rfl⟩ := List.mem_map.mp ha
    have hne : i ≠ j := fun e => hi (e ▸ hj)
    rw [hdata, h.data j hj] at hzero
    exact absurd hzero (timeoutCompare_ne_zero hnormal hne)
  · have hform : ∀ a ∈ s', ∃ j, a = Loc.node j ∧ (j = i ∨ j ∈ l) := by
      intro a ha
      rcases (hmem a).mp ha with rfl | ha
      · exact ⟨i, rfl, .inl rfl⟩
      · obtain ⟨j, hj, rfl⟩ := List.mem_map.mp ha
        exact ⟨j, rfl, .inr hj⟩
    obtain ⟨l', rfl⟩ : ∃ l' : List ℕ, s' = l'.map Loc.node := by
      have hrange : s' ∈ Set.range (List.map Loc.node) := by
        rw [Set.range_list_map]
        intro a ha
        obtain ⟨j, rfl, -⟩ := hform a ha
        exact ⟨j, rfl⟩
      obtain ⟨l', hl'⟩ := hrange
      exact ⟨l', hl'.symm⟩
    have hmem' : ∀ j, j ∈ l' ↔ j = i ∨ j ∈ l := by
      intro j
      have hj := hmem (.node j)
      rw [node_mem, node_mem] at hj
      rw [hj]
      simp
    refine ⟨tree', l', hrun, ⟨hinv, fun j hj => ?_⟩, hmem'⟩
    rw [hsame]
    rcases (hmem' j).mp hj with rfl | hj
    · exact hdata
    · exact h.data j hj

/-- The root is the node of a timer. -/
lemma Holds.root (h : Holds tv tree l) {root : Loc} (hroot : tree.root = some root) :
    ∃ j ∈ l, root = .node j := by
  obtain ⟨t, ht, hl⟩ := h.inv.tree
  cases t with
  | nil =>
      have hnone : tree.root = none := ht
      rw [hroot] at hnone
      cases hnone
  | node a b c =>
      have hb : tree.root = some b := ht.1
      rw [hroot] at hb
      obtain rfl := Option.some.inj hb
      have hmem : root ∈ l.map Loc.node := by
        rw [← hl]
        simp
      obtain ⟨j, hj, heq⟩ := List.mem_map.mp hmem
      exact ⟨j, hj, heq.symm⟩

end Tree

/-! ## The calls -/

/-- The clock shows a time past the epoch. -/
def Timeval.PastEpoch (t : Timeval) : Prop := 0 < t.sec ∧ t.Normal

/-- A time to wait is not negative. -/
def Timeval.Interval (t : Timeval) : Prop := 0 ≤ t.sec ∧ t.Normal

instance (t : Timeval) : Decidable t.PastEpoch := inferInstanceAs (Decidable (_ ∧ _))
instance (t : Timeval) : Decidable t.Interval := inferInstanceAs (Decidable (_ ∧ _))

/-- The timers of `l` are those that are in the tree, and those whose expiry is not zero. -/
structure Scheduled (s : Timers) (l : List ℕ) : Prop where
  holds : Holds s.tv s.tree l
  normal : ∀ i, (s.tv i).Normal
  set_iff : ∀ i, timerisset (s.tv i) ↔ i ∈ l
  now : s.now.sec = 0 ∨ s.now.PastEpoch

/-- They are also those that have a callback. -/
structure Orderly (s : Timers) (l : List ℕ) : Prop extends Scheduled s l where
  cb_iff : ∀ i, s.cb i ≠ none ↔ i ∈ l

/-- The time that `timeout_set` goes by. -/
def Timers.nowAt (s : Timers) (clock : Timeval) : Timeval := if s.now.sec = 0 then clock else s.now

section Calls

variable {s : Timers} {l : List ℕ} {i : ℕ} {clock t : Timeval}

lemma Scheduled.nowAt (h : Scheduled s l) (hclock : clock.PastEpoch) : (s.nowAt clock).PastEpoch := by
  unfold Timers.nowAt
  split
  · exact hclock
  · rename_i hsec
    exact h.now.resolve_left hsec

/-- A time to wait from now on is not zero. -/
lemma timerisset_timeradd (hclock : clock.PastEpoch) (ht : t.Interval) :
    timerisset (timeradd clock t) := by
  refine timerisset_of_micros ?_
  rw [micros_timeradd]
  unfold Timeval.PastEpoch Timeval.Normal at hclock
  unfold Timeval.Interval Timeval.Normal at ht
  unfold Timeval.micros
  omega

lemma Holds.insert_ok {tv : ℕ → Timeval} (hnormal : ∀ i, (tv i).Normal) (hs : s.tv = tv)
    (h : Holds tv s.tree l) (hi : i ∉ l) (hdata : s.tree.data (.node i) = some i)
    (hfresh : i < s.tree.fresh) :
    ∃ tree' l', s.insert i = .ok { s with tree := tree' } ∧ Holds tv tree' l' ∧
      ∀ j, j ∈ l' ↔ j = i ∨ j ∈ l := by
  subst hs
  obtain ⟨tree', l', hrun, hholds, hmem⟩ := h.insert hnormal hi hdata hfresh
  refine ⟨tree', l', ?_, hholds, hmem⟩
  have hpointers : ¬ (s.tree.root.any fun root =>
      s.tree.data (.node i) = none ∨ s.tree.data root = none) := by
    rw [Option.any_eq_true]
    rintro ⟨root, hroot, hnone⟩
    obtain ⟨j, hj, rfl⟩ := h.root hroot
    rw [hdata, h.data j hj] at hnone
    simp at hnone
  unfold Timers.insert
  rw [if_neg hpointers, hrun]

/-- **`timeout_set`** puts the timer where its new expiry belongs. -/
lemma Scheduled.timeoutSet (h : Scheduled s l) (hclock : clock.PastEpoch) (ht : t.Interval)
    (hdata : s.tree.data (.node i) = some i) (hfresh : i < s.tree.fresh) :
    ∃ s' l', s.timeoutSet clock i t = .ok s' ∧ Scheduled s' l' ∧ (∀ j, j ∈ l' ↔ j = i ∨ j ∈ l) ∧
      s'.now = s.nowAt clock ∧ s'.tv = update s.tv i (timeradd (s.nowAt clock) t) ∧
      s'.cb = s.cb := by
  have hnow := h.nowAt hclock
  have hnew : (timeradd (s.nowAt clock) t).Normal := normal_timeradd hnow.2 ht.2
  have hnormal : ∀ j, (update s.tv i (timeradd (s.nowAt clock) t) j).Normal := by
    intro j
    by_cases hj : j = i
    · rw [hj, update_self]
      exact hnew
    · rw [update_of_ne hj]
      exact h.normal j
  -- the timer is taken out of the tree, if it is in it
  obtain ⟨tree₁, hunlink, hholds₁, hdata₁, hfresh₁⟩ : ∃ tree₁,
      (if timerisset (s.tv i) then s.unlink i else .ok s) = .ok { s with tree := tree₁ } ∧
      Holds s.tv tree₁ (l.erase i) ∧ tree₁.data = s.tree.data ∧
      tree₁.fresh = s.tree.fresh := by
    by_cases hset : timerisset (s.tv i)
    · obtain ⟨tree₁, hrun, hrest⟩ := h.holds.unlink ((h.set_iff i).mp hset)
      refine ⟨tree₁, ?_, hrest⟩
      rw [if_pos hset, Timers.unlink, hrun]
    · have hi : i ∉ l := fun hi => hset ((h.set_iff i).mpr hi)
      refine ⟨s.tree, if_neg hset, ?_, rfl, rfl⟩
      rw [List.erase_of_not_mem hi]
      exact h.holds
  have hi : i ∉ l.erase i := h.holds.nodup.not_mem_erase
  obtain ⟨tree', l', hinsert, hholds, hmem⟩ := Holds.insert_ok
    (s := { s with now := s.nowAt clock, tree := tree₁, tv := update s.tv i _ }) hnormal rfl
    (hholds₁.retime hi _) hi (by rw [hdata₁, hdata]) (by rw [hfresh₁]; exact hfresh)
  have hmem' : ∀ j, j ∈ l' ↔ j = i ∨ j ∈ l := by
    intro j
    rw [hmem, h.holds.nodup.mem_erase_iff]
    tauto
  refine ⟨{ s with
    now := s.nowAt clock
    tree := tree'
    tv := update s.tv i (timeradd (s.nowAt clock) t) }, l', ?_,
    ⟨hholds, hnormal, fun j => ?_, .inr hnow⟩, hmem', rfl, rfl, rfl⟩
  · unfold Timers.timeoutSet
    rw [hunlink]
    exact hinsert
  · rw [hmem']
    by_cases hj : j = i
    · subst hj
      dsimp only
      rw [update_self]
      exact iff_of_true (timerisset_timeradd hnow ht) (.inl rfl)
    · dsimp only
      rw [update_of_ne hj, h.set_iff]
      tauto

end Calls

/-! ## What the timers are for -/

/-- When the armed timers expire. -/
def Timers.agenda (s : Timers) (i : ℕ) : Option ℤ :=
  if s.cb i = none then none else some (s.tv i).micros

def Call.timer : Call → ℕ
  | .add i _ _ | .set i _ | .del i => i

/-- What a call makes of its timer. -/
def Call.change (now : Timeval) : Call → ℕ × Option ℤ
  | .add i _ t | .set i t => (i, some (timeradd now t).micros)
  | .del i => (i, none)

/-- Only an armed timer is set anew, and nobody waits for a negative time. -/
def Call.Proper (s : Timers) : Call → Prop
  | .add _ _ t => t.Interval
  | .set i t => t.Interval ∧ s.cb i ≠ none
  | .del _ => True

/-- Each call is proper when it is made. -/
def ProperCalls (clock : Timeval) : Timers → List Call → Prop
  | _, [] => True
  | s, c :: cs => c.Proper s ∧ ∀ s', s.call clock c = .ok s' → ProperCalls clock s' cs

section Calls

variable {s s' : Timers} {l : List ℕ} {i : ℕ} {clock now t : Timeval}

lemma Call.change_fst (now : Timeval) (c : Call) : (c.change now).1 = c.timer := by
  cases c <;> rfl

/-- The agenda changes where a timer is armed. -/
lemma agenda_armed (htv : s'.tv = update s.tv i t) (hcb : ∀ j, j ≠ i → s'.cb j = s.cb j)
    (hi : s'.cb i ≠ none) : s'.agenda = update s.agenda i (some t.micros) := by
  funext j
  unfold Timers.agenda
  by_cases hj : j = i
  · subst hj
    rw [if_neg hi, htv, update_self, update_self]
  · rw [update_of_ne hj, hcb j hj, htv, update_of_ne hj]

/-- **`timeout_add`** arms the timer. -/
lemma Orderly.timeoutAdd (h : Orderly s l) (hclock : clock.PastEpoch) (ht : t.Interval) (cb : ℕ) :
    ∃ s' l', s.timeoutAdd clock i cb t = .ok s' ∧ Orderly s' l' ∧ s'.now = s.nowAt clock ∧
      s'.agenda = update s.agenda i (some (timeradd (s.nowAt clock) t).micros) := by
  have hown := h.holds.own i
  obtain ⟨s', l', hrun, hkept, hmem, hnow, htv, hcb⟩ := Scheduled.timeoutSet
    (s := { s with cb := update s.cb i (some cb), tree := ownNode s.tree i (some i) })
    (i := i) ⟨hown, h.normal, h.set_iff, h.now⟩ hclock ht (by simp [ownNode])
    (Nat.le_max_right _ _)
  have hself : s'.cb i = some cb := by
    rw [hcb]
    exact update_self i (some cb) s.cb
  have hother : ∀ j, j ≠ i → s'.cb j = s.cb j := by
    intro j hj
    rw [hcb]
    exact update_of_ne hj (some cb) s.cb
  refine ⟨s', l', hrun, ⟨hkept, fun j => ?_⟩, hnow, ?_⟩
  · rw [hmem]
    by_cases hj : j = i
    · rw [hj, hself]
      simp
    · rw [hother j hj, h.cb_iff]
      tauto
  · exact agenda_armed htv hother (by simp [hself])

/-- **`timeout_set`** moves a timer that is armed. -/
lemma Orderly.timeoutSet (h : Orderly s l) (hclock : clock.PastEpoch) (ht : t.Interval)
    (hi : s.cb i ≠ none) :
    ∃ s' l', s.timeoutSet clock i t = .ok s' ∧ Orderly s' l' ∧ s'.now = s.nowAt clock ∧
      s'.agenda = update s.agenda i (some (timeradd (s.nowAt clock) t).micros) := by
  have hil := (h.cb_iff i).mp hi
  obtain ⟨s', l', hrun, hkept, hmem, hnow, htv, hcb⟩ :=
    h.toScheduled.timeoutSet hclock ht (h.holds.data i hil) (h.holds.fresh hil)
  refine ⟨s', l', hrun, ⟨hkept, fun j => ?_⟩, hnow, ?_⟩
  · rw [hcb, h.cb_iff, hmem]
    constructor
    · exact .inr
    · rintro (rfl | hj)
      · exact hil
      · exact hj
  · exact agenda_armed htv (fun j _ => by rw [hcb]) (by rwa [hcb])

/-- **`timeout_del`** disarms the timer. -/
lemma Orderly.timeoutDel (h : Orderly s l) (i : ℕ) :
    ∃ s' l', s.timeoutDel i = .ok s' ∧ Orderly s' l' ∧ s'.now = s.now ∧
      s'.agenda = update s.agenda i none := by
  unfold Timers.timeoutDel
  by_cases hi : s.cb i = none
  · rw [if_pos hi]
    refine ⟨s, l, rfl, h, rfl, ?_⟩
    have hnone : s.agenda i = none := if_pos hi
    rw [← hnone, update_eq_self]
  · rw [if_neg hi]
    obtain ⟨tree', hrun, hholds, -⟩ := h.holds.unlink ((h.cb_iff i).mp hi)
    have hnotin : i ∉ l.erase i := h.holds.nodup.not_mem_erase
    have hmem : ∀ j, j ∈ l.erase i ↔ j ≠ i ∧ j ∈ l := fun j => h.holds.nodup.mem_erase_iff
    unfold Timers.unlink
    rw [hrun]
    refine ⟨{ s with tree := tree', cb := update s.cb i none, tv := update s.tv i ⟨0, 0⟩ },
      l.erase i, rfl, ⟨⟨hholds.retime hnotin _, fun j => ?_, fun j => ?_, h.now⟩, fun j => ?_⟩, rfl,
      ?_⟩
    · by_cases hj : j = i
      · subst hj
        dsimp only
        rw [update_self]
        decide
      · dsimp only
        rw [update_of_ne hj]
        exact h.normal j
    · rw [hmem]
      by_cases hj : j = i
      · subst hj
        dsimp only
        rw [update_self]
        exact iff_of_false (by decide) (fun hne => hne.1 rfl)
      · dsimp only
        rw [update_of_ne hj, h.set_iff]
        exact (and_iff_right hj).symm
    · rw [hmem]
      by_cases hj : j = i
      · subst hj
        simp
      · dsimp only
        rw [update_of_ne hj, h.cb_iff]
        exact (and_iff_right hj).symm
    · funext j
      unfold Timers.agenda
      by_cases hj : j = i
      · subst hj
        simp
      · simp [hj]

/-- **A proper call** does not fail, keeps the timers tidy, and changes the agenda at its timer. -/
lemma Orderly.call (h : Orderly s l) (hclock : clock.PastEpoch) {c : Call} (hc : c.Proper s) :
    ∃ s' l', s.call clock c = .ok s' ∧ Orderly s' l' ∧
      (s'.now = s.now ∨ s'.now = s.nowAt clock) ∧
      s'.agenda = write s.agenda [c.change (s.nowAt clock)] := by
  cases c with
  | add i cb t =>
      obtain ⟨s', l', hrun, htidy, hnow, hagenda⟩ := h.timeoutAdd hclock hc cb
      exact ⟨s', l', hrun, htidy, .inr hnow, hagenda⟩
  | set i t =>
      obtain ⟨s', l', hrun, htidy, hnow, hagenda⟩ := h.timeoutSet hclock hc.1 hc.2
      exact ⟨s', l', hrun, htidy, .inr hnow, hagenda⟩
  | del i =>
      obtain ⟨s', l', hrun, htidy, hnow, hagenda⟩ := h.timeoutDel i
      exact ⟨s', l', hrun, htidy, .inl hnow, hagenda⟩

lemma nowAt_self (s : Timers) : s.nowAt s.now = s.now := by
  unfold Timers.nowAt
  split <;> rfl

/-- Proper calls one after the other. -/
lemma Orderly.calls (h : Orderly s l) (hnow : s.now = now) (hpast : now.PastEpoch) {cs : List Call}
    (hcs : ProperCalls now s cs) :
    ∃ s' l', s.calls now cs = .ok s' ∧ Orderly s' l' ∧ s'.now = now ∧
      s'.agenda = write s.agenda (cs.map (Call.change now)) := by
  induction cs generalizing s l with
  | nil => exact ⟨s, l, rfl, h, hnow, rfl⟩
  | cons c cs ih =>
      subst hnow
      obtain ⟨s₁, l₁, hrun, htidy, hnow, hagenda⟩ := h.call hpast hcs.1
      rw [nowAt_self] at hnow hagenda
      obtain ⟨s', l', hruns, htidy', hnow', hagenda'⟩ :=
        ih htidy (hnow.elim id id) (hcs.2 s₁ hrun)
      refine ⟨s', l', ?_, htidy', hnow', ?_⟩
      · rw [Timers.calls, hrun]
        exact hruns
      · rw [hagenda', hagenda, List.map_cons]
        rfl

end Calls

/-! ## Firing -/

/-- The timer `i` is the next one to be fired. -/
def Timers.Due (s : Timers) (i : ℕ) : Prop :=
  ∃ head, s.tree.head = some head ∧ s.tree.data head = some i ∧ (timersub (s.tv i) s.now).sec < 0

/-- All callbacks make proper calls, if the loop comes to fire them. -/
def ProperCallbacks (acts : ℕ → List Call) (start : Timers × List Firing) : Prop :=
  ∀ s log i, Loop.Comes (remainingBody acts) start (s, log) → s.Due i →
    ProperCalls s.now s (acts log.length)

/-- What was worked off when a timer was fired. -/
def Firing.entry (now : Timeval) (e : Firing) : Entry ℕ ℤ where
  key := e.timer
  due := e.expiry.micros
  writes := e.calls.map (Call.change now)

section Fire

variable {s s' : Timers} {l : List ℕ} {i : ℕ} {now : Timeval} {cs : List Call}

lemma Orderly.agenda_eq (h : Orderly s l) {t : ℤ} : s.agenda i = some t ↔ i ∈ l ∧ (s.tv i).micros = t := by
  unfold Timers.agenda
  by_cases hi : s.cb i = none
  · have hil : i ∉ l := fun hil => (h.cb_iff i).mpr hil hi
    simp [hi, hil]
  · have hil : i ∈ l := (h.cb_iff i).mp hi
    simp [hi, hil]

/-- The head of the tree is the timer that expires first. -/
lemma Orderly.earliest (h : Orderly s (i :: l)) : Earliest s.agenda i (s.tv i).micros := by
  refine ⟨h.agenda_eq.mpr ⟨List.mem_cons_self, rfl⟩, fun j u hj => ?_⟩
  obtain ⟨hjl, rfl⟩ := h.agenda_eq.mp hj
  rcases List.mem_cons.mp hjl with rfl | hjl
  · exact .inr ⟨rfl, le_rfl⟩
  · have hlt := (List.pairwise_cons.mp h.holds.sorted).1 j hjl
    rw [(timeoutCompare_spec h.normal i j).1] at hlt
    omega

lemma Orderly.diff_neg_iff (h : Orderly s l) (hpast : s.now.PastEpoch) (i : ℕ) :
    (timersub (s.tv i) s.now).sec < 0 ↔ (s.tv i).micros < s.now.micros := by
  rw [sec_neg_iff (normal_timersub (h.normal i) hpast.2), micros_timersub]
  omega

/-- Proper calls put no timer before the clock. -/
lemma Orderly.later (h : Orderly s l) (hnow : s.now = now) (hpast : now.PastEpoch)
    (hcs : ProperCalls now s cs) : Later now.micros (cs.map (Call.change now)) := by
  induction cs generalizing s l with
  | nil => exact List.forall_mem_nil _
  | cons c cs ih =>
      subst hnow
      obtain ⟨s₁, l₁, hrun, htidy, hnow, -⟩ := h.call hpast hcs.1
      rw [nowAt_self] at hnow
      have hrest := ih htidy (hnow.elim id id) (hcs.2 s₁ hrun)
      have hinterval : ∀ t : Timeval, t.Interval → s.now.micros ≤ (timeradd s.now t).micros := by
        intro t ht
        rw [micros_timeradd]
        unfold Timeval.Interval Timeval.Normal at ht
        unfold Timeval.micros
        omega
      intro w hw t ht
      rcases List.mem_cons.mp hw with rfl | hw
      · have hc := hcs.1
        cases c with
        | add j cb u =>
            obtain rfl := Option.some.inj ht
            exact hinterval u hc
        | set j u =>
            obtain rfl := Option.some.inj ht
            exact hinterval u hc.1
        | del j => cases ht
      · exact hrest w hw t ht

/-- **A timer that is fired** is disarmed, and then its callback makes its calls. -/
lemma Orderly.fire (h : Orderly s l) (hnow : s.now = now) (hpast : now.PastEpoch) (hi : i ∈ l)
    (hexpired : (s.tv i).micros < now.micros) (hcs : ProperCalls now s cs) :
    ∃ s' l', s.fire i cs = .ok s' ∧ Orderly s' l' ∧ s'.now = now ∧
      s'.agenda = write s.agenda ((i, none) :: cs.map (Call.change now)) := by
  obtain ⟨s₁, l₁, hrun, htidy, hnow₁, hagenda⟩ := h.calls hnow hpast hcs
  have hdue : s.agenda i = some (s.tv i).micros := h.agenda_eq.mpr ⟨hi, rfl⟩
  obtain ⟨hclear, hkeep⟩ := (h.later hnow hpast hcs).clear hdue hexpired
  rw [← hagenda] at hclear hkeep
  unfold Timers.fire
  rw [if_neg ((h.cb_iff i).mpr hi), hnow, hrun]
  dsimp only
  rw [hnow₁]
  by_cases hlt : timercmpLt (s₁.tv i) now
  · rw [if_pos hlt]
    obtain ⟨s', l', hdel, htidy', hnow', hagenda'⟩ := htidy.timeoutDel i
    refine ⟨s', l', hdel, htidy', hnow'.trans hnow₁, ?_⟩
    rw [hagenda']
    by_cases hil : i ∈ l₁
    · refine hclear ⟨(s₁.tv i).micros, htidy.agenda_eq.mpr ⟨hil, rfl⟩, ?_⟩
      exact (micros_lt_iff (htidy.normal i) hpast.2).mp hlt
    · -- the callback has disarmed the timer itself
      have hnone : s₁.agenda i = none := by
        cases hsome : s₁.agenda i with
        | none => rfl
        | some u => exact absurd (htidy.agenda_eq.mp hsome).1 hil
      have hkeep := hkeep (by simp [hnone])
      rw [← hkeep, ← hnone, update_eq_self]
  · rw [if_neg hlt]
    refine ⟨s₁, l₁, rfl, htidy, hnow₁, hkeep ?_⟩
    rintro ⟨u, hu, hult⟩
    obtain ⟨-, rfl⟩ := htidy.agenda_eq.mp hu
    exact hlt ((micros_lt_iff (htidy.normal i) hpast.2).mpr hult)

/-- **The loop of `get_time_remaining`** ends, and has worked off the agenda. -/
lemma Orderly.loop {acts : ℕ → List Call} {log : List Firing} {F : Finset ℕ} {fuel : ℕ} (h : Orderly s l)
    (hnow : s.now = now) (hpast : now.PastEpoch) (hF : Overdue now.micros s.agenda F)
    (hfuel : F.card < fuel) (hproper : ProperCallbacks acts (s, log)) :
    ∃ s' l' log', Loop.run (remainingBody acts) fuel (s, log) =
        some (.ok (s', log ++ log', l'.head?.map fun i => timersub (s'.tv i) now)) ∧
      Orderly s' l' ∧ s'.now = now ∧
      Worked now.micros s.agenda (log'.map (Firing.entry now)) s'.agenda ∧
      (∀ e ∈ log', e.expiry.Normal) ∧
      ∀ n e, log'[n]? = some e → e.calls = acts (log.length + n) := by
  induction fuel generalizing s l log F with
  | zero => omega
  | succ fuel ih =>
      subst hnow
      have hhead := h.holds.head
      cases l with
      | nil =>
          have hbody : remainingBody acts (s, log) = .inl (.ok (s, log, none)) := by
            rw [remainingBody, hhead]
            rfl
          refine ⟨s, [], [], ?_, h, rfl, .done fun i t hi => ?_, by simp, by simp⟩
          · rw [Loop.run_of_inl hbody, List.append_nil]
            rfl
          · have hil := (h.agenda_eq.mp hi).1
            cases hil
      | cons i l =>
          have hdata := h.holds.data i List.mem_cons_self
          have hexpired := h.diff_neg_iff hpast i
          by_cases hneg : (timersub (s.tv i) s.now).sec < 0
          · have hdue : s.Due i := ⟨.node i, hhead, hdata, hneg⟩
            have hlt := hexpired.mp hneg
            have hcs := hproper s log i .refl hdue
            obtain ⟨s₁, l₁, hfire, htidy, hnow₁, hagenda⟩ :=
              h.fire rfl hpast List.mem_cons_self hlt hcs
            have hbody : remainingBody acts (s, log) =
                .inr (s₁, log ++ [⟨i, s.tv i, acts log.length⟩]) := by
              rw [remainingBody, hhead]
              dsimp only [List.head?_cons, Option.map_some]
              rw [hdata]
              dsimp only
              rw [if_pos hneg, hfire]
            have hlater := h.later rfl hpast hcs
            have hentry : s₁.agenda = write s.agenda
                (Firing.entry s.now ⟨i, s.tv i, acts log.length⟩).changes := hagenda
            have hi : i ∈ F := hF i _ (h.agenda_eq.mpr ⟨List.mem_cons_self, rfl⟩) hlt
            have hF₁ : Overdue s.now.micros s₁.agenda (F.erase i) := by
              rw [hentry]
              exact hF.write hlater
            have hcard : (F.erase i).card < fuel := by
              have hpos := Finset.card_pos.mpr ⟨i, hi⟩
              rw [Finset.card_erase_of_mem hi]
              omega
            obtain ⟨s', l', log', hrun, htidy', hnow', hworked, hnormal, hcalls⟩ :=
              ih htidy hnow₁ hF₁ hcard
                fun s'' log'' j hcomes => hproper s'' log'' j (.head hbody hcomes)
            rw [hentry] at hworked
            refine ⟨s', l', ⟨i, s.tv i, acts log.length⟩ :: log', ?_, htidy', hnow',
              .next h.earliest hlt hlater hworked, ?_, ?_⟩
            · rw [Loop.run_of_inr hbody, hrun, List.append_assoc]
              rfl
            · exact List.forall_mem_cons.mpr ⟨h.normal i, hnormal⟩
            · intro n e hn
              cases n with
              | zero =>
                  obtain rfl := Option.some.inj hn
                  rfl
              | succ n =>
                  rw [hcalls n e hn, List.length_append, List.length_singleton]
                  congr 1
                  omega
          · have hbody : remainingBody acts (s, log) =
                .inl (.ok (s, log, some (timersub (s.tv i) s.now))) := by
              rw [remainingBody, hhead]
              dsimp only [List.head?_cons, Option.map_some]
              rw [hdata]
              dsimp only
              rw [if_neg hneg]
            refine ⟨s, i :: l, [], ?_, h, rfl, .done fun j t hj => ?_, by simp, by simp⟩
            · rw [Loop.run_of_inl hbody, List.append_nil]
              rfl
            · have hge : ¬ (s.tv i).micros < s.now.micros := fun hlt => hneg (hexpired.mpr hlt)
              rcases h.earliest.first j t hj with hlt | ⟨rfl, -⟩
              · omega
              · omega

end Fire

/-! ## Runs -/

/-- The states that proper calls lead to, at any time and also those of callbacks. -/
inductive Timers.Reached : Timers → Prop where
  | init : Reached Timers.init
  | call {s s' : Timers} {clock : Timeval} {c : Call} (hs : Reached s) (hclock : clock.PastEpoch)
      (hc : c.Proper s) (h : s.call clock c = .ok s') : Reached s'
  | remaining {s s' : Timers} {clock : Timeval} {acts : ℕ → List Call} {fuel : ℕ}
      {log : List Firing} {diff : Option Timeval} (hs : Reached s) (hclock : clock.PastEpoch)
      (hacts : ProperCallbacks acts ({ s with now := clock }, []))
      (h : getTimeRemaining acts fuel clock s = some (.ok (s', log, diff))) : Reached s'
  | firing {s s' : Timers} {clock : Timeval} {acts : ℕ → List Call} {log : List Firing}
      (hs : Reached s) (hclock : clock.PastEpoch)
      (hacts : ProperCallbacks acts ({ s with now := clock }, []))
      (h : Loop.Comes (remainingBody acts) ({ s with now := clock }, []) (s', log)) : Reached s'

/-- The three ways in which a timer says that it is armed agree, and the tree is in order. -/
structure Consistent (s : Timers) : Prop where
  tree : ∀ i, .node i ∈ s.tree.nodes ↔ timerisset (s.tv i)
  armed : ∀ i, timerisset (s.tv i) ↔ s.cb i ≠ none
  represents : Represents (timeoutCompare s.tv) s.tree {x | ∃ i, s.cb i ≠ none ∧ x = some i}
  ordered : (s.tree.nodes.filterMap s.tree.data).Pairwise fun i j =>
    ¬ timercmpLt (s.tv j) (s.tv i)

/-- What `get_time_remaining` does at `now`: it fires `log`, leads from `s` to `s'` and returns
`diff`. -/
structure Fires (acts : ℕ → List Call) (now : Timeval) (s s' : Timers) (log : List Firing)
    (diff : Option Timeval) : Prop where
  /-- in the order in which they expire -/
  ordered : log.Pairwise fun e f =>
    timercmpLt e.expiry f.expiry ∨ e.expiry = f.expiry ∧ e.timer < f.timer
  /-- only what was armed and has expired -/
  expired : ∀ e ∈ log, s.cb e.timer ≠ none ∧ s.tv e.timer = e.expiry ∧ timercmpLt e.expiry now
  /-- all of it, unless a callback was faster -/
  complete : ∀ i, s.cb i ≠ none → timercmpLt (s.tv i) now →
    (∃ e ∈ log, e.timer = i) ∨ ∃ e ∈ log, ∃ c ∈ e.calls, c.timer = i
  calls : ∀ n e, log[n]? = some e → e.calls = acts n
  /-- each timer that is fired is disarmed, and all else is as the callbacks have it -/
  agenda : s'.agenda = write s.agenda
    (log.flatMap fun e => (e.timer, none) :: e.calls.map (Call.change now))
  disarmed : ∀ e ∈ log, (∀ f ∈ log, ∀ c ∈ f.calls, c.timer ≠ e.timer) → s'.cb e.timer = none
  now_eq : s'.now = now
  /-- nothing that has expired is left -/
  left : ∀ i, s'.cb i ≠ none → ¬ timercmpLt (s'.tv i) now
  remaining_none : diff = none ↔ ∀ i, s'.cb i = none
  remaining : ∀ d, diff = some d → ∃ i, s'.cb i ≠ none ∧ d = timersub (s'.tv i) now ∧
    ∀ j, s'.cb j ≠ none → ¬ timercmpLt (s'.tv j) (s'.tv i)

section Runs

variable {s s' : Timers} {l : List ℕ} {now clock : Timeval} {acts : ℕ → List Call}
  {log : List Firing}

lemma Orderly.init : Orderly Timers.init [] := by
  refine ⟨⟨⟨splayAllocTree_inv, List.forall_mem_nil _⟩, fun i => ?_, fun i => ?_, .inl rfl⟩,
    fun i => ?_⟩
  · exact (by decide : Timeval.Normal ⟨0, 0⟩)
  · exact iff_of_false (by decide : ¬ timerisset ⟨0, 0⟩) List.not_mem_nil
  · exact iff_of_false (fun h => h rfl) List.not_mem_nil

lemma Orderly.atClock (h : Orderly s l) (hclock : clock.PastEpoch) :
    Orderly { s with now := clock } l :=
  ⟨⟨h.holds, h.normal, h.set_iff, .inr hclock⟩, h.cb_iff⟩

/-- A round of the loop. -/
lemma Orderly.round {s₀ : Timers × List Firing} (h : Orderly s l) (hpast : s.now.PastEpoch)
    (hproper : ProperCallbacks acts s₀) (hcomes : Loop.Comes (remainingBody acts) s₀ (s, log))
    {log' : List Firing} (hbody : remainingBody acts (s, log) = .inr (s', log')) :
    s'.now = s.now ∧ ∃ l', Orderly s' l' := by
  have hhead := h.holds.head
  rw [remainingBody, hhead] at hbody
  cases l with
  | nil => cases hbody
  | cons i l =>
      have hdata := h.holds.data i List.mem_cons_self
      dsimp only [List.head?_cons, Option.map_some] at hbody
      rw [hdata] at hbody
      dsimp only at hbody
      split at hbody
      · rename_i hneg
        have hdue : s.Due i := ⟨.node i, hhead, hdata, hneg⟩
        obtain ⟨s₁, l₁, hfire, hs₁, hnow, -⟩ := h.fire rfl hpast List.mem_cons_self
          ((h.diff_neg_iff hpast i).mp hneg) (hproper s log i hcomes hdue)
        rw [hfire] at hbody
        obtain ⟨rfl, -⟩ := Prod.mk.inj (Sum.inr.inj hbody)
        exact ⟨hnow, l₁, hs₁⟩
      · cases hbody

/-- What the loop comes to is orderly. -/
lemma Orderly.comes {s₀ : Timers} (h : Orderly s₀ l) (hpast : s₀.now.PastEpoch)
    (hproper : ProperCallbacks acts (s₀, [])) {p : Timers × List Firing}
    (hcomes : Loop.Comes (remainingBody acts) (s₀, []) p) :
    p.1.now = s₀.now ∧ ∃ l', Orderly p.1 l' := by
  induction hcomes with
  | refl => exact ⟨rfl, l, h⟩
  | @tail p q hcomes hstep ih =>
      obtain ⟨hnow, l₁, hl₁⟩ := ih
      obtain ⟨s, log⟩ := p
      obtain ⟨s', log'⟩ := q
      have hround := hl₁.round (by rw [hnow]; exact hpast) hproper hcomes hstep
      exact ⟨hround.1.trans hnow, hround.2⟩

/-- When the loop ends, the timers stay as they are. -/
lemma remainingBody_inl {p : Timers × List Firing} {diff : Option Timeval}
    (h : remainingBody acts p = .inl (.ok (s', log, diff))) : s' = p.1 := by
  obtain ⟨s, log₀⟩ := p
  unfold remainingBody at h
  dsimp only at h
  split at h
  · obtain ⟨rfl, -⟩ := Prod.mk.inj (Except.ok.inj (Sum.inl.inj h))
    rfl
  · split at h
    · cases Sum.inl.inj h
    · split at h
      · split at h
        · cases Sum.inl.inj h
        · cases h
      · obtain ⟨rfl, -⟩ := Prod.mk.inj (Except.ok.inj (Sum.inl.inj h))
        rfl

/-- Every state that is reached is orderly. -/
lemma Timers.Reached.orderly (h : s.Reached) : ∃ l, Orderly s l := by
  induction h with
  | init => exact ⟨[], .init⟩
  | call _ hclock hc h ih =>
      obtain ⟨l, hl⟩ := ih
      obtain ⟨s₁, l₁, hrun, hl₁, -⟩ := hl.call hclock hc
      obtain rfl := Except.ok.inj (h.symm.trans hrun)
      exact ⟨l₁, hl₁⟩
  | remaining _ hclock hacts h ih =>
      obtain ⟨l, hl⟩ := ih
      obtain ⟨p, hcomes, hbody⟩ := Loop.comes_of_run h
      obtain rfl := remainingBody_inl hbody
      exact ((hl.atClock hclock).comes hclock hacts hcomes).2
  | firing _ hclock hacts h ih =>
      obtain ⟨l, hl⟩ := ih
      exact ((hl.atClock hclock).comes hclock hacts h).2

/-- The order of the tree is what is visible of it. -/
lemma Orderly.consistent (h : Orderly s l) : Consistent s := by
  have hnodes : s.tree.nodes.filterMap s.tree.data = l := by
    rw [h.holds.nodes, List.filterMap_map]
    calc l.filterMap (s.tree.data ∘ Loc.node) = l.filterMap some :=
          List.filterMap_congr fun i hi => h.holds.data i hi
      _ = l := List.filterMap_some
  constructor
  case tree =>
    intro i
    rw [h.holds.nodes, node_mem, h.set_iff]
  case armed =>
    intro i
    rw [h.set_iff, h.cb_iff]
  case represents =>
    have helems : elems s.tree (l.map Loc.node) = {x | ∃ i, s.cb i ≠ none ∧ x = some i} := by
      ext x
      constructor
      · rintro ⟨a, ha, rfl⟩
        obtain ⟨i, hi, rfl⟩ := List.mem_map.mp ha
        exact ⟨i, (h.cb_iff i).mpr hi, h.holds.data i hi⟩
      · rintro ⟨i, hi, rfl⟩
        have hil := (h.cb_iff i).mp hi
        exact ⟨.node i, List.mem_map_of_mem hil, h.holds.data i hil⟩
    rw [← helems]
    exact h.holds.inv.represents
  case ordered =>
    rw [hnodes]
    refine h.holds.sorted.imp fun {i j} hlt => ?_
    rw [(timeoutCompare_spec h.normal i j).1] at hlt
    rw [micros_lt_iff (h.normal j) (h.normal i)]
    omega

lemma agenda_ne_none {i : ℕ} : s.agenda i ≠ none ↔ s.cb i ≠ none := by
  unfold Timers.agenda
  split <;> simp_all

lemma micros_inj {a b : Timeval} (ha : a.Normal) (hb : b.Normal) (h : a.micros = b.micros) :
    a = b := by
  obtain ⟨asec, ausec⟩ := a
  obtain ⟨bsec, busec⟩ := b
  unfold Timeval.Normal at ha hb
  unfold Timeval.micros at h
  dsimp only at ha hb h
  rw [Timeval.mk.injEq]
  omega

/-- **`get_time_remaining`** ends without a fault and fires what it should. -/
lemma Orderly.remaining (h : Orderly s l) (hclock : clock.PastEpoch)
    (hacts : ProperCallbacks acts ({ s with now := clock }, [])) {fuel : ℕ}
    (hfuel : s.tree.count < fuel) :
    ∃ s' log diff, getTimeRemaining acts fuel clock s = some (.ok (s', log, diff)) ∧
      Fires acts clock s s' log diff := by
  have hat := h.atClock hclock
  have hF : Overdue clock.micros s.agenda l.toFinset := fun i t hi _ =>
    List.mem_toFinset.mpr (h.agenda_eq.mp hi).1
  have hcard : l.toFinset.card < fuel := by
    have hle := List.toFinset_card_le l
    rw [h.holds.count] at hfuel
    omega
  obtain ⟨s', l', log, hrun, hs', hnow, hworked, hnormal, hcalls⟩ :=
    hat.loop rfl hclock hF hcard hacts
  have hagenda : s'.agenda = write s.agenda
      (log.flatMap fun e => (e.timer, none) :: e.calls.map (Call.change clock)) := by
    rw [hworked.result, List.flatMap_map]
    rfl
  have hdue : ∀ e ∈ log, e.timer ∈ l ∧ (s.tv e.timer).micros = e.expiry.micros := fun e he =>
    h.agenda_eq.mp (hworked.due _ (List.mem_map_of_mem he))
  have hlt : ∀ e ∈ log, timercmpLt e.expiry clock := fun e he =>
    (micros_lt_iff (hnormal e he) hclock.2).mpr (hworked.due_lt _ (List.mem_map_of_mem he))
  have hleft : ∀ i ∈ l', ¬ timercmpLt (s'.tv i) clock := by
    intro i hi
    rw [micros_lt_iff (hs'.normal i) hclock.2, not_lt]
    exact hworked.le_due (hs'.agenda_eq.mpr ⟨hi, rfl⟩)
  refine ⟨s', log, l'.head?.map fun i => timersub (s'.tv i) clock, hrun, ?_⟩
  constructor
  case ordered =>
    refine (List.pairwise_map.mp hworked.ordered).imp_of_mem fun {e f} he hf hef => ?_
    rw [micros_lt_iff (hnormal e he) (hnormal f hf)]
    rcases hef with hef | ⟨hef, htimer⟩
    · exact .inl hef
    · exact .inr ⟨micros_inj (hnormal e he) (hnormal f hf) hef, htimer⟩
  case expired =>
    intro e he
    obtain ⟨hel, heq⟩ := hdue e he
    exact ⟨(h.cb_iff _).mpr hel, micros_inj (h.normal _) (hnormal e he) heq, hlt e he⟩
  case complete =>
    intro i hi hexpired
    have hmicros := (micros_lt_iff (h.normal i) hclock.2).mp hexpired
    have hsome : s.agenda i = some (s.tv i).micros :=
      h.agenda_eq.mpr ⟨(h.cb_iff i).mp hi, rfl⟩
    rcases hworked.complete hsome hmicros with ⟨e, he, hkey, -⟩ | ⟨e, he, w, hw, hkey⟩
    · obtain ⟨f, hf, rfl⟩ := List.mem_map.mp he
      exact .inl ⟨f, hf, hkey⟩
    · obtain ⟨f, hf, rfl⟩ := List.mem_map.mp he
      obtain ⟨c, hc, rfl⟩ := List.mem_map.mp hw
      exact .inr ⟨f, hf, c, hc, by rw [← c.change_fst clock]; exact hkey⟩
  case calls =>
    intro n e hn
    rw [hcalls n e hn, List.length_nil, Nat.zero_add]
  case agenda => exact hagenda
  case disarmed =>
    intro e he hnever
    by_contra hcb
    refine agenda_ne_none.mpr hcb (hworked.cleared (e := e.entry clock) (List.mem_map_of_mem he) ?_)
    intro f' hf' w hw
    obtain ⟨f, hf, rfl⟩ := List.mem_map.mp hf'
    obtain ⟨c, hc, rfl⟩ := List.mem_map.mp hw
    rw [c.change_fst clock]
    exact hnever f hf c hc
  case now_eq => exact hnow
  case left => exact fun i hi => hleft i ((hs'.cb_iff i).mp hi)
  case remaining_none =>
    rw [Option.map_eq_none_iff, List.head?_eq_none_iff]
    constructor
    · rintro rfl i
      by_contra hi
      exact List.not_mem_nil ((hs'.cb_iff i).mp hi)
    · intro hnone
      exact List.eq_nil_iff_forall_not_mem.mpr fun i hi => (hs'.cb_iff i).mpr hi (hnone i)
  case remaining =>
    intro d hd
    obtain ⟨i, hi, rfl⟩ := Option.map_eq_some_iff.mp hd
    obtain ⟨l'', rfl⟩ := List.head?_eq_some_iff.mp hi
    refine ⟨i, (hs'.cb_iff i).mpr List.mem_cons_self, rfl, fun j hj => ?_⟩
    have hfirst := hs'.earliest.first j _ (hs'.agenda_eq.mpr ⟨(hs'.cb_iff j).mp hj, rfl⟩)
    rw [micros_lt_iff (hs'.normal j) (hs'.normal i)]
    omega

/-- **The timers are consistent and fire in order.**  No call faults, so `abort` is not reached. -/
theorem timers_right (h : s.Reached) : Consistent s ∧
    (∀ (clock : Timeval) (c : Call), clock.PastEpoch → c.Proper s →
      ∃ s', s.call clock c = .ok s' ∧ s'.agenda = write s.agenda [c.change (s.nowAt clock)]) ∧
    ∀ (clock : Timeval) (acts : ℕ → List Call), clock.PastEpoch →
      ProperCallbacks acts ({ s with now := clock }, []) → ∀ fuel, s.tree.count < fuel →
      ∃ s' log diff, getTimeRemaining acts fuel clock s = some (.ok (s', log, diff)) ∧
        Fires acts clock s s' log diff := by
  obtain ⟨l, hl⟩ := h.orderly
  refine ⟨hl.consistent, fun clock c hclock hc => ?_, fun clock acts hclock hacts fuel hfuel =>
    hl.remaining hclock hacts hfuel⟩
  obtain ⟨s', l', hrun, -, -, hagenda⟩ := hl.call hclock hc
  exact ⟨s', hrun, hagenda⟩

/-- A callback that arms its timer again. -/
def armsAgain (_ : ℕ) : List Call := [.add 0 7 ⟨1, 0⟩]

theorem timers_right_armsAgain : ∃ s s' log diff,
    Timers.init.call ⟨5, 0⟩ (.add 0 7 ⟨1, 0⟩) = .ok s ∧ Consistent s ∧
      getTimeRemaining armsAgain 2 ⟨10, 0⟩ s = some (.ok (s', log, diff)) ∧
      Fires armsAgain ⟨10, 0⟩ s s' log diff := by
  have hclock : Timeval.PastEpoch ⟨5, 0⟩ := by decide
  have hproper : ∀ s, Call.Proper s (.add 0 7 ⟨1, 0⟩) := fun s =>
    (by decide : Timeval.Interval ⟨1, 0⟩)
  obtain ⟨s, l, hrun, -⟩ := Orderly.init.call hclock (hproper Timers.init)
  have hreached : s.Reached := .call .init hclock (hproper _) hrun
  have hcount : s.tree.count = 1 := by
    obtain rfl := Except.ok.inj (hrun.symm.trans rfl)
    rfl
  obtain ⟨hconsistent, -, hremaining⟩ := timers_right hreached
  obtain ⟨s', log, diff, hfires⟩ := hremaining ⟨10, 0⟩ armsAgain (by decide)
    (fun s log i _ _ => ⟨hproper s, fun _ _ => trivial⟩) 2 (by rw [hcount]; decide)
  exact ⟨s, s', log, diff, hrun, hconsistent, hfires⟩

end Runs

/-- A timer that is not armed is set, or one is armed for a time before now. -/
theorem improper_calls_inconsistent :
    (∃ s, Timers.init.call ⟨5, 0⟩ (.set 0 ⟨1, 0⟩) = .ok s ∧ ¬ Consistent s) ∧
      ∃ s, Timers.init.call ⟨5, 0⟩ (.add 0 7 ⟨-5, 0⟩) = .ok s ∧ ¬ Consistent s := by
  refine ⟨⟨_, rfl, fun h => ?_⟩, ⟨_, rfl, fun h => ?_⟩⟩
  · exact (h.armed 0).mp (by decide) rfl
  · exact absurd ((h.armed 0).mpr (by decide)) (by decide)

end Tinc
