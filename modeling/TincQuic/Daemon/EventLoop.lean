import TincQuic.Daemon.Timers

/-!
# The event loop

`event.c` waits with `select` until a descriptor is ready, and then calls the callbacks of the ios
that are registered for the ready ones, in the order of `io_tree`.  A callback may register ios and
remove them, the one it was called for and others, while the loop is walking along the tree.  When
the generation of the tree has changed the loop stops, as the node to go on with may be gone.

* `Ios` is the tree with the memory of the ios and the sets for `select`, `IoCall` what others do
  with an io, and `dispatch` is a round of the loop.
* `Registered` is the invariant.  Calls that leave the generation of the tree leave the tree, too:
  `Registered.calls`.
* **The sets agree with what the ios were registered for, and a round calls those that are ready, in
  their order, each of them once and none that has been removed**: `events_right`.
-/

namespace Tinc

open Splay Function PtrList

/-! ## The source -/

/-- `IO_READ` and `IO_WRITE` -/
structure IoFlags where
  read : Bool
  write : Bool
deriving DecidableEq

/-- No flag is set. -/
def IoFlags.none : IoFlags := ⟨false, false⟩

/-- `io_compare`, on the addresses of two ios -/
def ioCompare (fd : ℕ → ℤ) : Option ℕ → Option ℕ → ℤ
  | some a, some b => fd a - fd b
  | none, none => 0
  | none, some _ => -1
  | some _, none => 1

/-- The ios, by their addresses, `io_tree`, in which `Loc.node i` is the node of the io `i`, and the
descriptors that `select` is asked for.  Callbacks are known by their addresses. -/
structure Ios where
  tree : SplayTree (Option ℕ)
  fd : ℕ → ℤ
  flags : ℕ → IoFlags
  cb : ℕ → Option ℕ
  readfds : ℤ → Bool
  writefds : ℤ → Bool

/-- All ios are zero. -/
def Ios.init : Ios where
  tree := splayAllocTree
  fd := fun _ => 0
  flags := fun _ => .none
  cb := fun _ => none
  readfds := fun _ => false
  writefds := fun _ => false

/-- `io_set` -/
def Ios.ioSet (s : Ios) (i : ℕ) (flags : IoFlags) : Ios :=
  if flags = s.flags i then s
  else
    let s := { s with flags := update s.flags i flags }
    if s.fd i = -1 then s
    else
      { s with
        readfds := update s.readfds (s.fd i) flags.read
        writefds := update s.writefds (s.fd i) flags.write }

/-- `splay_insert_node`, and `abort` if that fails. -/
def Ios.insert (s : Ios) (i : ℕ) : Except Fault Ios :=
  -- the payloads of the node and of the root are compared first
  if s.tree.root.any fun root => s.tree.data (.node i) = none ∨ s.tree.data root = none then
    .error .null
  else
    match splayInsertNode (ioCompare s.fd) s.tree (.node i) with
    | none => .error .null
    | some (_, none) => .error .abort
    | some (tree, some _) => .ok { s with tree := tree }

/-- `io_add` -/
def Ios.ioAdd (s : Ios) (i cb : ℕ) (fd : ℤ) (flags : IoFlags) : Except Fault Ios :=
  if s.cb i ≠ none then .ok s
  else
    ({ s with
      fd := update s.fd i fd
      cb := update s.cb i (some cb)
      tree := ownNode s.tree i (some i) }.ioSet i flags).insert i

/-- `io_del` -/
def Ios.ioDel (s : Ios) (i : ℕ) : Except Fault Ios :=
  if s.cb i = none then .ok s
  else
    let s := s.ioSet i .none
    match splayUnlinkNode s.tree (.node i) with
    | none => .error .null
    | some tree => .ok { s with tree := tree, cb := update s.cb i none }

/-- A call to one of the functions above. -/
inductive IoCall where
  | add (i cb : ℕ) (fd : ℤ) (flags : IoFlags)
  | set (i : ℕ) (flags : IoFlags)
  | del (i : ℕ)
deriving DecidableEq

def Ios.call (s : Ios) : IoCall → Except Fault Ios
  | .add i cb fd flags => s.ioAdd i cb fd flags
  | .set i flags => .ok (s.ioSet i flags)
  | .del i => s.ioDel i

/-- Calls one after the other. -/
def Ios.calls : Ios → List IoCall → Except Fault Ios
  | s, [] => .ok s
  | s, c :: cs =>
      match s.call c with
      | .error e => .error e
      | .ok s => s.calls cs

/-- The callback of an io was called, for writing or for reading, and has made these calls. -/
structure Dispatch where
  io : ℕ
  write : Bool
  calls : List IoCall
deriving DecidableEq

/-- The callback of the io `i` is called, and then `next` is to come. -/
def Ios.callback (curgen : ℕ) (next : Option Loc) (log : List Dispatch) (s : Ios) (e : Dispatch) :
    Except Fault (Ios × List Dispatch) ⊕ (Ios × Option Loc × List Dispatch) :=
  if s.cb e.io = none then .inl (.error .null)
  else
    match s.calls e.calls with
    | .error e => .inl (.error e)
    | .ok s =>
        -- the generation is an `unsigned int`
        if curgen % 2 ^ 32 ≠ s.tree.generation % 2 ^ 32 then .inl (.ok (s, log ++ [e]))
        else .inr (s, next, log ++ [e])

/-- A turn of the loop over `io_tree`, which is at `node`.  The `n`-th callback makes the calls
`acts n`. -/
def dispatchBody (acts : ℕ → List IoCall) (readable writable : ℤ → Bool) (curgen : ℕ) :
    Ios × Option Loc × List Dispatch →
      Except Fault (Ios × List Dispatch) ⊕ (Ios × Option Loc × List Dispatch)
  | (s, none, log) => .inl (.ok (s, log))
  | (s, some node, log) =>
      match s.tree.data node with
      | none => .inl (.error .null)
      | some i =>
          let next := s.tree.chain.next node
          if writable (s.fd i) then s.callback curgen next log ⟨i, true, acts log.length⟩
          else if readable (s.fd i) then s.callback curgen next log ⟨i, false, acts log.length⟩
          else .inr (s, next, log)

/-- The loop over `io_tree` in `event_loop`, when `select` returned these descriptors, with a bound
on the turns -/
def Ios.dispatch (s : Ios) (acts : ℕ → List IoCall) (readable writable : ℤ → Bool) (fuel : ℕ) :
    Option (Except Fault (Ios × List Dispatch)) :=
  Loop.run (dispatchBody acts readable writable s.tree.generation) fuel (s, s.tree.head, [])

/-! ## The generation of a tree -/

section Generation

variable {α : Type} {compare : α → α → ℤ} {t t' : SplayTree α} {x : α} {b n : Loc}

lemma splayBottomUp_generation (h : splayBottomUp t n = some t') :
    t'.generation = t.generation := by
  obtain ⟨m, -, heq⟩ := Option.bind_eq_some_iff.mp h
  obtain rfl := Option.some.inj heq
  rfl

lemma splayTopDown_generation {r : Option Loc × ℤ} (h : splayTopDown compare t x = some (t', r)) :
    t'.generation = t.generation := by
  unfold splayTopDown at h
  split at h
  · obtain ⟨rfl, -⟩ := Prod.mk.inj (Option.some.inj h)
    rfl
  · obtain ⟨w, -, heq⟩ := Option.bind_eq_some_iff.mp h
    obtain ⟨rfl, -⟩ := Prod.mk.inj (Option.some.inj heq)
    rfl

lemma insertBeforeNode_generation (h : insertBeforeNode t b n = some t') :
    t'.generation = t.generation + 1 := by
  obtain ⟨t₁, hup, heq⟩ := Option.bind_eq_some_iff.mp h
  obtain rfl := Option.some.inj heq
  have hgen := splayBottomUp_generation hup
  exact congrArg (· + 1) hgen

lemma insertAfterNode_generation (h : insertAfterNode t b n = some t') :
    t'.generation = t.generation + 1 := by
  obtain ⟨t₁, hup, heq⟩ := Option.bind_eq_some_iff.mp h
  obtain rfl := Option.some.inj heq
  have hgen := splayBottomUp_generation hup
  exact congrArg (· + 1) hgen

/-- An insertion counts. -/
lemma splayInsertNode_generation {n' : Loc} (h : splayInsertNode compare t n = some (t', some n')) :
    t'.generation = t.generation + 1 := by
  unfold splayInsertNode at h
  dsimp only at h
  split at h
  · obtain ⟨rfl, -⟩ := Prod.mk.inj (Option.some.inj h)
    rfl
  · obtain ⟨⟨t₁, closest, result⟩, hsearch, h⟩ := Option.bind_eq_some_iff.mp h
    have hgen := splayTopDown_generation hsearch
    dsimp only at h hgen
    rw [← hgen]
    split_ifs at h
    · cases (Prod.mk.inj (Option.some.inj h)).2
    · obtain ⟨t₂, hbefore, heq⟩ := Option.bind_eq_some_iff.mp h
      obtain ⟨rfl, -⟩ := Prod.mk.inj (Option.some.inj heq)
      unfold splayInsertBefore at hbefore
      split at hbefore
      · exact insertBeforeNode_generation hbefore
      · split at hbefore
        · exact insertAfterNode_generation hbefore
        · obtain rfl := Option.some.inj hbefore
          rfl
    · obtain ⟨t₂, hafter, heq⟩ := Option.bind_eq_some_iff.mp h
      obtain ⟨rfl, -⟩ := Prod.mk.inj (Option.some.inj heq)
      unfold splayInsertAfter at hafter
      split at hafter
      · exact insertAfterNode_generation hafter
      · split at hafter
        · exact insertBeforeNode_generation hafter
        · obtain rfl := Option.some.inj hafter
          rfl

/-- A removal counts. -/
lemma splayUnlinkNode_generation (h : splayUnlinkNode t n = some t') :
    t'.generation = t.generation + 1 := by
  obtain ⟨t₁, hup, h⟩ := Option.bind_eq_some_iff.mp h
  have hgen := splayBottomUp_generation hup
  -- whichever neighbours the node has, what is left is put together in the same way
  dsimp only at h
  split at h
  · obtain ⟨l, -, h⟩ := Option.bind_eq_some_iff.mp h
    obtain rfl := Option.some.inj h
    exact congrArg (· + 1) hgen
  · split at h
    · obtain ⟨r, -, h⟩ := Option.bind_eq_some_iff.mp h
      obtain rfl := Option.some.inj h
      exact congrArg (· + 1) hgen
    · obtain rfl := Option.some.inj h
      exact congrArg (· + 1) hgen

end Generation

/-! ## The registered ios -/

/-- Descriptors order the ios. -/
lemma lawful_ioCompare (fd : ℕ → ℤ) : LawfulCompare (ioCompare fd) where
  swap x y := by
    rcases x with - | a <;> rcases y with - | b
    · simp [ioCompare]
    · simp [ioCompare]
    · simp [ioCompare]
    · simp only [ioCompare]
      omega
  trans x y z hxy hyz := by
    rcases x with - | a <;> rcases y with - | b <;> rcases z with - | c <;>
      simp only [ioCompare] at hxy hyz ⊢ <;> omega

/-- The ios of `l` are those that are registered; the tree holds them in this order, and the sets
for `select` have their descriptors. -/
structure Registered (s : Ios) (l : List ℕ) : Prop where
  inv : Inv (ioCompare s.fd) s.tree (l.map Loc.node)
  data : ∀ i ∈ l, s.tree.data (.node i) = some i
  cb_iff : ∀ i, s.cb i ≠ none ↔ i ∈ l
  fd : ∀ i ∈ l, 0 ≤ s.fd i
  flags : ∀ i, i ∉ l → s.flags i = .none
  readfds : ∀ fd, s.readfds fd = true ↔ ∃ i ∈ l, s.fd i = fd ∧ (s.flags i).read = true
  writefds : ∀ fd, s.writefds fd = true ↔ ∃ i ∈ l, s.fd i = fd ∧ (s.flags i).write = true

section Registry

variable {s s' : Ios} {l : List ℕ} {i j cb : ℕ} {fd : ℤ} {flags : IoFlags}

lemma Registered.init : Registered Ios.init [] where
  inv := splayAllocTree_inv
  data := List.forall_mem_nil _
  cb_iff i := iff_of_false (fun h => h rfl) List.not_mem_nil
  fd := List.forall_mem_nil _
  flags _ _ := rfl
  readfds fd := iff_of_false Bool.false_ne_true (by simp)
  writefds fd := iff_of_false Bool.false_ne_true (by simp)

lemma Registered.nodup (h : Registered s l) : l.Nodup := List.Nodup.of_map _ h.inv.nodup

/-- The ios are in the order of their descriptors. -/
lemma Registered.sorted (h : Registered s l) : l.Pairwise fun i j => s.fd i < s.fd j := by
  refine (List.pairwise_map.mp h.inv.sorted).imp_of_mem fun {i j} hi hj hlt => ?_
  rw [h.data i hi, h.data j hj, ioCompare] at hlt
  omega

/-- A descriptor has one io at most. -/
lemma Registered.fd_inj (h : Registered s l) (hi : i ∈ l) (hj : j ∈ l) (hfd : s.fd i = s.fd j) :
    i = j := by
  have hnodup : (l.map s.fd).Nodup := List.pairwise_map.mpr (h.sorted.imp ne_of_lt)
  exact List.inj_on_of_nodup_map hnodup hi hj hfd

/-- `io_set` does not look whether anything changes, as far as one can see. -/
lemma ioSet_eq (hfd : s.fd i ≠ -1) (hread : s.readfds (s.fd i) = (s.flags i).read)
    (hwrite : s.writefds (s.fd i) = (s.flags i).write) (flags : IoFlags) :
    s.ioSet i flags = { s with
      flags := update s.flags i flags
      readfds := update s.readfds (s.fd i) flags.read
      writefds := update s.writefds (s.fd i) flags.write } := by
  unfold Ios.ioSet
  split
  · rename_i heq
    subst heq
    rw [update_eq_self, ← hread, ← hwrite, update_eq_self, update_eq_self]
  · exact if_neg hfd

/-- The descriptor of a registered io is in the sets if the io was registered for that. -/
lemma Registered.sets (h : Registered s l) (hi : i ∈ l) :
    s.readfds (s.fd i) = (s.flags i).read ∧ s.writefds (s.fd i) = (s.flags i).write := by
  constructor
  · rw [Bool.eq_iff_iff, h.readfds]
    constructor
    · rintro ⟨j, hj, hfd, hread⟩
      obtain rfl := h.fd_inj hj hi hfd
      exact hread
    · exact fun hread => ⟨i, hi, rfl, hread⟩
  · rw [Bool.eq_iff_iff, h.writefds]
    constructor
    · rintro ⟨j, hj, hfd, hwrite⟩
      obtain rfl := h.fd_inj hj hi hfd
      exact hwrite
    · exact fun hwrite => ⟨i, hi, rfl, hwrite⟩

/-- A set has the descriptors of the registered ios that want to be in it, also after one of them
changes its mind. -/
lemma Registered.want_update (h : Registered s l) (hi : i ∈ l) {fds : ℤ → Bool}
    {want : IoFlags → Bool}
    (hfds : ∀ fd, fds fd = true ↔ ∃ j ∈ l, s.fd j = fd ∧ want (s.flags j) = true)
    (flags : IoFlags) (fd : ℤ) : update fds (s.fd i) (want flags) fd = true ↔
      ∃ j ∈ l, s.fd j = fd ∧ want (update s.flags i flags j) = true := by
  by_cases hfd : fd = s.fd i
  · subst hfd
    rw [update_self]
    constructor
    · exact fun hwant => ⟨i, hi, rfl, by rwa [update_self]⟩
    · rintro ⟨j, hj, hfd, hwant⟩
      obtain rfl := h.fd_inj hj hi hfd
      rwa [update_self] at hwant
  · rw [update_of_ne hfd, hfds]
    have hother : ∀ j, s.fd j = fd → update s.flags i flags j = s.flags j := by
      rintro j rfl
      exact update_of_ne (fun heq => hfd (congrArg s.fd heq)) _ _
    constructor
    · rintro ⟨j, hj, hfd, hwant⟩
      exact ⟨j, hj, hfd, by rwa [hother j hfd]⟩
    · rintro ⟨j, hj, hfd, hwant⟩
      exact ⟨j, hj, hfd, by rwa [hother j hfd] at hwant⟩

/-- **`io_set`** for an io that is registered. -/
lemma Registered.ioSet (h : Registered s l) (hi : i ∈ l) (flags : IoFlags) :
    Registered (s.ioSet i flags) l ∧ (s.ioSet i flags).tree = s.tree ∧
      (s.ioSet i flags).fd = s.fd ∧ (s.ioSet i flags).cb = s.cb ∧
      (s.ioSet i flags).flags = update s.flags i flags := by
  obtain ⟨hread, hwrite⟩ := h.sets hi
  have hfd := h.fd i hi
  rw [ioSet_eq (by omega) hread hwrite]
  refine ⟨⟨h.inv, h.data, h.cb_iff, h.fd, fun j hj => ?_, h.want_update hi h.readfds flags,
    h.want_update hi h.writefds flags⟩, rfl, rfl, rfl, rfl⟩
  have hne : j ≠ i := fun heq => hj (heq ▸ hi)
  exact (update_of_ne hne _ _).trans (h.flags j hj)

/-- The root of a tree is one of its nodes. -/
lemma inv_root {α : Type} {compare : α → α → ℤ} {t : SplayTree α} {nodes : List Loc} {root : Loc}
    (h : Inv compare t nodes) (hroot : t.root = some root) : root ∈ nodes := by
  obtain ⟨tree, htree, rfl⟩ := h.tree
  cases tree with
  | nil =>
      have hnone : t.root = none := htree
      rw [hroot] at hnone
      cases hnone
  | node a b c =>
      have hb : t.root = some b := htree.1
      rw [hroot] at hb
      obtain rfl := Option.some.inj hb
      simp

/-- The tree is ready for the node of a new io. -/
lemma Registered.own (h : Registered s l) (hi : i ∉ l) (fd : ℤ) :
    Inv (ioCompare (update s.fd i fd)) (ownNode s.tree i (some i)) (l.map Loc.node) ∧
      ∀ j ∈ l, (ownNode s.tree i (some i)).data (.node j) = some j := by
  have hown := ownNode_inv h.inv (i := i) (by simpa using hi) (some i)
  have hdata : ∀ j ∈ l, (ownNode s.tree i (some i)).data (.node j) = some j := by
    intro j hj
    have hne : Loc.node j ≠ .node i := fun heq => hi (Loc.node.inj heq ▸ hj)
    simp [ownNode, hne, h.data j hj]
  refine ⟨{ hown with sorted := ?_ }, hdata⟩
  refine List.pairwise_map.mpr (h.sorted.imp_of_mem fun {j k} hj hk hlt => ?_)
  have hji : j ≠ i := fun heq => hi (heq ▸ hj)
  have hki : k ≠ i := fun heq => hi (heq ▸ hk)
  rw [hdata j hj, hdata k hk, ioCompare, update_of_ne hji, update_of_ne hki]
  omega

/-- A set gets the descriptor of a new io, if the io wants to be in it. -/
lemma want_insert (hi : i ∉ l) (hfree : ∀ j ∈ l, s.fd j ≠ fd) {l' : List ℕ}
    (hmem : ∀ j, j ∈ l' ↔ j = i ∨ j ∈ l) {fds : ℤ → Bool} {want : IoFlags → Bool}
    (hfds : ∀ fd, fds fd = true ↔ ∃ j ∈ l, s.fd j = fd ∧ want (s.flags j) = true)
    (flags : IoFlags) (fd' : ℤ) : update fds fd (want flags) fd' = true ↔
      ∃ j ∈ l', update s.fd i fd j = fd' ∧ want (update s.flags i flags j) = true := by
  have hold : ∀ j ∈ l, update s.fd i fd j = s.fd j ∧ update s.flags i flags j = s.flags j := by
    intro j hj
    have hne : j ≠ i := fun heq => hi (heq ▸ hj)
    exact ⟨update_of_ne hne _ _, update_of_ne hne _ _⟩
  by_cases hfd : fd' = fd
  · subst hfd
    rw [update_self]
    constructor
    · exact fun hwant => ⟨i, (hmem i).mpr (.inl rfl), update_self _ _ _, by rwa [update_self]⟩
    · rintro ⟨j, hj, heq, hwant⟩
      rcases (hmem j).mp hj with rfl | hj
      · rwa [update_self] at hwant
      · exact absurd ((hold j hj).1.symm.trans heq) (hfree j hj)
  · rw [update_of_ne hfd, hfds]
    constructor
    · rintro ⟨j, hj, heq, hwant⟩
      obtain ⟨hfdj, hflagsj⟩ := hold j hj
      exact ⟨j, (hmem j).mpr (.inr hj), hfdj.trans heq, by rwa [hflagsj]⟩
    · rintro ⟨j, hj, heq, hwant⟩
      rcases (hmem j).mp hj with rfl | hj
      · rw [update_self] at heq
        exact absurd heq.symm hfd
      · obtain ⟨hfdj, hflagsj⟩ := hold j hj
        exact ⟨j, hj, hfdj.symm.trans heq, by rwa [hflagsj] at hwant⟩

/-- **`io_add`** for a descriptor that no io has. -/
lemma Registered.ioAdd (h : Registered s l) (hi : s.cb i = none) (hfd : 0 ≤ fd)
    (hfree : ∀ j ∈ l, s.fd j ≠ fd) (cb : ℕ) (flags : IoFlags) :
    ∃ s' l', s.ioAdd i cb fd flags = .ok s' ∧ Registered s' l' ∧ (∀ j, j ∈ l' ↔ j = i ∨ j ∈ l) ∧
      s'.tree.generation = s.tree.generation + 1 ∧ s'.fd = update s.fd i fd ∧
      s'.flags = update s.flags i flags := by
  have hil : i ∉ l := fun hil => (h.cb_iff i).mpr hil hi
  obtain ⟨hinv, hdata⟩ := h.own hil fd
  have hunwanted : s.readfds fd = false ∧ s.writefds fd = false := by
    rw [← Bool.not_eq_true, ← Bool.not_eq_true, h.readfds, h.writefds]
    exact ⟨fun ⟨j, hj, heq, _⟩ => hfree j hj heq, fun ⟨j, hj, heq, _⟩ => hfree j hj heq⟩
  have hset := ioSet_eq (i := i) (s := { s with
      fd := update s.fd i fd
      cb := update s.cb i (some cb)
      tree := ownNode s.tree i (some i) })
    (by simp only [update_self]; omega)
    (by simp only [update_self, hunwanted.1, h.flags i hil]; rfl)
    (by simp only [update_self, hunwanted.2, h.flags i hil]; rfl) flags
  have hown : (ownNode s.tree i (some i)).data (.node i) = some i := by simp [ownNode]
  obtain ⟨tree, n, hrun, hcase⟩ := splayInsertNode_inv (lawful_ioCompare _) hinv (i := i)
    (by simpa using hil) (by simp [ownNode])
  rcases hcase with ⟨-, ⟨a, ha, hzero⟩, -⟩ | ⟨rfl, -, nodes, hnodes, hmem, hsame⟩
  · -- an io with that descriptor
    obtain ⟨j, hj, rfl⟩ := List.mem_map.mp ha
    have hne : j ≠ i := fun heq => hil (heq ▸ hj)
    rw [hown, hdata j hj, ioCompare, update_self, update_of_ne hne] at hzero
    exact absurd (by omega) (hfree j hj)
  · have hform : nodes ∈ Set.range (List.map Loc.node) := by
      rw [Set.range_list_map]
      intro a ha
      rcases (hmem a).mp ha with rfl | ha
      · exact ⟨i, rfl⟩
      · obtain ⟨j, -, rfl⟩ := List.mem_map.mp ha
        exact ⟨j, rfl⟩
    obtain ⟨l', rfl⟩ := hform
    have hmem' : ∀ j, j ∈ l' ↔ j = i ∨ j ∈ l := by
      intro j
      simpa using hmem (.node j)
    have hpointers : ¬ ((ownNode s.tree i (some i)).root.any fun root =>
        (ownNode s.tree i (some i)).data (.node i) = none ∨
          (ownNode s.tree i (some i)).data root = none) := by
      rw [Option.any_eq_true]
      rintro ⟨root, hroot, hnone⟩
      obtain ⟨j, hj, rfl⟩ := List.mem_map.mp (inv_root hinv hroot)
      rw [hown, hdata j hj] at hnone
      simp at hnone
    have hgen := splayInsertNode_generation hrun
    refine ⟨{ s with
      fd := update s.fd i fd
      cb := update s.cb i (some cb)
      tree := tree
      flags := update s.flags i flags
      readfds := update s.readfds fd flags.read
      writefds := update s.writefds fd flags.write }, l', ?_,
      ⟨hnodes, fun j hj => ?_, fun j => ?_, fun j hj => ?_, fun j hj => ?_,
        want_insert hil hfree hmem' h.readfds flags, want_insert hil hfree hmem' h.writefds flags⟩,
      hmem', hgen, rfl, rfl⟩
    · unfold Ios.ioAdd
      rw [if_neg (not_not.mpr hi), hset]
      unfold Ios.insert
      dsimp only
      rw [if_neg hpointers, hrun, update_self]
    · rw [hsame]
      rcases (hmem' j).mp hj with rfl | hj
      · exact hown
      · exact hdata j hj
    · rw [hmem']
      by_cases hj : j = i
      · simp [hj]
      · simpa [hj] using h.cb_iff j
    · by_cases hji : j = i
      · simpa [hji] using hfd
      · simpa [hji] using h.fd j (((hmem' j).mp hj).resolve_left hji)
    · rw [hmem', not_or] at hj
      exact (update_of_ne hj.1 _ _).trans (h.flags j hj.2)

/-- The node of an io is taken out of the tree. -/
lemma Registered.unlink (h : Registered s l) (hi : i ∈ l) :
    ∃ tree, splayUnlinkNode s.tree (.node i) = some tree ∧
      Inv (ioCompare s.fd) tree ((l.erase i).map Loc.node) ∧ tree.data = s.tree.data := by
  obtain ⟨a, b, rfl⟩ := List.append_of_mem hi
  have hnotin : i ∉ a := fun ha => (List.nodup_append.mp h.nodup).2.2 i ha i (by simp) rfl
  have hinv := h.inv
  rw [List.map_append, List.map_cons] at hinv
  obtain ⟨tree, hrun, hinv', hdata, -⟩ := splayUnlinkNode_inv hinv
  refine ⟨tree, hrun, ?_, hdata⟩
  rw [List.erase_append_right _ hnotin, List.erase_cons_head, List.map_append]
  exact hinv'

/-- A set loses nothing with an io that does not want to be in it. -/
lemma Registered.want_erase (h : Registered s l) (hflags : s.flags i = .none) {fds : ℤ → Bool}
    {want : IoFlags → Bool}
    (hfds : ∀ fd, fds fd = true ↔ ∃ j ∈ l, s.fd j = fd ∧ want (s.flags j) = true)
    (hwant : want .none = false) (fd : ℤ) :
    fds fd = true ↔ ∃ j ∈ l.erase i, s.fd j = fd ∧ want (s.flags j) = true := by
  rw [hfds]
  constructor
  · rintro ⟨j, hj, hfd, hjwant⟩
    refine ⟨j, h.nodup.mem_erase_iff.mpr ⟨?_, hj⟩, hfd, hjwant⟩
    rintro rfl
    rw [hflags, hwant] at hjwant
    cases hjwant
  · rintro ⟨j, hj, hfd, hjwant⟩
    exact ⟨j, List.mem_of_mem_erase hj, hfd, hjwant⟩

/-- **`io_del`** takes the io out of the tree and its descriptor out of the sets. -/
lemma Registered.ioDel (h : Registered s l) (i : ℕ) :
    ∃ s', s.ioDel i = .ok s' ∧ Registered s' (l.erase i) ∧
      (i ∈ l → s'.tree.generation = s.tree.generation + 1) ∧ (i ∉ l → s' = s) ∧
      s'.fd = s.fd := by
  by_cases hi : s.cb i = none
  · have hil : i ∉ l := fun hil => (h.cb_iff i).mpr hil hi
    refine ⟨s, if_pos hi, ?_, fun hil' => absurd hil' hil, fun _ => rfl, rfl⟩
    rwa [List.erase_of_not_mem hil]
  · have hil := (h.cb_iff i).mp hi
    obtain ⟨hset, htree, hfd, hcb, hflags⟩ := h.ioSet hil .none
    have hunset : (s.ioSet i .none).flags i = .none := by rw [hflags, update_self]
    have hmem : ∀ j, j ∈ l.erase i ↔ j ≠ i ∧ j ∈ l := fun j => h.nodup.mem_erase_iff
    obtain ⟨tree, hrun, hinv, hdata⟩ := hset.unlink hil
    refine ⟨{ s.ioSet i .none with tree := tree, cb := update (s.ioSet i .none).cb i none }, ?_,
      ⟨hinv, fun j hj => ?_, fun j => ?_, fun j hj => hset.fd j ((hmem j).mp hj).2,
        fun j hj => ?_, hset.want_erase hunset hset.readfds rfl,
        hset.want_erase hunset hset.writefds rfl⟩,
      fun _ => ?_, fun hil' => absurd hil hil', hfd⟩
    · unfold Ios.ioDel
      rw [if_neg hi]
      dsimp only
      rw [hrun]
    · rw [hdata]
      exact hset.data j ((hmem j).mp hj).2
    · rw [hmem]
      by_cases hj : j = i
      · simp [hj]
      · simpa [hj] using hset.cb_iff j
    · by_cases hj' : j = i
      · rw [hj']
        exact hunset
      · exact hset.flags j fun hjl => hj ((hmem j).mpr ⟨hj', hjl⟩)
    · have hgen := splayUnlinkNode_generation hrun
      rwa [htree] at hgen

/-! ### Calls -/

/-- A call that a program makes: a new io has a descriptor of its own, and only a registered io is
set. -/
def IoCall.Proper (s : Ios) : IoCall → Prop
  | .add i _ fd _ => s.cb i = none → 0 ≤ fd ∧ ∀ j, s.cb j ≠ none → s.fd j ≠ fd
  | .set i _ => s.cb i ≠ none
  | .del _ => True

/-- Each call is proper when it is made. -/
def ProperIoCalls : Ios → List IoCall → Prop
  | _, [] => True
  | s, c :: cs => c.Proper s ∧ ∀ s', s.call c = .ok s' → ProperIoCalls s' cs

/-- A call that may register or remove an io. -/
def IoCall.Registers : IoCall → Prop
  | .set _ _ => False
  | _ => True

/-- Every call is counted at most once, and if none was, the tree is the one it was. -/
structure Counted (s s' : Ios) (l l' : List ℕ) (n : ℕ) : Prop where
  ge : s.tree.generation ≤ s'.tree.generation
  le : s'.tree.generation ≤ s.tree.generation + n
  same : s'.tree.generation = s.tree.generation → l' = l ∧ s'.tree = s.tree ∧ s'.fd = s.fd

/-- **A proper call** does not fail, keeps the registry, and counts if it changes the tree. -/
lemma Registered.call (h : Registered s l) {c : IoCall} (hc : c.Proper s) :
    ∃ s' l', s.call c = .ok s' ∧ Registered s' l' ∧ Counted s s' l l' 1 ∧
      (¬ c.Registers → s'.tree.generation = s.tree.generation) := by
  cases c with
  | add i cb fd flags =>
      by_cases hi : s.cb i = none
      · obtain ⟨hfd, hfree⟩ := hc hi
        obtain ⟨s', l', hrun, hreg, -, hgen, -⟩ :=
          h.ioAdd hi hfd (fun j hj => hfree j ((h.cb_iff j).mpr hj)) cb flags
        exact ⟨s', l', hrun, hreg, ⟨by omega, by omega, fun heq => by omega⟩,
          fun hno => absurd trivial hno⟩
      · exact ⟨s, l, if_pos hi, h, ⟨le_rfl, by omega, fun _ => ⟨rfl, rfl, rfl⟩⟩, fun _ => rfl⟩
  | set i flags =>
      obtain ⟨hreg, htree, hfd, -⟩ := h.ioSet ((h.cb_iff i).mp hc) flags
      have hgen := congrArg SplayTree.generation htree
      exact ⟨s.ioSet i flags, l, rfl, hreg, ⟨hgen.ge, by omega, fun _ => ⟨rfl, htree, hfd⟩⟩,
        fun _ => hgen⟩
  | del i =>
      obtain ⟨s', hrun, hreg, hgen, hsame, hfd⟩ := h.ioDel i
      refine ⟨s', l.erase i, hrun, hreg, ?_, fun hno => absurd trivial hno⟩
      by_cases hi : i ∈ l
      · have hgen := hgen hi
        exact ⟨by omega, by omega, fun heq => by omega⟩
      · obtain rfl := hsame hi
        exact ⟨le_rfl, by omega, fun _ => ⟨List.erase_of_not_mem hi, rfl, rfl⟩⟩

/-- Proper calls one after the other. -/
lemma Registered.calls (h : Registered s l) {cs : List IoCall} (hcs : ProperIoCalls s cs) :
    ∃ s' l', s.calls cs = .ok s' ∧ Registered s' l' ∧ Counted s s' l l' cs.length ∧
      ((∀ c ∈ cs, ¬ c.Registers) → s'.tree.generation = s.tree.generation) := by
  induction cs generalizing s l with
  | nil => exact ⟨s, l, rfl, h, ⟨le_rfl, le_rfl, fun _ => ⟨rfl, rfl, rfl⟩⟩, fun _ => rfl⟩
  | cons c cs ih =>
      obtain ⟨s₁, l₁, hrun, hreg, hcount, hquiet⟩ := h.call hcs.1
      obtain ⟨s', l', hruns, hreg', hcount', hquiet'⟩ := ih hreg (hcs.2 s₁ hrun)
      obtain ⟨hge, hle, hsame⟩ := hcount
      obtain ⟨hge', hle', hsame'⟩ := hcount'
      refine ⟨s', l', ?_, hreg', ⟨hge.trans hge', ?_, fun heq => ?_⟩, fun hno => ?_⟩
      · rw [Ios.calls, hrun]
        exact hruns
      · rw [List.length_cons]
        omega
      · obtain ⟨hl, htree, hfd⟩ := hsame (by omega)
        obtain ⟨hl', htree', hfd'⟩ := hsame' (by omega)
        exact ⟨hl'.trans hl, htree'.trans htree, hfd'.trans hfd⟩
      · rw [List.forall_mem_cons] at hno
        exact (hquiet' hno.2).trans (hquiet hno.1)

lemma calls_append {s₁ : Ios} {cs : List IoCall} (h : s.calls cs = .ok s₁) (cs' : List IoCall) :
    s.calls (cs ++ cs') = s₁.calls cs' := by
  induction cs generalizing s with
  | nil =>
      obtain rfl := Except.ok.inj h
      rfl
  | cons c cs ih =>
      rw [List.cons_append, Ios.calls] at *
      cases hcall : s.call c with
      | error e =>
          rw [hcall] at h
          cases h
      | ok s₂ =>
          rw [hcall] at h
          exact ih h

lemma properIoCalls_append {s₁ : Ios} {cs cs' : List IoCall} (hcs : ProperIoCalls s cs)
    (h : s.calls cs = .ok s₁) (hcs' : ProperIoCalls s₁ cs') : ProperIoCalls s (cs ++ cs') := by
  induction cs generalizing s with
  | nil =>
      obtain rfl := Except.ok.inj h
      exact hcs'
  | cons c cs ih =>
      refine ⟨hcs.1, fun s₂ hcall => ih (hcs.2 s₂ hcall) ?_⟩
      rw [Ios.calls, hcall] at h
      exact h

end Registry

/-! ## A round -/

/-- `select` returned the descriptor of the io. -/
def Ios.ready (s : Ios) (readable writable : ℤ → Bool) (i : ℕ) : Bool :=
  writable (s.fd i) || readable (s.fd i)

/-- All callbacks make proper calls, if the loop comes to call them. -/
def ProperDispatch (acts : ℕ → List IoCall) (readable writable : ℤ → Bool) (curgen : ℕ)
    (start : Ios × Option Loc × List Dispatch) : Prop :=
  ∀ s node i log, Loop.Comes (dispatchBody acts readable writable curgen) start
    (s, some node, log) → s.tree.data node = some i → s.ready readable writable i = true →
      ProperIoCalls s (acts log.length)

/-- What a round does from `s` to `s'`: of the registered `ios` it calls those of `log`. -/
structure Dispatches (acts : ℕ → List IoCall) (readable writable : ℤ → Bool) (s s' : Ios)
    (ios : List ℕ) (log : List Dispatch) : Prop where
  /-- in their order, and only what is ready -/
  called : log.map Dispatch.io <+: ios.filter (s.ready readable writable)
  /-- all of it, unless a callback registered or removed an io -/
  complete : log.map Dispatch.io = ios.filter (s.ready readable writable) ∨
    ∃ e, log.getLast? = some e ∧ ∃ c ∈ e.calls, c.Registers
  /-- writing goes first -/
  write : ∀ e ∈ log, e.write = writable (s.fd e.io)
  calls : ∀ n e, log[n]? = some e → e.calls = acts n
  leads : s.calls (log.flatMap Dispatch.calls) = .ok s'

section Round

variable {s s' : Ios} {l done rest : List ℕ} {i curgen fuel : ℕ} {acts : ℕ → List IoCall}
  {readable writable : ℤ → Bool} {log : List Dispatch}

/-- The node of an io leads on to that of the next one. -/
lemma Registered.next (h : Registered s (done ++ i :: rest)) :
    s.tree.chain.next (.node i) = rest.head?.map Loc.node := by
  have hinv := h.inv
  rw [List.map_append, List.map_cons] at hinv
  rw [hinv.next_eq, List.head?_map]

/-- The callback of an io that is registered is called, for what the descriptor is ready for. -/
lemma Registered.body (h : Registered s (done ++ i :: rest)) :
    dispatchBody acts readable writable curgen (s, some (.node i), log) =
      if s.ready readable writable i = true then
        s.callback curgen (rest.head?.map Loc.node) log ⟨i, writable (s.fd i), acts log.length⟩
      else .inr (s, rest.head?.map Loc.node, log) := by
  unfold dispatchBody Ios.ready
  dsimp only
  rw [h.data i (by simp), h.next]
  dsimp only
  cases writable (s.fd i) with
  | true => rfl
  | false =>
      cases readable (s.fd i) with
      | true => rfl
      | false => rfl

/-- An io that is not ready is passed over. -/
lemma Dispatches.skip (hready : ¬ s.ready readable writable i = true)
    (h : Dispatches acts readable writable s s' rest log) :
    Dispatches acts readable writable s s' (i :: rest) log := by
  have hfilter := List.filter_cons_of_neg (l := rest) hready
  exact ⟨hfilter ▸ h.called, hfilter ▸ h.complete, h.write, h.calls, h.leads⟩

/-- An io that is ready is called, and its callback leaves the tree alone. -/
lemma Dispatches.cons {s₁ : Ios} (hready : s.ready readable writable i = true)
    (hcalls : s.calls (acts 0) = .ok s₁) (hfd : s₁.fd = s.fd)
    (h : Dispatches (fun n => acts (n + 1)) readable writable s₁ s' rest log) :
    Dispatches acts readable writable s s' (i :: rest)
      (⟨i, writable (s.fd i), acts 0⟩ :: log) := by
  have hsame : s₁.ready readable writable = s.ready readable writable := by
    funext j
    simp [Ios.ready, hfd]
  obtain ⟨hcalled, hcomplete, hwrite, hacts, hleads⟩ := h
  rw [hsame] at hcalled hcomplete
  rw [hfd] at hwrite
  refine ⟨?_, ?_, ?_, fun n e hn => ?_, (calls_append hcalls _).trans hleads⟩
  · rw [List.filter_cons_of_pos hready, List.map_cons]
    exact List.cons_prefix_cons.mpr ⟨rfl, hcalled⟩
  · rw [List.filter_cons_of_pos hready, List.map_cons]
    refine hcomplete.imp (congrArg _) fun ⟨e, hlast, hregisters⟩ => ⟨e, ?_, hregisters⟩
    rw [List.getLast?_cons, hlast]
    rfl
  · exact List.forall_mem_cons.mpr ⟨rfl, hwrite⟩
  · cases n with
    | zero =>
        obtain rfl := Option.some.inj hn
        rfl
    | succ n => exact hacts n e hn

/-- The callback of the first io changes the tree, and the round is over. -/
lemma Dispatches.single (hready : s.ready readable writable i = true)
    (hcalls : s.calls (acts 0) = .ok s') (hregisters : ∃ c ∈ acts 0, c.Registers) :
    Dispatches acts readable writable s s' (i :: rest) [⟨i, writable (s.fd i), acts 0⟩] := by
  refine ⟨?_, .inr ⟨_, rfl, hregisters⟩, by simp, fun n e hn => ?_, ?_⟩
  · rw [List.filter_cons_of_pos hready]
    exact List.cons_prefix_cons.mpr ⟨rfl, List.nil_prefix⟩
  · cases n with
    | zero =>
        obtain rfl := Option.some.inj hn
        rfl
    | succ n => cases hn
  · simpa using hcalls

/-- **The loop over `io_tree`** ends without a fault. -/
lemma Registered.loop (h : Registered s (done ++ rest)) (hgen : s.tree.generation = curgen)
    (hshort : ∀ n, (acts n).length < 2 ^ 32) (hfuel : rest.length < fuel)
    (hproper : ProperDispatch acts readable writable curgen (s, rest.head?.map Loc.node, log)) :
    ∃ s' l' log', Loop.run (dispatchBody acts readable writable curgen) fuel
        (s, rest.head?.map Loc.node, log) = some (.ok (s', log ++ log')) ∧ Registered s' l' ∧
      ProperIoCalls s (log'.flatMap Dispatch.calls) ∧
      Dispatches (fun n => acts (log.length + n)) readable writable s s' rest log' := by
  induction rest generalizing s done fuel log with
  | nil =>
      obtain ⟨fuel, rfl⟩ : ∃ n, fuel = n + 1 := ⟨fuel - 1, by omega⟩
      refine ⟨s, done ++ [], [], ?_, h, trivial,
        ⟨List.nil_prefix, .inl rfl, by simp, by simp, rfl⟩⟩
      rw [List.append_nil]
      exact Loop.run_of_inl rfl fuel
  | cons i rest ih =>
      obtain ⟨fuel, rfl⟩ : ∃ n, fuel = n + 1 := ⟨fuel - 1, by omega⟩
      rw [List.length_cons] at hfuel
      have hbody : dispatchBody acts readable writable curgen (s, some (.node i), log) = _ := h.body
      have happend : done ++ i :: rest = (done ++ [i]) ++ rest := by simp
      by_cases hready : s.ready readable writable i = true
      · have hcs := hproper s (.node i) i log .refl (h.data i (by simp)) hready
        obtain ⟨s₁, l₁, hrun, hreg, hcount, hquiet⟩ := h.calls hcs
        have hcb : s.cb i ≠ none := (h.cb_iff i).mpr (by simp)
        rw [if_pos hready, Ios.callback, if_neg hcb, hrun] at hbody
        dsimp only at hbody
        by_cases hchanged : curgen % 2 ^ 32 ≠ s₁.tree.generation % 2 ^ 32
        · rw [if_pos hchanged] at hbody
          refine ⟨s₁, l₁, [⟨i, writable (s.fd i), acts log.length⟩],
            Loop.run_of_inl hbody fuel, hreg, by simpa using hcs, .single hready hrun ?_⟩
          by_contra hno
          push Not at hno
          rw [hquiet hno, hgen] at hchanged
          exact hchanged rfl
        · rw [if_neg hchanged] at hbody
          have hsame : s₁.tree.generation = s.tree.generation := by
            have hlength := hshort log.length
            obtain ⟨hge, hle, -⟩ := hcount
            omega
          obtain ⟨rfl, -, hfd⟩ := hcount.same hsame
          have hfuel' : rest.length < fuel := by omega
          obtain ⟨s', l', log', hrun', hreg', hproper', hdispatches⟩ := ih (happend ▸ hreg)
            (hsame.trans hgen) hfuel'
            fun s₂ node j log₂ hcomes => hproper s₂ node j log₂ (.head hbody hcomes)
          refine ⟨s', l', ⟨i, writable (s.fd i), acts log.length⟩ :: log', ?_, hreg',
            properIoCalls_append hcs hrun hproper', .cons hready hrun hfd ?_⟩
          · refine (Loop.run_of_inr hbody fuel).trans (hrun'.trans ?_)
            rw [List.append_assoc]
            rfl
          · have hshift : ∀ e : Dispatch, (fun n => acts ((log ++ [e]).length + n)) =
                fun n => acts (log.length + (n + 1)) := by
              intro e
              funext n
              rw [List.length_append, List.length_singleton, add_assoc, add_comm 1 n]
            rwa [hshift] at hdispatches
      · rw [if_neg hready] at hbody
        have hfuel' : rest.length < fuel := by omega
        obtain ⟨s', l', log', hrun', hreg', hproper', hdispatches⟩ := ih (happend ▸ h) hgen
          hfuel' fun s₂ node j log₂ hcomes => hproper s₂ node j log₂ (.head hbody hcomes)
        exact ⟨s', l', log', (Loop.run_of_inr hbody fuel).trans hrun', hreg', hproper',
          hdispatches.skip hready⟩

end Round

/-! ## Runs -/

/-- The states that proper calls lead to, also those of callbacks. -/
inductive Ios.Reached : Ios → Prop where
  | init : Reached Ios.init
  | call {s s' : Ios} {c : IoCall} (hs : Reached s) (hc : c.Proper s) (h : s.call c = .ok s') :
      Reached s'

/-- The tree, the callbacks and the sets for `select` say the same. -/
structure Ios.Consistent (s : Ios) : Prop where
  tree : ∀ i, .node i ∈ s.tree.nodes ↔ s.cb i ≠ none
  /-- no two ios have a descriptor in common -/
  ordered : (s.tree.nodes.filterMap s.tree.data).Pairwise fun i j => s.fd i < s.fd j
  readfds : ∀ fd, s.readfds fd = true ↔
    ∃ i, s.cb i ≠ none ∧ s.fd i = fd ∧ (s.flags i).read = true
  writefds : ∀ fd, s.writefds fd = true ↔
    ∃ i, s.cb i ≠ none ∧ s.fd i = fd ∧ (s.flags i).write = true
  /-- `select` is told to look far enough -/
  last : ∀ fd, s.readfds fd = true ∨ s.writefds fd = true →
    ∃ node i, s.tree.tail = some node ∧ s.tree.data node = some i ∧ fd ≤ s.fd i

section Runs

variable {s s' : Ios} {l : List ℕ}

lemma Ios.Reached.registered (h : s.Reached) : ∃ l, Registered s l := by
  induction h with
  | init => exact ⟨[], .init⟩
  | call hs hc h ih =>
      obtain ⟨l, hl⟩ := ih
      obtain ⟨s', l', hrun, hreg, -⟩ := hl.call hc
      obtain rfl := Except.ok.inj (hrun.symm.trans h)
      exact ⟨l', hreg⟩

lemma Ios.Reached.calls (h : s.Reached) {cs : List IoCall} (hcs : ProperIoCalls s cs)
    (hrun : s.calls cs = .ok s') : s'.Reached := by
  induction cs generalizing s with
  | nil =>
      obtain rfl := Except.ok.inj hrun
      exact h
  | cons c cs ih =>
      obtain ⟨l, hl⟩ := h.registered
      obtain ⟨s₁, -, hcall, -⟩ := hl.call hcs.1
      rw [Ios.calls, hcall] at hrun
      exact ih (h.call hcs.1 hcall) (hcs.2 s₁ hcall) hrun

/-- The payloads of the nodes are the registered ios. -/
lemma Registered.ios (h : Registered s l) : s.tree.nodes.filterMap s.tree.data = l := by
  rw [h.inv.nodes_eq, List.filterMap_map]
  calc l.filterMap (s.tree.data ∘ Loc.node) = l.filterMap some :=
        List.filterMap_congr fun i hi => h.data i hi
    _ = l := List.filterMap_some

/-- The last io has the greatest descriptor. -/
lemma Registered.last (h : Registered s l) {i : ℕ} (hi : i ∈ l) :
    ∃ node j, s.tree.tail = some node ∧ s.tree.data node = some j ∧ s.fd i ≤ s.fd j := by
  obtain ⟨l, j, rfl⟩ : ∃ l₀ j, l = l₀ ++ [j] :=
    ⟨l.dropLast, l.getLast (List.ne_nil_of_mem hi), (List.dropLast_append_getLast _).symm⟩
  refine ⟨.node j, j, ?_, h.data j (by simp), ?_⟩
  · rw [h.inv.tail]
    simp
  · rcases List.mem_append.mp hi with hi | hi
    · exact ((List.pairwise_append.mp h.sorted).2.2 i hi j (by simp)).le
    · rw [List.mem_singleton.mp hi]

lemma Registered.consistent (h : Registered s l) : s.Consistent := by
  have hset : ∀ {fd : ℤ} {want : IoFlags → Bool},
      (∃ i ∈ l, s.fd i = fd ∧ want (s.flags i) = true) ↔
        ∃ i, s.cb i ≠ none ∧ s.fd i = fd ∧ want (s.flags i) = true := by
    intro fd want
    simp only [h.cb_iff]
  refine ⟨fun i => ?_, ?_, fun fd => (h.readfds fd).trans hset,
    fun fd => (h.writefds fd).trans hset, fun fd hfd => ?_⟩
  · rw [h.inv.nodes_eq, h.cb_iff]
    simp
  · rw [h.ios]
    exact h.sorted
  · rw [h.readfds, h.writefds] at hfd
    rcases hfd with ⟨i, hi, rfl, -⟩ | ⟨i, hi, rfl, -⟩
    · exact h.last hi
    · exact h.last hi

/-- Two ios are registered for reading, on the descriptors 5 and 7. -/
def twoIos : List IoCall := [.add 0 1 5 ⟨true, false⟩, .add 1 1 7 ⟨true, false⟩]

lemma twoIos_registered : ∃ s l, Ios.init.calls twoIos = .ok s ∧ ProperIoCalls .init twoIos ∧
    Registered s l ∧ (∀ i, i ∈ l ↔ i = 1 ∨ i = 0) ∧
    s.fd = update (update (fun _ => 0) 0 5) 1 7 ∧
    s.flags = update (update (fun _ => .none) 0 ⟨true, false⟩) 1 ⟨true, false⟩ := by
  obtain ⟨s₁, l₁, hrun₁, hreg₁, hmem₁, -, hfd₁, hflags₁⟩ :=
    @Registered.ioAdd .init [] 0 5 Registered.init rfl (by decide) (by simp) 1 ⟨true, false⟩
  have hmem₁ : ∀ j, j ∈ l₁ ↔ j = 0 := by simpa using hmem₁
  have hfree : ∀ j ∈ l₁, s₁.fd j ≠ 7 := by
    intro j hj
    rw [hfd₁, (hmem₁ j).mp hj, update_self]
    decide
  have hnew : s₁.cb 1 = none := by
    by_contra hcb
    exact one_ne_zero ((hmem₁ 1).mp ((hreg₁.cb_iff 1).mp hcb))
  obtain ⟨s, l, hrun, hreg, hmem, -, hfd, hflags⟩ :=
    @Registered.ioAdd s₁ l₁ 1 7 hreg₁ hnew (by decide) hfree 1 ⟨true, false⟩
  refine ⟨s, l, ?_, ⟨fun _ => ⟨by decide, fun j hj => absurd rfl hj⟩, fun s₂ hrun₂ => ?_⟩, hreg,
    fun i => by rw [hmem, hmem₁], by rw [hfd, hfd₁]; rfl, by rw [hflags, hflags₁]; rfl⟩
  · have hfirst : Ios.init.call (.add 0 1 5 ⟨true, false⟩) = .ok s₁ := hrun₁
    have hsecond : s₁.call (.add 1 1 7 ⟨true, false⟩) = .ok s := hrun
    rw [twoIos, Ios.calls, hfirst]
    dsimp only
    rw [Ios.calls, hsecond]
    rfl
  · obtain rfl := Except.ok.inj (hrun₁.symm.trans hrun₂)
    exact ⟨fun _ => ⟨by decide, fun j hj => hfree j ((hreg₁.cb_iff j).mp hj)⟩, fun _ _ => trivial⟩

end Runs

end Tinc
