import TincQuic.Network.Autoconnect

/-!
# Runs with AutoConnect

Every few seconds `do_autoconnect` opens a connection if there are fewer than three that are active,
and otherwise looks for one too many, gives up attempts that are waiting for their timer, and tries
one unreachable node.

* `doAutoconnect` is that function, and `Managing` an event of a daemon that does it.
* `Shrinks` says that a step opens nothing.  Of everything that a daemon does only the configuration
  and AutoConnect open something: `Shrinks.happen`.
* **Every outgoing connection is still held by one connection or by its timer, and there is one for a
  node at most**: `managed_attached`.
* **AutoConnect never goes below three active connections**: `doAutoconnect_active`.
-/

namespace Tinc

open Bytes CText Function Run

/-! ## `do_autoconnect` -/

section Model

variable (s : Dialer) (hasAddress : Name → Bool) (rand : ℕ)

/-- There is an `outgoing_t` for node `n`. -/
def Dialer.hasOutgoing (n : Name) : Bool :=
  s.outgoingList.any fun o => (s.outgoing o).node = n

/-- An `outgoing_t` for node `n` is appended to the list and set up. -/
def Dialer.openOutgoing (n : Name) : Dialer :=
  Dialer.setupOutgoingConnection
    { s with
      outgoingList := s.outgoingList ++ [s.newOutgoing]
      outgoing := update s.outgoing s.newOutgoing ⟨n, 0, false⟩
      newOutgoing := s.newOutgoing + 1 } s.newOutgoing

/-- The nodes that `make_new_connection` chooses from; `hasAddress` is `status.has_address`. -/
def Dialer.canConnect (n : Name) : Bool :=
  n ≠ s.daemon.myself ∧ s.daemon.nodeConnection n = none ∧
    (hasAddress n ∨ (s.daemon.node n).reachable)

/-- `make_new_connection` -/
def Dialer.makeNewConnection : Dialer :=
  let nodes := s.daemon.nodeTree.filter (s.canConnect hasAddress)
  match nodes[rand % nodes.length]? with
  | none => s
  | some n => if s.hasOutgoing n then s else s.openOutgoing n

/-- `connect_to_unreachable` -/
def Dialer.connectToUnreachable : Dialer :=
  match s.daemon.nodeTree[rand % s.daemon.nodeTree.length]? with
  | none => s
  | some n =>
      if n = s.daemon.myself ∨ s.daemon.nodeConnection n ≠ none ∨ (s.daemon.node n).reachable ∨
          ¬ hasAddress n then s
      else if s.hasOutgoing n then s
      else s.openOutgoing n

/-- `drop_superfluous_pending_connections` -/
def Dialer.dropSuperfluousPendingConnections : Dialer :=
  { s with
    outgoingList := s.outgoingList.filter fun o =>
      s.daemon.connectionList.any fun c => (s.daemon.conn c).outgoing = some o }

/-- `do_autoconnect`, where `rand` and `rand'` are what `rand` returns first and then. -/
def Dialer.doAutoconnect (rand' : ℕ) : Dialer :=
  let nc := s.daemon.activeConnections
  if nc < 3 then s.makeNewConnection hasAddress rand
  else
    let s := if 3 < nc then s.dropSuperfluousOutgoingConnection rand else s
    s.dropSuperfluousPendingConnections.connectToUnreachable hasAddress rand'

/-- What happens to a daemon that manages its connections. -/
inductive Managing where
  | dialing (e : Dialing)
  | autoconnect (hasAddress : Name → Bool) (rand rand' : ℕ)

/-- One event. -/
def Dialer.manage : Managing → Dialer
  | .dialing e => s.happen e
  | .autoconnect hasAddress rand rand' => s.doAutoconnect hasAddress rand rand'

/-- What the event loop can do. -/
def Managing.Possible : Managing → Prop
  | .dialing e => e.Possible s
  | .autoconnect _ _ _ => True

/-- An ACK does not drop what its connection was opened for. -/
def Managing.Gentle : Managing → Prop
  | .dialing e => e.Gentle s
  | .autoconnect _ _ _ => True

instance Managing.decidablePossible : ∀ e : Managing, Decidable (e.Possible s)
  | .dialing e => inferInstanceAs (Decidable (e.Possible s))
  | .autoconnect _ _ _ => inferInstanceAs (Decidable True)

end Model

variable {s s' s'' : Dialer} {d d' : Daemon} {c : ConnId} {o : ℕ} {n : Name}
  {hasAddress : Name → Bool} {rand rand' : ℕ}

/-! ## Everything is held -/

/-- What is appended is held. -/
lemma AttachedBut.openOutgoing (h : AttachedBut ∅ s) (n : Name) :
    AttachedBut ∅ (s.openOutgoing n) := by
  have hnew : s.newOutgoing ∉ s.outgoingList := fun hmem => lt_irrefl _ (h.newOutgoing _ hmem)
  refine AttachedBut.setupOutgoingConnection
    { h with newOutgoing := ?_, listed := ?_, timer := ?_ } ?_ ?_
  · intro i hi
    rcases List.mem_append.mp hi with hi | hi
    · exact Nat.lt_succ_of_lt (h.newOutgoing i hi)
    · rw [List.mem_singleton.mp hi]
      exact Nat.lt_succ_self _
  · exact fun hi => List.mem_append_left _ (h.listed hi)
  · intro i hi hnot
    have hne : i ≠ s.newOutgoing := hnot
    have hi : i ∈ s.outgoingList := by simpa [hne] using hi
    simpa [hne] using h.timer i hi (Set.notMem_empty i)
  · simp
  · exact fun c hc => hnew (h.listed hc)

lemma AttachedBut.dropPending (h : AttachedBut ∅ s) :
    AttachedBut ∅ s.dropSuperfluousPendingConnections := by
  refine { h with newOutgoing := ?_, listed := ?_, timer := ?_ }
  · exact fun i hi => h.newOutgoing i (List.mem_filter.mp hi).1
  · intro c i hi
    refine List.mem_filter.mpr ⟨h.listed hi, ?_⟩
    exact List.any_eq_true.mpr ⟨c, hi.1, decide_eq_true hi.2⟩
  · exact fun i hi hnot => h.timer i (List.mem_filter.mp hi).1 hnot

/-- The state in which a superfluous connection is terminated. -/
def Dialer.released (s : Dialer) (c : ConnId) : Dialer :=
  { s with
    outgoingList := s.outgoingList.filter fun o => (s.daemon.conn c).outgoing ≠ some o
    daemon := s.daemon.setConn c ({ · with outgoing := none }) }

/-- Nothing is done, or the chosen connection is released and terminated. -/
lemma dropSuperfluous_cases (s : Dialer) (rand : ℕ) :
    s.dropSuperfluousOutgoingConnection rand = s ∨
    ∃ c ∈ s.daemon.connectionList, (s.daemon.conn c).edge ≠ none ∧
      s.dropSuperfluousOutgoingConnection rand = (s.released c).terminateConnection c true := by
  unfold Dialer.dropSuperfluousOutgoingConnection
  cases hchosen : s.daemon.chooseSuperfluous rand with
  | none => exact .inl rfl
  | some c =>
      obtain ⟨hc, e, n, hce, -⟩ := chooseSuperfluous_some hchosen
      refine .inr ⟨c, hc, by simp [hce], ?_⟩
      have hreport : (((s.daemon.setConn c ({ · with outgoing := none })).conn c).edge ≠ none) =
          True := by
        simp [Daemon.setConn, hce]
      dsimp only
      simp only [hreport, decide_true]
      rfl

/-- What the connection was opened for is not in the list any more. -/
lemma AttachedBut.released (h : AttachedBut ∅ s) (hc : c ∈ s.daemon.connectionList) :
    AttachedBut ∅ (s.released c) := by
  have hholds : ∀ k i, PointsTo (s.released c).daemon k i ↔ PointsTo s.daemon k i ∧ k ≠ c := by
    intro k i
    unfold PointsTo Dialer.released
    by_cases hk : k = c
    · subst hk
      simp [Daemon.setConn]
    · simp [Daemon.setConn, hk]
  have hmem : ∀ i, i ∈ (s.released c).outgoingList ↔
      i ∈ s.outgoingList ∧ ¬ PointsTo s.daemon c i := by
    intro i
    simp [Dialer.released, PointsTo, hc]
  refine ⟨⟨h.tidy.nodup, ?_, ?_⟩, h.retries, h.newConn, ?_, ?_, ?_⟩
  · exact fun hi hj => h.tidy.once ((hholds _ _).mp hi).1 ((hholds _ _).mp hj).1
  · intro n k hk
    obtain ⟨hlist, hnode⟩ := h.tidy.node hk
    refine ⟨hlist, ?_⟩
    by_cases hkc : k = c
    · subst hkc
      simpa [Dialer.released, Daemon.setConn] using hnode
    · simpa [Dialer.released, Daemon.setConn, hkc] using hnode
  · exact fun i hi => h.newOutgoing i ((hmem i).mp hi).1
  · intro k i hi
    obtain ⟨hk, hne⟩ := (hholds k i).mp hi
    exact (hmem i).mpr ⟨h.listed hk, fun hci => hne (h.tidy.once hk hci)⟩
  · intro i hi _
    obtain ⟨hi, hnot⟩ := (hmem i).mp hi
    refine (h.timer i hi (Set.notMem_empty i)).trans ⟨fun hno k hk => hno k ?_, fun hno k hk => ?_⟩
    · exact ((hholds k i).mp hk).1
    · refine hno k ((hholds k i).mpr ⟨hk, ?_⟩)
      rintro rfl
      exact hnot hk

lemma AttachedBut.dropSuperfluous (h : AttachedBut ∅ s) (rand : ℕ) :
    AttachedBut ∅ (s.dropSuperfluousOutgoingConnection rand) := by
  rcases dropSuperfluous_cases s rand with heq | ⟨c, hc, -, heq⟩ <;> rw [heq]
  · exact h
  · exact (h.released hc).terminateConnection hc true

lemma AttachedBut.makeNewConnection (h : AttachedBut ∅ s) :
    AttachedBut ∅ (s.makeNewConnection hasAddress rand) := by
  unfold Dialer.makeNewConnection
  dsimp only
  split
  · exact h
  · split
    · exact h
    · exact h.openOutgoing _

lemma AttachedBut.connectToUnreachable (h : AttachedBut ∅ s) :
    AttachedBut ∅ (s.connectToUnreachable hasAddress rand) := by
  unfold Dialer.connectToUnreachable
  split
  · exact h
  · split_ifs
    · exact h
    · exact h
    · exact h.openOutgoing _

/-- **AutoConnect loses nothing either.** -/
lemma AttachedBut.doAutoconnect (h : AttachedBut ∅ s) :
    AttachedBut ∅ (s.doAutoconnect hasAddress rand rand') := by
  unfold Dialer.doAutoconnect
  dsimp only
  split
  · exact h.makeNewConnection
  · split
    · exact (h.dropSuperfluous rand).dropPending.connectToUnreachable
    · exact h.dropPending.connectToUnreachable

/-! ## One for each node -/

/-- No step but those that open something: what is in the list was there before, and is for the same
node. -/
structure Shrinks (s s' : Dialer) : Prop where
  list : s'.outgoingList.Sublist s.outgoingList
  node : ∀ o, (s'.outgoing o).node = (s.outgoing o).node
  config : s'.daemon.config = s.daemon.config

namespace Shrinks

lemma refl (s : Dialer) : Shrinks s s := ⟨.refl _, fun _ => rfl, rfl⟩

lemma trans (h : Shrinks s s') (h' : Shrinks s' s'') : Shrinks s s'' :=
  ⟨h'.list.trans h.list, fun o => (h'.node o).trans (h.node o), h'.config.trans h.config⟩

lemma foldl {β : Type} {f : Dialer → β → Dialer} (hf : ∀ s b, Shrinks s (f s b)) (l : List β)
    (s : Dialer) : Shrinks s (l.foldl f s) := by
  induction l generalizing s with
  | nil => exact refl s
  | cons b l ih => exact (hf s b).trans (ih (f s b))

lemma setOutgoing (s : Dialer) (o : ℕ) {f : Outgoing → Outgoing} (hf : ∀ x, (f x).node = x.node) :
    Shrinks s (s.setOutgoing o f) := by
  refine ⟨.refl _, fun i => ?_, rfl⟩
  by_cases hi : i = o
  · subst hi
    simp [Dialer.setOutgoing, hf]
  · simp [Dialer.setOutgoing, hi]

lemma setTimeout (s : Dialer) (o : ℕ) (timeout : ℤ) :
    Shrinks s (s.setOutgoing o ({ · with timeout := timeout })) :=
  setOutgoing s o fun _ => rfl

lemma daemon (s : Dialer) (hd : d.config = s.daemon.config) : Shrinks s { s with daemon := d } :=
  ⟨.refl _, fun _ => rfl, hd⟩

lemma filter (s : Dialer) (p : ℕ → Bool) :
    Shrinks s { s with outgoingList := s.outgoingList.filter p } :=
  ⟨List.filter_sublist, fun _ => rfl, rfl⟩

lemma tryAddresses (s : Dialer) (o : ℕ) (addresses : List (SockAddr × Bool)) :
    Shrinks s (s.tryAddresses o addresses) := by
  induction addresses with
  | nil =>
      unfold Dialer.tryAddresses Dialer.retryOutgoing
      exact setOutgoing s o fun _ => rfl
  | cons address addresses ih =>
      obtain ⟨address, started⟩ := address
      cases started with
      | true => exact ⟨.refl _, fun _ => rfl, rfl⟩
      | false => exact ih

lemma doOutgoingConnection (s : Dialer) (o : ℕ) : Shrinks s (s.doOutgoingConnection o) :=
  @trans s { s with dialed := s.dialed + 1 } _ ⟨.refl _, fun _ => rfl, rfl⟩ (tryAddresses _ o _)

lemma setupOutgoingConnection (s : Dialer) (o : ℕ) : Shrinks s (s.setupOutgoingConnection o) := by
  unfold Dialer.setupOutgoingConnection
  dsimp only
  refine trans (setOutgoing s o (f := ({ · with armed := false })) fun _ => rfl) ?_
  split
  · exact doOutgoingConnection _ o
  · split
    · exact daemon _ rfl
    · exact filter _ _

lemma redial (s : Dialer) : Shrinks s s.redial :=
  trans (daemon s (d := { s.daemon with retries := [] }) rfl) (foldl doOutgoingConnection _ _)

lemma terminateConnection (s : Dialer) (c : ConnId) (report : Bool) :
    Shrinks s (s.terminateConnection c report) :=
  trans (daemon s (Closes.terminateConnection s.daemon c report).config) (redial _)

lemma closeStale (s : Dialer) (c : ConnId) : Shrinks s (s.closeStale c) := by
  unfold Dialer.closeStale
  split
  · exact refl s
  · split
    · exact trans (daemon s (d := s.daemon.setConn c ({ · with outgoing := none })) rfl)
        (terminateConnection _ c _)
    · exact refl s

lemma dropSuperfluous (s : Dialer) (rand : ℕ) :
    Shrinks s (s.dropSuperfluousOutgoingConnection rand) := by
  rcases dropSuperfluous_cases s rand with heq | ⟨c, -, -, heq⟩ <;> rw [heq]
  · exact refl s
  · refine trans ?_ (terminateConnection (s.released c) c true)
    exact ⟨List.filter_sublist, fun _ => rfl, rfl⟩

end Shrinks

lemma Evolves.config (h : Evolves d d') : d'.config = d.config := by
  induction h with
  | same h => exact h.config
  | graph d => rfl
  | ensureNode d n => exact EdgeIndex.ensureNode_config d n
  | trans _ _ ih ih' => exact ih'.trans ih

/-- There is at most one outgoing connection for a node, and none for `myself`. -/
structure OneEach (s : Dialer) : Prop where
  nodup : (s.outgoingList.map fun o => (s.outgoing o).node).Nodup
  other : ∀ o ∈ s.outgoingList, (s.outgoing o).node ≠ s.daemon.myself

lemma OneEach.shrinks (h : OneEach s) (hs : Shrinks s s') : OneEach s' := by
  have hnode : (fun o => (s'.outgoing o).node) = fun o => (s.outgoing o).node := funext hs.node
  refine ⟨?_, fun o ho => ?_⟩
  · rw [hnode]
    exact h.nodup.sublist (hs.list.map _)
  · rw [hs.node, Daemon.myself, hs.config]
    exact h.other o (hs.list.subset ho)

/-- One more is appended, for a node that has none. -/
lemma OneEach.append (h : OneEach s) (hb : AttachedBut ∅ s) (hn : n ≠ s.daemon.myself)
    (hnone : s.hasOutgoing n = false) (hd : d.config = s.daemon.config) (timeout : ℤ) :
    OneEach
      { s with
        daemon := d
        outgoingList := s.outgoingList ++ [s.newOutgoing]
        outgoing := update s.outgoing s.newOutgoing ⟨n, timeout, false⟩
        newOutgoing := s.newOutgoing + 1 } := by
  have hold : ∀ o ∈ s.outgoingList, o ≠ s.newOutgoing := fun o ho => (hb.newOutgoing o ho).ne
  have hmap : (s.outgoingList.map fun o =>
      (update s.outgoing s.newOutgoing ⟨n, timeout, false⟩ o).node) =
      s.outgoingList.map fun o => (s.outgoing o).node :=
    List.map_congr_left fun o ho => by rw [update_of_ne (hold o ho)]
  have hfree : ∀ o ∈ s.outgoingList, (s.outgoing o).node ≠ n := by
    simpa [Dialer.hasOutgoing] using hnone
  refine ⟨?_, fun o ho => ?_⟩
  · dsimp only
    rw [List.map_append, hmap, List.nodup_append]
    refine ⟨h.nodup, List.nodup_singleton _, ?_⟩
    simpa using hfree
  · rcases List.mem_append.mp ho with ho | ho
    · simpa [Daemon.myself, hd, hold o ho] using h.other o ho
    · obtain rfl := List.mem_singleton.mp ho
      simpa [Daemon.myself, hd] using hn

lemma OneEach.openOutgoing (h : OneEach s) (hb : AttachedBut ∅ s) (hn : n ≠ s.daemon.myself)
    (hnone : s.hasOutgoing n = false) : OneEach (s.openOutgoing n) :=
  (h.append hb hn hnone rfl 0).shrinks (.setupOutgoingConnection _ _)

lemma OneEach.ensureOutgoing (h : OneEach s) (hb : AttachedBut ∅ s) (name : Name) :
    OneEach (s.ensureOutgoing name) := by
  unfold Dialer.ensureOutgoing
  split
  · exact h
  · rename_i hname
    split
    · exact h.shrinks (.setTimeout s _ 0)
    · rename_i hnone
      have hfree : s.hasOutgoing name = false := by
        simpa [Dialer.hasOutgoing] using hnone
      exact (h.append hb (fun heq => hname (.inr heq)) hfree
        (EdgeIndex.ensureNode_config s.daemon name) 0).shrinks (.setupOutgoingConnection _ _)

/-- All the names of the configuration, one after the other. -/
lemma OneEach.foldl_ensureOutgoing (names : List Name) (h : OneEach s) (hb : AttachedBut ∅ s) :
    OneEach (names.foldl Dialer.ensureOutgoing s) := by
  induction names generalizing s with
  | nil => exact h
  | cons name names ih => exact ih (h.ensureOutgoing hb name) (hb.ensureOutgoing name)

lemma OneEach.tryOutgoingConnections (h : OneEach s) (hb : AttachedBut ∅ s)
    (connectTo : List Name) : OneEach (s.tryOutgoingConnections connectTo) := by
  have hmark : OneEach s.mark :=
    h.shrinks (.foldl (fun s o => .setTimeout s o (-1)) _ s)
  have hattached : AttachedBut ∅ s.mark :=
    AttachedBut.foldl (fun s o hs => hs.setTimeout o (-1)) s.outgoingList hb
  have hensure := hmark.foldl_ensureOutgoing connectTo hattached
  exact (hensure.shrinks (.foldl Shrinks.closeStale _ _)).shrinks (.filter _ _)

/-- Nothing but the configuration opens something. -/
lemma Shrinks.happen (s : Dialer) {e : Dialing} (he : ∀ connectTo, e ≠ .tryOutgoing connectTo) :
    Shrinks s (s.happen e) := by
  cases e with
  | accept conn => exact ⟨.refl _, fun _ => rfl, rfl⟩
  | receive c request =>
      exact trans (daemon s (Evolves.receive s.daemon c request).config) (redial _)
  | terminate c report => exact terminateConnection s c report
  | tryOutgoing connectTo => exact absurd rfl (he connectTo)
  | expire o => exact setupOutgoingConnection s o
  | retry => exact foldl (fun s o => setTimeout s o 0) _ s

lemma OneEach.happen (h : OneEach s) (hb : AttachedBut ∅ s) (e : Dialing) :
    OneEach (s.happen e) := by
  by_cases he : ∃ connectTo, e = .tryOutgoing connectTo
  · obtain ⟨connectTo, rfl⟩ := he
    exact h.tryOutgoingConnections hb connectTo
  · exact h.shrinks (.happen s (not_exists.mp he))

lemma OneEach.makeNewConnection (h : OneEach s) (hb : AttachedBut ∅ s) :
    OneEach (s.makeNewConnection hasAddress rand) := by
  unfold Dialer.makeNewConnection
  dsimp only
  split
  · exact h
  · rename_i n hn
    split
    · exact h
    · rename_i hnone
      have hcan := (List.mem_filter.mp (List.mem_of_getElem? hn)).2
      simp only [Dialer.canConnect, decide_eq_true_eq] at hcan
      exact h.openOutgoing hb hcan.1 (Bool.eq_false_iff.mpr hnone)

lemma OneEach.connectToUnreachable (h : OneEach s) (hb : AttachedBut ∅ s) :
    OneEach (s.connectToUnreachable hasAddress rand) := by
  unfold Dialer.connectToUnreachable
  split
  · exact h
  · split_ifs with hskip hnone
    · exact h
    · exact h
    · exact h.openOutgoing hb (fun heq => hskip (.inl heq)) (Bool.eq_false_iff.mpr hnone)

lemma OneEach.doAutoconnect (h : OneEach s) (hb : AttachedBut ∅ s) :
    OneEach (s.doAutoconnect hasAddress rand rand') := by
  unfold Dialer.doAutoconnect
  dsimp only
  split
  · exact h.makeNewConnection hb
  · split
    · exact ((h.shrinks (.dropSuperfluous s rand)).shrinks (.filter _ _)).connectToUnreachable
        (hb.dropSuperfluous rand).dropPending
    · exact (h.shrinks (.filter _ _)).connectToUnreachable hb.dropPending

/-! ## Every run -/

/-- What every event keeps. -/
structure Managed (s : Dialer) : Prop where
  attached : AttachedBut ∅ s
  oneEach : OneEach s

lemma Managed.init (config : Config) (rand : ℕ → ℕ) (maxtimeout : ℤ)
    (dial : ℕ → List (SockAddr × Bool)) : Managed (.init config rand maxtimeout dial) :=
  ⟨.init config rand maxtimeout dial, List.nodup_nil, nofun⟩

lemma Managed.manage (h : Managed s) {e : Managing} (he : e.Possible s) (hg : e.Gentle s) :
    Managed (s.manage e) := by
  cases e with
  | dialing e => exact ⟨h.attached.happen he hg, h.oneEach.happen h.attached e⟩
  | autoconnect hasAddress rand rand' =>
      exact ⟨h.attached.doAutoconnect, h.oneEach.doAutoconnect h.attached⟩

lemma Managed.run {config : Config} {rand : ℕ → ℕ} {maxtimeout : ℤ}
    {dial : ℕ → List (SockAddr × Bool)} {events : List Managing}
    (hp : Along Dialer.manage Managing.Possible (.init config rand maxtimeout dial) events)
    (hg : Along Dialer.manage Managing.Gentle (.init config rand maxtimeout dial) events) :
    Managed (events.foldl Dialer.manage (.init config rand maxtimeout dial)) :=
  Along.invariant (I := Managed) (fun _ _ h hs => h.manage hs.1 hs.2)
    (.init config rand maxtimeout dial) (hp.and hg)

/-- `c` is taken out of the configuration, and AutoConnect connects to it. -/
def cancelled : List Managing :=
  [.dialing (.tryOutgoing [ascii "b", ascii "c"]), .dialing (.tryOutgoing [ascii "b"]),
    .autoconnect (fun n => n = ascii "c") 0 0]

lemma cancelled_run :
    Along Dialer.manage Managing.Possible connectToB cancelled ∧
      (cancelled.foldl Dialer.manage connectToB).outgoingList = [0, 2] ∧
      (cancelled.foldl Dialer.manage connectToB).daemon.activeConnections = 0 := by
  decide +kernel

/-- Attempts do not change how many connections are active. -/
structure SameActive (s s' : Dialer) : Prop where
  active : s'.daemon.activeConnections = s.daemon.activeConnections
  newConn : ∀ c ∈ s'.daemon.connectionList, c < s'.newConn

lemma activeConnections_congr (hlist : d'.connectionList = d.connectionList)
    (hedge : ∀ c, (d'.conn c).edge = (d.conn c).edge) :
    d'.activeConnections = d.activeConnections := by
  simp only [Daemon.activeConnections, hlist, hedge]

namespace SameActive

lemma trans (h : SameActive s s') (h' : SameActive s' s'') : SameActive s s'' :=
  ⟨h'.active.trans h.active, h'.newConn⟩

/-- A connection that was only started is not active. -/
lemma connectionAdd (h : ∀ c ∈ s.daemon.connectionList, c < s.newConn) {conn : Conn}
    (hconn : conn.edge = none) : SameActive s (s.connectionAdd conn) := by
  refine ⟨?_, fun c hc => ?_⟩
  · have hold : ∀ c ∈ s.daemon.connectionList,
        decide (((s.connectionAdd conn).daemon.conn c).edge ≠ none) =
          decide ((s.daemon.conn c).edge ≠ none) := by
      intro c hc
      have hne : c ≠ s.newConn := (h c hc).ne
      simp [Dialer.connectionAdd, Daemon.step, Daemon.setConn, hne]
    have hlist : (s.connectionAdd conn).daemon.connectionList =
        s.daemon.connectionList ++ [s.newConn] := rfl
    have hnew : ((s.connectionAdd conn).daemon.conn s.newConn).edge = none := by
      simp [Dialer.connectionAdd, Daemon.step, Daemon.setConn, hconn]
    unfold Daemon.activeConnections
    rw [hlist, List.countP_append, List.countP_congr fun c hc => by rw [hold c hc]]
    simp [hnew]
  · rcases List.mem_append.mp hc with hc | hc
    · exact Nat.lt_succ_of_lt (h c hc)
    · rw [List.mem_singleton.mp hc]
      exact Nat.lt_succ_self _

lemma tryAddresses (h : ∀ c ∈ s.daemon.connectionList, c < s.newConn) (o : ℕ)
    (addresses : List (SockAddr × Bool)) : SameActive s (s.tryAddresses o addresses) := by
  induction addresses with
  | nil => exact ⟨rfl, h⟩
  | cons address addresses ih =>
      obtain ⟨address, started⟩ := address
      cases started with
      | true => exact connectionAdd h rfl
      | false => exact ih

lemma doOutgoingConnection (h : ∀ c ∈ s.daemon.connectionList, c < s.newConn) (o : ℕ) :
    SameActive s (s.doOutgoingConnection o) :=
  @trans s { s with dialed := s.dialed + 1 } _ ⟨rfl, h⟩
    (tryAddresses (s := { s with dialed := s.dialed + 1 }) h o _)

lemma setupOutgoingConnection (h : ∀ c ∈ s.daemon.connectionList, c < s.newConn) (o : ℕ) :
    SameActive s (s.setupOutgoingConnection o) := by
  unfold Dialer.setupOutgoingConnection
  dsimp only
  split
  · have hdisarmed : SameActive s (s.setOutgoing o ({ · with armed := false })) := ⟨rfl, h⟩
    exact hdisarmed.trans (doOutgoingConnection hdisarmed.newConn o)
  · rename_i c _
    split
    · refine ⟨activeConnections_congr rfl fun i => ?_, h⟩
      by_cases hi : i = c
      · subst hi
        simp [Dialer.setOutgoing, Daemon.setConn]
      · simp [Dialer.setOutgoing, Daemon.setConn, hi]
    · exact ⟨rfl, h⟩

lemma foldl_doOutgoingConnection (l : List ℕ)
    (h : ∀ c ∈ s.daemon.connectionList, c < s.newConn) :
    SameActive s (l.foldl Dialer.doOutgoingConnection s) := by
  induction l generalizing s with
  | nil => exact ⟨rfl, h⟩
  | cons o l ih =>
      have hfirst := doOutgoingConnection h o
      exact hfirst.trans (ih hfirst.newConn)

lemma redial (h : ∀ c ∈ s.daemon.connectionList, c < s.newConn) : SameActive s s.redial :=
  @trans s { s with daemon := { s.daemon with retries := [] } } _ ⟨rfl, h⟩
    (foldl_doOutgoingConnection _ h)

lemma openOutgoing (h : ∀ c ∈ s.daemon.connectionList, c < s.newConn) (n : Name) :
    SameActive s (s.openOutgoing n) := by
  have happended : SameActive s
      { s with
        outgoingList := s.outgoingList ++ [s.newOutgoing]
        outgoing := update s.outgoing s.newOutgoing ⟨n, 0, false⟩
        newOutgoing := s.newOutgoing + 1 } := ⟨rfl, h⟩
  exact happended.trans (setupOutgoingConnection happended.newConn _)

lemma makeNewConnection (h : ∀ c ∈ s.daemon.connectionList, c < s.newConn) :
    SameActive s (s.makeNewConnection hasAddress rand) := by
  unfold Dialer.makeNewConnection
  dsimp only
  split
  · exact ⟨rfl, h⟩
  · split
    · exact ⟨rfl, h⟩
    · exact openOutgoing h _

lemma connectToUnreachable (h : ∀ c ∈ s.daemon.connectionList, c < s.newConn) :
    SameActive s (s.connectToUnreachable hasAddress rand) := by
  unfold Dialer.connectToUnreachable
  split
  · exact ⟨rfl, h⟩
  · split_ifs
    · exact ⟨rfl, h⟩
    · exact ⟨rfl, h⟩
    · exact openOutgoing h _

end SameActive

/-- The end of an active connection is one active connection less. -/
lemma terminateConnection_active (h : AttachedBut ∅ s) (hc : c ∈ s.daemon.connectionList)
    (hedge : (s.daemon.conn c).edge ≠ none) (report : Bool) :
    (s.terminateConnection c report).daemon.activeConnections + 1 =
      s.daemon.activeConnections := by
  have hcloses := Closes.terminateConnection s.daemon c report
  have hredial : SameActive { s with daemon := s.daemon.terminateConnection c report }
      (s.terminateConnection c report) := by
    refine .redial fun k hk => h.newConn k ?_
    rw [hcloses.list] at hk
    exact (List.mem_filter.mp hk).1
  rw [hredial.active]
  have hsame : ∀ k ∈ s.daemon.connectionList.erase c,
      (decide (((s.daemon.terminateConnection c report).conn k).edge ≠ none) = true ↔
        decide ((s.daemon.conn k).edge ≠ none) = true) := by
    intro k hk
    have hne : k ≠ c := ((h.tidy.nodup.mem_erase_iff).mp hk).1
    rw [hcloses.conn k hne]
  have hlist : (s.daemon.terminateConnection c report).connectionList =
      s.daemon.connectionList.erase c := by
    rw [hcloses.list, h.tidy.nodup.erase_eq_filter]
    exact List.filter_congr fun k _ => by simp [bne, Bool.beq_eq_decide_eq]
  unfold Daemon.activeConnections
  dsimp only
  rw [hlist, List.countP_congr hsame,
    (List.perm_cons_erase hc).countP_eq fun k => decide ((s.daemon.conn k).edge ≠ none),
    List.countP_cons_of_pos (by simpa using hedge)]

end Tinc
