import TincQuic.Daemon.Indexes
import TincQuic.Daemon.Reachability
import TincQuic.Daemon.Routes
import TincQuic.Network.Outgoing

/-!
# `autoconnect.c`: a connection that is not needed

With more than three active connections a daemon drops one that it opened, if the node at the other
end has another edge.

* `chooseSuperfluous` is the choice, and `dropSuperfluousOutgoingConnection` the function.
* Without the edge of the connection there are the same links but one: `bothWays_edgeDel`.
* **The node stays reachable exactly if there is another way to it**: `drop_spares_iff`.  A second
  edge is not enough, for it may lead away from us: `bridge_not_spared`.
-/

namespace Tinc

open Bytes CText Function

/-! ## `drop_superfluous_outgoing_connection` -/

section Model

variable (d : Daemon) (s : Dialer)

/-- The number of active connections, `nc` of `do_autoconnect`. -/
def Daemon.activeConnections : ℕ := d.connectionList.countP fun c => (d.conn c).edge ≠ none

/-- The test in both loops. -/
def Daemon.superfluous (c : ConnId) : Bool :=
  (d.conn c).edge ≠ none ∧ (d.conn c).outgoing ≠ none ∧
    (d.conn c).node.any fun n => 2 ≤ (d.edgeTree n).length

/-- The second loop, which passes over `r` of the connections. -/
def Daemon.nthSuperfluous : List ConnId → ℕ → Option ConnId
  | [], _ => none
  | c :: list, r =>
      if ¬ d.superfluous c then Daemon.nthSuperfluous list r
      else
        match r with
        | 0 => some c
        | r + 1 => Daemon.nthSuperfluous list r

/-- The connection that is chosen, where `rand` is what `rand` returns. -/
def Daemon.chooseSuperfluous (rand : ℕ) : Option ConnId :=
  let count := d.connectionList.countP d.superfluous
  if count = 0 then none else d.nthSuperfluous d.connectionList (rand % count)

/-- `drop_superfluous_outgoing_connection` -/
def Dialer.dropSuperfluousOutgoingConnection (rand : ℕ) : Dialer :=
  match s.daemon.chooseSuperfluous rand with
  | none => s
  | some c =>
      let outgoingList := s.outgoingList.filter fun o => (s.daemon.conn c).outgoing ≠ some o
      let daemon := s.daemon.setConn c ({ · with outgoing := none })
      { s with outgoingList := outgoingList, daemon := daemon }.terminateConnection c
        ((daemon.conn c).edge ≠ none)

end Model

variable {d d' d'' : Daemon} {s : Dialer} {c : ConnId} {n m a b : Name} {e : EdgeId} {rand : ℕ}

lemma nthSuperfluous_some {list : List ConnId} {r : ℕ} (h : d.nthSuperfluous list r = some c) :
    c ∈ list ∧ d.superfluous c = true := by
  induction list generalizing r with
  | nil => cases h
  | cons i list ih =>
      rw [Daemon.nthSuperfluous.eq_def] at h
      dsimp only at h
      split at h
      · exact (ih h).imp_left (List.mem_cons_of_mem i)
      · rename_i hi
        cases r with
        | zero =>
            obtain rfl := Option.some.inj h
            exact ⟨List.mem_cons_self, not_not.mp hi⟩
        | succ r => exact (ih h).imp_left (List.mem_cons_of_mem i)

/-- An active connection of ours is chosen. -/
lemma chooseSuperfluous_some (h : d.chooseSuperfluous rand = some c) :
    c ∈ d.connectionList ∧ ∃ e n, (d.conn c).edge = some e ∧ (d.conn c).node = some n := by
  unfold Daemon.chooseSuperfluous at h
  dsimp only at h
  split at h
  · cases h
  · obtain ⟨hc, hs⟩ := nthSuperfluous_some h
    simp only [Daemon.superfluous, decide_eq_true_eq] at hs
    obtain ⟨he, -, hn⟩ := hs
    obtain ⟨n, hn, -⟩ := (Option.any_eq_true _ _).mp hn
    obtain ⟨e, he⟩ := Option.ne_none_iff_exists'.mp he
    exact ⟨hc, e, n, he, hn⟩

/-! ## Daemons with the same graph -/

/-- What `sssp_bfs` looks at is the same. -/
structure SameGraph (d d' : Daemon) : Prop extends SameNodes d d' where
  edgeTree : d'.edgeTree = d.edgeTree
  edge : d'.edge = d.edge

namespace SameGraph

lemma refl (d : Daemon) : SameGraph d d := ⟨.refl d, rfl, rfl⟩

lemma trans (h : SameGraph d d') (h' : SameGraph d' d'') : SameGraph d d'' :=
  ⟨h.toSameNodes.trans h'.toSameNodes, h'.edgeTree.trans h.edgeTree, h'.edge.trans h.edge⟩

lemma of_same (hs : SameIndexes d d') (hn : SameNodes d d') : SameGraph d d' := by
  obtain ⟨_, _, _, _, _, _, _, rfl⟩ := hs
  exact ⟨hn, rfl, rfl⟩

lemma setConn (d : Daemon) (c : ConnId) (f : Conn → Conn) : SameGraph d (d.setConn c f) :=
  ⟨⟨rfl, rfl, rfl⟩, rfl, rfl⟩

lemma detach (d : Daemon) (c : ConnId) (n : Name) : SameGraph d (d.detach c n) := by
  unfold Daemon.detach
  split <;> exact ⟨⟨rfl, rfl, rfl⟩, rfl, rfl⟩

lemma edgeDel (h : SameGraph d d') (e : EdgeId) : SameGraph (d.edgeDel e) (d'.edgeDel e) := by
  have hedge : (d'.unlinkReverse e).edge = (d.unlinkReverse e).edge := by
    unfold Daemon.unlinkReverse
    rw [h.edge]
    split
    · exact h.edge
    · simp only [Daemon.setEdge, h.edge]
  have htree : ∀ d : Daemon, (d.unlinkReverse e).edgeTree = d.edgeTree := fun d => by
    rw [unlinkReverse_eq]
  have hd := SameNodes.edgeDel d e
  have hd' := SameNodes.edgeDel d' e
  refine ⟨⟨?_, ?_, ?_⟩, ?_, hedge⟩
  · rw [hd.config, hd'.config, h.config]
  · rw [hd.nodeTree, hd'.nodeTree, h.nodeTree]
  · rw [hd.node, hd'.node, h.node]
  unfold Daemon.edgeDel Daemon.deleteWeight
  dsimp only
  rw [hedge, htree, htree, h.edgeTree]

lemma bfsRounds (h : SameGraph d d') (k : ℕ) : bfsRounds d' k = bfsRounds d k := by
  obtain ⟨⟨hconfig, hnodes, hnode⟩, htree, hedge⟩ := h
  cases d
  cases d'
  dsimp only at hconfig hnodes hnode htree hedge
  subst hconfig hnodes hnode htree hedge
  rfl

lemma bothWays (h : SameGraph d d') : BothWays d' n m ↔ BothWays d n m := by
  unfold BothWays
  rw [h.edgeTree, h.edge]

lemma enclosed (h : SameGraph d d') (hd : Enclosed d) : Enclosed d' := by
  obtain ⟨⟨hconfig, hnodes, -⟩, htree, hedge⟩ := h
  refine ⟨?_, ?_, ?_⟩
  · rw [Daemon.myself, hconfig, hnodes]
    exact hd.myself
  · rw [htree, hnodes]
    exact hd.known
  · rw [htree, hedge]
    exact hd.reverse

end SameGraph

/-- The end of an active connection leaves the nodes as the graph without its edge says. -/
lemma terminateConnection_node (hn : (d.conn c).node = some n) (he : (d.conn c).edge = some e)
    (report : Bool) :
    ∃ d', SameGraph (d.edgeDel e) d' ∧
      (d.terminateConnection c report).node = (graph d').node := by
  have hsent : ∀ d : Daemon, SameGraph d
      (if report = true ∧ ¬ d.config.tunnelserver = true then
        d.sendDelEdge .everyone (d.edge e).fromNode (d.edge e).toNode
      else d) := by
    intro d
    split
    · exact .of_same (.sendDelEdge d _ _ _) (.sendDelEdge d _ _ _)
    · exact .refl d
  refine ⟨_, (((SameGraph.detach d c n).trans (hsent _)).edgeDel e).trans
    (.setConn _ c ({ · with edge := none })), ?_⟩
  unfold Daemon.terminateConnection
  rw [hn, he]
  unfold Daemon.removeEdge
  dsimp only
  split
  · exact (SameNodes.cleanUp _ n).node
  · rfl

lemma tryAddresses_node (s : Dialer) (o : ℕ) (addresses : List (SockAddr × Bool)) :
    (s.tryAddresses o addresses).daemon.node = s.daemon.node := by
  induction addresses with
  | nil => rfl
  | cons address addresses ih =>
      obtain ⟨address, started⟩ := address
      cases started with
      | true => rfl
      | false => exact ih

/-- New attempts do not change the nodes. -/
lemma redial_node (s : Dialer) : s.redial.daemon.node = s.daemon.node := by
  unfold Dialer.redial
  generalize s.daemon.retries = retries
  have hloop : ∀ s : Dialer, (retries.foldl Dialer.doOutgoingConnection s).daemon.node =
      s.daemon.node := by
    induction retries with
    | nil => exact fun _ => rfl
    | cons o retries ih =>
        intro s
        rw [List.foldl_cons, ih, Dialer.doOutgoingConnection, tryAddresses_node]
  rw [hloop]

/-! ## Without one edge -/

/-- Without the edge `e` all links are left but the one that it was part of. -/
lemma bothWays_edgeDel (h : EdgeIndex d) (he : e ∈ d.edgeTree n) :
    BothWays (d.edgeDel e) a b ↔ BothWays d a b ∧ s(a, b) ≠ s(n, (d.edge e).toNode) := by
  have hmem := (h.edgeDel he).2
  have hto := fun i => (Edge.said_inj (EdgeIndex.edgeDel_said d e i)).2.1
  -- an edge of `n` that ends where `e` does is `e`
  have honly : ∀ i ∈ d.edgeTree n, (d.edge i).toNode = (d.edge e).toNode → i = e :=
    fun i hi hie => (h.shelved.sorted n).eq_of_key hi he (by rw [toKey, toKey, hie])
  unfold BothWays
  simp only [hmem, hto]
  constructor
  · rintro ⟨⟨i, ⟨hi, hie⟩, rfl⟩, j, ⟨hj, hje⟩, rfl⟩
    refine ⟨⟨⟨i, hi, rfl⟩, j, hj, rfl⟩, fun hlink => ?_⟩
    rcases Sym2.eq_iff.mp hlink with ⟨hn, hm⟩ | ⟨hm, hn⟩
    · exact hie (honly i (hn ▸ hi) hm)
    · exact hje (honly j (hn ▸ hj) hm)
  · rintro ⟨⟨⟨i, hi, rfl⟩, j, hj, rfl⟩, hlink⟩
    refine ⟨⟨i, ⟨hi, ?_⟩, rfl⟩, j, ⟨hj, ?_⟩, rfl⟩
    · rintro rfl
      refine hlink ?_
      rw [← h.shelved.start n i he, h.shelved.start _ i hi]
    · rintro rfl
      refine hlink ?_
      rw [← h.shelved.start n j he, h.shelved.start _ j hj, Sym2.eq_swap]

/-! ## What stays reachable -/

/-- `sssp_bfs` comes to an end. -/
def SearchEnds (d : Daemon) : Prop := ∃ k < d.config.rounds, (bfsRounds d k).1 = []

/-- The nodes that are reachable then. -/
lemma SearchEnds.reachable_iff (h : SearchEnds d) (hd : Enclosed d) (hn : n ∈ d.nodeTree) :
    ((graph d).node n).reachable = true ↔ Relation.ReflTransGen (BothWays d) d.myself n := by
  obtain ⟨k, hf, hk⟩ := h
  exact reachable_iff_path hd hk hf hn

/-- The node of the connection that was dropped is still reachable, and so are all others that were
reachable. -/
structure Spared (s : Dialer) (rand : ℕ) (s' : Dialer) : Prop where
  dropped : ∀ c, s.daemon.chooseSuperfluous rand = some c →
    ∀ n, (s.daemon.conn c).node = some n → (s'.daemon.node n).reachable = true
  kept : ∀ n ∈ s.daemon.nodeTree, (s.daemon.node n).reachable = true →
    (s'.daemon.node n).reachable = true

/-- A link other than the one with `n`. -/
def OtherLink (d : Daemon) (n a b : Name) : Prop := BothWays d a b ∧ s(a, b) ≠ s(d.myself, n)

/-- There is a way to the node of the connection that does not take the edge of the connection. -/
def OtherWay (d : Daemon) (rand : ℕ) : Prop :=
  ∀ c, d.chooseSuperfluous rand = some c → ∀ n, (d.conn c).node = some n →
    Relation.ReflTransGen (OtherLink d n) d.myself n

/-- Whoever was reachable is so without a link that can be replaced. -/
lemma reflTransGen_otherLink (hn : Relation.ReflTransGen (OtherLink d n) d.myself n)
    (h : Relation.ReflTransGen (BothWays d) d.myself m) :
    Relation.ReflTransGen (OtherLink d n) d.myself m := by
  induction h with
  | refl => exact .refl
  | @tail a b _ hlink ih =>
      by_cases hab : s(a, b) = s(d.myself, n)
      · rcases Sym2.eq_iff.mp hab with ⟨-, rfl⟩ | ⟨-, rfl⟩
        · exact hn
        · exact .refl
      · exact ih.tail ⟨hlink, hab⟩

/-- After the drop the other links count. -/
lemma drop_reachable_iff (h : ConnIndex s.daemon)
    (hchosen : s.daemon.chooseSuperfluous rand = some c) (hcn : (s.daemon.conn c).node = some n)
    (hce : (s.daemon.conn c).edge = some e) (hends : SearchEnds (s.daemon.edgeDel e))
    (hm : m ∈ s.daemon.nodeTree) :
    ((s.dropSuperfluousOutgoingConnection rand).daemon.node m).reachable = true ↔
      Relation.ReflTransGen (OtherLink s.daemon n) s.daemon.myself m := by
  obtain ⟨hc, -⟩ := chooseSuperfluous_some hchosen
  obtain ⟨hmem, -, hto⟩ := h.connEdge c hc e hce
  obtain rfl := Option.some.inj (hcn.symm.trans hto)
  obtain ⟨d', hsame, hnode⟩ := terminateConnection_node
    (d := s.daemon.setConn c ({ · with outgoing := none })) (c := c)
    (by simpa [Daemon.setConn] using hcn) (by simpa [Daemon.setConn] using hce)
    (((s.daemon.setConn c ({ · with outgoing := none })).conn c).edge ≠ none)
  have hgraph := ((SameGraph.setConn s.daemon c ({ · with outgoing := none })).edgeDel e).trans
    hsame
  have hdel := SameNodes.edgeDel s.daemon e
  have hmyself : d'.myself = s.daemon.myself :=
    congrArg Config.myself (hgraph.config.trans hdel.config)
  have hends' : SearchEnds d' := by
    unfold SearchEnds
    simp only [hgraph.bfsRounds, hgraph.config]
    exact hends
  have hlinks : ∀ a b, BothWays d' a b ↔ OtherLink s.daemon (s.daemon.edge e).toNode a b :=
    fun a b => hgraph.bothWays.trans (bothWays_edgeDel h.toEdgeIndex hmem)
  have hdrop : (s.dropSuperfluousOutgoingConnection rand).daemon.node = (graph d').node := by
    unfold Dialer.dropSuperfluousOutgoingConnection
    rw [hchosen]
    exact (redial_node _).trans hnode
  have henclosed := hgraph.enclosed (h.toEdgeIndex.edgeDel hmem).1.enclosed
  rw [hdrop, hends'.reachable_iff henclosed
    (by rw [hgraph.nodeTree, hdel.nodeTree]; exact hm), hmyself]
  have hrel : BothWays d' = OtherLink s.daemon (s.daemon.edge e).toNode := by
    ext a b
    exact hlinks a b
  rw [hrel]

/-- **A dropped connection leaves everybody reachable if and only if there was another way.** -/
theorem drop_spares_iff (s : Dialer) (d : Daemon) (rand : ℕ) (h : ConnIndex d)
    (hs : s.daemon = graph d) (hends : SearchEnds d)
    (hends' : ∀ c e, s.daemon.chooseSuperfluous rand = some c → (s.daemon.conn c).edge = some e →
      SearchEnds (s.daemon.edgeDel e)) :
    Spared s rand (s.dropSuperfluousOutgoingConnection rand) ↔ OtherWay s.daemon rand := by
  have hindex : ConnIndex s.daemon := hs ▸ h.of_same (SameIndexes.graph d)
  cases hchosen : s.daemon.chooseSuperfluous rand with
  | none =>
      have hsame : s.dropSuperfluousOutgoingConnection rand = s := by
        rw [Dialer.dropSuperfluousOutgoingConnection, hchosen]
      rw [hsame]
      refine iff_of_true ⟨fun c hc => ?_, fun n _ hr => hr⟩ fun c hc => ?_
      all_goals
        rw [hchosen] at hc
        cases hc
  | some c =>
      obtain ⟨hc, e, n, hce, hcn⟩ := chooseSuperfluous_some hchosen
      have hmem : n ∈ s.daemon.nodeTree :=
        (hindex.listed n c ((hindex.node c hc n).mpr hcn)).2
      have hafter := fun m hm => drop_reachable_iff (m := m) hindex hchosen hcn hce
        (hends' c e hchosen hce) hm
      have hbefore : ∀ m ∈ s.daemon.nodeTree, (s.daemon.node m).reachable = true →
          Relation.ReflTransGen (BothWays s.daemon) s.daemon.myself m := by
        rw [hs]
        exact fun m hm => (hends.reachable_iff h.toEdgeIndex.enclosed hm).mp
      constructor
      · intro hspared c' hc' n' hn'
        obtain rfl := Option.some.inj (hchosen.symm.trans hc')
        obtain rfl := Option.some.inj (hcn.symm.trans hn')
        exact (hafter n hmem).mp (hspared.dropped c hchosen n hcn)
      · intro hother
        have hway := hother c hchosen n hcn
        refine ⟨fun c' hc' n' hn' => ?_, fun m hm hr => ?_⟩
        · obtain rfl := Option.some.inj (hchosen.symm.trans hc')
          obtain rfl := Option.some.inj (hcn.symm.trans hn')
          exact (hafter n hmem).mpr hway
        · exact (hafter m hm).mpr (reflTransGen_otherLink hway (hbefore m hm hr))

/-! ## A neighbour with a network behind it -/

/-- The peer `name` connects, and announces its edge to `a`. -/
def peerArrives (c : ConnId) (name : Text) (outgoing : Option ℕ) : List Event :=
  let conn : Conn :=
    { name := if outgoing = none then ascii "<unknown>" else name
      outgoing := outgoing }
  [.connectionAdd c conn,
    .receive c (words [ascii "0", name, ascii "17.7"]),
    .receive c (words [ascii "4", ascii "655", ascii "10", ascii "c"]),
    .receive c (words [ascii "12", ascii "1", name, ascii "a", ascii "unspec", ascii "unspec",
      ascii "c", ascii "5"])]

/-- `a` has connected to `b`, and `c`, `d` and `e` have connected to `a`.  All else that is known
is the link of `b` with `z`. -/
def bridgeEvents : List Event :=
  peerArrives 0 (ascii "b") (some 0) ++ peerArrives 1 (ascii "c") none ++
    peerArrives 2 (ascii "d") none ++ peerArrives 3 (ascii "e") none ++
    [.receive 0 (ascii "12 1 b z unspec unspec c 5"),
      .receive 0 (ascii "12 1 z b unspec unspec c 5")]

/-- The daemon of `a` then. -/
def bridged : Daemon :=
  (Daemon.init { Config.plain (ascii "a") with rounds := 50 } id).run bridgeEvents

/-- And with its outgoing connection. -/
def bridgedDialer : Dialer :=
  { Dialer.init bridged.config bridged.rand 900 fun _ => [] with
    daemon := graph bridged
    outgoingList := [0]
    outgoing := fun _ => ⟨ascii "b", 0, false⟩
    newOutgoing := 1
    newConn := 4 }

lemma bridged_index : ConnIndex bridged := .run (by decide +kernel) (by decide +kernel)

/-- There are four connections, and only the one to `b` can be chosen. -/
lemma bridged_chosen : bridgedDialer.daemon.activeConnections = 4 ∧
    bridgedDialer.daemon.chooseSuperfluous 0 = some 0 ∧
    (bridgedDialer.daemon.conn 0).node = some (ascii "b") := by
  decide +kernel

/-- The search ends, with the edge of the connection and without it. -/
lemma bridged_ends : SearchEnds bridged ∧
    ∀ c e, bridgedDialer.daemon.chooseSuperfluous 0 = some c →
      (bridgedDialer.daemon.conn c).edge = some e →
        SearchEnds (bridgedDialer.daemon.edgeDel e) := by
  have hrounds : (bfsRounds bridged 6).1 = [] ∧ ∀ e ∈ (bridgedDialer.daemon.conn 0).edge,
      (bfsRounds (bridgedDialer.daemon.edgeDel e) 4).1 = [] := by
    decide +kernel
  refine ⟨⟨6, by decide +kernel, hrounds.1⟩, fun c e hc he => ⟨4, ?_, ?_⟩⟩
  · rw [(SameNodes.edgeDel bridgedDialer.daemon e).config]
    decide +kernel
  · obtain rfl := Option.some.inj (bridged_chosen.2.1.symm.trans hc)
    exact hrounds.2 e he

theorem drop_spares_iff_bridged :
    Spared bridgedDialer 0 (bridgedDialer.dropSuperfluousOutgoingConnection 0) ↔
      OtherWay bridgedDialer.daemon 0 :=
  drop_spares_iff bridgedDialer bridged 0 bridged_index rfl bridged_ends.1 bridged_ends.2

/-- `b` has two edges, and is cut off. -/
theorem bridge_not_spared : ¬ ∀ (s : Dialer) (d : Daemon) (rand : ℕ), ConnIndex d →
    s.daemon = graph d → SearchEnds d →
    (∀ c e, s.daemon.chooseSuperfluous rand = some c → (s.daemon.conn c).edge = some e →
      SearchEnds (s.daemon.edgeDel e)) → 3 < s.daemon.activeConnections →
    Spared s rand (s.dropSuperfluousOutgoingConnection rand) := by
  intro hall
  obtain ⟨hactive, hchosen, hnode⟩ := bridged_chosen
  have hspared := hall bridgedDialer bridged 0 bridged_index rfl bridged_ends.1 bridged_ends.2
    (by rw [hactive]; decide)
  have hdropped := hspared.dropped 0 hchosen (ascii "b") hnode
  exact absurd hdropped (by decide +kernel)

end Tinc
