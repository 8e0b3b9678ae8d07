import Mathlib.Data.List.Sort
import TincQuic.Daemon.Indexes
import TincQuic.Daemon.SpanningTree
import TincQuic.Lib.Flooding

/-!
# Broadcast packets in a mesh of daemons

`broadcast_packet` sends a packet on the connections that belong to the spanning tree, except back to
where it came from.  A daemon that receives it gives itself a copy and broadcasts it again.

* `broadcastPacket` and what it calls say what a daemon does with one packet, and `Network` is a set
  of daemons, of which every two that are adjacent share a connection.
* `Mesh` is what is known of them: all have the same edges, which form one component, and each has
  run `graph`.
* **All daemons find the same tree, since the order of their edges is the same**: `Mesh.treeLinks_eq`.
* **The network floods this tree**: `Mesh.deliver` is the simulation, by `Flooding.deliver`.
* **Every packet is handed to every other daemon exactly once**, in whatever order the packets are
  delivered: `broadcast_exactly_once`.
-/

namespace Tinc

open Bytes CText Function Run TreeGrowth

/-! ## `net_packet.c` -/

/-- What is done with a packet: it is written to the device, or sent on a connection. -/
inductive Output where
  | device
  | datagram (c : ConnId)
  deriving DecidableEq

/-- `bmode_t` -/
inductive BroadcastMode where
  | none
  | mst
  | direct
  deriving DecidableEq

section Packets

variable (d : Daemon)

/-- `send_sptps_packet` -/
def sendSptpsPacket (n : Name) : List Output :=
  match d.nodeConnection n with
  | none => []
  | some c => if (d.conn c).quicContext then [.datagram c] else []

/-- `send_packet` -/
def sendPacket (n : Name) : List Output :=
  if n = d.myself then [.device]
  else if (d.node n).reachable = false then []
  else
    let via := if (d.node n).nexthop = some d.myself then some n else (d.node n).nexthop
    via.elim [] (sendSptpsPacket d)

/-- The connections of the tree, except `from->nexthop->connection`. -/
def treeConnections (source : Name) : List ConnId :=
  d.connectionList.filter fun c =>
    (d.conn c).edge ≠ none ∧ d.mst c ∧ some c ≠ (d.node source).nexthop.bind d.nodeConnection

/-- `broadcast_packet` -/
def broadcastPacket (mode : BroadcastMode) (source : Name) : List Output :=
  (if source ≠ d.myself then sendPacket d d.myself else []) ++
    if d.config.tunnelserver ∨ mode = .none then []
    else match mode with
      | .mst => (treeConnections d source).flatMap fun c => (d.conn c).node.elim [] (sendPacket d)
      | .direct =>
          if source ≠ d.myself then []
          else (d.nodeTree.filter fun n =>
            (d.node n).reachable ∧ n ≠ d.myself ∧
              ((d.node n).via = some d.myself ∧ (d.node n).nexthop = some n ∨
                (d.node n).via = some n)).flatMap (sendPacket d)
      | .none => []

variable {d}

lemma mem_treeConnections {c : ConnId} {source : Name} : c ∈ treeConnections d source ↔
    c ∈ d.connectionList ∧ (d.conn c).edge ≠ none ∧ d.mst c = true ∧
      some c ≠ (d.node source).nexthop.bind d.nodeConnection := by
  unfold treeConnections
  rw [List.mem_filter, decide_eq_true_iff]

end Packets

/-! ## One daemon -/

section OneDaemon

variable {d : Daemon} {names : Finset Name} {c : ConnId} {e : EdgeId} {n u : Name}

@[simp] lemma graph_config (d : Daemon) : (graph d).config = d.config := rfl

@[simp] lemma graph_name (d : Daemon) : (graph d).myself = d.myself := rfl

@[simp] lemma graph_conn (d : Daemon) : (graph d).conn = d.conn := rfl

@[simp] lemma graph_nodeConnection (d : Daemon) : (graph d).nodeConnection = d.nodeConnection := rfl

@[simp] lemma graph_connectionList (d : Daemon) :
    (graph d).connectionList = d.connectionList := rfl

/-- `myself` has no connection. -/
lemma ConnIndex.nodeConnection_myself (h : ConnIndex d) : d.nodeConnection d.myself = none := by
  cases hc : d.nodeConnection d.myself with
  | none => rfl
  | some c =>
      have hlisted := (h.listed _ c hc).1
      have hnode := (h.node c hlisted d.myself).mp hc
      cases he : (d.conn c).edge with
      | none =>
          rw [h.noEdge c hlisted he] at hnode
          cases hnode
      | some e =>
          obtain ⟨hmem, -, hto⟩ := h.connEdge c hlisted e he
          rw [hnode] at hto
          exact absurd (Option.some.inj hto).symm (h.shelved.proper _ e hmem)

/-- What is sent to a neighbour goes to the connection with it. -/
lemma Meshed.sendPacket_eq (h : Meshed d names) (hi : ConnIndex d) (hc : c ∈ d.connectionList)
    (he : (d.conn c).edge = some e) (hq : (d.conn c).quicContext = true) :
    (d.conn c).node.elim [] (sendPacket (graph d)) = [.datagram c] := by
  obtain ⟨hmem, -, hnode⟩ := hi.connEdge c hc e he
  have hto : (d.edge e).toNode ≠ d.myself := h.shelved.proper _ e hmem
  have hreach := h.reachable (h.ends _ e hmem).2
  have hnext := graph_nexthop h.toEdgeIndex h.plain h.rounds hmem
  have hconn : d.nodeConnection (d.edge e).toNode = some c := (hi.node c hc _).mpr hnode
  rw [hnode, Option.elim_some]
  simp [sendPacket, sendSptpsPacket, hto, hreach, hnext, hconn, hq]

/-- In a mesh a broadcast packet is written to the device, if it came from elsewhere, and sent on
the connections of the tree. -/
lemma Meshed.broadcastPacket_eq (h : Meshed d names) (hi : ConnIndex d)
    (hq : ∀ c ∈ d.connectionList, (d.conn c).edge ≠ none → (d.conn c).quicContext = true)
    (ht : d.config.tunnelserver = false) (source : Name) :
    broadcastPacket (graph d) .mst source =
      (if source ≠ d.myself then [.device] else []) ++
        (treeConnections (graph d) source).map .datagram := by
  have hself : sendPacket (graph d) d.myself = [.device] := by simp [sendPacket]
  have hsend : ∀ c ∈ treeConnections (graph d) source,
      ((graph d).conn c).node.elim [] (sendPacket (graph d)) = [.datagram c] := by
    intro c hc
    obtain ⟨hlisted, hedge, -, -⟩ := mem_treeConnections.mp hc
    obtain ⟨e, he⟩ := Option.ne_none_iff_exists'.mp hedge
    exact h.sendPacket_eq hi hlisted he (hq c hlisted hedge)
  rw [broadcastPacket, List.flatMap_congr hsend, List.map_eq_flatMap]
  simp [hself, ht]

/-- The packet is sent on the connections of links of the tree. -/
lemma Meshed.mem_treeConnections (h : Meshed d names) (hi : ConnIndex d) (hown : OwnConnections d)
    {source : Name} : c ∈ treeConnections (graph d) source ↔ c ∈ d.connectionList ∧
      ∃ e, (d.conn c).edge = some e ∧ Linked (treeLinks d) d.myself (d.edge e).toNode ∧
        some c ≠ ((graph d).node source).nexthop.bind d.nodeConnection := by
  refine Tinc.mem_treeConnections.trans ?_
  rw [graph_connectionList, graph_conn, graph_nodeConnection]
  constructor
  · rintro ⟨hc, hedge, hmst, hne⟩
    obtain ⟨e, he⟩ := Option.ne_none_iff_exists'.mp hedge
    exact ⟨hc, e, he, (h.mst_iff hi hown hc he).mp hmst, hne⟩
  · rintro ⟨hc, e, he, hlink, hne⟩
    refine ⟨hc, ?_, (h.mst_iff hi hown hc he).mpr hlink, hne⟩
    rw [he]
    exact Option.some_ne_none e

/-- A link of the tree at `myself` is an edge of `myself`. -/
lemma Meshed.exists_edge (h : Meshed d names) (hl : Linked (treeLinks d) d.myself n) :
    ∃ e ∈ d.edgeTree d.myself, (d.edge e).toNode = n := by
  rcases hl with hl | hl
  · obtain ⟨i, hi, heq⟩ := List.mem_map.mp hl
    obtain ⟨hfrom, hto⟩ := Prod.mk.inj heq
    have hmem := h.mem_tree (mem_treeEdges hi)
    rw [hfrom] at hmem
    exact ⟨i, hmem, hto⟩
  · obtain ⟨i, hi, heq⟩ := List.mem_map.mp hl
    obtain ⟨hfrom, hto⟩ := Prod.mk.inj heq
    have hmem := h.mem_tree (mem_treeEdges hi)
    obtain ⟨r, hr⟩ := Option.ne_none_iff_exists'.mp (h.plain.reverse _ i hmem)
    rw [h.reversed _ i hmem, h.shelved.findEdge_eq_some, hfrom, hto] at hr
    exact ⟨r, hr⟩

/-- The way to a node that is not `myself` is excluded only if it is a neighbour, and then only the
connection with it. -/
lemma Meshed.excluded_iff (h : Meshed d names) (hi : ConnIndex d) (hc : c ∈ d.connectionList)
    (he : (d.conn c).edge = some e) (hu : u = d.myself ∨ ∃ i ∈ d.edgeTree d.myself,
      (d.edge i).toNode = u) :
    some c = ((graph d).node u).nexthop.bind d.nodeConnection ↔ (d.edge e).toNode = u := by
  obtain ⟨hmem, -, hnode⟩ := hi.connEdge c hc e he
  rcases hu with rfl | ⟨i, himem, rfl⟩
  · rw [graph_nexthop_myself h.myself, Option.bind_some, hi.nodeConnection_myself]
    constructor
    · exact fun hfalse => by cases hfalse
    · exact fun hself => absurd hself (h.shelved.proper _ e hmem)
  · rw [graph_nexthop h.toEdgeIndex h.plain h.rounds himem, Option.bind_some, eq_comm,
      hi.node c hc, hnode, Option.some.injEq]

end OneDaemon

/-! ## The network -/

/-- Daemons, in the states in which they run `graph`, and for every connection of each of them the
other end. -/
structure Network where
  names : Finset Name
  daemon : Name → Daemon
  peer : Name → ConnId → Name × ConnId

/-- The packets on their way, each with its sender and the connection, and how often every daemon
wrote the packet to its device. -/
structure Traffic where
  inFlight : List (Name × ConnId)
  handed : Name → ℕ

/-- What daemon `v` sends. -/
def sentBy (v : Name) : Output → Option (Name × ConnId)
  | .device => none
  | .datagram c => some (v, c)

namespace Network

variable (net : Network)

/-- Daemon `v` broadcasts a packet that it has from `source`. -/
def broadcast (v source : Name) (s : Traffic) : Traffic :=
  let outputs := broadcastPacket (graph (net.daemon v)) .mst source
  { inFlight := s.inFlight ++ outputs.filterMap (sentBy v)
    handed := update s.handed v (s.handed v + outputs.count .device) }

/-- The origin sends a packet. -/
def start (o : Name) : Traffic := net.broadcast o o { inFlight := [], handed := fun _ => 0 }

/-- The packet number `k` of those on their way arrives, if there is one: `receive_packet` takes it
as one from `c->node`, and it is broadcast again. -/
def deliver (s : Traffic) (k : ℕ) : Traffic :=
  match s.inFlight[k]? with
  | none => s
  | some (v, c) =>
      let (w, c') := net.peer v c
      let s' := { s with inFlight := s.inFlight.eraseIdx k }
      match ((net.daemon w).conn c').node with
      | none => s'
      | some source => net.broadcast w source s'

/-- There is a packet of that number. -/
def Deliverable (s : Traffic) (k : ℕ) : Prop := k < s.inFlight.length

instance Deliverable.decidable (s : Traffic) (k : ℕ) : Decidable (Deliverable s k) :=
  inferInstanceAs (Decidable (_ < _))

end Network

/-- The daemons hold the same edges, which form one component; every edge has its reverse, and none
is INDIRECT; adjacent daemons share a connection, and there are no others. -/
structure Mesh (net : Network) : Prop where
  myself : ∀ v ∈ net.names, (net.daemon v).myself = v
  index : ∀ v ∈ net.names, ConnIndex (net.daemon v)
  own : ∀ v ∈ net.names, OwnConnections (net.daemon v)
  once : ∀ v ∈ net.names, (net.daemon v).connectionList.Nodup
  reverse : ∀ v ∈ net.names, ∀ i ∈ (net.daemon v).edgeWeightTree,
    ((net.daemon v).edge i).reverse ≠ none
  direct : ∀ v ∈ net.names, ∀ i ∈ (net.daemon v).edgeWeightTree,
    indirectEdge (net.daemon v) i = false
  ends : ∀ v ∈ net.names, ∀ i ∈ (net.daemon v).edgeWeightTree,
    ((net.daemon v).edge i).fromNode ∈ net.names ∧ ((net.daemon v).edge i).toNode ∈ net.names
  same : ∀ v ∈ net.names, ∀ w ∈ net.names, ∀ i ∈ (net.daemon v).edgeWeightTree,
    ∃ j ∈ (net.daemon w).edgeWeightTree, link (net.daemon w) j = link (net.daemon v) i ∧
      ((net.daemon w).edge j).weight = ((net.daemon v).edge i).weight
  connected : ∀ v ∈ net.names, ∀ w ∈ net.names,
    Relation.ReflTransGen (Adjacent (net.daemon v)) v w
  shared : ∀ v ∈ net.names, ∀ c ∈ (net.daemon v).connectionList,
    ((net.daemon v).conn c).edge ≠ none →
      ((net.daemon v).conn c).node = some (net.peer v c).1 ∧
        ((net.daemon (net.peer v c).1).conn (net.peer v c).2).node = some v
  quicContext : ∀ v ∈ net.names, ∀ c ∈ (net.daemon v).connectionList,
    ((net.daemon v).conn c).edge ≠ none → ((net.daemon v).conn c).quicContext = true
  tunnelserver : ∀ v ∈ net.names, (net.daemon v).config.tunnelserver = false
  rounds : ∀ v ∈ net.names, EnoughRounds (net.daemon v)

namespace Mesh

variable {net : Network} {u v w o : Name} {c : ConnId} {s : Traffic}

lemma meshed (h : Mesh net) (hv : v ∈ net.names) : Meshed (net.daemon v) net.names := by
  have hi := h.index v hv
  have hmem : ∀ n, ∀ i ∈ (net.daemon v).edgeTree n, i ∈ (net.daemon v).edgeWeightTree := by
    intro n i htree
    refine (hi.shelved.both i).mpr ?_
    rw [hi.shelved.start n i htree]
    exact htree
  refine ⟨hi.toEdgeIndex, ⟨?_, ?_⟩, h.rounds v hv, ?_, ?_⟩
  · exact fun n i htree => h.reverse v hv i (hmem n i htree)
  · exact fun n i htree => h.direct v hv i (hmem n i htree)
  · intro n i htree
    have hends := h.ends v hv i (hmem n i htree)
    rw [hi.shelved.start n i htree] at hends
    exact hends
  · intro n hn
    rw [h.myself v hv]
    exact h.connected v hv n hn

/-! ### One tree -/

/-- The keys of the edges are the same, in the same order. -/
lemma keys_eq (h : Mesh net) (hv : v ∈ net.names) (hw : w ∈ net.names) :
    (net.daemon v).edgeWeightTree.map (fun i => weightKey ((net.daemon v).edge i)) =
      (net.daemon w).edgeWeightTree.map (fun i => weightKey ((net.daemon w).edge i)) := by
  have hsorted : ∀ x ∈ net.names, ((net.daemon x).edgeWeightTree.map
      fun i => weightKey ((net.daemon x).edge i)).Pairwise (· < ·) :=
    fun x hx => List.pairwise_map.mpr (h.index x hx).shelved.weightSorted
  have hsub : ∀ x ∈ net.names, ∀ y ∈ net.names, ∀ k,
      k ∈ (net.daemon x).edgeWeightTree.map (fun i => weightKey ((net.daemon x).edge i)) →
        k ∈ (net.daemon y).edgeWeightTree.map fun i => weightKey ((net.daemon y).edge i) := by
    intro x hx y hy k hk
    obtain ⟨i, hi, rfl⟩ := List.mem_map.mp hk
    obtain ⟨j, hj, hlink, hweight⟩ := h.same x hx y hy i hi
    obtain ⟨hfrom, hto⟩ := Prod.mk.inj hlink
    refine List.mem_map.mpr ⟨j, hj, ?_⟩
    rw [weightKey, weightKey, hfrom, hto, hweight]
  exact (hsorted v hv).eq_of_mem_iff (hsorted w hw) fun k => ⟨hsub v hv w hw k, hsub w hw v hv k⟩

/-- The links are the same, in the same order. -/
lemma allLinks_eq (h : Mesh net) (hv : v ∈ net.names) (hw : w ∈ net.names) :
    allLinks (net.daemon v) = allLinks (net.daemon w) := by
  have hinj : Injective (Prod.map textKey textKey) :=
    Injective.prodMap (fun _ _ => textKey_inj.mp) fun _ _ => textKey_inj.mp
  have hkeys : ∀ d : Daemon, (allLinks d).map (Prod.map textKey textKey) =
      (d.edgeWeightTree.map fun i => weightKey (d.edge i)).map
        fun k => ofLex (ofLex k).2 := by
    intro d
    unfold allLinks
    rw [List.map_map, List.map_map]
    rfl
  refine List.map_injective_iff.mpr hinj ?_
  rw [hkeys, hkeys, h.keys_eq hv hw]

/-- All daemons find the same tree. -/
lemma treeLinks_eq (h : Mesh net) (hv : v ∈ net.names) (hw : w ∈ net.names) :
    treeLinks (net.daemon v) = treeLinks (net.daemon w) := by
  rw [(h.meshed hv).treeLinks_eq (Nat.lt_succ_self _),
    (h.meshed hw).treeLinks_eq (Nat.lt_succ_self _), h.allLinks_eq hv hw]

/-! ### The network floods the tree -/

/-- Whom `v` sends what it has from `u`. -/
def passedOn (net : Network) (v u : Name) : List Name :=
  (treeConnections (graph (net.daemon v)) u).map fun c => (net.peer v c).1

/-- A connection with an edge leads to the peer. -/
lemma edge_peer (h : Mesh net) (hv : v ∈ net.names) (hc : c ∈ (net.daemon v).connectionList)
    {e : EdgeId} (he : ((net.daemon v).conn c).edge = some e) :
    (net.peer v c).1 = ((net.daemon v).edge e).toNode := by
  obtain ⟨hnode, -⟩ := h.shared v hv c hc (by rw [he]; exact Option.some_ne_none e)
  obtain ⟨-, -, hto⟩ := (h.index v hv).connEdge c hc e he
  exact Option.some.inj (hnode.symm.trans hto)

lemma passesOn (h : Mesh net) (ho : o ∈ net.names) : Flooding.PassesOn (passedOn net)
    (Linked (treeLinks (net.daemon o))) net.names := by
  intro v hv u hu
  have hm := h.meshed hv
  have hi := h.index v hv
  have hself := h.myself v hv
  have htree := h.treeLinks_eq ho hv
  -- the packet came from `v` itself or from a neighbour
  have hsource : u = (net.daemon v).myself ∨ ∃ i ∈ (net.daemon v).edgeTree (net.daemon v).myself,
      ((net.daemon v).edge i).toNode = u := by
    rcases hu with rfl | hu
    · exact .inl hself.symm
    · refine .inr (hm.exists_edge ?_)
      rw [hself, ← htree]
      exact hu.symm
  refine ⟨?_, fun w => ?_⟩
  · refine List.Nodup.map_on ?_ ((h.once v hv).filter _)
    intro c hc c' hc' heq
    obtain ⟨hlisted, hedge, -, -⟩ := mem_treeConnections.mp hc
    obtain ⟨hlisted', hedge', -, -⟩ := mem_treeConnections.mp hc'
    have hnode := (hi.node c hlisted _).mpr (h.shared v hv c hlisted hedge).1
    have hnode' := (hi.node c' hlisted' _).mpr (h.shared v hv c' hlisted' hedge').1
    rw [heq] at hnode
    exact Option.some.inj (hnode.symm.trans hnode')
  · rw [htree]
    constructor
    · intro hw
      obtain ⟨c, hc, rfl⟩ := List.mem_map.mp hw
      obtain ⟨hlisted, e, he, hlink, hne⟩ := (hm.mem_treeConnections hi (h.own v hv)).mp hc
      rw [hself] at hlink
      rw [h.edge_peer hv hlisted he]
      refine ⟨hlink, fun hto => ?_⟩
      exact hne ((hm.excluded_iff hi hlisted he hsource).mpr hto)
    · rintro ⟨hlink, hne⟩
      replace hlink : Linked (treeLinks (net.daemon v)) (net.daemon v).myself w := by
        rw [hself]
        exact hlink
      obtain ⟨e, hmem, rfl⟩ := hm.exists_edge hlink
      obtain ⟨c, hc, he⟩ := hi.own e hmem
      refine List.mem_map.mpr ⟨c, ?_, h.edge_peer hv hc he⟩
      refine (hm.mem_treeConnections hi (h.own v hv)).mpr ⟨hc, e, he, hlink, fun hex => ?_⟩
      exact hne ((hm.excluded_iff hi hc he hsource).mp hex)

/-- Who sends to whom, and who got how many. -/
def flood (net : Network) (s : Traffic) : Flooding.State Name :=
  { inFlight := s.inFlight.map fun p => (p.1, (net.peer p.1 p.2).1), received := s.handed }

/-- The packets are on connections that have an edge. -/
def OnEdges (net : Network) (s : Traffic) : Prop :=
  ∀ p ∈ s.inFlight, p.1 ∈ net.names ∧ p.2 ∈ (net.daemon p.1).connectionList ∧
    ((net.daemon p.1).conn p.2).edge ≠ none

lemma broadcast_eq (h : Mesh net) (hv : v ∈ net.names) (u : Name) (s : Traffic) :
    net.broadcast v u s =
      { inFlight := s.inFlight ++ (treeConnections (graph (net.daemon v)) u).map (v, ·)
        handed := update s.handed v (s.handed v + if u ≠ v then 1 else 0) } := by
  have hout := (h.meshed hv).broadcastPacket_eq (h.index v hv) (h.quicContext v hv)
    (h.tunnelserver v hv) u
  rw [h.myself v hv] at hout
  have hnone : ∀ l : List ConnId, (l.map Output.datagram).count .device = 0 := by
    intro l
    refine List.count_eq_zero.mpr fun hmem => ?_
    obtain ⟨c, -, hc⟩ := List.mem_map.mp hmem
    cases hc
  have hsent : ∀ l : List ConnId, (l.map Output.datagram).filterMap (sentBy v) = l.map (v, ·) := by
    intro l
    rw [List.filterMap_map]
    exact congrFun List.filterMap_eq_map l
  unfold Network.broadcast
  rw [hout]
  by_cases hu : u = v
  · simp only [hu, ne_eq, not_true_eq_false, if_false, List.nil_append, hnone, hsent]
  · simp only [hu, ne_eq, not_false_eq_true, if_true, List.count_append, hnone, hsent,
      List.filterMap_append, List.count_singleton_self]
    rfl

lemma onEdges_broadcast (h : Mesh net) (hv : v ∈ net.names) (hs : OnEdges net s) (u : Name) :
    OnEdges net (net.broadcast v u s) := by
  rw [h.broadcast_eq hv]
  intro p hp
  rcases List.mem_append.mp hp with hp | hp
  · exact hs p hp
  · obtain ⟨c, hc, rfl⟩ := List.mem_map.mp hp
    obtain ⟨hlisted, hedge, -, -⟩ := mem_treeConnections.mp hc
    exact ⟨hv, hlisted, hedge⟩

/-- To broadcast is to send messages to those to whom the packet is passed on. -/
lemma flood_broadcast (h : Mesh net) (hv : v ∈ net.names) (u : Name) (s : Traffic) :
    flood net (net.broadcast v u s) =
      { inFlight := (flood net s).inFlight ++ Flooding.messages (passedOn net) v u
        received := update s.handed v (s.handed v + if u ≠ v then 1 else 0) } := by
  rw [h.broadcast_eq hv]
  unfold flood Flooding.messages passedOn
  simp only [List.map_append, List.map_map]
  rfl

lemma start (h : Mesh net) (ho : o ∈ net.names) :
    OnEdges net (net.start o) ∧ flood net (net.start o) = Flooding.start (passedOn net) o := by
  refine ⟨h.onEdges_broadcast ho (fun p hp => by simp at hp) o, ?_⟩
  unfold Network.start
  rw [h.flood_broadcast ho, if_neg (fun hne => hne rfl), Nat.add_zero, update_eq_self]
  rfl

/-- A delivery in the network is one of a message of the flood. -/
lemma deliver (h : Mesh net) (hs : OnEdges net s) (k : ℕ) : OnEdges net (net.deliver s k) ∧
    flood net (net.deliver s k) = Flooding.deliver (passedOn net) (flood net s) k := by
  have hget : (flood net s).inFlight[k]? =
      s.inFlight[k]?.map fun p => (p.1, (net.peer p.1 p.2).1) := List.getElem?_map
  unfold Network.deliver Flooding.deliver
  rw [hget]
  cases hk : s.inFlight[k]? with
  | none => exact ⟨hs, rfl⟩
  | some p =>
      obtain ⟨v, c⟩ := p
      obtain ⟨hv, hc, hedge⟩ := hs _ (List.mem_of_getElem? hk)
      obtain ⟨hnode, hback⟩ := h.shared v hv c hc hedge
      obtain ⟨e, he⟩ := Option.ne_none_iff_exists'.mp hedge
      have hmem := ((h.index v hv).connEdge c hc e he).1
      have hto := h.edge_peer hv hc he
      have hw : (net.peer v c).1 ∈ net.names := by
        rw [hto]
        exact ((h.meshed hv).ends _ e hmem).2
      have hne : v ≠ (net.peer v c).1 := by
        have hproper := (h.index v hv).shelved.proper _ e hmem
        rw [h.myself v hv] at hproper
        rw [hto]
        exact hproper.symm
      have hleft : OnEdges net { s with inFlight := s.inFlight.eraseIdx k } :=
        fun p hp => hs p (List.mem_of_mem_eraseIdx hp)
      dsimp only
      rw [hback]
      refine ⟨h.onEdges_broadcast hw hleft v, ?_⟩
      rw [h.flood_broadcast hw, if_pos hne]
      unfold flood
      simp only [Option.map_some, List.eraseIdx_map]

/-- So is a run. -/
lemma run (h : Mesh net) (hs : OnEdges net s) (order : List ℕ) :
    flood net (order.foldl net.deliver s) =
      order.foldl (Flooding.deliver (passedOn net)) (flood net s) := by
  induction order generalizing s with
  | nil => rfl
  | cons k order ih =>
      obtain ⟨hs', hflood⟩ := h.deliver hs k
      rw [List.foldl_cons, List.foldl_cons, ih hs', hflood]

lemma deliverable (h : Mesh net) (hs : OnEdges net s) {order : List ℕ}
    (hvalid : Along net.deliver Network.Deliverable s order) :
    Along (Flooding.deliver (passedOn net)) Flooding.Deliverable (flood net s) order := by
  induction order generalizing s with
  | nil => trivial
  | cons k order ih =>
      obtain ⟨hs', hflood⟩ := h.deliver hs k
      have hlen : (flood net s).inFlight.length = s.inFlight.length := List.length_map _
      refine ⟨lt_of_lt_of_eq hvalid.1 hlen.symm, ?_⟩
      rw [← hflood]
      exact ih hs' hvalid.2

end Mesh

/-- All daemons select the same edges, and a packet is handed to every daemon but the origin exactly
once, in every order of deliveries, of which there are fewer than daemons. -/
theorem broadcast_exactly_once (net : Network) (h : Mesh net) :
    (∀ v ∈ net.names, ∀ w ∈ net.names,
      treeLinks (net.daemon v) = treeLinks (net.daemon w)) ∧
    ∀ o ∈ net.names, ∀ order : List ℕ,
      Along net.deliver Network.Deliverable (net.start o) order →
        let s := order.foldl net.deliver (net.start o)
        order.length < net.names.card ∧ s.handed o = 0 ∧ (∀ v ∈ net.names, s.handed v ≤ 1) ∧
          (s.inFlight = [] → ∀ v ∈ net.names, v ≠ o → s.handed v = 1) := by
  refine ⟨fun v hv w hw => h.treeLinks_eq hv hw, ?_⟩
  intro o ho order hvalid
  obtain ⟨parent, depth, hroot⟩ := (h.meshed ho).canRoot o ho
  have hout := h.passesOn ho
  obtain ⟨hs, hstart⟩ := h.start ho
  have hmessages := h.deliverable hs hvalid
  have hspread := Flooding.spreading_run hroot hout ho order
  rw [hstart] at hmessages
  rw [← hstart, ← h.run hs] at hspread
  refine ⟨Flooding.length_lt hroot hout ho hmessages, hspread.root,
    fun v hv => hspread.received_le hv, ?_⟩
  intro hnil v hv hne
  refine hspread.received_eq hroot ?_ hv hne
  exact List.map_eq_nil_iff.mpr hnil

/-! ## Three daemons -/

/-- Three daemons that are all connected with each other: the ends of every edge, the weight that
the ACK says, and the weight of the edge. -/
def triangleEdges : List (Name × Name × Text × Text) :=
  [(ascii "a", ascii "b", ascii "10", ascii "5"), (ascii "b", ascii "a", ascii "10", ascii "5"),
    (ascii "b", ascii "c", ascii "12", ascii "6"), (ascii "c", ascii "b", ascii "12", ascii "6"),
    (ascii "c", ascii "a", ascii "14", ascii "7"), (ascii "a", ascii "c", ascii "14", ascii "7")]

/-- The other two introduce themselves and are activated, and the edges of others are announced. -/
def triangleEvents (v : Name) : List Event :=
  ((triangleEdges.filter fun e => e.1 = v).zipIdx.flatMap fun (e, c) =>
    [.connectionAdd c { name := ascii "<unknown>" },
      .receive c (words [ascii "0", e.2.1, ascii "17.7"]),
      .receive c (words [ascii "4", ascii "655", e.2.2.1, ascii "c"])]) ++
  (triangleEdges.filter fun e => e.1 ≠ v).map fun e =>
    .receive 0 (words [ascii "12", ascii "1", e.1, e.2.1, ascii "unspec", ascii "unspec", ascii "c",
      e.2.2.2])

/-- The configuration of daemon `v`. -/
def triangleConfig (v : Name) : Config := { Config.plain v with rounds := 50 }

/-- The network of these daemons. -/
def triangle : Network where
  names := {ascii "a", ascii "b", ascii "c"}
  daemon v := (Daemon.init (triangleConfig v) id).run (triangleEvents v)
  peer v c :=
    let w := (((Daemon.init (triangleConfig v) id).run (triangleEvents v)).conn c).node.getD []
    (w, (((Daemon.init (triangleConfig w) id).run (triangleEvents w)).nodeConnection v).getD 0)

/-- What is checked for each of the three daemons. -/
lemma triangle_checked (v : Name) (hv : v ∈ triangle.names) :
    (Along Daemon.step Event.OnIndexes (.init (triangleConfig v) id) (triangleEvents v) ∧
      Along Daemon.step Event.Orderly (.init (triangleConfig v) id) (triangleEvents v)) ∧
    ((triangle.daemon v).myself = v ∧ OwnConnections (triangle.daemon v) ∧
      (triangle.daemon v).connectionList.Nodup ∧
      (triangle.daemon v).config.tunnelserver = false ∧ EnoughRounds (triangle.daemon v)) ∧
    (∀ i ∈ (triangle.daemon v).edgeWeightTree,
      (((triangle.daemon v).edge i).reverse ≠ none ∧ indirectEdge (triangle.daemon v) i = false) ∧
      (((triangle.daemon v).edge i).fromNode ∈ triangle.names ∧
        ((triangle.daemon v).edge i).toNode ∈ triangle.names) ∧
      ∀ w ∈ triangle.names, ∃ j ∈ (triangle.daemon w).edgeWeightTree,
        link (triangle.daemon w) j = link (triangle.daemon v) i ∧
          ((triangle.daemon w).edge j).weight = ((triangle.daemon v).edge i).weight) ∧
    (∀ w ∈ triangle.names,
      v = w ∨ ∃ i ∈ (triangle.daemon v).edgeTree v, ((triangle.daemon v).edge i).toNode = w) ∧
    ∀ c ∈ (triangle.daemon v).connectionList, ((triangle.daemon v).conn c).edge ≠ none →
      (((triangle.daemon v).conn c).node = some (triangle.peer v c).1 ∧
        ((triangle.daemon (triangle.peer v c).1).conn (triangle.peer v c).2).node = some v) ∧
      ((triangle.daemon v).conn c).quicContext = true := by
  revert v
  decide +kernel

lemma triangle_mesh : Mesh triangle where
  myself v hv := (triangle_checked v hv).2.1.1
  index v hv := ConnIndex.run (triangle_checked v hv).1.1 (triangle_checked v hv).1.2
  own v hv := (triangle_checked v hv).2.1.2.1
  once v hv := (triangle_checked v hv).2.1.2.2.1
  reverse v hv i hi := ((triangle_checked v hv).2.2.1 i hi).1.1
  direct v hv i hi := ((triangle_checked v hv).2.2.1 i hi).1.2
  ends v hv i hi := ((triangle_checked v hv).2.2.1 i hi).2.1
  same v hv w hw i hi := ((triangle_checked v hv).2.2.1 i hi).2.2 w hw
  connected v hv w hw := by
    rcases (triangle_checked v hv).2.2.2.1 w hw with rfl | hadj
    · exact .refl
    · exact .single hadj
  shared v hv c hc he := ((triangle_checked v hv).2.2.2.2 c hc he).1
  quicContext v hv c hc he := ((triangle_checked v hv).2.2.2.2 c hc he).2
  tunnelserver v hv := (triangle_checked v hv).2.1.2.2.2.1
  rounds v hv := (triangle_checked v hv).2.1.2.2.2.2

/-- `a` sends to `b`, and `b` sends to `c`. -/
theorem broadcast_exactly_once_triangle :
    ([0, 0].foldl triangle.deliver (triangle.start (ascii "a"))).handed (ascii "b") = 1 ∧
      ([0, 0].foldl triangle.deliver (triangle.start (ascii "a"))).handed (ascii "c") = 1 := by
  have hrun : Along triangle.deliver Network.Deliverable (triangle.start (ascii "a")) [0, 0] ∧
      ([0, 0].foldl triangle.deliver (triangle.start (ascii "a"))).inFlight = [] ∧
      ascii "a" ∈ triangle.names ∧ ascii "b" ∈ triangle.names ∧ ascii "c" ∈ triangle.names := by
    decide +kernel
  obtain ⟨hvalid, hnil, ho, hb, hc⟩ := hrun
  have honce := ((broadcast_exactly_once triangle triangle_mesh).2 _ ho [0, 0] hvalid).2.2.2 hnil
  exact ⟨honce _ hb (by decide), honce _ hc (by decide)⟩

end Tinc
