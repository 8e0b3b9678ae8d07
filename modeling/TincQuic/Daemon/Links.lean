import TincQuic.Daemon.ConnIndex

/-!
# What ACK and the end of a connection do to connections

`ack_h` and `terminate_connection` change much, but of the connections and of what the nodes know
of them they change little.

* `Closes` says what `terminate_connection` does, and `Binds` what the activation of a connection
  does.
* The tie-breaker either replaces the old connection (`tieBreak_replaces`) or refuses the new one
  (`tieBreak_refuses`).
-/

namespace Tinc

open Bytes CText Function

variable {d d' : Daemon}

/-- Of what is said about connections, only what connection `c` says itself may differ. -/
structure SameLinks (c : ConnId) (d d' : Daemon) : Prop where
  config : d'.config = d.config
  list : d'.connectionList = d.connectionList
  conn : ∀ i, i ≠ c → d'.conn i = d.conn i
  nodes : d'.nodeTree = d.nodeTree
  nodeConnection : d'.nodeConnection = d.nodeConnection

namespace SameLinks

variable {c : ConnId} {d'' : Daemon}

lemma trans (h : SameLinks c d d') (h' : SameLinks c d' d'') : SameLinks c d d'' :=
  ⟨h'.config.trans h.config, h'.list.trans h.list, fun i hi => (h'.conn i hi).trans (h.conn i hi),
    h'.nodes.trans h.nodes, h'.nodeConnection.trans h.nodeConnection⟩

lemma of_conns (h : SameConns d d') : SameLinks c d d' := by
  obtain ⟨_, _, _, _, _, _, _, _, _, _, _, rfl⟩ := h
  exact ⟨rfl, rfl, fun _ _ => rfl, rfl, rfl⟩

lemma of_same (h : SameIndexes d d') : SameLinks c d d' := of_conns (SameConns.of_same h)

lemma setConn (d : Daemon) (f : Conn → Conn) : SameLinks c d (d.setConn c f) :=
  ⟨rfl, rfl, fun _ hi => update_of_ne hi _ _, rfl, rfl⟩

lemma removeEdge (d : Daemon) (n : Name) (e : EdgeId) (report : Bool) :
    SameLinks c d (d.removeEdge c n e report) := by
  obtain ⟨d', hs, heq⟩ := ConnIndex.removeEdge_eq d c n e report
  have hdel : SameLinks c d (graph ((d'.edgeDel e).setConn c ({ · with edge := none }))) :=
    (((of_same hs).trans (of_conns (SameConns.edgeDel d' e))).trans (setConn _ _)).trans
      (of_same (SameIndexes.graph _))
  rw [heq]
  split
  · exact hdel.trans (of_conns (SameConns.cleanUp _ n))
  · exact hdel

end SameLinks

/-- Connection `c` is gone, and so is what its node knew of it. -/
structure Closes (d : Daemon) (c : ConnId) (d' : Daemon) : Prop where
  config : d'.config = d.config
  list : d'.connectionList = d.connectionList.filter (· ≠ c)
  conn : ∀ i, i ≠ c → d'.conn i = d.conn i
  nodes : d'.nodeTree = d.nodeTree
  nodeConnection : ∀ n, d'.nodeConnection n =
    if (d.conn c).node = some n ∧ d.nodeConnection n = some c then none else d.nodeConnection n

lemma detach_nodeConnection (d : Daemon) (c : ConnId) (m n : Name) :
    (d.detach c m).nodeConnection n =
      if m = n ∧ d.nodeConnection n = some c then none else d.nodeConnection n := by
  unfold Daemon.detach
  by_cases hm : m = n
  · subst hm
    split
    · rename_i hc
      simp [hc]
    · rename_i hc
      simp [hc]
  · split
    · simp [hm, Ne.symm hm]
    · simp [hm]

/-- `terminate_connection` closes a connection, whatever there is to report. -/
lemma Closes.terminateConnection (d : Daemon) (c : ConnId) (report : Bool) :
    Closes d c (d.terminateConnection c report) := by
  have hdetach : ∀ m, (d.conn c).node = some m → ∀ d', SameLinks c (d.detach c m) d' →
      Closes d c (d'.connectionDel c) := by
    intro m hm d' h
    have hnc := detach_nodeConnection d c m
    have hrec : ∃ nc, d.detach c m = { d with nodeConnection := nc } := by
      unfold Daemon.detach
      split
      · exact ⟨_, rfl⟩
      · exact ⟨d.nodeConnection, rfl⟩
    obtain ⟨nc, hrec⟩ := hrec
    rw [hrec] at h hnc
    refine ⟨h.config, congrArg _ h.list, h.conn, h.nodes, fun n => ?_⟩
    simp only [hm, Option.some.injEq]
    exact (congrFun h.nodeConnection n).trans (hnc n)
  unfold Daemon.terminateConnection
  split
  · rename_i hn
    exact ⟨rfl, rfl, fun _ _ => rfl, rfl, fun n => by simp [Daemon.connectionDel, hn]⟩
  · rename_i m hm
    split
    · exact hdetach m hm _ (.of_same (.refl _))
    · exact hdetach m hm _ (.removeEdge _ m _ report)

/-- Connection `c` is the connection to `n` now. -/
structure Binds (d : Daemon) (c : ConnId) (n : Name) (d' : Daemon) : Prop where
  config : d'.config = d.config
  list : d'.connectionList = d.connectionList
  conn : ∀ i, i ≠ c → d'.conn i = d.conn i
  nodes : d'.nodeTree = d.nodeTree
  nodeConnection : d'.nodeConnection = update d.nodeConnection n (some c)
  node : (d'.conn c).node = some n
  name : (d'.conn c).name = (d.conn c).name
  outgoing : (d'.conn c).outgoing = (d.conn c).outgoing
  allow : (d'.conn c).allowRequest = allRequests
  vpnAddress : (d'.conn c).invitationVpnAddress = (d.conn c).invitationVpnAddress

lemma Binds.of_same {c : ConnId} {n : Name} {d'' : Daemon} (hs : SameConns d' d'')
    (h : Binds d c n d') : Binds d c n d'' := by
  obtain ⟨_, _, _, _, _, _, _, _, _, _, _, rfl⟩ := hs
  exact ⟨h.1, h.2, h.3, h.4, h.5, h.6, h.7, h.8, h.9, h.10⟩

lemma Binds.activate (d : Daemon) (c : ConnId) (n : Name) (r : AckRequest) :
    Binds d c n (d.activate c n r) := by
  have hbind : Binds d c n (d.bindNode c n r) :=
    ⟨rfl, rfl, fun i hi => update_of_ne hi _ _, rfl, rfl, by simp [Daemon.bindNode, Daemon.setConn],
      by simp [Daemon.bindNode, Daemon.setConn], by simp [Daemon.bindNode, Daemon.setConn],
      by simp [Daemon.bindNode, Daemon.setConn], by simp [Daemon.bindNode, Daemon.setConn]⟩
  have hsent := hbind.of_same (.of_same (SameIndexes.sendEverything _ c))
  unfold Daemon.activate
  generalize (d.bindNode c n r).sendEverything c = d₁ at hsent ⊢
  have heq : d₁.addConnectionEdge c n r =
      (d₁.addNewEdge (d₁.connectionEdge c n r)).setConn c ({ · with edge := some d₁.newEdge }) :=
    ConnIndex.edgeAdd_setConn _ c _ _
  have hadd : Binds d c n (d₁.addNewEdge (d₁.connectionEdge c n r)) := hsent.of_same
    ((SameConns.allocEdge d₁ (d₁.connectionEdge c n r)).trans (SameConns.edgeAdd _ d₁.newEdge))
  have hset : Binds d c n (d₁.addConnectionEdge c n r) := by
    rw [heq]
    refine ⟨hadd.config, hadd.list, fun i hi => ?_, hadd.nodes, hadd.nodeConnection, ?_, ?_, ?_,
      ?_, ?_⟩
    · exact (update_of_ne hi _ _).trans (hadd.conn i hi)
    · simpa [Daemon.setConn] using hadd.node
    · simpa [Daemon.setConn] using hadd.name
    · simpa [Daemon.setConn] using hadd.outgoing
    · simpa [Daemon.setConn] using hadd.allow
    · simpa [Daemon.setConn] using hadd.vpnAddress
  exact (hset.of_same (.of_same (SameIndexes.announceEdge _ c))).of_same
    (.of_same (SameIndexes.graph _))

/-- A node becomes known; it has the connection that it had. -/
lemma ensureNode_links (hsorted : OrdList.Sorted textKey d.nodeTree) {n : Name}
    (hknown : d.nodeConnection n ≠ none → n ∈ d.nodeTree) :
    ∃ node edgeTree nodeSubnets nodeTree nodeConnection, d.ensureNode n = { d with
      node := node, edgeTree := edgeTree, nodeSubnets := nodeSubnets, nodeTree := nodeTree,
      nodeConnection := nodeConnection } ∧ n ∈ nodeTree ∧ OrdList.Sorted textKey nodeTree ∧
      nodeConnection n = d.nodeConnection n := by
  unfold Daemon.ensureNode
  split
  · rename_i hn
    refine ⟨_, _, _, _, _, rfl, ?_, ?_, ?_⟩
    · exact (mem_addNode hsorted).mpr (.inl rfl)
    · exact sorted_addNode hsorted
    · rw [update_self]
      by_contra hne
      exact (lookupNode_eq_none hsorted).mp hn (hknown (Ne.symm hne))
  · rename_i hn
    refine ⟨_, _, _, _, _, rfl, ?_, hsorted, rfl⟩
    by_contra hmem
    exact hn ((lookupNode_eq_none hsorted).mpr hmem)

/-- The old connection gives way to the new one, unless the old one is outgoing, the new one is
incoming and our name is the smaller one. -/
lemma tieBreak_replaces {c old : ConnId}
    (hdiff : (d.conn old).outgoing = none ↔ (d.conn c).outgoing ≠ none)
    (h : (d.conn old).outgoing = none ∨ strcmp (d.conn c).name d.myself < 0) :
    ∃ conn, d.tieBreak c old =
        (graph ({ d with conn := conn }.terminateConnection old false), true) ∧
      ∀ i, (conn i).node = (d.conn i).node ∧ (conn i).name = (d.conn i).name := by
  have hset : ∀ (d : Daemon) (j : ConnId) (o : Option ℕ) (i : ConnId),
      ((d.setConn j ({ · with outgoing := o })).conn i).node = (d.conn i).node ∧
      ((d.setConn j ({ · with outgoing := o })).conn i).name = (d.conn i).name := by
    intro d j o i
    by_cases hi : i = j
    · subst hi
      simp [Daemon.setConn]
    · simp [Daemon.setConn, hi]
  unfold Daemon.tieBreak
  dsimp only
  by_cases hold : (d.conn old).outgoing = none
  · have hnew := hdiff.mp hold
    rw [if_neg (by simp [hold, hnew]), if_neg (by simp [hold])]
    exact ⟨_, rfl, hset d c _⟩
  · have hnew : (d.conn c).outgoing = none := not_not.mp fun h => hold (hdiff.mpr h)
    rw [if_neg (by simp [hold, hnew]), if_pos ⟨hold, by simp [hnew]⟩,
      if_pos (h.resolve_left hold)]
    refine ⟨_, rfl, fun i => ?_⟩
    exact ⟨(hset _ old none i).1.trans (hset d c _ i).1,
      (hset _ old none i).2.trans (hset d c _ i).2⟩

/-- A new incoming connection is refused if the old one is outgoing and our name is the smaller
one. -/
lemma tieBreak_refuses {c old : ConnId} (hold : (d.conn old).outgoing ≠ none)
    (hnew : (d.conn c).outgoing = none) (h : ¬ strcmp (d.conn c).name d.myself < 0) :
    d.tieBreak c old = (d.terminateConnection c false, false) := by
  unfold Daemon.tieBreak
  dsimp only
  rw [if_neg (by simp [hold, hnew]), if_pos ⟨hold, by simp [hnew]⟩, if_neg h]

lemma tieBreak_config (d : Daemon) (c old : ConnId) : (d.tieBreak c old).1.config = d.config := by
  have hclose := fun (d : Daemon) (i : ConnId) => (Closes.terminateConnection d i false).config
  unfold Daemon.tieBreak
  dsimp only
  split
  · split
    · refine (hclose _ old).trans ?_
      split <;> rfl
    · exact hclose d c
  · split
    · split
      · exact hclose _ old
      · exact hclose d c
    · exact hclose _ old

lemma ackH_config (d : Daemon) (c : ConnId) (request : Text) :
    (ackH d c request).1.config = d.config := by
  have hnode := EdgeIndex.ensureNode_config d (d.conn c).name
  unfold ackH
  split
  · rfl
  · dsimp only
    split
    · exact (Binds.activate _ c _ _).config.trans hnode
    · split
      · exact (Binds.activate _ c _ _).config.trans hnode
      · split
        · exact ((Binds.activate _ c _ _).config.trans (tieBreak_config _ c _)).trans hnode
        · exact (tieBreak_config _ c _).trans hnode

/-! ## What the requests do to the table of connections -/

/-- The connections are the same; nodes may have become known, without a connection. -/
structure SameTable (d d' : Daemon) : Prop where
  list : d'.connectionList = d.connectionList
  conn : d'.conn = d.conn
  nodeConnection : ∀ n k, d'.nodeConnection n = some k → d.nodeConnection n = some k
  retries : d'.retries = d.retries

namespace SameTable

variable {d'' : Daemon}

lemma trans (h : SameTable d d') (h' : SameTable d' d'') : SameTable d d'' :=
  ⟨h'.list.trans h.list, h'.conn.trans h.conn,
    fun n k hk => h.nodeConnection n k (h'.nodeConnection n k hk), h'.retries.trans h.retries⟩

lemma of_eq (hlist : d'.connectionList = d.connectionList) (hconn : d'.conn = d.conn)
    (hnode : d'.nodeConnection = d.nodeConnection) (hretries : d'.retries = d.retries) :
    SameTable d d' :=
  ⟨hlist, hconn, fun n k hk => by rwa [hnode] at hk, hretries⟩

lemma refl (d : Daemon) : SameTable d d := of_eq rfl rfl rfl rfl

lemma of_conns (h : SameConns d d') : SameTable d d' := by
  obtain ⟨_, _, _, _, _, _, _, _, _, _, _, rfl⟩ := h
  exact of_eq rfl rfl rfl rfl

lemma of_same (h : SameIndexes d d') : SameTable d d' := of_conns (.of_same h)

lemma ensureNode (d : Daemon) (n : Name) : SameTable d (d.ensureNode n) := by
  unfold Daemon.ensureNode
  split
  · refine ⟨rfl, rfl, fun m k hk => ?_, rfl⟩
    by_cases hm : m = n
    · subst hm
      simp [Daemon.addNode] at hk
    · simpa [Daemon.addNode, hm] using hk
  · exact refl d

lemma handoff (d : Daemon) (s : Subnet) : SameTable d (d.handoff s) := by
  unfold Daemon.handoff
  split
  · split
    · split
      · exact refl d
      · exact of_eq rfl rfl rfl rfl
    · exact refl d
  · exact refl d

lemma addEdgeH (d : Daemon) (c : ConnId) (request : Text) :
    SameTable d (addEdgeH d c request).1 := by
  have hs := of_same (SameIndexes.seenRequest d request)
  rcases addEdgeH_cases d c request with he | he | ⟨r, -, -, -, he⟩ <;> rw [he]
  · exact refl d
  · exact hs
  · exact ((hs.trans (ensureNode _ _)).trans (ensureNode _ _)).trans
      (of_conns (.applyAddEdge _ c request r))

lemma delEdgeH (d : Daemon) (c : ConnId) (request : Text) :
    SameTable d (delEdgeH d c request).1 := by
  have hs := of_same (SameIndexes.seenRequest d request)
  rcases delEdgeH_cases d c request with he | he | ⟨f, t, -, -, -, -, -, he⟩ <;> rw [he]
  · exact refl d
  · exact hs
  · exact hs.trans (of_conns (.applyDelEdge _ c request f t))

lemma applyAddSubnet (d : Daemon) (c : ConnId) (request : Text) (owner : Name) (s : Subnet) :
    SameTable d (d.applyAddSubnet c request owner s) := by
  unfold Daemon.applyAddSubnet
  split
  · exact refl d
  · split
    · exact of_same (SameIndexes.sendSubnet d _ _ _ _)
    · split
      · exact refl d
      · split
        · exact of_same (SameIndexes.broadcastMeta d _ _)
        · have hadd : SameTable d (d.subnetAdd (some owner) s) := of_eq rfl rfl rfl rfl
          exact (hadd.trans (of_same (SameIndexes.tellRest _ c request))).trans (handoff _ s)

lemma addSubnetH (d : Daemon) (c : ConnId) (request : Text) :
    SameTable d (addSubnetH d c request).1 := by
  have hs := of_same (SameIndexes.seenRequest d request)
  rcases addSubnetH_cases d c request with he | he | ⟨n, s, -, he⟩ <;> rw [he]
  · exact refl d
  · exact hs
  · exact (hs.trans (ensureNode _ _)).trans (applyAddSubnet _ c request n s)

lemma applyDelSubnet (d : Daemon) (c : ConnId) (request : Text) (owner : Name) (s : Subnet) :
    SameTable d (d.applyDelSubnet c request owner s) := by
  have htell := of_same (SameIndexes.tellRest d c request)
  unfold Daemon.applyDelSubnet
  split
  · split
    · exact of_same (SameIndexes.broadcastMeta d _ _)
    · exact refl d
  · split
    · exact of_same (SameIndexes.sendSubnet d _ _ _ _)
    · split
      · exact refl d
      · split
        · exact htell
        · exact htell.trans (of_eq rfl rfl rfl rfl)

lemma delSubnetH (d : Daemon) (c : ConnId) (request : Text) :
    SameTable d (delSubnetH d c request).1 := by
  have hs := of_same (SameIndexes.seenRequest d request)
  rcases delSubnetH_cases d c request with he | he | ⟨n, s, he⟩ <;> rw [he]
  · exact refl d
  · exact hs
  · exact hs.trans (applyDelSubnet _ c request n s)

/-- Only ID and ACK change connections. -/
lemma handler (d : Daemon) {r : Request} (hid : r ≠ .id) (hack : r ≠ .ack) (c : ConnId)
    (request : Text) : SameTable d (handler r d c request).1 := by
  cases r with
  | id => exact absurd rfl hid
  | ack => exact absurd rfl hack
  | addSubnet => exact addSubnetH d c request
  | delSubnet => exact delSubnetH d c request
  | addEdge => exact addEdgeH d c request
  | delEdge => exact delEdgeH d c request
  | ping => exact of_same (SameIndexes.sendRequest d c _)
  | _ => exact refl d

end SameTable

/-- What `receive_request` and the invitation code read from a connection. -/
structure Standing where
  allowRequest : ℤ
  name : Name
  vpnAddress : Option Text
  deriving DecidableEq

def Conn.standing (conn : Conn) : Standing :=
  ⟨conn.allowRequest, conn.name, conn.invitationVpnAddress⟩

/-- Connections may be gone, but those that are left stand as before. -/
def Narrows (d d' : Daemon) : Prop :=
  ∀ i ∈ d'.connectionList, i ∈ d.connectionList ∧ (d'.conn i).standing = (d.conn i).standing

namespace Narrows

variable {d'' : Daemon}

lemma trans (h : Narrows d d') (h' : Narrows d' d'') : Narrows d d'' := fun i hi =>
  ⟨(h i (h' i hi).1).1, (h' i hi).2.trans (h i (h' i hi).1).2⟩

/-- Nothing of the table changed. -/
lemma of_eq (hlist : d'.connectionList = d.connectionList) (hconn : d'.conn = d.conn) :
    Narrows d d' := fun i hi => ⟨hlist ▸ hi, by rw [hconn]⟩

lemma refl (d : Daemon) : Narrows d d := of_eq rfl rfl

lemma of_conns (h : SameConns d d') : Narrows d d' := by
  obtain ⟨_, _, _, _, _, _, _, _, _, _, _, rfl⟩ := h
  exact of_eq rfl rfl

lemma of_same (h : SameIndexes d d') : Narrows d d' := of_conns (.of_same h)

lemma of_closes {c : ConnId} (h : Closes d c d') : Narrows d d' := by
  intro i hi
  rw [h.list] at hi
  obtain ⟨hi, hne⟩ := List.mem_filter.mp hi
  exact ⟨hi, by rw [h.conn i (by simpa using hne)]⟩

lemma setConn {c : ConnId} {f : Conn → Conn} (hf : (f (d.conn c)).standing = (d.conn c).standing) :
    Narrows d (d.setConn c f) := by
  refine fun i hi => ⟨hi, ?_⟩
  by_cases hic : i = c
  · subst hic
    simpa [Daemon.setConn] using hf
  · simp [Daemon.setConn, hic]

lemma of_table (h : SameTable d d') : Narrows d d' := of_eq h.list h.conn

lemma handler (d : Daemon) {r : Request} (hid : r ≠ .id) (hack : r ≠ .ack) (c : ConnId)
    (request : Text) : Narrows d (handler r d c request).1 :=
  of_table (.handler d hid hack c request)

lemma tieBreak (d : Daemon) (c old : ConnId) : Narrows d (d.tieBreak c old).1 := by
  have hclose := fun (d : Daemon) (i : ConnId) => of_closes (.terminateConnection d i false)
  have hmove : Narrows d (d.moveOutgoing old c) := (setConn rfl).trans (setConn rfl)
  have hgraph := fun (d : Daemon) => of_same (SameIndexes.graph d)
  unfold Daemon.tieBreak
  dsimp only
  split
  · split
    · split
      · exact (hmove.trans (hclose _ old)).trans (hgraph _)
      · exact (hclose d old).trans (hgraph _)
    · exact hclose d c
  · split
    · split
      · exact (hmove.trans (hclose _ old)).trans (hgraph _)
      · exact hclose d c
    · have hset : Narrows d
          (d.setConn c ({ · with outgoing := (d.conn old).outgoing })) := setConn rfl
      exact (hset.trans (hclose _ old)).trans (hgraph _)

end Narrows

/-- Connections may be gone, and `c` may stand otherwise now. -/
structure Changes (c : ConnId) (d d' : Daemon) : Prop where
  listed : ∀ i ∈ d'.connectionList, i ∈ d.connectionList
  other : ∀ i ∈ d'.connectionList, i ≠ c → (d'.conn i).standing = (d.conn i).standing

lemma Narrows.changes (h : Narrows d d') (c : ConnId) : Changes c d d' :=
  ⟨fun i hi => (h i hi).1, fun i hi _ => (h i hi).2⟩

/-- Connection `c` may admit all requests now. -/
structure MayActivate (c : ConnId) (d d' : Daemon) : Prop extends Changes c d d' where
  own : c ∈ d'.connectionList → (d'.conn c).standing = (d.conn c).standing ∨
    (d'.conn c).standing = { (d.conn c).standing with allowRequest := allRequests }

lemma Narrows.mayActivate (h : Narrows d d') (c : ConnId) : MayActivate c d d' :=
  ⟨h.changes c, fun hc => .inl (h c hc).2⟩

lemma MayActivate.activate (h : Narrows d d') (c : ConnId) (n : Name) (r : AckRequest) :
    MayActivate c d (d'.activate c n r) := by
  have hb := Binds.activate d' c n r
  refine ⟨⟨fun i hi => (h i (hb.list ▸ hi)).1, fun i hi hne => ?_⟩, fun hc => .inr ?_⟩
  · rw [hb.conn i hne]
    exact (h i (hb.list ▸ hi)).2
  · have hc := (h c (hb.list ▸ hc)).2
    simp only [Conn.standing, Standing.mk.injEq] at hc ⊢
    rw [hb.name, hb.allow, hb.vpnAddress]
    exact ⟨rfl, hc.2⟩

lemma MayActivate.ackH (d : Daemon) (c : ConnId) (request : Text) :
    MayActivate c d (ackH d c request).1 := by
  have hnode := Narrows.of_table (.ensureNode d (d.conn c).name)
  unfold Tinc.ackH
  split
  · exact (Narrows.refl d).mayActivate c
  · dsimp only
    split
    · exact activate hnode c _ _
    · split
      · exact activate hnode c _ _
      · split
        · exact activate (hnode.trans (Narrows.tieBreak _ c _)) c _ _
        · exact Narrows.mayActivate (hnode.trans (Narrows.tieBreak _ c _)) c

/-- `id_h` admits CONTROL or ACK on the connection, or leaves what is admitted. -/
lemma idH_changes (d : Daemon) (c : ConnId) (request : Text) :
    Changes c d (idH d c request).1 ∧
      (((idH d c request).1.conn c).allowRequest = (d.conn c).allowRequest ∨
        ((idH d c request).1.conn c).allowRequest = Request.control.number ∨
        ((idH d c request).1.conn c).allowRequest = Request.ack.number) := by
  obtain ⟨x, hx, hout⟩ := idH_becomes d c request
  rw [hx.conn]
  refine ⟨?_, hout.allow⟩
  obtain ⟨_, _, _, _, _, _, _, heq⟩ := hx
  rw [heq]
  refine ⟨fun i hi => hi, fun i _ hne => ?_⟩
  simp [Daemon.setConn, hne]

end Tinc
