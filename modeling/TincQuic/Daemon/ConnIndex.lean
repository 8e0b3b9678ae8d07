import TincQuic.Daemon.Authority
import TincQuic.Daemon.EdgeIndex

/-!
# The indexes of connections

A connection that was activated points to its node and to the edge that stands for it, and both
point back.

* `ConnIndex` is the invariant: it says that these pointers are right, and that every edge that
  starts at `myself` stands for a listed connection.
* What peers say about edges changes neither connections nor the edges of `myself`, so that
  `OwnKept` and `SameConns` together are enough for `add_edge_h` and `del_edge_h`.
* **`ack_h` keeps the invariant on a connection without an edge**: `ConnIndex.ackH`.  On a
  connection that has one it does not, because `edge_add` refuses the second edge.
-/

namespace Tinc

open Bytes CText Function

variable {d d' d'' : Daemon}

/-! ## Changes of edges only -/

/-- `d'` has the nodes and connections of `d`; edges and what is sent may differ. -/
def SameConns (d d' : Daemon) : Prop :=
  ∃ edge tree weights new node mst past drawn sent add del, d' =
    { d with
      edge := edge, edgeTree := tree, edgeWeightTree := weights, newEdge := new, node := node,
      mst := mst, pastRequests := past, drawn := drawn, sent := sent,
      contradictingAddEdge := add, contradictingDelEdge := del }

namespace SameConns

lemma of_same (h : SameIndexes d d') : SameConns d d' := by
  obtain ⟨_, _, _, _, _, _, _, rfl⟩ := h
  exact ⟨_, _, _, _, _, _, _, _, _, _, _, rfl⟩

lemma refl (d : Daemon) : SameConns d d := of_same (.refl d)

lemma trans (h : SameConns d d') (h' : SameConns d' d'') : SameConns d d'' := by
  obtain ⟨_, _, _, _, _, _, _, _, _, _, _, rfl⟩ := h
  obtain ⟨_, _, _, _, _, _, _, _, _, _, _, rfl⟩ := h'
  exact ⟨_, _, _, _, _, _, _, _, _, _, _, rfl⟩

lemma allocEdge (d : Daemon) (edge : Edge) : SameConns d (d.allocEdge edge).1 :=
  ⟨_, _, _, _, _, _, _, _, _, _, _, rfl⟩

lemma setEdge (d : Daemon) (e : EdgeId) (f : Edge → Edge) : SameConns d (d.setEdge e f) :=
  ⟨_, _, _, _, _, _, _, _, _, _, _, rfl⟩

lemma insertWeight (d : Daemon) (e : EdgeId) : SameConns d (d.insertWeight e) :=
  ⟨_, _, _, _, _, _, _, _, _, _, _, rfl⟩

lemma edgeAdd (d : Daemon) (e : EdgeId) : SameConns d (d.edgeAdd e) := by
  unfold Daemon.edgeAdd
  dsimp only
  split
  · exact refl d
  · refine trans ?_ (insertWeight _ e)
    rw [linkReverse_eq]
    exact ⟨_, _, _, _, _, _, _, _, _, _, _, rfl⟩

lemma edgeDel (d : Daemon) (e : EdgeId) : SameConns d (d.edgeDel e) := by
  unfold Daemon.edgeDel
  rw [unlinkReverse_eq]
  exact ⟨_, _, _, _, _, _, _, _, _, _, _, rfl⟩

lemma changeWeight (d : Daemon) (e : EdgeId) (weight : ℤ) :
    SameConns d (d.changeWeight e weight) := by
  unfold Daemon.changeWeight
  split
  · exact refl d
  · split
    · exact setEdge d e _
    · refine trans ?_ (insertWeight _ _)
      exact ⟨_, _, _, _, _, _, _, _, _, _, _, rfl⟩

lemma changeEdge (d : Daemon) (e : EdgeId) (r : AddEdge) : SameConns d (d.changeEdge e r) :=
  (setEdge d e _).trans (changeWeight _ e _)

lemma cleanUp (d : Daemon) (n : Name) : SameConns d (d.cleanUp n) := by
  unfold Daemon.cleanUp
  split
  · exact refl d
  · split
    · exact refl d
    · refine trans ?_ (edgeDel _ _)
      split
      · exact refl d
      · exact of_same (SameIndexes.sendDelEdge d _ _ _)

lemma applyAddEdge (d : Daemon) (c : ConnId) (request : Text) (r : AddEdge) :
    SameConns d (d.applyAddEdge c request r) := by
  have htell := fun d' : Daemon => of_same
    ((SameIndexes.tellRest d' c request).trans (SameIndexes.graph _))
  unfold Daemon.applyAddEdge
  split
  · split
    · exact refl d
    · split
      · exact of_same (SameIndexes.sendAddEdge d _ _)
      · exact (changeEdge d _ r).trans (htell _)
  · split
    · exact (of_same ⟨_, _, _, _, _, _, _, rfl⟩).trans (of_same (SameIndexes.sendDelEdge _ _ _ _))
    · exact ((allocEdge d _).trans (edgeAdd _ _)).trans (htell _)

lemma applyDelEdge (d : Daemon) (c : ConnId) (request : Text) (fromName toName : Name) :
    SameConns d (d.applyDelEdge c request fromName toName) := by
  unfold Daemon.applyDelEdge
  split
  · exact refl d
  · split
    · exact (of_same ⟨_, _, _, _, _, _, _, rfl⟩).trans (of_same (SameIndexes.sendAddEdge _ _ _))
    · refine trans ?_ (cleanUp _ toName)
      exact ((of_same (SameIndexes.tellRest d c request)).trans (edgeDel _ _)).trans
        (of_same (SameIndexes.graph _))

end SameConns

/-- The weight of the edge that `ack_h` makes. -/
def ackWeight (conn : Conn) (r : AckRequest) : ℤ :=
  (toInt32 (r.weight + conn.estimatedWeight)).tdiv 2

/-! ## The invariant -/

/-- The indexes of edges and connections are consistent. -/
structure ConnIndex (d : Daemon) : Prop extends EdgeIndex d where
  /-- `n->connection = c` if and only if `c->node = n` -/
  node : ∀ c ∈ d.connectionList, ∀ n, d.nodeConnection n = some c ↔ (d.conn c).node = some n
  listed : ∀ n c, d.nodeConnection n = some c → c ∈ d.connectionList ∧ n ∈ d.nodeTree
  /-- `c->edge` goes from `myself` to `c->node`. -/
  connEdge : ∀ c ∈ d.connectionList, ∀ e, (d.conn c).edge = some e →
    e ∈ d.edgeTree d.myself ∧ (d.edge e).connection = some c ∧
      (d.conn c).node = some (d.edge e).toNode
  noEdge : ∀ c ∈ d.connectionList, (d.conn c).edge = none → (d.conn c).node = none
  own : ∀ e ∈ d.edgeTree d.myself, ∃ c ∈ d.connectionList, (d.conn c).edge = some e
  /-- A connection that may send ACK has the name of somebody else. -/
  name : ∀ c ∈ d.connectionList, (d.conn c).allowRequest = Request.ack.number ∨
    (d.conn c).allowRequest = allRequests → (d.conn c).name ≠ d.myself

namespace ConnIndex

lemma of_same (hs : SameIndexes d d') (h : ConnIndex d) : ConnIndex d' := by
  have he := h.toEdgeIndex.of_same hs
  obtain ⟨_, _, _, _, _, _, _, rfl⟩ := hs
  exact ⟨he, h.node, h.listed, h.connEdge, h.noEdge, h.own, h.name⟩

/-- Edges of others changed. -/
lemma of_own (h : ConnIndex d) (he : EdgeIndex d') (hown : OwnKept d d') (hc : SameConns d d') :
    ConnIndex d' := by
  have hsaid := hown.edge
  have htree := hown.edgeTree
  obtain ⟨_, _, _, _, _, _, _, _, _, _, _, rfl⟩ := hc
  have hkept := fun e (hm : e ∈ d.edgeTree d.myself) =>
    Edge.said_inj (hsaid e (h.edge _ e hm).2 (h.edge _ e hm).1)
  refine ⟨he, h.node, h.listed, fun c hc e hce => ?_, h.noEdge, fun e hm => ?_, h.name⟩
  · obtain ⟨h1, h2, h3⟩ := h.connEdge c hc e hce
    refine ⟨htree.symm ▸ h1, (hkept e h1).2.2.2.trans h2, ?_⟩
    rw [(hkept e h1).2.1]
    exact h3
  · exact h.own e (htree ▸ hm)

lemma ensureNode (h : ConnIndex d) (n : Name) : ConnIndex (d.ensureNode n) := by
  have he := h.toEdgeIndex.ensureNode n
  have htree := (OwnKept.ensureNode h.toFiled n).edgeTree
  have hmem := fun m => h.toEdgeIndex.mem_ensureNode n (m := m)
  unfold Daemon.ensureNode at he htree hmem ⊢
  split at he <;> rename_i hn
  · rw [if_pos hn] at htree hmem ⊢
    -- the new node had no connection before
    have hconn : (d.addNode n).nodeConnection = d.nodeConnection := by
      refine funext fun m => ?_
      by_cases hm : m = n
      · subst hm
        refine (update_self _ _ _).trans (Option.eq_none_iff_forall_ne_some.mpr fun c hc => ?_).symm
        exact (lookupNode_eq_none h.nodes).mp hn (h.listed m c hc).2
      · exact update_of_ne hm _ _
    refine ⟨he, ?_, ?_, fun c hc e hce => ?_, h.noEdge, fun e hm => ?_, h.name⟩
    · rw [hconn]
      exact h.node
    · rw [hconn]
      exact fun m c hc => ⟨(h.listed m c hc).1, (hmem m).mpr (.inr (h.listed m c hc).2)⟩
    · obtain ⟨h1, h2⟩ := h.connEdge c hc e hce
      exact ⟨htree.symm ▸ h1, h2⟩
    · exact h.own e (htree ▸ hm)
  · rw [if_neg hn]
    exact h

/-- A connection changes, but not its node and edge, and the name is checked before an ACK. -/
lemma setConn (h : ConnIndex d) (c : ConnId) {f : Conn → Conn}
    (hnode : (f (d.conn c)).node = (d.conn c).node) (hedge : (f (d.conn c)).edge = (d.conn c).edge)
    (hname : (f (d.conn c)).allowRequest = Request.ack.number ∨
      (f (d.conn c)).allowRequest = allRequests → (f (d.conn c)).name ≠ d.myself) :
    ConnIndex (d.setConn c f) := by
  have hn : ∀ i, ((d.setConn c f).conn i).node = (d.conn i).node := by
    intro i
    by_cases hi : i = c
    · subst hi
      simpa [Daemon.setConn] using hnode
    · simp [Daemon.setConn, hi]
  have he : ∀ i, ((d.setConn c f).conn i).edge = (d.conn i).edge := by
    intro i
    by_cases hi : i = c
    · subst hi
      simpa [Daemon.setConn] using hedge
    · simp [Daemon.setConn, hi]
  refine ⟨h.toEdgeIndex.setConn c f, fun i hi n => ?_, h.listed, fun i hi e => ?_, fun i hi => ?_,
    fun e hm => ?_, fun i hi => ?_⟩
  · rw [hn]
    exact h.node i hi n
  · rw [he, hn]
    exact h.connEdge i hi e
  · rw [he, hn]
    exact h.noEdge i hi
  · obtain ⟨i, hi, hie⟩ := h.own e hm
    exact ⟨i, hi, by rw [he, hie]⟩
  · by_cases hic : i = c
    · subst hic
      simpa [Daemon.setConn] using hname
    · simpa [Daemon.setConn, hic] using h.name i hi

lemma idH (h : ConnIndex d) {c : ConnId} (hc : c ∈ d.connectionList) (request : Text) :
    ConnIndex (idH d c request).1 := by
  obtain ⟨x, hx, hout⟩ := idH_becomes d c request
  refine of_same hx (h.setConn c hout.node hout.edge fun hallow => ?_)
  -- unless `id_h` admits ACK, the value was there before
  have hold := h.name c hc
  rcases hout.name with hname | hctl | ⟨-, hname⟩
  · by_cases heq : x.allowRequest = (d.conn c).allowRequest
    · rw [heq] at hallow
      rw [hname]
      exact hold hallow
    · rcases hout.allow with ha | ha | ha
      · exact absurd ha heq
      · rw [ha] at hallow
        simp [Request.number, allRequests] at hallow
      · exact (hout.ack ha heq).2
  · rw [hctl] at hallow
    simp [Request.number, allRequests] at hallow
  · exact hname

lemma addEdgeH (h : ConnIndex d) (c : ConnId) (request : Text)
    (hfits : ∀ r, parseAddEdge request = some r → r.fromName ≠ d.myself →
      d.Fits r.fromName r.toName r.weight) : ConnIndex (addEdgeH d c request).1 := by
  have hres := h.toEdgeIndex.addEdgeH c request hfits
  have hs := SameIndexes.seenRequest d request
  rcases addEdgeH_cases d c request with he | he | ⟨r, -, -, -, he⟩ <;> rw [he] at hres ⊢
  · exact h
  · exact h.of_same hs
  · have h1 := ((h.of_same hs).ensureNode r.fromName).ensureNode r.toName
    exact h1.of_own hres (.applyAddEdge h1.toFiled c request r) (.applyAddEdge _ c request r)

lemma delEdgeH (h : ConnIndex d) (c : ConnId) (request : Text) :
    ConnIndex (delEdgeH d c request).1 := by
  have hres := h.toEdgeIndex.delEdgeH c request
  have hs := SameIndexes.seenRequest d request
  rcases delEdgeH_cases d c request with he | he | ⟨f, t, -, -, -, -, -, he⟩ <;>
    rw [he] at hres ⊢
  · exact h
  · exact h.of_same hs
  · have h1 := h.of_same hs
    exact h1.of_own hres (.applyDelEdge h1.toFiled c request f t) (.applyDelEdge _ c request f t)

/-! ## The end of a connection -/

/-- A connection without a node is dropped. -/
lemma connectionDel (h : ConnIndex d) {c : ConnId} (hc : c ∈ d.connectionList)
    (hnode : (d.conn c).node = none) : ConnIndex (d.connectionDel c) := by
  have hmem : ∀ i, i ∈ (d.connectionDel c).connectionList ↔ i ∈ d.connectionList ∧ i ≠ c := by
    simp [Daemon.connectionDel]
  refine ⟨h.toEdgeIndex.of_conns _ _ _ _, fun i hi => h.node i ((hmem i).mp hi).1,
    fun n i hi => ⟨(hmem i).mpr ⟨(h.listed n i hi).1, ?_⟩, (h.listed n i hi).2⟩,
    fun i hi => h.connEdge i ((hmem i).mp hi).1, fun i hi => h.noEdge i ((hmem i).mp hi).1,
    fun e he => ?_, fun i hi => h.name i ((hmem i).mp hi).1⟩
  · rintro rfl
    have := (h.node i hc n).mp hi
    rw [hnode] at this
    cases this
  · obtain ⟨i, hi, hie⟩ := h.own e he
    refine ⟨i, (hmem i).mpr ⟨hi, ?_⟩, hie⟩
    rintro rfl
    have := (h.connEdge i hc e hie).2.2
    rw [hnode] at this
    cases this

/-- A connection with a node and an edge is unlinked from both and dropped. -/
lemma unlink (h : ConnIndex d) {c : ConnId} (hc : c ∈ d.connectionList) {n : Name} {e : EdgeId}
    (hn : (d.conn c).node = some n) (hce : (d.conn c).edge = some e)
    (hs : SameIndexes (d.detach c n) d') :
    ConnIndex (((d'.edgeDel e).setConn c ({ · with edge := none })).connectionDel c) := by
  obtain ⟨hmem, hback, hto⟩ := h.connEdge c hc e hce
  rw [Daemon.detach, if_pos ((h.node c hc n).mpr hn)] at hs
  have hd' : EdgeIndex d' := (h.toEdgeIndex.of_conns _ _ _ _).of_same hs
  have hmem' : e ∈ d'.edgeTree d.myself := by
    obtain ⟨_, _, _, _, _, _, _, rfl⟩ := hs
    exact hmem
  obtain ⟨hdel, hin⟩ := hd'.edgeDel hmem'
  have hsaid := fun i => Edge.said_inj (EdgeIndex.edgeDel_said d' e i)
  obtain ⟨edge, tree, weights, new, _, _, _, _, _, _, _, heq⟩ := SameConns.edgeDel d' e
  rw [heq] at hdel hin hsaid ⊢
  obtain ⟨_, _, _, _, _, _, _, rfl⟩ := hs
  dsimp only at hin hsaid
  -- the connections that are left
  have hlist : ∀ i, i ∈ d.connectionList.filter (· ≠ c) ↔ i ∈ d.connectionList ∧ i ≠ c := by
    simp
  refine ⟨(hdel.setConn c _).of_conns _ _ _ _, fun i hi m => ?_, fun m i hi => ?_,
    fun i hi e' hie => ?_, fun i hi => ?_, fun e' he' => ?_, fun i hi => ?_⟩ <;>
    dsimp only [Daemon.connectionDel, Daemon.setConn] at *
  · obtain ⟨hi, hic⟩ := (hlist i).mp hi
    rw [update_of_ne hic]
    by_cases hm : m = n
    · subst hm
      rw [update_self]
      refine iff_of_false nofun fun hin => hic ?_
      exact Option.some.inj (((h.node i hi m).mpr hin).symm.trans ((h.node c hc m).mpr hn))
    · rw [update_of_ne hm]
      exact h.node i hi m
  · have hm : m ≠ n := by
      rintro rfl
      rw [update_self] at hi
      cases hi
    rw [update_of_ne hm] at hi
    refine ⟨(hlist i).mpr ⟨(h.listed m i hi).1, ?_⟩, (h.listed m i hi).2⟩
    rintro rfl
    exact hm (Option.some.inj (((h.node i hc m).mp hi).symm.trans hn))
  · obtain ⟨hi, hic⟩ := (hlist i).mp hi
    rw [update_of_ne hic] at hie ⊢
    obtain ⟨h1, h2, h3⟩ := h.connEdge i hi e' hie
    refine ⟨(hin d.myself e').mpr ⟨h1, ?_⟩, (hsaid e').2.2.2.trans h2, ?_⟩
    · rintro rfl
      exact hic (Option.some.inj (h2.symm.trans hback))
    · rw [(hsaid e').2.1]
      exact h3
  · obtain ⟨hi, hic⟩ := (hlist i).mp hi
    rw [update_of_ne hic]
    exact h.noEdge i hi
  · obtain ⟨he', hne⟩ := (hin d.myself e').mp he'
    obtain ⟨i, hi, hie⟩ := h.own e' he'
    have hic : i ≠ c := by
      rintro rfl
      exact hne (Option.some.inj (hie.symm.trans hce))
    exact ⟨i, (hlist i).mpr ⟨hi, hic⟩, by rw [update_of_ne hic, hie]⟩
  · obtain ⟨hi, hic⟩ := (hlist i).mp hi
    rw [update_of_ne hic]
    exact h.name i hi

lemma sameIndexes_connectionDel (h : SameIndexes d d') (c : ConnId) :
    SameIndexes (d.connectionDel c) (d'.connectionDel c) := by
  obtain ⟨_, _, _, _, _, _, _, rfl⟩ := h
  exact ⟨_, _, _, _, _, _, _, rfl⟩

/-- After a connection to `n` was dropped, its edge back to us may be dropped too. -/
lemma cleanUp {c : ConnId} (h : ConnIndex (d.connectionDel c)) {n : Name} (hn : n ≠ d.myself) :
    ConnIndex ((d.cleanUp n).connectionDel c) := by
  have he : EdgeIndex d :=
    h.toEdgeIndex.of_conns d.connectionList d.conn d.nodeConnection d.retries
  have hown := OwnKept.cleanUp he.toFiled fun h => absurd h hn
  refine h.of_own ((he.cleanUp n).of_conns _ _ _ _) ⟨hown.config, hown.edgeTree, hown.weightTree,
    hown.edge, hown.newEdge, hown.nodeSubnets, hown.subnetTree, hown.subnet, hown.newSubnet⟩ ?_
  obtain ⟨_, _, _, _, _, _, _, _, _, _, _, heq⟩ := SameConns.cleanUp d n
  rw [heq]
  exact ⟨_, _, _, _, _, _, _, _, _, _, _, rfl⟩

/-- `terminate_connection` tells everyone, or not, before it removes the edge. -/
lemma removeEdge_eq (d : Daemon) (c : ConnId) (n : Name) (e : EdgeId) (report : Bool) :
    ∃ d', SameIndexes d d' ∧ d.removeEdge c n e report =
      if report then (graph ((d'.edgeDel e).setConn c ({ · with edge := none }))).cleanUp n
      else graph ((d'.edgeDel e).setConn c ({ · with edge := none })) := by
  refine ⟨_, ?_, rfl⟩
  split
  · exact SameIndexes.sendDelEdge d _ _ _
  · exact SameIndexes.refl d

lemma terminateConnection (h : ConnIndex d) {c : ConnId} (hc : c ∈ d.connectionList)
    (report : Bool) : ConnIndex (d.terminateConnection c report) := by
  unfold Daemon.terminateConnection
  split
  · rename_i hn
    exact h.connectionDel hc hn
  · rename_i n hn
    split
    · rename_i hce
      rw [h.noEdge c hc hce] at hn
      cases hn
    · rename_i e hce
      obtain ⟨hmem, -, hto⟩ := h.connEdge c hc e hce
      have hne : n ≠ d.myself := by
        rw [← Option.some.inj (hto.symm.trans hn)]
        exact h.shelved.proper _ e hmem
      obtain ⟨d', hs, heq⟩ := removeEdge_eq (d.detach c n) c n e report
      rw [heq]
      have hgraph := of_same (sameIndexes_connectionDel (SameIndexes.graph _) c)
        (h.unlink hc hn hce hs)
      split
      · refine cleanUp hgraph (hne.trans_eq (congrArg Config.myself ?_))
        have hconf : d'.config = (d.detach c n).config := by
          obtain ⟨_, _, _, _, _, _, _, rfl⟩ := hs
          rfl
        have hdetach : (d.detach c n).config = d.config := by
          unfold Daemon.detach
          split <;> rfl
        exact (((Filed.edgeDel_config d' e).1.trans hconf).trans hdetach).symm
      · exact hgraph

/-! ## The activation of a connection -/

/-- To a node without a connection there is no edge. -/
lemma lookupEdge_eq_none (h : ConnIndex d) {n : Name} (hn : d.nodeConnection n = none) :
    d.lookupEdge d.myself n = none := by
  refine h.shelved.findEdge_eq_none.mpr fun e he hto => ?_
  obtain ⟨c, hc, hce⟩ := h.own e he
  have hnode := (h.node c hc n).mpr (hto ▸ (h.connEdge c hc e hce).2.2)
  rw [hn] at hnode
  cases hnode

lemma linkReverse_setConn (d : Daemon) (c : ConnId) (f : Conn → Conn) (e : EdgeId) :
    (d.setConn c f).linkReverse e = (d.linkReverse e).setConn c f := by
  have hl : (d.setConn c f).lookupEdge ((d.setConn c f).edge e).toNode
      ((d.setConn c f).edge e).fromNode = d.lookupEdge (d.edge e).toNode (d.edge e).fromNode := rfl
  unfold Daemon.linkReverse
  rw [hl]
  cases d.lookupEdge (d.edge e).toNode (d.edge e).fromNode <;> rfl

/-- `edge_add` does not look at connections. -/
lemma edgeAdd_setConn (d : Daemon) (c : ConnId) (f : Conn → Conn) (e : EdgeId) :
    (d.setConn c f).edgeAdd e = (d.edgeAdd e).setConn c f := by
  have hi : OrdList.insert (fun i => strcmp ((d.setConn c f).edge e).toNode
      ((d.setConn c f).edge i).toNode) e ((d.setConn c f).edgeTree ((d.setConn c f).edge e).fromNode)
      = OrdList.insert (fun i => strcmp (d.edge e).toNode (d.edge i).toNode) e
        (d.edgeTree (d.edge e).fromNode) := rfl
  unfold Daemon.edgeAdd
  dsimp only
  rw [hi]
  cases OrdList.insert (fun i => strcmp (d.edge e).toNode (d.edge i).toNode) e
      (d.edgeTree (d.edge e).fromNode) with
  | none => rfl
  | some tree =>
      have hl := linkReverse_setConn
        { d with edgeTree := update d.edgeTree (d.edge e).fromNode tree } c f e
      exact congrArg (fun d' : Daemon => d'.insertWeight e) hl

/-- Connection `c` may be activated as a connection to node `n`. -/
structure Ready (d : Daemon) (c : ConnId) (n : Name) (r : AckRequest) : Prop where
  listed : c ∈ d.connectionList
  name : (d.conn c).name = n
  noEdge : (d.conn c).edge = none
  known : n ∈ d.nodeTree
  other : n ≠ d.myself
  fits : d.Fits d.myself n (ackWeight (d.conn c) r)

lemma activate (h : ConnIndex d) {c : ConnId} {n : Name} {r : AckRequest} (hr : Ready d c n r)
    (hfree : d.nodeConnection n = none) : ConnIndex (d.activate c n r) := by
  obtain ⟨hc, hname, hnone, hknown, hne, hfits⟩ := hr
  refine of_same (SameIndexes.graph _) (of_same (SameIndexes.announceEdge _ c) ?_)
  have hlook := h.lookupEdge_eq_none hfree
  have hs := SameIndexes.sendEverything (d.bindNode c n r) c
  generalize (d.bindNode c n r).sendEverything c = d' at hs ⊢
  have hd' : EdgeIndex d' := ((h.toEdgeIndex.of_conns _ _ _ _).setConn c _).of_same hs
  have heq : d'.addConnectionEdge c n r =
      (d'.addNewEdge (d'.connectionEdge c n r)).setConn c ({ · with edge := some d'.newEdge }) :=
    edgeAdd_setConn _ c _ _
  rw [heq]
  -- the weight fits, because the edge that is excluded does not exist
  have hnear : ∀ i ∈ d.edgeWeightTree, Near (ackWeight (d.conn c) r) (d.edge i).weight := by
    intro i hi
    refine hfits i hi (not_and_or.mp fun hends => ?_)
    have hi' := (h.shelved.both i).mp hi
    rw [hends.1] at hi'
    exact h.shelved.findEdge_eq_none.mp hlook i hi' hends.2
  have hadd : EdgeIndex (d'.addNewEdge (d'.connectionEdge c n r)) ∧
      ∀ m i, i ∈ (d'.addNewEdge (d'.connectionEdge c n r)).edgeTree m ↔
        (i = d'.newEdge ∧ m = d'.myself) ∨ i ∈ d'.edgeTree m := by
    refine hd'.addNewEdge ?_ ?_ ?_ ?_ <;> obtain ⟨_, _, _, _, _, _, _, rfl⟩ := hs
    · exact hlook
    · exact hne
    · exact h.myself
    · intro i hi
      have hw : ackWeight ((d.bindNode c n r).conn c) r = ackWeight (d.conn c) r := by
        simp [ackWeight, Daemon.bindNode, Daemon.setConn]
      have := hnear i hi
      rw [← hw] at this
      exact this
  obtain ⟨hadd, hin⟩ := hadd
  have hsaid : ∀ i, i ≠ d'.newEdge →
      ((d'.addNewEdge (d'.connectionEdge c n r)).edge i).said = (d'.edge i).said := by
    intro i hi
    refine (EdgeIndex.edgeAdd_said _ _ i).trans ?_
    simp [Daemon.allocEdge, hi]
  have hnew : ((d'.addNewEdge (d'.connectionEdge c n r)).edge d'.newEdge).said =
      (d'.connectionEdge c n r).said := by
    refine (EdgeIndex.edgeAdd_said _ _ _).trans ?_
    simp [Daemon.allocEdge]
  have hsame : SameConns d' (d'.addNewEdge (d'.connectionEdge c n r)) :=
    (SameConns.allocEdge d' _).trans (SameConns.edgeAdd _ _)
  obtain ⟨_, _, _, _, _, _, _, _, _, _, _, hrec⟩ := hsame
  rw [hrec] at hadd hin hsaid hnew ⊢
  obtain ⟨_, _, _, _, _, _, _, rfl⟩ := hs
  refine ⟨hadd.setConn c _, fun i hi m => ?_, fun m i hi => ?_, fun i hi e hie => ?_,
    fun i hi hie => ?_, fun e he => ?_, fun i hi hallow => ?_⟩ <;>
    dsimp only [Daemon.setConn, Daemon.bindNode] at *
  · by_cases hic : i = c
    · subst hic
      simp only [update_self, Option.some.injEq]
      by_cases hm : m = n
      · subst hm
        simp only [update_self]
      · rw [update_of_ne hm]
        refine iff_of_false (fun hmi => ?_) (Ne.symm hm)
        have hnode := (h.node i hc m).mp hmi
        rw [h.noEdge i hc hnone] at hnode
        cases hnode
    · simp only [update_of_ne hic]
      by_cases hm : m = n
      · subst hm
        rw [update_self]
        refine iff_of_false (fun hci => hic (Option.some.inj hci).symm) fun hmi => ?_
        rw [(h.node i hi m).mpr hmi] at hfree
        cases hfree
      · rw [update_of_ne hm]
        exact h.node i hi m
  · by_cases hm : m = n
    · subst hm
      rw [update_self] at hi
      rw [← Option.some.inj hi]
      exact ⟨hc, hknown⟩
    · rw [update_of_ne hm] at hi
      exact h.listed m i hi
  · by_cases hic : i = c
    · subst hic
      simp only [update_self, Option.some.injEq] at hie ⊢
      subst hie
      obtain ⟨-, hto, -, hconn⟩ := Edge.said_inj hnew
      exact ⟨(hin _ _).mpr (.inl ⟨rfl, rfl⟩), hconn, hto.symm⟩
    · simp only [update_of_ne hic] at hie ⊢
      obtain ⟨h1, h2, h3⟩ := h.connEdge i hi e hie
      obtain ⟨-, hto, -, hconn⟩ := Edge.said_inj (hsaid e (h.edge _ e h1).2.ne)
      refine ⟨(hin _ _).mpr (.inr h1), hconn.trans h2, ?_⟩
      rw [hto]
      exact h3
  · by_cases hic : i = c
    · subst hic
      simp only [update_self] at hie
      cases hie
    · simp only [update_of_ne hic] at hie ⊢
      exact h.noEdge i hi hie
  · rcases (hin _ _).mp he with ⟨rfl, -⟩ | he
    · exact ⟨c, hc, by simp only [update_self]⟩
    · obtain ⟨i, hi, hie⟩ := h.own e he
      have hic : i ≠ c := by
        rintro rfl
        rw [hnone] at hie
        cases hie
      exact ⟨i, hi, by simp only [update_of_ne hic, hie]⟩
  · by_cases hic : i = c
    · subst hic
      simp only [update_self, hname]
      exact hne
    · simp only [update_of_ne hic] at hallow ⊢
      exact h.name i hi hallow

namespace Ready

variable {c : ConnId} {n : Name} {r : AckRequest}

lemma of_same (hs : SameIndexes d d') (h : Ready d c n r) : Ready d' c n r :=
  hs.keeps (P := fun d => Ready d c n r) (fun _ _ _ _ _ _ _ h => ⟨h.1, h.2, h.3, h.4, h.5, h.6⟩) h

/-- Nothing is asked of `outgoing` and of other connections. -/
lemma setConn (h : Ready d c n r) (i : ConnId) {f : Conn → Conn}
    (hf : i ≠ c ∨ ∀ x, (f x).name = x.name ∧ (f x).edge = x.edge ∧
      (f x).estimatedWeight = x.estimatedWeight) : Ready (d.setConn i f) c n r := by
  have hconn : ((d.setConn i f).conn c).name = (d.conn c).name ∧
      ((d.setConn i f).conn c).edge = (d.conn c).edge ∧
      ((d.setConn i f).conn c).estimatedWeight = (d.conn c).estimatedWeight := by
    by_cases hi : c = i
    · subst hi
      simpa [Daemon.setConn] using (hf.resolve_left (· rfl)) (d.conn c)
    · simp [Daemon.setConn, hi]
  have hfits := h.fits
  rw [ackWeight, ← hconn.2.2] at hfits
  exact ⟨h.listed, hconn.1.trans h.name, hconn.2.1.trans h.noEdge, h.known, h.other, hfits⟩

lemma setOutgoing (h : Ready d c n r) (i : ConnId) (outgoing : Option ℕ) :
    Ready (d.setConn i ({ · with outgoing := outgoing })) c n r :=
  h.setConn i (.inr fun _ => ⟨rfl, rfl, rfl⟩)

/-- An edge less does no harm. -/
lemma edgeDel (h : Ready d c n r) (e : EdgeId) : Ready (d.edgeDel e) c n r := by
  have hsaid := fun i => Edge.said_inj (EdgeIndex.edgeDel_said d e i)
  have hmem : ∀ i ∈ (d.edgeDel e).edgeWeightTree, i ∈ d.edgeWeightTree := by
    intro i hi
    have hw : (d.unlinkReverse e).edgeWeightTree = d.edgeWeightTree := by rw [unlinkReverse_eq]
    rw [← hw]
    exact OrdList.mem_of_mem_delete hi
  have hfits : (d.edgeDel e).Fits d.myself n (ackWeight (d.conn c) r) := by
    intro i hi hends
    rw [(hsaid i).1, (hsaid i).2.1] at hends
    rw [(hsaid i).2.2.1]
    exact h.fits i (hmem i hi) hends
  obtain ⟨_, _, _, _, _, _, _, _, _, _, _, heq⟩ := SameConns.edgeDel d e
  rw [heq] at hfits ⊢
  exact ⟨h.listed, h.name, h.noEdge, h.known, h.other, hfits⟩

/-- Another connection ends, without a report. -/
lemma terminate (h : Ready d c n r) {old : ConnId} (hne : c ≠ old) :
    Ready (d.terminateConnection old false) c n r := by
  have hdel : ∀ {d : Daemon}, Ready d c n r → Ready (d.connectionDel old) c n r := fun h =>
    ⟨List.mem_filter.mpr ⟨h.listed, by simpa using hne⟩, h.name, h.noEdge, h.known, h.other,
      h.fits⟩
  unfold Daemon.terminateConnection
  split
  · exact hdel h
  · rename_i m hm
    have hd : Ready (d.detach old m) c n r := by
      unfold Daemon.detach
      split
      · exact ⟨h.listed, h.name, h.noEdge, h.known, h.other, h.fits⟩
      · exact h
    split
    · exact hdel hd
    · rename_i e he
      obtain ⟨d', hs, heq⟩ := removeEdge_eq (d.detach old m) old m e false
      rw [heq, if_neg Bool.false_ne_true]
      exact hdel (of_same (SameIndexes.graph _)
        ((edgeDel (of_same hs hd) e).setConn old (.inl hne.symm)))

end Ready

lemma setOutgoing (h : ConnIndex d) {i : ConnId} (hi : i ∈ d.connectionList)
    (outgoing : Option ℕ) : ConnIndex (d.setConn i ({ · with outgoing := outgoing })) :=
  h.setConn i rfl rfl (h.name i hi)

/-- The connection that `n` had ends, and then `n` has none. -/
lemma terminate_nodeConnection (h : ConnIndex d) {old : ConnId} {n : Name}
    (hold : d.nodeConnection n = some old) :
    (d.terminateConnection old false).nodeConnection n = none := by
  have hlist := (h.listed n old hold).1
  have hn := (h.node old hlist n).mp hold
  have hdetach : (d.detach old n).nodeConnection n = none := by simp [Daemon.detach, hold]
  unfold Daemon.terminateConnection
  rw [hn]
  dsimp only
  split
  · exact hdetach
  · rename_i e he
    obtain ⟨d', hs, heq⟩ := removeEdge_eq (d.detach old n) old n e false
    rw [heq, if_neg Bool.false_ne_true]
    have hd' : d'.nodeConnection n = none := hs.keeps
      (P := fun d => d.nodeConnection n = none) (fun _ _ _ _ _ _ _ h => h) hdetach
    obtain ⟨_, _, _, _, _, _, _, _, _, _, _, hrec⟩ := SameConns.edgeDel d' e
    rw [hrec]
    exact hd'

/-- The old connection to `n` is terminated in favour of `c`. -/
lemma replace (h : ConnIndex d) {c old : ConnId} {n : Name} {r : AckRequest} (hr : Ready d c n r)
    (hne : c ≠ old) (hold : d.nodeConnection n = some old) :
    ConnIndex (graph (d.terminateConnection old false)) ∧
      Ready (graph (d.terminateConnection old false)) c n r ∧
      (graph (d.terminateConnection old false)).nodeConnection n = none :=
  ⟨of_same (SameIndexes.graph _) (h.terminateConnection (h.listed n old hold).1 false),
    Ready.of_same (SameIndexes.graph _) (hr.terminate hne), h.terminate_nodeConnection hold⟩

/-- There is a connection to the node already. -/
lemma tieBreak (h : ConnIndex d) {c old : ConnId} {n : Name} {r : AckRequest} (hr : Ready d c n r)
    (hne : c ≠ old) (hold : d.nodeConnection n = some old) :
    ConnIndex (d.tieBreak c old).1 ∧ ((d.tieBreak c old).2 = true →
      Ready (d.tieBreak c old).1 c n r ∧ (d.tieBreak c old).1.nodeConnection n = none) := by
  have hlist := (h.listed n old hold).1
  have hrej := h.terminateConnection hr.listed false
  have hmove : ConnIndex (d.moveOutgoing old c) ∧ Ready (d.moveOutgoing old c) c n r :=
    ⟨(h.setOutgoing hr.listed _).setOutgoing hlist _, (hr.setOutgoing c _).setOutgoing old _⟩
  unfold Daemon.tieBreak
  dsimp only
  split
  · split
    · split
      · exact (hmove.1.replace hmove.2 hne hold).imp_right fun h _ => h
      · exact (h.replace hr hne hold).imp_right fun h _ => h
    · exact ⟨hrej, nofun⟩
  · split
    · split
      · exact (hmove.1.replace hmove.2 hne hold).imp_right fun h _ => h
      · exact ⟨hrej, nofun⟩
    · exact ((h.setOutgoing hr.listed _).replace (hr.setOutgoing c _) hne hold).imp_right
        fun h _ => h

/-- `ack_h` on a connection that has no edge. -/
lemma ackH (h : ConnIndex d) {c : ConnId} (hc : c ∈ d.connectionList)
    (hallow : (d.conn c).allowRequest = Request.ack.number ∨
      (d.conn c).allowRequest = allRequests) (hnone : (d.conn c).edge = none) {request : Text}
    (hfits : ∀ r, parseAck request = some r →
      d.Fits d.myself (d.conn c).name (ackWeight (d.conn c) r)) :
    ConnIndex (ackH d c request).1 := by
  unfold Tinc.ackH
  split
  · exact h
  · rename_i r hreq
    dsimp only
    have hmem := h.toEdgeIndex.mem_ensureNode (d.conn c).name (m := (d.conn c).name)
    have h' := h.ensureNode (d.conn c).name
    have hr : Ready (d.ensureNode (d.conn c).name) c (d.conn c).name r := by
      have hfits' := EdgeIndex.fits_ensureNode (d.conn c).name (hfits r hreq)
      have hother := h.name c hc hallow
      unfold Daemon.ensureNode at hmem hfits' ⊢
      split at hfits' <;> rename_i hn
      · rw [if_pos hn] at hmem ⊢
        exact ⟨hc, rfl, hnone, hmem.mpr (.inl rfl), hother, hfits'⟩
      · rw [if_neg hn] at hmem ⊢
        exact ⟨hc, rfl, hnone, hmem.mpr (.inl rfl), hother, hfits'⟩
    split
    · rename_i hfree
      exact h'.activate hr hfree
    · rename_i old hold
      have hne : c ≠ old := by
        rintro rfl
        have hnode := (h'.node c hr.listed _).mp hold
        rw [h'.noEdge c hr.listed hr.noEdge] at hnode
        cases hnode
      rw [if_neg hne.symm]
      obtain ⟨hb, hgo⟩ := h'.tieBreak hr hne hold
      split
      · rename_i hb2
        obtain ⟨hr', hfree⟩ := hgo hb2
        exact hb.activate hr' hfree
      · exact hb

/-- A new connection has neither node nor edge. -/
lemma connectionAdd (h : ConnIndex d) {c : ConnId} (hc : c ∉ d.connectionList) {conn : Conn}
    (hnode : conn.node = none) (hedge : conn.edge = none)
    (hallow : conn.allowRequest ≠ Request.ack.number ∧ conn.allowRequest ≠ allRequests) :
    ConnIndex (d.step (.connectionAdd c conn)) := by
  have hold : ∀ i ∈ d.connectionList, update d.conn c conn i = d.conn i :=
    fun i hi => update_of_ne (by rintro rfl; exact hc hi) _ _
  have hmem : ∀ i ∈ d.connectionList ++ [c], i ∈ d.connectionList ∨ i = c := by simp
  refine ⟨h.toEdgeIndex.of_conns _ _ _ _, fun i hi n => ?_, fun n i hi => ?_,
    fun i hi e hie => ?_, fun i hi hie => ?_, fun e he => ?_, fun i hi ha => ?_⟩ <;>
    dsimp only [Daemon.step, Daemon.setConn] at *
  · rcases hmem i hi with hi | rfl
    · rw [hold i hi]
      exact h.node i hi n
    · rw [update_self, hnode]
      exact iff_of_false (fun hn => hc (h.listed n i hn).1) nofun
  · exact ⟨List.mem_append_left _ (h.listed n i hi).1, (h.listed n i hi).2⟩
  · rcases hmem i hi with hi | rfl
    · rw [hold i hi] at hie ⊢
      exact h.connEdge i hi e hie
    · rw [update_self, hedge] at hie
      cases hie
  · rcases hmem i hi with hi | rfl
    · rw [hold i hi] at hie ⊢
      exact h.noEdge i hi hie
    · rw [update_self, hnode]
  · obtain ⟨i, hi, hie⟩ := h.own e he
    exact ⟨i, List.mem_append_left _ hi, by rw [hold i hi, hie]⟩
  · rcases hmem i hi with hi | rfl
    · rw [hold i hi] at ha ⊢
      exact h.name i hi ha
    · rw [update_self] at ha
      exact absurd ha (not_or.mpr hallow)

end ConnIndex

end Tinc
