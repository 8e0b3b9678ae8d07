import TincQuic.Daemon.Frame

/-!
# Every object is filed under its owner

An edge is in the `edge_tree` of the node it starts from and a subnet in the tree of its owner,
`myself` is in `node_tree`, and what is newly allocated is in no tree yet.  This much holds in
every state the daemon can reach, whatever its peers send.

* `Filed` is the invariant.  There is one lemma for every operation of `edge.c` and `subnet.c`.
* **The handlers keep it**: `Filed.addEdgeH`, `Filed.delEdgeH`, `Filed.addSubnetH`,
  `Filed.delSubnetH`, `Filed.idH`, `Filed.ackH`, `Filed.terminateConnection`.
-/

namespace Tinc

open CText Function

variable {d d' : Daemon} {n : Name}

/-- Edges and subnets are where they belong. -/
structure Filed (d : Daemon) : Prop where
  edge : ∀ n, ∀ e ∈ d.edgeTree n, (d.edge e).fromNode = n ∧ e < d.newEdge
  weight : ∀ e ∈ d.edgeWeightTree, e < d.newEdge
  subnet : ∀ n, ∀ s ∈ d.nodeSubnets n, (d.subnet s).owner = some n ∧ s < d.newSubnet
  tree : ∀ s ∈ d.subnetTree, s < d.newSubnet
  nodes : OrdList.Sorted textKey d.nodeTree
  myself : d.myself ∈ d.nodeTree

/-! ## Nodes -/

lemma follows_strcmp (name : Name) (l : List Name) :
    OrdList.Follows (strcmp name) (textKey name) textKey l :=
  fun _ _ => ⟨strcmp_eq_zero.trans textKey_inj.symm, strcmp_neg⟩

lemma lookupNode_eq_none (h : OrdList.Sorted textKey d.nodeTree) :
    d.lookupNode n = none ↔ n ∉ d.nodeTree := by
  unfold Daemon.lookupNode
  rw [OrdList.search_eq_none_iff (follows_strcmp n _) h]
  constructor
  · exact fun hn hmem => hn n hmem rfl
  · rintro hn m hm heq
    rw [textKey_inj.mp heq] at hm
    exact hn hm

lemma lookupNode_eq_some {m : Name} (h : d.lookupNode n = some m) : m = n ∧ n ∈ d.nodeTree := by
  obtain ⟨hm, h0⟩ := OrdList.search_some h
  obtain rfl := strcmp_eq_zero.mp h0
  exact ⟨rfl, hm⟩

lemma mem_addNode (h : OrdList.Sorted textKey d.nodeTree) {m : Name} :
    m ∈ (d.addNode n).nodeTree ↔ m = n ∨ m ∈ d.nodeTree := by
  simp only [Daemon.addNode]
  cases hi : OrdList.insert (strcmp n) n d.nodeTree with
  | some l => exact OrdList.mem_insert hi
  | none =>
      obtain ⟨a, ha, hk⟩ := (OrdList.insert_eq_none_iff (follows_strcmp n _) h).mp hi
      obtain rfl := textKey_inj.mp hk
      exact ⟨.inr, fun hm => hm.elim (fun he => he ▸ ha) id⟩

lemma sorted_addNode (h : OrdList.Sorted textKey d.nodeTree) :
    OrdList.Sorted textKey (d.addNode n).nodeTree := by
  simp only [Daemon.addNode]
  cases hi : OrdList.insert (strcmp n) n d.nodeTree with
  | some l => exact h.insert (follows_strcmp n _) hi
  | none => exact h

/-! ## The operations -/

namespace Filed

lemma of_same (hs : SameIndexes d d') (h : Filed d) : Filed d' :=
  hs.keeps (fun _ _ _ _ _ _ _ h => ⟨h.edge, h.weight, h.subnet, h.tree, h.nodes, h.myself⟩) h

/-- Connections are not looked at. -/
lemma of_conns (h : Filed d) (list : List ConnId) (conn : ConnId → Conn)
    (nodeConnection : Name → Option ConnId) (retries : List ℕ) :
    Filed { d with
      connectionList := list, conn := conn, nodeConnection := nodeConnection,
      retries := retries } :=
  ⟨h.edge, h.weight, h.subnet, h.tree, h.nodes, h.myself⟩

lemma setConn (h : Filed d) (c : ConnId) (f : Conn → Conn) : Filed (d.setConn c f) :=
  h.of_conns _ _ _ _

lemma ensureNode (h : Filed d) (n : Name) : Filed (d.ensureNode n) := by
  unfold Daemon.ensureNode
  split
  · refine ⟨?_, h.weight, ?_, h.tree, sorted_addNode h.nodes,
      (mem_addNode h.nodes).mpr (.inr h.myself)⟩
    · intro m e he
      by_cases hm : m = n
      · subst hm
        simp [Daemon.addNode] at he
      · exact h.edge m e (by simpa [Daemon.addNode, hm] using he)
    · intro m s hs
      by_cases hm : m = n
      · subst hm
        simp [Daemon.addNode] at hs
      · exact h.subnet m s (by simpa [Daemon.addNode, hm] using hs)
  · exact h

/-- An edge may change in everything but its start. -/
lemma setEdge (h : Filed d) (e : EdgeId) {f : Edge → Edge}
    (hf : ∀ x, (f x).fromNode = x.fromNode) : Filed (d.setEdge e f) := by
  refine ⟨fun n i hi => ⟨?_, (h.edge n i hi).2⟩, h.weight, h.subnet, h.tree, h.nodes, h.myself⟩
  have hn := (h.edge n i hi).1
  by_cases hie : i = e
  · subst hie
    simpa [Daemon.setEdge, hf] using hn
  · simpa [Daemon.setEdge, hie] using hn

lemma allocEdge (h : Filed d) (edge : Edge) : Filed (d.allocEdge edge).1 := by
  refine ⟨fun n i hi => ?_, fun i hi => Nat.lt_succ_of_lt (h.weight i hi), h.subnet, h.tree,
    h.nodes, h.myself⟩
  obtain ⟨h1, h2⟩ := h.edge n i hi
  refine ⟨?_, Nat.lt_succ_of_lt h2⟩
  simpa [Daemon.allocEdge, h2.ne] using h1

lemma linkReverse (h : Filed d) (e : EdgeId) : Filed (d.linkReverse e) := by
  unfold Daemon.linkReverse
  dsimp only
  split
  · exact h.setEdge e (fun _ => rfl)
  · refine setEdge (setEdge h e ?_) _ ?_
    · exact fun _ => rfl
    · exact fun _ => rfl

lemma insertWeight (h : Filed d) {e : EdgeId} (he : e < d.newEdge) : Filed (d.insertWeight e) := by
  refine ⟨h.edge, fun i hi => ?_, h.subnet, h.tree, h.nodes, h.myself⟩
  simp only [Daemon.insertWeight] at hi ⊢
  cases hins : OrdList.insert (fun i => edgeWeightCompare (d.edge e) (d.edge i)) e
      d.edgeWeightTree with
  | none => exact h.weight i (by simpa [hins] using hi)
  | some l =>
      rcases (OrdList.mem_insert hins).mp (by simpa [hins] using hi) with rfl | hi
      · exact he
      · exact h.weight i hi

lemma linkReverse_newEdge (d : Daemon) (e : EdgeId) : (d.linkReverse e).newEdge = d.newEdge := by
  unfold Daemon.linkReverse
  dsimp only
  split <;> rfl

lemma edgeAdd (h : Filed d) {e : EdgeId} (he : e < d.newEdge) : Filed (d.edgeAdd e) := by
  unfold Daemon.edgeAdd
  dsimp only
  split
  · exact h
  · rename_i tree htree
    refine insertWeight (linkReverse ?_ e) (by rw [linkReverse_newEdge]; exact he)
    refine ⟨fun n i hi => ?_, h.weight, h.subnet, h.tree, h.nodes, h.myself⟩
    by_cases hn : n = (d.edge e).fromNode
    · subst hn
      rcases (OrdList.mem_insert htree).mp (by simpa using hi) with rfl | hi
      · exact ⟨rfl, he⟩
      · exact h.edge _ i hi
    · exact h.edge n i (by simpa [hn] using hi)

lemma deleteWeight (h : Filed d) (e : EdgeId) : Filed (d.deleteWeight e) :=
  ⟨h.edge, fun i hi => h.weight i (OrdList.mem_of_mem_delete hi), h.subnet, h.tree, h.nodes,
    h.myself⟩

lemma unlinkReverse (h : Filed d) (e : EdgeId) : Filed (d.unlinkReverse e) := by
  unfold Daemon.unlinkReverse
  split
  · exact h
  · exact h.setEdge _ (fun _ => rfl)

lemma edgeDel (h : Filed d) (e : EdgeId) : Filed (d.edgeDel e) := by
  have h := (h.unlinkReverse e).deleteWeight e
  unfold Daemon.edgeDel
  generalize (d.unlinkReverse e).deleteWeight e = d at h ⊢
  refine ⟨fun n i hi => ?_, h.weight, h.subnet, h.tree, h.nodes, h.myself⟩
  by_cases hn : n = (d.edge e).fromNode
  · subst hn
    exact h.edge _ i (OrdList.mem_of_mem_delete (by simpa using hi))
  · exact h.edge n i (by simpa [hn] using hi)

lemma addNewEdge (h : Filed d) (edge : Edge) : Filed (d.addNewEdge edge) :=
  (h.allocEdge edge).edgeAdd (Nat.lt_succ_self _)

lemma changeWeight (h : Filed d) (e : EdgeId) (weight : ℤ) : Filed (d.changeWeight e weight) := by
  unfold Daemon.changeWeight
  split
  · exact h
  · split
    · exact h.setEdge e (fun _ => rfl)
    · rename_i node hnode
      refine insertWeight (setEdge (h.deleteWeight e) e ?_) ?_
      · exact fun _ => rfl
      · exact h.weight node (OrdList.search_some hnode).1

lemma changeEdge (h : Filed d) (e : EdgeId) (r : AddEdge) : Filed (d.changeEdge e r) := by
  refine changeWeight (setEdge h e ?_) e r.weight
  exact fun _ => rfl

lemma cleanUp (h : Filed d) (n : Name) : Filed (d.cleanUp n) := by
  unfold Daemon.cleanUp
  split
  · exact h
  · split
    · exact h
    · refine edgeDel ?_ _
      split
      · exact h
      · exact h.of_same (SameIndexes.sendDelEdge d _ _ _)

lemma mem_insertSubnet {i j : SubnetId} {l : List SubnetId} (h : j ∈ d.insertSubnet i l) :
    j = i ∨ j ∈ l := by
  unfold Daemon.insertSubnet at h
  cases hi : OrdList.insert (fun k => subnetCompare (d.subnet i) (d.subnet k)) i l with
  | none => exact .inr (by simpa [hi] using h)
  | some l' => exact (OrdList.mem_insert hi).mp (by simpa [hi] using h)

lemma subnetAdd (h : Filed d) (owner : Option Name) (s : Subnet) : Filed (d.subnetAdd owner s) := by
  have hold : ∀ n, ∀ j ∈ d.nodeSubnets n, (update d.subnet d.newSubnet
      { s with owner := owner } j).owner = some n ∧ j < d.newSubnet + 1 := by
    intro n j hj
    obtain ⟨h1, h2⟩ := h.subnet n j hj
    exact ⟨by simpa [h2.ne] using h1, Nat.lt_succ_of_lt h2⟩
  refine ⟨h.edge, h.weight, fun n i hi => ?_, fun i hi => ?_, h.nodes, h.myself⟩
  · cases owner with
    | none => exact hold n i hi
    | some o =>
        by_cases hn : n = o
        · subst hn
          rcases mem_insertSubnet (by simpa [Daemon.subnetAdd] using hi) with rfl | hi
          · exact ⟨by simp [Daemon.subnetAdd], Nat.lt_succ_self _⟩
          · exact hold n i hi
        · exact hold n i (by simpa [Daemon.subnetAdd, hn] using hi)
  · rcases mem_insertSubnet hi with rfl | hi
    · exact Nat.lt_succ_self _
    · exact Nat.lt_succ_of_lt (h.tree i hi)

lemma subnetDel (h : Filed d) (owner : Option Name) (s : SubnetId) :
    Filed (d.subnetDel owner s) := by
  refine ⟨h.edge, h.weight, fun n i hi => ?_,
    fun i hi => h.tree i (OrdList.mem_of_mem_delete hi), h.nodes, h.myself⟩
  cases owner with
  | none => exact h.subnet n i hi
  | some o =>
      by_cases hn : n = o
      · subst hn
        have hi : i ∈ d.deleteSubnet s (d.nodeSubnets n) := by simpa [Daemon.subnetDel] using hi
        exact h.subnet n i (OrdList.mem_of_mem_delete hi)
      · exact h.subnet n i (by simpa [Daemon.subnetDel, hn] using hi)

lemma handoff (h : Filed d) (s : Subnet) : Filed (d.handoff s) := by
  unfold Daemon.handoff
  split
  · split
    · rename_i old _
      split
      · exact h
      · refine ⟨h.edge, h.weight, fun n i hi => ⟨?_, (h.subnet n i hi).2⟩, h.tree, h.nodes,
          h.myself⟩
        have hn := (h.subnet n i hi).1
        by_cases hio : i = old
        · subst hio
          simpa using hn
        · simpa [hio] using hn
    · exact h
  · exact h

/-! ## The handlers -/

lemma applyAddEdge (h : Filed d) (c : ConnId) (request : Text) (r : AddEdge) :
    Filed (d.applyAddEdge c request r) := by
  unfold Daemon.applyAddEdge
  split
  · split
    · exact h
    · split
      · exact h.of_same (SameIndexes.sendAddEdge d _ _)
      · refine of_same (SameIndexes.graph _) ?_
        exact of_same (SameIndexes.tellRest _ c request) (h.changeEdge _ r)
  · split
    · exact of_same (SameIndexes.sendDelEdge _ _ _ _) (h.of_same ⟨_, _, _, _, _, _, _, rfl⟩)
    · refine of_same (SameIndexes.graph _) ?_
      exact of_same (SameIndexes.tellRest _ c request) (h.addNewEdge _)

lemma addEdgeH (h : Filed d) (c : ConnId) (request : Text) : Filed (addEdgeH d c request).1 := by
  have hs := h.of_same (SameIndexes.seenRequest d request)
  rcases addEdgeH_cases d c request with he | he | ⟨r, -, -, -, he⟩ <;> rw [he]
  · exact h
  · exact hs
  · exact ((hs.ensureNode _).ensureNode _).applyAddEdge c request r

lemma applyDelEdge (h : Filed d) (c : ConnId) (request : Text) (fromName toName : Name) :
    Filed (d.applyDelEdge c request fromName toName) := by
  unfold Daemon.applyDelEdge
  split
  · exact h
  · split
    · exact of_same (SameIndexes.sendAddEdge _ _ _) (h.of_same ⟨_, _, _, _, _, _, _, rfl⟩)
    · exact (of_same (SameIndexes.graph _)
        ((h.of_same (SameIndexes.tellRest d c request)).edgeDel _)).cleanUp _

lemma delEdgeH (h : Filed d) (c : ConnId) (request : Text) : Filed (delEdgeH d c request).1 := by
  have hs := h.of_same (SameIndexes.seenRequest d request)
  rcases delEdgeH_cases d c request with he | he | ⟨_, _, -, -, -, -, -, he⟩ <;> rw [he]
  · exact h
  · exact hs
  · exact hs.applyDelEdge c request _ _

lemma applyAddSubnet (h : Filed d) (c : ConnId) (request : Text) (owner : Name) (s : Subnet) :
    Filed (d.applyAddSubnet c request owner s) := by
  unfold Daemon.applyAddSubnet
  split
  · exact h
  · split
    · exact h.of_same (SameIndexes.sendSubnet d _ _ _ _)
    · split
      · exact h
      · split
        · exact h.of_same (SameIndexes.broadcastMeta d _ _)
        · exact (of_same (SameIndexes.tellRest _ c request) (h.subnetAdd (some owner) s)).handoff s

lemma addSubnetH (h : Filed d) (c : ConnId) (request : Text) :
    Filed (addSubnetH d c request).1 := by
  have hs := h.of_same (SameIndexes.seenRequest d request)
  rcases addSubnetH_cases d c request with he | he | ⟨_, _, -, he⟩ <;> rw [he]
  · exact h
  · exact hs
  · exact (hs.ensureNode _).applyAddSubnet c request _ _

lemma applyDelSubnet (h : Filed d) (c : ConnId) (request : Text) (owner : Name) (s : Subnet) :
    Filed (d.applyDelSubnet c request owner s) := by
  unfold Daemon.applyDelSubnet
  split
  · split
    · exact h.of_same (SameIndexes.broadcastMeta d _ _)
    · exact h
  · split
    · exact h.of_same (SameIndexes.sendSubnet d _ _ _ _)
    · split
      · exact h
      · split
        · exact h.of_same (SameIndexes.tellRest d c request)
        · exact (h.of_same (SameIndexes.tellRest d c request)).subnetDel _ _

lemma delSubnetH (h : Filed d) (c : ConnId) (request : Text) :
    Filed (delSubnetH d c request).1 := by
  have hs := h.of_same (SameIndexes.seenRequest d request)
  rcases delSubnetH_cases d c request with he | he | ⟨_, _, he⟩ <;> rw [he]
  · exact h
  · exact hs
  · exact hs.applyDelSubnet c request _ _

lemma idH (h : Filed d) (c : ConnId) (request : Text) : Filed (idH d c request).1 := by
  obtain ⟨x, hx, -⟩ := idH_becomes d c request
  exact (h.setConn c fun _ => x).of_same hx

lemma detach (h : Filed d) (c : ConnId) (n : Name) : Filed (d.detach c n) := by
  unfold Daemon.detach
  split
  · exact h.of_conns _ _ _ _
  · exact h

lemma removeEdge (h : Filed d) (c : ConnId) (n : Name) (e : EdgeId) (report : Bool) :
    Filed (d.removeEdge c n e report) := by
  unfold Daemon.removeEdge
  dsimp only
  have hsent : Filed (if report = true ∧ ¬ d.config.tunnelserver = true then
      d.sendDelEdge .everyone (d.edge e).fromNode (d.edge e).toNode else d) := by
    split
    · exact h.of_same (SameIndexes.sendDelEdge d _ _ _)
    · exact h
  have hgraph := of_same (SameIndexes.graph _)
    ((hsent.edgeDel e).setConn c ({ · with edge := none }))
  split
  · exact hgraph.cleanUp n
  · exact hgraph

lemma terminateConnection (h : Filed d) (c : ConnId) (report : Bool) :
    Filed (d.terminateConnection c report) := by
  unfold Daemon.terminateConnection
  split
  · exact h.of_conns _ _ _ _
  · split
    · exact (h.detach c _).of_conns _ _ _ _
    · exact ((h.detach c _).removeEdge c _ _ report).of_conns _ _ _ _

lemma moveOutgoing (h : Filed d) (old c : ConnId) : Filed (d.moveOutgoing old c) :=
  (h.setConn c _).setConn old _

lemma tieBreak (h : Filed d) (c old : ConnId) : Filed (d.tieBreak c old).1 := by
  unfold Daemon.tieBreak
  dsimp only
  split
  · split
    · refine of_same (SameIndexes.graph _) (terminateConnection ?_ old false)
      split
      · exact h.moveOutgoing old c
      · exact h
    · exact h.terminateConnection c false
  · split
    · split
      · exact of_same (SameIndexes.graph _) ((h.moveOutgoing old c).terminateConnection old false)
      · exact h.terminateConnection c false
    · exact of_same (SameIndexes.graph _) ((h.setConn c _).terminateConnection old false)

lemma addConnectionEdge (h : Filed d) (c : ConnId) (n : Name) (r : AckRequest) :
    Filed (d.addConnectionEdge c n r) :=
  ((h.allocEdge _).setConn c _).edgeAdd (Nat.lt_succ_self _)

lemma activate (h : Filed d) (c : ConnId) (n : Name) (r : AckRequest) :
    Filed (d.activate c n r) := by
  have hbind : Filed (d.bindNode c n r) := (h.of_conns _ _ _ _).setConn c _
  have hsent := hbind.of_same (SameIndexes.sendEverything _ c)
  exact of_same (SameIndexes.graph _)
    (of_same (SameIndexes.announceEdge _ c) (hsent.addConnectionEdge c n r))

lemma ackH (h : Filed d) (c : ConnId) (request : Text) : Filed (ackH d c request).1 := by
  unfold Tinc.ackH
  split
  · exact h
  · dsimp only
    split
    · exact (h.ensureNode _).activate c _ _
    · split
      · exact (h.ensureNode _).activate c _ _
      · split
        · exact ((h.ensureNode _).tieBreak c _).activate c _ _
        · exact (h.ensureNode _).tieBreak c _

end Filed

end Tinc
