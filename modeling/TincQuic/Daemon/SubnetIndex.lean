import TincQuic.Daemon.Orders

/-!
# The tables of subnets

A subnet is found in the global `subnet_tree` and in the tree of its owner, and a subnet for
broadcasts, which has no owner, in the global tree alone.

* `Tables` is what this module looks at.  Most operations leave it as it is: the lemmas
  `tables_graph`, `tables_edgeDel` and so on.
* `Apart` says when two subnets can be in one tree: on one network, the difference of their
  weights does not overflow, and subnets of one weight both have owners or both have none.
* `SubnetIndex` is the invariant.  **The operations keep it** as long as a subnet that is added is
  apart from those that are there: `SubnetIndex.subnetAdd`, `SubnetIndex.subnetDel`.
-/

namespace Tinc

open CText Function

/-! ## What is looked at -/

/-- The nodes and the subnets. -/
structure Tables where
  nodeTree : List Name
  subnet : SubnetId → Subnet
  subnetTree : List SubnetId
  nodeSubnets : Name → List SubnetId
  newSubnet : SubnetId

def Daemon.tables (d : Daemon) : Tables :=
  ⟨d.nodeTree, d.subnet, d.subnetTree, d.nodeSubnets, d.newSubnet⟩

section Frame

variable (d : Daemon) (c : ConnId) (n : Name) (e : EdgeId) (request : Text)

lemma tables_of_same {d d' : Daemon} (h : SameIndexes d d') : d'.tables = d.tables := by
  obtain ⟨_, _, _, _, _, _, _, rfl⟩ := h
  rfl

lemma tables_graph : (graph d).tables = d.tables := rfl

lemma tables_setConn (f : Conn → Conn) : (d.setConn c f).tables = d.tables := rfl

lemma tables_edgeDel : (d.edgeDel e).tables = d.tables := by
  unfold Daemon.edgeDel Daemon.unlinkReverse
  split <;> rfl

lemma tables_edgeAdd : (d.edgeAdd e).tables = d.tables := by
  unfold Daemon.edgeAdd Daemon.linkReverse Daemon.insertWeight
  dsimp only
  split
  · rfl
  · split <;> rfl

lemma tables_changeEdge (r : AddEdge) : (d.changeEdge e r).tables = d.tables := by
  unfold Daemon.changeEdge Daemon.changeWeight
  split
  · rfl
  · split <;> rfl

lemma tables_cleanUp : (d.cleanUp n).tables = d.tables := by
  unfold Daemon.cleanUp
  split
  · rfl
  · split
    · rfl
    · rw [tables_edgeDel]
      split
      · rfl
      · exact tables_of_same (SameIndexes.sendDelEdge d _ _ _)

lemma tables_applyAddEdge (r : AddEdge) : (d.applyAddEdge c request r).tables = d.tables := by
  unfold Daemon.applyAddEdge
  split
  · split
    · rfl
    · split
      · exact tables_of_same (SameIndexes.sendAddEdge d _ _)
      · rw [tables_graph, tables_of_same (SameIndexes.tellRest _ c request), tables_changeEdge]
  · split
    · exact tables_of_same (SameIndexes.sendDelEdge _ _ _ _)
    · rw [tables_graph, tables_of_same (SameIndexes.tellRest _ c request)]
      exact tables_edgeAdd _ _

lemma tables_applyDelEdge (fromName toName : Name) :
    (d.applyDelEdge c request fromName toName).tables = d.tables := by
  unfold Daemon.applyDelEdge
  split
  · rfl
  · split
    · exact tables_of_same (SameIndexes.sendAddEdge _ _ _)
    · rw [tables_cleanUp, tables_graph, tables_edgeDel,
        tables_of_same (SameIndexes.tellRest d c request)]

lemma tables_delEdgeH : (delEdgeH d c request).1.tables = d.tables := by
  have hs := tables_of_same (SameIndexes.seenRequest d request)
  rcases delEdgeH_cases d c request with he | he | ⟨_, _, -, -, -, -, -, he⟩ <;> rw [he]
  · exact hs
  · rw [tables_applyDelEdge, hs]

lemma tables_idH : (idH d c request).1.tables = d.tables := by
  obtain ⟨x, hx, -⟩ := idH_becomes d c request
  have h : (idH d c request).1.tables = (d.setConn c fun _ => x).tables := tables_of_same hx
  rw [h, tables_setConn]

lemma tables_detach : (d.detach c n).tables = d.tables := by
  unfold Daemon.detach
  split <;> rfl

lemma tables_removeEdge (report : Bool) : (d.removeEdge c n e report).tables = d.tables := by
  unfold Daemon.removeEdge
  dsimp only
  have hsent : (if report = true ∧ ¬ d.config.tunnelserver = true then
      d.sendDelEdge .everyone (d.edge e).fromNode (d.edge e).toNode else d).tables = d.tables := by
    split
    · exact tables_of_same (SameIndexes.sendDelEdge d _ _ _)
    · rfl
  split
  · rw [tables_cleanUp, tables_graph, tables_setConn, tables_edgeDel, hsent]
  · rw [tables_graph, tables_setConn, tables_edgeDel, hsent]

lemma tables_terminateConnection (report : Bool) :
    (d.terminateConnection c report).tables = d.tables := by
  unfold Daemon.terminateConnection
  split
  · rfl
  · split
    · exact tables_detach d c _
    · exact (tables_removeEdge _ c _ _ report).trans (tables_detach d c _)

lemma tables_tieBreak (old : ConnId) : (d.tieBreak c old).1.tables = d.tables := by
  unfold Daemon.tieBreak
  dsimp only
  split
  · split
    · rw [tables_graph, tables_terminateConnection]
      split <;> rfl
    · exact tables_terminateConnection d c false
  · split
    · split
      · rw [tables_graph, tables_terminateConnection]
        rfl
      · exact tables_terminateConnection d c false
    · rw [tables_graph, tables_terminateConnection]
      rfl

lemma tables_activate (r : AckRequest) : (d.activate c n r).tables = d.tables := by
  unfold Daemon.activate
  rw [tables_graph, tables_of_same (SameIndexes.announceEdge _ c), Daemon.addConnectionEdge]
  dsimp only
  rw [tables_edgeAdd, tables_setConn]
  change ((d.bindNode c n r).sendEverything c).tables = d.tables
  rw [tables_of_same (SameIndexes.sendEverything _ c)]
  rfl

lemma tables_ackH : (ackH d c request).1.tables = d.tables ∨
    (ackH d c request).1.tables = (d.ensureNode (d.conn c).name).tables := by
  unfold ackH
  split
  · exact .inl rfl
  · dsimp only
    refine .inr ?_
    split
    · exact tables_activate _ c _ _
    · split
      · exact tables_activate _ c _ _
      · split
        · rw [tables_activate, tables_tieBreak]
        · exact tables_tieBreak _ c _

end Frame

/-! ## The invariant -/

/-- Two subnets that can be in one tree. -/
def Apart (a b : Subnet) : Prop :=
  a.net = b.net → Near a.weight b.weight ∧
    (a.weight = b.weight → (a.owner = none ↔ b.owner = none))

lemma Apart.symm {a b : Subnet} (h : Apart a b) : Apart b a := by
  intro hnet
  obtain ⟨hnear, howner⟩ := h hnet.symm
  exact ⟨hnear.symm, fun hw => (howner hw.symm).symm⟩

/-- The key of a subnet in a tree. -/
abbrev treeKey (a : Subnet) : (ℕ ×ₗ ℤ ×ₗ List ℕ) ×ₗ ℤ ×ₗ List ℕ := subnetKey Subnet.weight a

lemma Apart.compare {a b : Subnet} (h : Apart a b) :
    (subnetCompare a b = 0 ↔ treeKey a = treeKey b) ∧
    (subnetCompare a b < 0 ↔ treeKey a < treeKey b) :=
  subnetCompare_spec (fun hnet => toInt32_sub (h hnet).1) fun hnet => (h hnet).2

lemma Apart.same {a b : Subnet} (h : Apart a b) (hk : treeKey a = treeKey b) : a.Same b :=
  subnetKey_same (fun _ hw => hw) (fun hnet => (h hnet).2) hk

/-- Sorted by the key of the subnet. -/
abbrev SortedSubnets (subnet : SubnetId → Subnet) (l : List SubnetId) : Prop :=
  OrdList.Sorted (fun i => treeKey (subnet i)) l

/-- Both indexes are sorted and agree. -/
structure SubnetIndex (t : Tables) : Prop where
  nodes : OrdList.Sorted textKey t.nodeTree
  sorted : SortedSubnets t.subnet t.subnetTree
  ownSorted : ∀ n, SortedSubnets t.subnet (t.nodeSubnets n)
  owner : ∀ n, ∀ i ∈ t.nodeSubnets n, (t.subnet i).owner = some n
  both : ∀ i n, (t.subnet i).owner = some n → (i ∈ t.subnetTree ↔ i ∈ t.nodeSubnets n)
  apart : ∀ i ∈ t.subnetTree, ∀ j ∈ t.subnetTree, Apart (t.subnet i) (t.subnet j)
  fresh : ∀ i ∈ t.subnetTree, i < t.newSubnet
  /-- a subnet that was added without an owner is represented -/
  broadcast : ∀ i < t.newSubnet, (t.subnet i).owner = none →
    ∃ j ∈ t.subnetTree, (t.subnet j).Same (t.subnet i)
  known : ∀ n, n ∉ t.nodeTree → t.nodeSubnets n = []

/-- A probe that is apart from all the elements of a tree is compared by key. -/
lemma follows_subnet {subnet : SubnetId → Subnet} {a : Subnet} {l : List SubnetId}
    (h : ∀ j ∈ l, Apart a (subnet j)) :
    OrdList.Follows (fun j => subnetCompare a (subnet j)) (treeKey a)
      (fun j => treeKey (subnet j)) l :=
  fun j hj => (h j hj).compare

lemma SortedSubnets.congr {subnet subnet' : SubnetId → Subnet} {l : List SubnetId}
    (h : SortedSubnets subnet l) (heq : ∀ j ∈ l, treeKey (subnet' j) = treeKey (subnet j)) :
    SortedSubnets subnet' l := by
  refine List.Pairwise.imp_of_mem (fun {i j} hi hj hlt => ?_) h
  change treeKey (subnet' i) < treeKey (subnet' j)
  rw [heq i hi, heq j hj]
  exact hlt

/-- An insertion fails if the same subnet is there, and else it adds only the new one. -/
lemma insert_subnet {subnet : SubnetId → Subnet} {x : SubnetId} {l : List SubnetId}
    (hs : SortedSubnets subnet l) (ha : ∀ j ∈ l, Apart (subnet x) (subnet j)) :
    let l' := (OrdList.insert (fun j => subnetCompare (subnet x) (subnet j)) x l).getD l
    SortedSubnets subnet l' ∧
      ((∃ j ∈ l, (subnet j).Same (subnet x)) ∧ l' = l ∨
        (∀ j ∈ l, ¬ (subnet j).Same (subnet x)) ∧ ∀ j, j ∈ l' ↔ j = x ∨ j ∈ l) := by
  have hf := follows_subnet ha
  dsimp only
  cases hi : OrdList.insert (fun j => subnetCompare (subnet x) (subnet j)) x l with
  | none =>
      obtain ⟨j, hj, hk⟩ := (OrdList.insert_eq_none_iff hf hs).mp hi
      exact ⟨hs, .inl ⟨⟨j, hj, (ha j hj).symm.same hk⟩, rfl⟩⟩
  | some l' =>
      refine ⟨OrdList.Sorted.insert hs hf hi, .inr ⟨fun j hj hsame => ?_, fun j => ?_⟩⟩
      · have hnone := (OrdList.insert_eq_none_iff (x := x) hf hs).mpr ⟨j, hj, by
          simp only [treeKey, subnetKey, hsame.1, hsame.2.1, hsame.2.2]⟩
        simp [hnone] at hi
      · exact OrdList.mem_insert hi

namespace SubnetIndex

variable {t : Tables} {d : Daemon} {n : Name} {i : SubnetId}

lemma mem_tree (h : SubnetIndex t) (hi : i ∈ t.nodeSubnets n) : i ∈ t.subnetTree :=
  (h.both i n (h.owner n i hi)).mpr hi

/-- An element of the global tree is known by its network, weight and owner. -/
lemma eq_of_same (h : SubnetIndex t) {j : SubnetId} (hi : i ∈ t.subnetTree)
    (hj : j ∈ t.subnetTree) (hs : (t.subnet i).Same (t.subnet j)) : i = j := by
  refine h.sorted.eq_of_key hi hj ?_
  simp only [treeKey, subnetKey, hs.1, hs.2.1, hs.2.2]

/-! ### Nodes -/

/-- A new node has no subnets, and it had none before. -/
lemma tables_ensureNode (h : SubnetIndex d.tables) (n : Name) :
    (d.ensureNode n).tables = { d.tables with nodeTree := (d.ensureNode n).nodeTree } := by
  unfold Daemon.ensureNode
  split
  · rename_i hnone
    have hn : d.nodeSubnets n = [] := h.known n ((lookupNode_eq_none h.nodes).mp hnone)
    have hself : update d.nodeSubnets n [] = d.nodeSubnets := by
      rw [← hn]
      exact update_eq_self n d.nodeSubnets
    simp only [Daemon.tables, Daemon.addNode, hself]
  · rfl

lemma mem_ensureNode (h : SubnetIndex d.tables) (n : Name) : n ∈ (d.ensureNode n).nodeTree := by
  unfold Daemon.ensureNode
  split
  · exact (mem_addNode h.nodes).mpr (.inl rfl)
  · rename_i hsome
    by_contra hn
    exact hsome ((lookupNode_eq_none h.nodes).mpr hn)

lemma ensureNode (h : SubnetIndex d.tables) (n : Name) : SubnetIndex (d.ensureNode n).tables := by
  have hnodes : OrdList.Sorted textKey (d.ensureNode n).nodeTree ∧
      ∀ m, m ∉ (d.ensureNode n).nodeTree → m ∉ d.nodeTree := by
    unfold Daemon.ensureNode
    split
    · exact ⟨sorted_addNode h.nodes, fun m hm hin => hm ((mem_addNode h.nodes).mpr (.inr hin))⟩
    · exact ⟨h.nodes, fun _ hm => hm⟩
  rw [h.tables_ensureNode n]
  exact ⟨hnodes.1, h.sorted, h.ownSorted, h.owner, h.both, h.apart, h.fresh, h.broadcast,
    fun m hm => h.known m (hnodes.2 m hm)⟩

/-! ### Adding -/

/-- The tables after `subnet_add`. -/
lemma tables_subnetAdd (d : Daemon) (owner : Option Name) (s : Subnet) :
    (d.subnetAdd owner s).tables =
      let subnet := update d.subnet d.newSubnet { s with owner := owner }
      let insert := fun l => (OrdList.insert (fun j =>
        subnetCompare (subnet d.newSubnet) (subnet j)) d.newSubnet l).getD l
      { nodeTree := d.nodeTree
        subnet := subnet
        subnetTree := insert d.subnetTree
        nodeSubnets := owner.elim d.nodeSubnets fun n =>
          update d.nodeSubnets n (insert (d.nodeSubnets n))
        newSubnet := d.newSubnet + 1 } := rfl

/-- What an addition may do: nothing, because the same subnet is there, or put the new subnet into
the global tree and into the tree of its owner. -/
structure Added (t : Tables) (owner : Option Name) (t' : Tables) : Prop where
  nodeTree : t'.nodeTree = t.nodeTree
  newSubnet : t'.newSubnet = t.newSubnet + 1
  new : (t'.subnet t.newSubnet).owner = owner
  old : ∀ j, j ≠ t.newSubnet → t'.subnet j = t.subnet j
  apart : ∀ j ∈ t.subnetTree, Apart (t'.subnet t.newSubnet) (t.subnet j)
  sorted : SortedSubnets t'.subnet t'.subnetTree
  ownSorted : ∀ m, SortedSubnets t'.subnet (t'.nodeSubnets m)
  trees :
    (t'.subnetTree = t.subnetTree ∧ t'.nodeSubnets = t.nodeSubnets ∧
      ∃ j ∈ t.subnetTree, (t'.subnet j).Same (t'.subnet t.newSubnet)) ∨
    ((∀ j, j ∈ t'.subnetTree ↔ j = t.newSubnet ∨ j ∈ t.subnetTree) ∧
      ∀ m j, j ∈ t'.nodeSubnets m ↔ (j = t.newSubnet ∧ owner = some m) ∨ j ∈ t.nodeSubnets m)

lemma added (h : SubnetIndex d.tables) {owner : Option Name} {s : Subnet}
    (hapart : ∀ j ∈ d.subnetTree, Apart { s with owner := owner } (d.subnet j)) :
    Added d.tables owner (d.subnetAdd owner s).tables := by
  rw [tables_subnetAdd]
  dsimp only
  generalize hsub : update d.subnet d.newSubnet { s with owner := owner } = subnet
  have hnew : subnet d.newSubnet = { s with owner := owner } := by rw [← hsub, update_self]
  have hne : ∀ j, j ≠ d.newSubnet → subnet j = d.subnet j := fun j hj => by
    rw [← hsub, update_of_ne hj]
  have hold : ∀ j ∈ d.subnetTree, subnet j = d.subnet j :=
    fun j hj => hne j (Nat.ne_of_lt (h.fresh j hj))
  have hown : ∀ m, ∀ j ∈ d.nodeSubnets m, j ∈ d.subnetTree := fun m j hj => h.mem_tree hj
  have hap : ∀ j ∈ d.subnetTree, Apart (subnet d.newSubnet) (subnet j) := by
    intro j hj
    rw [hnew, hold j hj]
    exact hapart j hj
  -- both trees are still sorted with the new object in the store
  have hs : SortedSubnets subnet d.subnetTree :=
    SortedSubnets.congr h.sorted fun j hj => by rw [hold j hj]; rfl
  have hos : ∀ m, SortedSubnets subnet (d.nodeSubnets m) :=
    fun m => SortedSubnets.congr (h.ownSorted m) fun j hj => by rw [hold j (hown m j hj)]; rfl
  obtain ⟨hsorted, hins⟩ := insert_subnet hs hap
  have hap' : ∀ j ∈ d.subnetTree, Apart (subnet d.newSubnet) (d.subnet j) := by
    rw [hnew]
    exact hapart
  refine ⟨rfl, rfl, congrArg Subnet.owner hnew, hne, hap', hsorted, ?_, ?_⟩
  · intro m
    cases owner with
    | none => exact hos m
    | some n =>
        by_cases hm : m = n
        · subst hm
          simpa using (insert_subnet (hos m) fun j hj => hap j (hown m j hj)).1
        · simpa [hm] using hos m
  · cases owner with
    | none =>
        rcases hins with ⟨hsame, htree⟩ | ⟨-, hmem⟩
        · exact .inl ⟨htree, rfl, hsame⟩
        · exact .inr ⟨hmem, by simp [Daemon.tables]⟩
    | some n =>
        obtain ⟨-, hoins⟩ := insert_subnet (hos n) fun j hj => hap j (hown n j hj)
        rcases hins with ⟨⟨j, hj, hsame⟩, htree⟩ | ⟨hno, hmem⟩ <;>
          rcases hoins with ⟨⟨k, hk, hksame⟩, hotree⟩ | ⟨hono, homem⟩
        · refine .inl ⟨htree, ?_, j, hj, hsame⟩
          simp only [Option.elim_some, hotree]
          exact update_eq_self n d.nodeSubnets
        · -- what is the same has the same owner, and is in his tree
          have howner : (d.subnet j).owner = some n := by
            rw [← hold j hj, hsame.2.2, hnew]
          exact absurd hsame (hono j ((h.both j n howner).mp hj))
        · exact absurd hksame (hno k (hown n k hk))
        · refine .inr ⟨hmem, fun m j => ?_⟩
          by_cases hm : m = n
          · subst hm
            simpa [Daemon.tables] using homem j
          · have hm' : ¬ n = m := fun h => hm h.symm
            simp [Daemon.tables, hm, hm']

/-- A subnet that is apart from the others may be added. -/
lemma subnetAdd (h : SubnetIndex d.tables) {owner : Option Name} {s : Subnet}
    (hknown : ∀ m ∈ owner, m ∈ d.nodeTree)
    (hapart : ∀ j ∈ d.subnetTree, Apart { s with owner := owner } (d.subnet j)) :
    SubnetIndex (d.subnetAdd owner s).tables := by
  have ha := h.added hapart
  generalize (d.subnetAdd owner s).tables = t' at ha
  have hne : ∀ j ∈ d.subnetTree, j ≠ d.newSubnet := fun j hj => Nat.ne_of_lt (h.fresh j hj)
  have hold : ∀ j ∈ d.subnetTree, t'.subnet j = d.subnet j := fun j hj => ha.old j (hne j hj)
  have hbroadcast : ∀ i < d.newSubnet, (t'.subnet i).owner = none →
      ∃ j ∈ d.subnetTree, (t'.subnet j).Same (t'.subnet i) := by
    intro i hi ho
    rw [ha.old i (Nat.ne_of_lt hi)] at ho ⊢
    obtain ⟨j, hj, hsame⟩ := h.broadcast i hi ho
    exact ⟨j, hj, by rw [hold j hj]; exact hsame⟩
  have hapart' : ∀ i ∈ d.subnetTree, ∀ j ∈ d.subnetTree, Apart (t'.subnet i) (t'.subnet j) := by
    intro i hi j hj
    rw [hold i hi, hold j hj]
    exact h.apart i hi j hj
  rcases ha.trees with ⟨htree, hown, j, hj, hsame⟩ | ⟨htree, hown⟩
  · refine ⟨?_, ha.sorted, ha.ownSorted, ?_, ?_, ?_, ?_, ?_, ?_⟩
    · rw [ha.nodeTree]
      exact h.nodes
    · intro m i hi
      rw [hown] at hi
      rw [hold i (h.mem_tree hi)]
      exact h.owner m i hi
    · intro i m ho
      rw [htree, hown]
      by_cases hi : i = d.newSubnet
      · subst hi
        exact iff_of_false (fun hin => hne _ hin rfl) fun hin => hne _ (h.mem_tree hin) rfl
      · rw [ha.old i hi] at ho
        exact h.both i m ho
    · rw [htree]
      exact hapart'
    · intro i hi
      rw [htree] at hi
      rw [ha.newSubnet]
      exact Nat.lt_succ_of_lt (h.fresh i hi)
    · intro i hi ho
      rw [ha.newSubnet] at hi
      rw [htree]
      rcases Nat.lt_succ_iff_lt_or_eq.mp hi with hi | rfl
      · exact hbroadcast i hi ho
      · exact ⟨j, hj, hsame⟩
    · intro m hm
      rw [ha.nodeTree] at hm
      rw [hown]
      exact h.known m hm
  · refine ⟨?_, ha.sorted, ha.ownSorted, ?_, ?_, ?_, ?_, ?_, ?_⟩
    · rw [ha.nodeTree]
      exact h.nodes
    · intro m i hi
      rcases (hown m i).mp hi with ⟨rfl, ho⟩ | hi
      · rw [ha.new, ho]
      · rw [hold i (h.mem_tree hi)]
        exact h.owner m i hi
    · intro i m ho
      rw [htree, hown]
      by_cases hi : i = d.newSubnet
      · subst hi
        rw [show owner = some m from ha.new.symm.trans ho]
        exact iff_of_true (.inl rfl) (.inl ⟨rfl, rfl⟩)
      · rw [ha.old i hi] at ho
        simpa [hi, Daemon.tables] using h.both i m ho
    · intro i hi j hj
      rcases (htree i).mp hi with rfl | hi <;> rcases (htree j).mp hj with rfl | hj
      · exact fun _ => ⟨⟨by simp, by simp⟩, fun _ => Iff.rfl⟩
      · rw [hold j hj]
        exact ha.apart j hj
      · rw [hold i hi]
        exact (ha.apart i hi).symm
      · exact hapart' i hi j hj
    · intro i hi
      rw [ha.newSubnet]
      rcases (htree i).mp hi with rfl | hi
      · exact Nat.lt_succ_self _
      · exact Nat.lt_succ_of_lt (h.fresh i hi)
    · intro i hi ho
      rw [ha.newSubnet] at hi
      rcases Nat.lt_succ_iff_lt_or_eq.mp hi with hi | rfl
      · obtain ⟨j, hj, hsame⟩ := hbroadcast i hi ho
        exact ⟨j, (htree j).mpr (.inr hj), hsame⟩
      · exact ⟨_, (htree _).mpr (.inl rfl), rfl, rfl, rfl⟩
    · intro m hm
      rw [ha.nodeTree] at hm
      rw [List.eq_nil_iff_forall_not_mem]
      intro i hi
      rcases (hown m i).mp hi with ⟨-, ho⟩ | hi
      · exact hm (hknown m ho)
      · have hnil : d.nodeSubnets m = [] := h.known m hm
        have hi : i ∈ d.nodeSubnets m := hi
        simp [hnil] at hi

/-! ### Deleting -/

/-- From a tree that contains `i`, a deletion removes exactly `i`. -/
lemma mem_delete (h : SubnetIndex t) {l : List SubnetId} (hl : ∀ j ∈ l, j ∈ t.subnetTree)
    (hs : SortedSubnets t.subnet l) (hi : i ∈ l) (j : SubnetId) :
    j ∈ OrdList.delete (fun k => subnetCompare (t.subnet i) (t.subnet k)) l ↔ j ∈ l ∧ j ≠ i := by
  have hf := follows_subnet fun k hk => h.apart i (hl i hi) k (hl k hk)
  rw [OrdList.mem_delete_iff hf hs]
  refine and_congr_right fun hj => not_congr ?_
  exact ⟨fun hk => hs.eq_of_key hj hi hk, fun hji => by rw [hji]⟩

/-- `subnet_del` removes exactly the object from both trees. -/
lemma mem_subnetDel (h : SubnetIndex d.tables) (hi : i ∈ d.nodeSubnets n) (j : SubnetId) :
    (j ∈ (d.subnetDel (some n) i).subnetTree ↔ j ∈ d.subnetTree ∧ j ≠ i) ∧
    ∀ m, j ∈ (d.subnetDel (some n) i).nodeSubnets m ↔ j ∈ d.nodeSubnets m ∧ j ≠ i := by
  refine ⟨h.mem_delete (fun _ hj => hj) h.sorted (h.mem_tree hi) j, fun m => ?_⟩
  by_cases hm : m = n
  · subst hm
    simp only [Daemon.subnetDel, Option.elim_some, update_self]
    exact h.mem_delete (fun _ hj => h.mem_tree hj) (h.ownSorted m) hi j
  · -- the trees of the others do not contain it
    have hne : j ∈ d.nodeSubnets m → j ≠ i := by
      rintro hj rfl
      have hown : some m = some n := (h.owner m j hj).symm.trans (h.owner n j hi)
      exact hm (Option.some.inj hown)
    simpa [Daemon.subnetDel, hm] using hne

lemma subnetDel (h : SubnetIndex d.tables) (hi : i ∈ d.nodeSubnets n) :
    SubnetIndex (d.subnetDel (some n) i).tables := by
  have hmem := h.mem_subnetDel hi
  have hsub : ∀ j ∈ (d.subnetDel (some n) i).subnetTree, j ∈ d.subnetTree :=
    fun j hj => ((hmem j).1.mp hj).1
  refine ⟨h.nodes, h.sorted.delete, fun m => ?_, ?_, ?_, ?_, ?_, ?_, ?_⟩
  · by_cases hm : m = n
    · subst hm
      simpa [Daemon.tables, Daemon.subnetDel, Daemon.deleteSubnet] using (h.ownSorted m).delete
    · simpa [Daemon.tables, Daemon.subnetDel, hm] using h.ownSorted m
  · intro m j hj
    exact h.owner m j (((hmem j).2 m).mp hj).1
  · intro j m ho
    change j ∈ (d.subnetDel (some n) i).subnetTree ↔ j ∈ (d.subnetDel (some n) i).nodeSubnets m
    rw [(hmem j).1, (hmem j).2 m]
    exact and_congr_left fun _ => h.both j m ho
  · intro j hj k hk
    exact h.apart j (hsub j hj) k (hsub k hk)
  · intro j hj
    exact h.fresh j (hsub j hj)
  · intro k hk ho
    obtain ⟨j, hj, hsame⟩ := h.broadcast k hk ho
    refine ⟨j, (hmem j).1.mpr ⟨hj, ?_⟩, hsame⟩
    rintro rfl
    have hown : none = some n := ho.symm.trans (hsame.2.2.symm.trans (h.owner n j hi))
    cases hown
  · intro m hm
    have hnil : d.nodeSubnets m = [] := h.known m hm
    rw [List.eq_nil_iff_forall_not_mem]
    intro j hj
    have hj := (((hmem j).2 m).mp hj).1
    simp [hnil] at hj

/-! ### The handlers -/

/-- The trees look only at network, weight and owner. -/
lemma congr (h : SubnetIndex t) {subnet : SubnetId → Subnet}
    (hs : ∀ i, (subnet i).Same (t.subnet i)) : SubnetIndex { t with subnet := subnet } := by
  have hkey : ∀ i, treeKey (subnet i) = treeKey (t.subnet i) := by
    intro i
    simp only [treeKey, subnetKey, (hs i).1, (hs i).2.1, (hs i).2.2]
  refine ⟨h.nodes, h.sorted.congr fun j _ => hkey j, fun m => (h.ownSorted m).congr fun j _ =>
    hkey j, ?_, ?_, ?_, h.fresh, ?_, h.known⟩
  · intro m i hi
    rw [(hs i).2.2]
    exact h.owner m i hi
  · intro i m ho
    rw [(hs i).2.2] at ho
    exact h.both i m ho
  · intro i hi j hj hnet
    rw [(hs i).1, (hs j).1] at hnet
    rw [(hs i).2.1, (hs i).2.2, (hs j).2.1, (hs j).2.2]
    exact h.apart i hi j hj hnet
  · intro i hi ho
    rw [(hs i).2.2] at ho
    obtain ⟨j, hj, hsame⟩ := h.broadcast i hi ho
    exact ⟨j, hj, (hs j).1.trans (hsame.1.trans (hs i).1.symm),
      (hs j).2.1.trans (hsame.2.1.trans (hs i).2.1.symm),
      (hs j).2.2.trans (hsame.2.2.trans (hs i).2.2.symm)⟩

lemma handoff (h : SubnetIndex d.tables) (s : Subnet) : SubnetIndex (d.handoff s).tables := by
  unfold Daemon.handoff
  split
  · split
    · rename_i old _
      split
      · exact h
      · refine h.congr fun i => ?_
        by_cases hi : i = old
        · subst hi
          simp [Subnet.Same, Daemon.tables]
        · simp [Subnet.Same, Daemon.tables, hi]
    · exact h
  · exact h

lemma of_tables {d d' : Daemon} (h : SubnetIndex d.tables) (ht : d'.tables = d.tables) :
    SubnetIndex d'.tables := by
  rw [ht]
  exact h

/-- ADD_SUBNET is handled; `hfit` is needed only if it adds a subnet. -/
lemma addSubnetH (h : SubnetIndex d.tables) (c : ConnId) (request : Text)
    (hfit : ∀ name str s, parseTwoWords request = some (name, str) → str2net str = some s →
      name ≠ d.myself → d.config.tunnelserver = false → d.config.strictsubnets = false →
      ∀ j ∈ d.subnetTree, Apart { s with owner := some name } (d.subnet j)) :
    SubnetIndex (addSubnetH d c request).1.tables := by
  have hseen := SameIndexes.seenRequest d request
  have hs := h.of_tables (tables_of_same hseen)
  rcases addSubnetH_cases d c request with he | he | ⟨name, s, ⟨str, hparse, hstr⟩, he⟩ <;> rw [he]
  · exact h
  · exact hs
  · have hn := hs.ensureNode name
    have htables := hs.tables_ensureNode name
    have hmem := hs.mem_ensureNode name
    have hconf : ((d.seenRequest request).1.ensureNode name).config = d.config := by
      obtain ⟨_, _, _, _, _, _, _, hd⟩ := hseen
      unfold Daemon.ensureNode
      split
      · rw [hd]
        rfl
      · rw [hd]
    rw [tables_of_same hseen] at htables
    generalize (d.seenRequest request).1.ensureNode name = d' at hn htables hmem hconf ⊢
    unfold Daemon.applyAddSubnet
    split
    · exact hn
    · split
      · exact hn.of_tables (tables_of_same (SameIndexes.sendSubnet d' _ _ _ _))
      · rename_i hmy
        split
        · exact hn
        · rename_i htunnel
          split
          · exact hn.of_tables (tables_of_same (SameIndexes.broadcastMeta d' _ _))
          · rename_i hstrict
            refine handoff ?_ s
            refine of_tables ?_ (tables_of_same (SameIndexes.tellRest _ c request))
            rw [Daemon.myself, hconf] at hmy
            rw [hconf] at htunnel hstrict
            have hsub : d'.subnet = d.subnet := congrArg Tables.subnet htables
            have htree : d'.subnetTree = d.subnetTree := congrArg Tables.subnetTree htables
            refine hn.subnetAdd (fun m hm => ?_) ?_
            · rwa [← Option.mem_some_iff.mp hm]
            · rw [hsub, htree]
              exact hfit name str s hparse hstr hmy (by simpa using htunnel) (by simpa using hstrict)

/-- DEL_SUBNET is handled: what it deletes was found in the tree of the owner. -/
lemma delSubnetH (h : SubnetIndex d.tables) (c : ConnId) (request : Text) :
    SubnetIndex (delSubnetH d c request).1.tables := by
  have hs := h.of_tables (tables_of_same (SameIndexes.seenRequest d request))
  rcases delSubnetH_cases d c request with he | he | ⟨owner, s, he⟩ <;> rw [he]
  · exact h
  · exact hs
  · generalize (d.seenRequest request).1 = d' at hs ⊢
    unfold Daemon.applyDelSubnet
    split
    · split
      · exact hs.of_tables (tables_of_same (SameIndexes.broadcastMeta d' _ _))
      · exact hs
    · rename_i find hfind
      split
      · exact hs.of_tables (tables_of_same (SameIndexes.sendSubnet d' _ _ _ _))
      · split
        · exact hs
        · have htell := tables_of_same (SameIndexes.tellRest d' c request)
          split
          · exact hs.of_tables htell
          · refine (hs.of_tables htell).subnetDel ?_
            have hown : (d'.tellRest c request).nodeSubnets = d'.nodeSubnets :=
              congrArg Tables.nodeSubnets htell
            rw [hown]
            exact (OrdList.search_some hfind).1

lemma addEdgeH (h : SubnetIndex d.tables) (c : ConnId) (request : Text) :
    SubnetIndex (addEdgeH d c request).1.tables := by
  have hs := h.of_tables (tables_of_same (SameIndexes.seenRequest d request))
  rcases addEdgeH_cases d c request with he | he | ⟨r, -, -, -, he⟩ <;> rw [he]
  · exact h
  · exact hs
  · exact ((hs.ensureNode _).ensureNode _).of_tables (tables_applyAddEdge _ c request r)

lemma ackH (h : SubnetIndex d.tables) (c : ConnId) (request : Text) :
    SubnetIndex (ackH d c request).1.tables := by
  rcases tables_ackH d c request with ht | ht <;> rw [ht]
  · exact h
  · exact h.ensureNode _

/-! ### Deleting a node -/

/-- The subnets of a node are deleted one after the other. -/
lemma foldl_subnetDel (n : Name) : ∀ (l : List SubnetId) (d : Daemon), SubnetIndex d.tables →
    d.nodeSubnets n = l →
    SubnetIndex (l.foldl (fun d s => d.subnetDel (some n) s) d).tables ∧
      (l.foldl (fun d s => d.subnetDel (some n) s) d).nodeSubnets n = [] := by
  intro l
  induction l with
  | nil => exact fun d h hl => ⟨h, hl⟩
  | cons s l ih =>
      intro d h hl
      have hs : s ∈ d.nodeSubnets n := by simp [hl]
      refine ih (d.subnetDel (some n) s) (h.subnetDel hs) ?_
      -- the first element is found at once
      have hkey : subnetCompare (d.subnet s) (d.subnet s) = 0 :=
        (h.apart s (h.mem_tree hs) s (h.mem_tree hs)).compare.1.mpr rfl
      simp [Daemon.subnetDel, Daemon.deleteSubnet, hl, OrdList.delete, hkey]

lemma foldl_edgeDel (l : List EdgeId) (d : Daemon) :
    (l.foldl Daemon.edgeDel d).tables = d.tables := by
  induction l generalizing d with
  | nil => rfl
  | cons e l ih => exact (ih (d.edgeDel e)).trans (tables_edgeDel d e)

lemma nodeDel (h : SubnetIndex d.tables) (n : Name) : SubnetIndex (d.nodeDel n).tables := by
  obtain ⟨h1, hnil⟩ := foldl_subnetDel n (d.nodeSubnets n) d h rfl
  unfold Daemon.nodeDel
  dsimp only
  generalize (d.nodeSubnets n).foldl (fun d s => d.subnetDel (some n) s) d = d₁ at h1 hnil ⊢
  have h2 := h1.of_tables (foldl_edgeDel (d₁.edgeTree n) d₁)
  have hnil2 : ((d₁.edgeTree n).foldl Daemon.edgeDel d₁).nodeSubnets n = [] :=
    (congrFun (congrArg Tables.nodeSubnets (foldl_edgeDel (d₁.edgeTree n) d₁)) n).trans hnil
  generalize (d₁.edgeTree n).foldl Daemon.edgeDel d₁ = d₂ at h2 hnil2 ⊢
  refine ⟨h2.nodes.delete, h2.sorted, h2.ownSorted, h2.owner, h2.both, h2.apart, h2.fresh,
    h2.broadcast, fun m hm => ?_⟩
  by_cases hmn : m = n
  · rw [hmn]
    exact hnil2
  · refine h2.known m fun hin => hm ?_
    exact OrdList.mem_delete_of_ne hin fun h0 => hmn (strcmp_eq_zero.mp h0).symm

end SubnetIndex

end Tinc
