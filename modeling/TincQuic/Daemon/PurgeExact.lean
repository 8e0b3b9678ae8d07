import TincQuic.Daemon.Pointers
import TincQuic.Daemon.Reachability

/-!
# What `purge` removes

`purge` first takes the edges and subnets of all nodes away that are not reachable, and then deletes
such nodes one after the other, until it meets one to which there is still an edge.

* `Removes` says what the first loop does: some edges and subnets are gone and all else is the same.
  `removes_loop` names them.
* `dropped` are the nodes that the second loop deletes, and `purgeNodes_eq` says that it does nothing
  else.
* `PurgedExactly` is what one would like to say of the state afterwards, also of the pointers to
  nodes.  **It holds if and only if the nodes that can be deleted come before those that cannot, and
  nobody points to them**: `purge_exact_iff`.
-/

namespace Tinc

open Bytes CText Function

variable {d d' d'' : Daemon} {n m : Name} {e i : EdgeId} {s : SubnetId} {es es' : Set EdgeId}
  {ss ss' : Set SubnetId}

/-! ## The first loop -/

/-- The edges `es` and the subnets `ss` are gone.  Nothing else has changed but pointers to reverses
and what was sent. -/
structure Removes (d : Daemon) (es : Set EdgeId) (ss : Set SubnetId) (d' : Daemon) : Prop where
  nodes : SameNodes d d'
  connectionList : d'.connectionList = d.connectionList
  conn : d'.conn = d.conn
  subnet : d'.subnet = d.subnet
  said : ∀ i, (d'.edge i).said = (d.edge i).said
  edges : ∀ m i, i ∈ d'.edgeTree m ↔ i ∈ d.edgeTree m ∧ i ∉ es
  subnets : ∀ m s, s ∈ d'.nodeSubnets m ↔ s ∈ d.nodeSubnets m ∧ s ∉ ss
  index : ConnIndex d'
  tables : SubnetIndex d'.tables

namespace Removes

lemma refl (h : ConnIndex d) (hs : SubnetIndex d.tables) : Removes d ∅ ∅ d :=
  ⟨.refl d, rfl, rfl, rfl, fun _ => rfl, by simp, by simp, h, hs⟩

lemma trans (h : Removes d es ss d') (h' : Removes d' es' ss' d'') :
    Removes d (es ∪ es') (ss ∪ ss') d'' := by
  refine ⟨h.nodes.trans h'.nodes, h'.connectionList.trans h.connectionList, h'.conn.trans h.conn,
    h'.subnet.trans h.subnet, fun i => (h'.said i).trans (h.said i), fun m i => ?_, fun m s => ?_,
    h'.index, h'.tables⟩
  · rw [h'.edges, h.edges, Set.mem_union, not_or, and_assoc]
  · rw [h'.subnets, h.subnets, Set.mem_union, not_or, and_assoc]

/-- A message is sent. -/
lemma told (h : Removes d es ss d') (hs : SameIndexes d' d'') (hn : SameNodes d' d'') :
    Removes d es ss d'' := by
  have hindex := h.index.of_same hs
  have htables := h.tables.of_tables (tables_of_same hs)
  have hnodes := h.nodes.trans hn
  obtain ⟨_, _, _, _, _, _, _, rfl⟩ := hs
  exact ⟨hnodes, h.connectionList, h.conn, h.subnet, h.said, h.edges, h.subnets, hindex, htables⟩

lemma subnetDel (h : ConnIndex d) (hs : SubnetIndex d.tables) (hmem : s ∈ d.nodeSubnets n) :
    Removes d ∅ {s} (d.subnetDel (some n) s) := by
  refine ⟨.subnetDel d _ s, rfl, rfl, rfl, fun _ => rfl, fun m i => ?_,
    fun m j => (hs.mem_subnetDel hmem j).2 m, ?_, hs.subnetDel hmem⟩
  · simp [Daemon.subnetDel]
  · exact (SubnetsOnly.subnetDel d _ s).connIndex h (h.toFiled.subnetDel _ s)

lemma edgeDel (h : ConnIndex d) (hs : SubnetIndex d.tables) (hmem : e ∈ d.edgeTree n)
    (hn : n ≠ d.myself) : Removes d {e} ∅ (d.edgeDel e) := by
  obtain ⟨hindex, -, -, hedges⟩ := h.edgeDel hmem hn
  have htables := tables_edgeDel d e
  have hconns := SameConns.edgeDel d e
  have hsubnets : (d.edgeDel e).nodeSubnets = d.nodeSubnets := congrArg Tables.nodeSubnets htables
  refine ⟨.edgeDel d e, ?_, ?_, congrArg Tables.subnet htables, EdgeIndex.edgeDel_said d e, hedges,
    fun m j => ?_, hindex, hs.of_tables htables⟩
  · obtain ⟨_, _, _, _, _, _, _, _, _, _, _, heq⟩ := hconns
    rw [heq]
  · obtain ⟨_, _, _, _, _, _, _, _, _, _, _, heq⟩ := hconns
    rw [heq]
  · rw [hsubnets]
    simp

/-- The subnets of a node are deleted, one after the other. -/
lemma foldlSubnets (h : ConnIndex d) (hs : SubnetIndex d.tables)
    (hstrict : d.config.strictsubnets = false) (l : List SubnetId) (hl : l.Nodup)
    (hsub : ∀ s ∈ l, s ∈ d.nodeSubnets n) :
    Removes d ∅ {s | s ∈ l} (l.foldl (fun d s =>
      let d := d.announceDelSubnet n s
      if d.config.strictsubnets then d else d.subnetDel (some n) s) d) := by
  induction l generalizing d with
  | nil =>
      rw [show {s | s ∈ ([] : List SubnetId)} = (∅ : Set SubnetId) by simp]
      exact refl h hs
  | cons s l ih =>
      obtain ⟨hsl, hl⟩ := List.nodup_cons.mp hl
      have htold := (refl h hs).told (.announceDelSubnet d n s) (.announceDelSubnet d n s)
      have hstrict' : (d.announceDelSubnet n s).config.strictsubnets = false := by
        rw [htold.nodes.config]
        exact hstrict
      have hmem : s ∈ (d.announceDelSubnet n s).nodeSubnets n :=
        (htold.subnets n s).mpr ⟨hsub s List.mem_cons_self, Set.notMem_empty s⟩
      have hone := htold.trans (subnetDel htold.index htold.tables hmem)
      rw [List.foldl_cons]
      dsimp only
      rw [if_neg (by simp [hstrict'])]
      have hrest := ih hone.index hone.tables (hone.nodes.config ▸ hstrict) hl fun j hj => by
        refine (hone.subnets n j).mpr ⟨hsub j (List.mem_cons_of_mem s hj), ?_⟩
        rintro (hfalse | rfl)
        · exact hfalse
        · exact hsl hj
      convert hone.trans hrest using 1
      · simp
      · ext j
        simp

/-- The edges of a node are deleted, one after the other. -/
lemma foldlEdges (h : ConnIndex d) (hs : SubnetIndex d.tables) (hn : n ≠ d.myself)
    (l : List EdgeId) (hl : l.Nodup) (hsub : ∀ e ∈ l, e ∈ d.edgeTree n) :
    Removes d {e | e ∈ l} ∅ (l.foldl (fun d e =>
      let d :=
        if d.config.tunnelserver then d
        else d.sendDelEdge .everyone (d.edge e).fromNode (d.edge e).toNode
      d.edgeDel e) d) := by
  induction l generalizing d with
  | nil =>
      rw [show {e | e ∈ ([] : List EdgeId)} = (∅ : Set EdgeId) by simp]
      exact refl h hs
  | cons e l ih =>
      obtain ⟨hel, hl⟩ := List.nodup_cons.mp hl
      have htold : Removes d ∅ ∅ (if d.config.tunnelserver = true then d
          else d.sendDelEdge .everyone (d.edge e).fromNode (d.edge e).toNode) := by
        split
        · exact refl h hs
        · exact (refl h hs).told (.sendDelEdge d _ _ _) (.sendDelEdge d _ _ _)
      rw [List.foldl_cons]
      dsimp only
      generalize (if d.config.tunnelserver = true then d
          else d.sendDelEdge .everyone (d.edge e).fromNode (d.edge e).toNode) = d₁ at htold ⊢
      have hmem : e ∈ d₁.edgeTree n :=
        (htold.edges n e).mpr ⟨hsub e List.mem_cons_self, Set.notMem_empty e⟩
      have hmyself : d₁.myself = d.myself := congrArg Config.myself htold.nodes.config
      have hone := htold.trans (edgeDel htold.index htold.tables hmem (hmyself ▸ hn))
      have hmyself' : (d₁.edgeDel e).myself = d.myself := congrArg Config.myself hone.nodes.config
      have hrest := ih hone.index hone.tables (hmyself' ▸ hn) hl fun j hj => by
        refine (hone.edges n j).mpr ⟨hsub j (List.mem_cons_of_mem e hj), ?_⟩
        rintro (hfalse | rfl)
        · exact hfalse
        · exact hel hj
      convert hone.trans hrest using 1
      · ext j
        simp
      · simp

/-- One node in the first loop. -/
lemma purgeNode (h : ConnIndex d) (hs : SubnetIndex d.tables)
    (hstrict : d.config.strictsubnets = false) (hn : (d.node n).reachable = false → n ≠ d.myself) :
    Removes d {e | (d.node n).reachable = false ∧ e ∈ d.edgeTree n}
      {s | (d.node n).reachable = false ∧ s ∈ d.nodeSubnets n} (d.purgeNode n) := by
  unfold Daemon.purgeNode
  cases hr : (d.node n).reachable with
  | true =>
      rw [if_pos rfl]
      convert refl h hs using 1 <;> simp
  | false =>
      rw [if_neg (by decide)]
      have hsubnets := foldlSubnets h hs hstrict (d.nodeSubnets n) (hs.ownSorted n).nodup
        fun _ hs => hs
      dsimp only at hsubnets ⊢
      generalize (d.nodeSubnets n).foldl _ d = d₁ at hsubnets ⊢
      have hmyself : d₁.myself = d.myself := congrArg Config.myself hsubnets.nodes.config
      have hedges := foldlEdges hsubnets.index hsubnets.tables (hmyself ▸ hn hr) (d₁.edgeTree n)
        (hsubnets.index.shelved.sorted n).nodup fun _ he => he
      convert hsubnets.trans hedges using 1
      · ext j
        simp [hsubnets.edges]
      · ext j
        simp

end Removes

/-- The first loop, as far as it has come. -/
lemma removes_foldl (h : ConnIndex d) (hs : SubnetIndex d.tables)
    (hstrict : d.config.strictsubnets = false) (hh : Home d) (nodes : List Name) :
    Removes d {e | ∃ n ∈ nodes, (d.node n).reachable = false ∧ e ∈ d.edgeTree n}
      {s | ∃ n ∈ nodes, (d.node n).reachable = false ∧ s ∈ d.nodeSubnets n}
      (nodes.foldl Daemon.purgeNode d) := by
  induction nodes using List.reverseRecOn with
  | nil =>
      convert Removes.refl h hs using 1 <;> simp
  | append_singleton nodes n ih =>
      rw [List.foldl_append, List.foldl_cons, List.foldl_nil]
      generalize nodes.foldl Daemon.purgeNode d = d₁ at ih
      have hmyself : d₁.myself = d.myself := congrArg Config.myself ih.nodes.config
      have hone := Removes.purgeNode (n := n) ih.index ih.tables (ih.nodes.config ▸ hstrict)
        fun hr he => by
          rw [he, hmyself, ih.nodes.node, hh.reachable] at hr
          cases hr
      rw [ih.nodes.node] at hone
      convert ih.trans hone using 1
      · ext j
        simp only [List.mem_append, List.mem_singleton, Set.mem_union, Set.mem_ofPred_eq, ih.edges]
        grind
      · ext j
        simp only [List.mem_append, List.mem_singleton, Set.mem_union, Set.mem_ofPred_eq, ih.subnets]
        grind

/-- The state between the two loops. -/
def Daemon.cleared (d : Daemon) : Daemon := d.nodeTree.foldl Daemon.purgeNode d

/-- **The first loop removes exactly the edges and subnets of nodes that are not reachable.** -/
lemma removes_loop (h : ConnIndex d) (hs : SubnetIndex d.tables)
    (hstrict : d.config.strictsubnets = false) (hh : Home d) :
    (∀ m, (d.node m).reachable = false →
      d.cleared.edgeTree m = [] ∧ d.cleared.nodeSubnets m = []) ∧
    ∀ m, (d.node m).reachable = true →
      d.cleared.edgeTree m = d.edgeTree m ∧ d.cleared.nodeSubnets m = d.nodeSubnets m := by
  have hloop : Removes d _ _ d.cleared := removes_foldl h hs hstrict hh d.nodeTree
  refine ⟨fun m hm => ⟨?_, ?_⟩, fun m hm => ⟨?_, ?_⟩⟩
  · refine List.eq_nil_iff_forall_not_mem.mpr fun i hi => ?_
    obtain ⟨hmem, hnot⟩ := (hloop.edges m i).mp hi
    refine hnot ⟨m, ?_, hm, hmem⟩
    by_contra hunknown
    rw [h.shelved.known m hunknown] at hmem
    exact absurd hmem List.not_mem_nil
  · refine List.eq_nil_iff_forall_not_mem.mpr fun s hmem' => ?_
    obtain ⟨hmem, hnot⟩ := (hloop.subnets m s).mp hmem'
    refine hnot ⟨m, ?_, hm, hmem⟩
    by_contra hunknown
    have hnil : d.nodeSubnets m = [] := hs.known m hunknown
    rw [hnil] at hmem
    exact absurd hmem List.not_mem_nil
  · have hkey : toKey d.cleared.edge = toKey d.edge := funext fun i => by
      rw [toKey, toKey, (Edge.said_inj (hloop.said i)).2.1]
    have hsorted := hloop.index.shelved.sorted m
    rw [hkey] at hsorted
    refine hsorted.ext (h.shelved.sorted m) fun i => (hloop.edges m i).trans
      ⟨And.left, fun hmem => ⟨hmem, ?_⟩⟩
    rintro ⟨n, -, hr, hmem'⟩
    rw [← h.shelved.start n i hmem', h.shelved.start m i hmem, hm] at hr
    cases hr
  · have hsorted := hloop.tables.ownSorted m
    have hsubnet : d.cleared.subnet = d.subnet := hloop.subnet
    unfold SortedSubnets Daemon.tables at hsorted
    dsimp only at hsorted
    rw [hsubnet] at hsorted
    refine hsorted.ext (hs.ownSorted m) fun s => (hloop.subnets m s).trans
      ⟨And.left, fun hmem => ⟨hmem, ?_⟩⟩
    rintro ⟨n, -, hr, hmem'⟩
    have hown : some n = some m := (hs.owner n s hmem').symm.trans (hs.owner m s hmem)
    rw [Option.some.inj hown, hm] at hr
    cases hr

/-! ## The second loop -/

/-- There is still an edge to `n`. -/
def Pointed (d : Daemon) (n : Name) : Prop := ∃ e ∈ d.edgeWeightTree, (d.edge e).toNode = n

instance : Decidable (Pointed d n) := inferInstanceAs (Decidable (∃ e ∈ _, _))

/-- The nodes that the second loop deletes. -/
def dropped (d : Daemon) : List Name → List Name
  | [] => []
  | n :: nodes =>
      if (d.node n).reachable then dropped d nodes
      else if Pointed d n then []
      else n :: dropped d nodes

/-- Only nodes differ that are not looked at. -/
lemma dropped_nodeTree (tree : List Name) (nodes : List Name) :
    dropped { d with nodeTree := tree } nodes = dropped d nodes := by
  induction nodes with
  | nil => rfl
  | cons n nodes ih =>
      unfold dropped
      rw [ih]
      rfl

/-- The second loop does nothing else. -/
lemma purgeNodes_eq (hstrict : d.config.strictsubnets = false)
    (hbare : ∀ n, (d.node n).reachable = false → d.edgeTree n = [] ∧ d.nodeSubnets n = [])
    (nodes : List Name) :
    Daemon.purgeNodes false nodes d =
      { d with nodeTree :=
          (dropped d nodes).foldl (fun tree n => OrdList.delete (strcmp n) tree) d.nodeTree } := by
  induction nodes generalizing d with
  | nil => rfl
  | cons n nodes ih =>
      unfold Daemon.purgeNodes dropped
      cases hr : (d.node n).reachable with
      | true =>
          rw [if_pos rfl, if_pos rfl]
          exact ih hstrict hbare
      | false =>
          rw [if_neg Bool.false_ne_true, if_neg Bool.false_ne_true]
          by_cases hto : Pointed d n
          · rw [if_pos hto, if_pos (by simpa [Pointed] using hto)]
            rfl
          · rw [if_neg hto, if_neg (by simpa [Pointed] using hto), if_pos (by simp [hstrict])]
            obtain ⟨hedges, hsubnets⟩ := hbare n hr
            have hdel : d.nodeDel n =
                { d with nodeTree := OrdList.delete (strcmp n) d.nodeTree } := by
              unfold Daemon.nodeDel
              rw [hsubnets, List.foldl_nil]
              dsimp only
              rw [hedges, List.foldl_nil]
            rw [hdel]
            refine (ih (d := { d with nodeTree := OrdList.delete (strcmp n) d.nodeTree }) hstrict
              hbare).trans ?_
            rw [dropped_nodeTree]
            rfl

lemma mem_foldl_delete {tree : List Name} (htree : OrdList.Sorted textKey tree) (l : List Name) :
    n ∈ l.foldl (fun tree n => OrdList.delete (strcmp n) tree) tree ↔ n ∈ tree ∧ n ∉ l := by
  induction l generalizing tree with
  | nil => simp
  | cons m l ih =>
      rw [List.foldl_cons, ih htree.delete,
        OrdList.mem_delete_iff (follows_strcmp m tree) htree, ne_eq, textKey_inj, List.mem_cons,
        not_or, and_assoc]

/-- In a sorted list all nodes are deleted that come before the first to which there is an edge. -/
lemma mem_dropped {nodes : List Name} (hnodes : OrdList.Sorted textKey nodes) :
    n ∈ dropped d nodes ↔ n ∈ nodes ∧ (d.node n).reachable = false ∧ ¬ Pointed d n ∧
      ∀ m ∈ nodes, (d.node m).reachable = false → Pointed d m → strcmp n m < 0 := by
  induction nodes with
  | nil => simp [dropped]
  | cons a nodes ih =>
      obtain ⟨hlt, hrest⟩ := List.pairwise_cons.mp hnodes
      have hna : n ∈ nodes → n ≠ a := by
        rintro hn rfl
        exact absurd (hlt n hn) (lt_irrefl _)
      rw [dropped]
      cases hr : (d.node a).reachable with
      | true =>
          rw [if_pos rfl, ih hrest]
          constructor
          · rintro ⟨hn, hu, hp, hfirst⟩
            refine ⟨List.mem_cons_of_mem a hn, hu, hp, fun m hm hum => ?_⟩
            rcases List.mem_cons.mp hm with rfl | hm
            · rw [hr] at hum
              cases hum
            · exact hfirst m hm hum
          · rintro ⟨hn, hu, hp, hfirst⟩
            rcases List.mem_cons.mp hn with rfl | hn
            · rw [hr] at hu
              cases hu
            · exact ⟨hn, hu, hp, fun m hm => hfirst m (List.mem_cons_of_mem a hm)⟩
      | false =>
          rw [if_neg Bool.false_ne_true]
          by_cases hp : Pointed d a
          · rw [if_pos hp]
            refine ⟨fun hn => absurd hn List.not_mem_nil, ?_⟩
            rintro ⟨hn, -, hnp, hfirst⟩
            have hbefore := strcmp_neg.mp (hfirst a List.mem_cons_self hr hp)
            rcases List.mem_cons.mp hn with rfl | hn
            · exact absurd hp hnp
            · exact absurd (hbefore.trans (hlt n hn)) (lt_irrefl _)
          · rw [if_neg hp, List.mem_cons, ih hrest]
            constructor
            · rintro (rfl | ⟨hn, hu, hpn, hfirst⟩)
              · refine ⟨List.mem_cons_self, hr, hp, fun m hm _ hpm => ?_⟩
                rcases List.mem_cons.mp hm with rfl | hm
                · exact absurd hpm hp
                · exact strcmp_neg.mpr (hlt m hm)
              · refine ⟨List.mem_cons_of_mem a hn, hu, hpn, fun m hm hum hpm => ?_⟩
                rcases List.mem_cons.mp hm with rfl | hm
                · exact absurd hpm hp
                · exact hfirst m hm hum hpm
            · rintro ⟨hn, hu, hpn, hfirst⟩
              rcases List.mem_cons.mp hn with rfl | hn
              · exact .inl rfl
              · exact .inr ⟨hn, hu, hpn, fun m hm => hfirst m (List.mem_cons_of_mem a hm)⟩

/-! ## What is left -/

/-- An edge of a reachable node leads to `n`. -/
def Claimed (d : Daemon) (n : Name) : Prop :=
  ∃ m, (d.node m).reachable = true ∧ ∃ e ∈ d.edgeTree m, (d.edge e).toNode = n

/-- What is expected of `purge`, where the outgoing connections have pointers to `outgoing`: `d'` is
the state afterwards. -/
structure PurgedExactly (d : Daemon) (outgoing : List Name) (d' : Daemon) : Prop where
  /-- No node that is not reachable has an edge or a subnet. -/
  bare : ∀ n, (d'.node n).reachable = false → d'.edgeTree n = [] ∧ d'.nodeSubnets n = []
  /-- Such nodes are gone, unless there is an edge to them. -/
  gone : ∀ n ∈ d'.nodeTree, (d'.node n).reachable = false → Pointed d' n
  /-- Reachable nodes, their edges and their subnets are untouched. -/
  untouched : ∀ n ∈ d.nodeTree, (d.node n).reachable = true → n ∈ d'.nodeTree ∧
    d'.node n = d.node n ∧ d'.edgeTree n = d.edgeTree n ∧
    (∀ e ∈ d.edgeTree n, d'.edge e = d.edge e) ∧ d'.nodeSubnets n = d.nodeSubnets n ∧
    ∀ s ∈ d.nodeSubnets n, d'.subnet s = d.subnet s
  /-- Pointers still refer to nodes in the tree. -/
  outgoing : ∀ o ∈ outgoing, o ∈ d'.nodeTree
  connections : ∀ c ∈ d'.connectionList, ∀ n, (d'.conn c).node = some n → n ∈ d'.nodeTree
  pointers : ∀ n ∈ d'.nodeTree, ∀ v, (d'.node n).via = some v ∨ (d'.node n).nexthop = some v →
    v ∈ d'.nodeTree

/-- When that is so: a node that is not reachable and is claimed by nobody comes before all that are
claimed, and no outgoing connection or other node points to it.  The marks are those of the
graph. -/
structure PurgeSafe (d : Daemon) (outgoing : List Name) : Prop where
  order : ∀ n ∈ d.nodeTree, ∀ m ∈ d.nodeTree, (d.node n).reachable = false →
    (d.node m).reachable = false → Claimed d n → ¬ Claimed d m → strcmp m n < 0
  outgoing : ∀ o ∈ outgoing, o ∈ d.nodeTree ∧ ((d.node o).reachable = true ∨ Claimed d o)
  pointers : ∀ n ∈ d.nodeTree, ((d.node n).reachable = true ∨ Claimed d n) →
    ∀ v, (d.node n).via = some v ∨ (d.node n).nexthop = some v →
      v ∈ d.nodeTree ∧ ((d.node v).reachable = true ∨ Claimed d v)
  closed : ∀ n m, (d.node n).reachable = true → BothWays d n m → (d.node m).reachable = true

section Purge

variable (h : ConnIndex d) (hs : SubnetIndex d.tables) (hstrict : d.config.strictsubnets = false)
  (hh : Home d)

include h hs hstrict hh

lemma removes_cleared : Removes d
    {e | ∃ n ∈ d.nodeTree, (d.node n).reachable = false ∧ e ∈ d.edgeTree n}
    {s | ∃ n ∈ d.nodeTree, (d.node n).reachable = false ∧ s ∈ d.nodeSubnets n} d.cleared :=
  removes_foldl h hs hstrict hh d.nodeTree

/-- After the first loop there are edges to the nodes that are claimed. -/
lemma pointed_cleared : Pointed d.cleared n ↔ Claimed d n := by
  have hloop := removes_cleared h hs hstrict hh
  obtain ⟨hbare, hkept⟩ := removes_loop h hs hstrict hh
  constructor
  · rintro ⟨e, he, rfl⟩
    have hmem := (hloop.index.shelved.both e).mp he
    cases hr : (d.node (d.cleared.edge e).fromNode).reachable with
    | false =>
        rw [(hbare _ hr).1] at hmem
        exact absurd hmem List.not_mem_nil
    | true =>
        rw [(hkept _ hr).1] at hmem
        exact ⟨_, hr, e, hmem, (Edge.said_inj (hloop.said e)).2.1.symm⟩
  · rintro ⟨m, hr, e, he, rfl⟩
    rw [← (hkept m hr).1] at he
    refine ⟨e, (hloop.index.shelved.both e).mpr ?_, (Edge.said_inj (hloop.said e)).2.1⟩
    rw [hloop.index.shelved.start m e he]
    exact he

/-- **What `purge` does**, apart from the first loop. -/
lemma purge_eq : d.purge false =
    { d.cleared with
      nodeTree := (dropped d.cleared d.nodeTree).foldl
        (fun tree n => OrdList.delete (strcmp n) tree) d.nodeTree } := by
  have hloop := removes_cleared h hs hstrict hh
  have hbare := (removes_loop h hs hstrict hh).1
  have heq := purgeNodes_eq (d := d.cleared) (hloop.nodes.config ▸ hstrict)
    (fun n hn => hbare n (hloop.nodes.node ▸ hn)) d.cleared.nodeTree
  rw [hloop.nodes.nodeTree] at heq
  unfold Daemon.purge
  dsimp only
  change Daemon.purgeNodes false d.cleared.nodeTree d.cleared = _
  rw [hloop.nodes.nodeTree]
  exact heq

/-- The nodes that are left. -/
lemma mem_purge : n ∈ (d.purge false).nodeTree ↔ n ∈ d.nodeTree ∧
    ((d.node n).reachable = true ∨ Claimed d n ∨
      ∃ m ∈ d.nodeTree, (d.node m).reachable = false ∧ Claimed d m ∧ ¬ strcmp n m < 0) := by
  have hloop := removes_cleared h hs hstrict hh
  rw [purge_eq h hs hstrict hh]
  dsimp only
  rw [mem_foldl_delete h.nodes, mem_dropped h.nodes, hloop.nodes.node]
  refine and_congr_right fun hn => ?_
  simp only [hn, true_and, pointed_cleared h hs hstrict hh]
  constructor
  · intro hnot
    cases hr : (d.node n).reachable with
    | true => exact .inl rfl
    | false =>
        right
        by_contra hall
        simp only [not_or, not_exists, not_and, not_not] at hall
        exact hnot ⟨hr, hall.1, fun m hm hu hc => hall.2 m hm hu hc⟩
  · rintro (hr | hc | ⟨m, hm, hu, hc, hlt⟩) ⟨hu', hc', hfirst⟩
    · rw [hr] at hu'
      cases hu'
    · exact hc' hc
    · exact hlt (hfirst m hm hu hc)

lemma purge_edge_untouched (hclosed : ∀ n m, (d.node n).reachable = true → BothWays d n m →
    (d.node m).reachable = true) (hr : (d.node n).reachable = true) (he : e ∈ d.edgeTree n) :
    d.cleared.edge e = d.edge e := by
  have hloop := removes_cleared h hs hstrict hh
  obtain ⟨hbare, hkept⟩ := removes_loop h hs hstrict hh
  have hto := (Edge.said_inj (hloop.said e)).2.1
  have hreverse : (d.cleared.edge e).reverse = (d.edge e).reverse := by
    have he' : e ∈ d.cleared.edgeTree n := by
      rw [(hkept n hr).1]
      exact he
    rw [hloop.index.reversed n e he', h.reversed n e he, hto]
    cases hm : (d.node (d.edge e).toNode).reachable with
    | true =>
        refine findEdge_congr (hkept _ hm).1 fun i => (Edge.said_inj (hloop.said i)).2.1
    | false =>
        -- there was no edge back, or the node would be reachable
        have hnone : findEdge d.edge d.edgeTree (d.edge e).toNode n = none := by
          refine h.shelved.findEdge_eq_none.mpr fun j hj hback => ?_
          have hboth : BothWays d n (d.edge e).toNode := ⟨⟨e, he, rfl⟩, j, hj, hback⟩
          rw [hclosed n _ hr hboth] at hm
          cases hm
        rw [hnone, hloop.index.shelved.findEdge_eq_none, (hbare _ hm).1]
        exact fun j hj => absurd hj List.not_mem_nil
  have hsaid := hloop.said e
  unfold Edge.said at hsaid
  cases hc : d.cleared.edge e
  cases ho : d.edge e
  rw [hc, ho] at hsaid hreverse
  simp_all

end Purge

/-- **`purge` removes exactly what it should if and only if it is safe.** -/
theorem purge_exact_iff (d : Daemon) (outgoing : List Name) (h : ConnIndex d)
    (hs : SubnetIndex d.tables) (hh : Home d) (hstrict : d.config.strictsubnets = false) :
    PurgedExactly d outgoing (d.purge false) ↔ PurgeSafe d outgoing := by
  have hloop := removes_cleared h hs hstrict hh
  obtain ⟨hbare, hkept⟩ := removes_loop h hs hstrict hh
  have hmem := fun n => mem_purge (n := n) h hs hstrict hh
  have hpointed := fun n => pointed_cleared (n := n) h hs hstrict hh
  have hnode : (d.purge false).node = d.node := by
    rw [purge_eq h hs hstrict hh]
    exact hloop.nodes.node
  have hpoint : ∀ n, Pointed (d.purge false) n ↔ Claimed d n := by
    intro n
    rw [← hpointed n, purge_eq h hs hstrict hh]
    rfl
  have hedges : (d.purge false).edgeTree = d.cleared.edgeTree := by
    rw [purge_eq h hs hstrict hh]
  have hedge : (d.purge false).edge = d.cleared.edge := by
    rw [purge_eq h hs hstrict hh]
  have hsubnets : (d.purge false).nodeSubnets = d.cleared.nodeSubnets := by
    rw [purge_eq h hs hstrict hh]
  have hsubnet : (d.purge false).subnet = d.subnet := by
    rw [purge_eq h hs hstrict hh]
    exact hloop.subnet
  have hconns : (d.purge false).connectionList = d.connectionList ∧
      (d.purge false).conn = d.conn := by
    rw [purge_eq h hs hstrict hh]
    exact ⟨hloop.connectionList, hloop.conn⟩
  constructor
  · intro hexact
    have hleft : ∀ n ∈ (d.purge false).nodeTree,
        n ∈ d.nodeTree ∧ ((d.node n).reachable = true ∨ Claimed d n) := by
      intro n hn
      refine ⟨((hmem n).mp hn).1, ?_⟩
      cases hr : (d.node n).reachable with
      | true => exact .inl rfl
      | false => exact .inr ((hpoint n).mp (hexact.gone n hn (hnode ▸ hr)))
    have hstays : ∀ n ∈ d.nodeTree, ((d.node n).reachable = true ∨ Claimed d n) →
        n ∈ (d.purge false).nodeTree := fun n hn hor => (hmem n).mpr ⟨hn, hor.imp_right .inl⟩
    refine ⟨fun n hn m hm hun hum hcn hcm => ?_, fun o ho => hleft o (hexact.outgoing o ho),
      fun n hn hor v hv => hleft v (hexact.pointers n (hstays n hn hor) v (hnode ▸ hv)),
      fun n m hr hboth => ?_⟩
    · by_contra hlt
      have hin := (hmem m).mpr ⟨hm, .inr (.inr ⟨n, hn, hun, hcn, hlt⟩)⟩
      rcases (hleft m hin).2 with hr | hc
      · rw [hr] at hum
        cases hum
      · exact hcm hc
    · by_contra hnot
      rw [Bool.not_eq_true] at hnot
      obtain ⟨⟨i, hi, rfl⟩, hback⟩ := hboth
      have hn : n ∈ d.nodeTree := by
        by_contra hunknown
        rw [h.shelved.known n hunknown] at hi
        exact absurd hi List.not_mem_nil
      have hsame := (hexact.untouched n hn hr).2.2.2.1 i hi
      have hi' : i ∈ d.cleared.edgeTree n := by
        rw [(hkept n hr).1]
        exact hi
      -- the edge back is gone, so the pointer to it is
      have hreverse := (h.toEdgeIndex.enclosed.reverse n i hi).mpr hback
      rw [← hsame, hedge, hloop.index.toEdgeIndex.enclosed.reverse n i hi',
        (Edge.said_inj (hloop.said i)).2.1, (hbare _ hnot).1] at hreverse
      obtain ⟨j, hj, -⟩ := hreverse
      exact absurd hj List.not_mem_nil
  · intro hsafe
    have hstays : ∀ n ∈ d.nodeTree, ((d.node n).reachable = true ∨ Claimed d n) →
        n ∈ (d.purge false).nodeTree := fun n hn hor => (hmem n).mpr ⟨hn, hor.imp_right .inl⟩
    have hleft : ∀ n ∈ (d.purge false).nodeTree, (d.node n).reachable = true ∨ Claimed d n := by
      intro n hn
      obtain ⟨hknown, hr | hc | ⟨m, hm, hu, hc, hlt⟩⟩ := (hmem n).mp hn
      · exact .inl hr
      · exact .inr hc
      · by_contra hnot
        rw [not_or, Bool.not_eq_true] at hnot
        exact hlt (hsafe.order m hm n hknown hu hnot.1 hc hnot.2)
    refine ⟨fun n hr => ?_, fun n hn hr => ?_, fun n hn hr => ⟨hstays n hn (.inl hr), ?_⟩,
      fun o ho => ?_, fun c hc n hn => ?_, fun n hn v hv => ?_⟩
    · rw [hedges, hsubnets]
      exact hbare n (hnode ▸ hr)
    · rw [hnode] at hr
      refine (hpoint n).mpr ((hleft n hn).resolve_left ?_)
      rw [hr]
      decide
    · rw [hnode, hedges, hedge, hsubnets, hsubnet]
      exact ⟨rfl, (hkept n hr).1,
        fun e he => purge_edge_untouched h hs hstrict hh hsafe.closed hr he, (hkept n hr).2,
        fun _ _ => rfl⟩
    · obtain ⟨hknown, hor⟩ := hsafe.outgoing o ho
      exact hstays o hknown hor
    · -- the edge of the connection claims its node
      rw [hconns.1] at hc
      rw [hconns.2] at hn
      obtain ⟨-, hknown⟩ := h.listed n c ((h.node c hc n).mpr hn)
      refine hstays n hknown (.inr ?_)
      cases hedge : (d.conn c).edge with
      | none =>
          rw [h.noEdge c hc hedge] at hn
          cases hn
      | some e =>
          obtain ⟨he, -, hto⟩ := h.connEdge c hc e hedge
          exact ⟨d.myself, hh.reachable, e, he, Option.some.inj (hto.symm.trans hn)⟩
    · rw [hnode] at hv
      obtain ⟨hknown, hor⟩ := hsafe.pointers n ((hmem n).mp hn).1 (hleft n hn) v hv
      exact hstays v hknown hor

/-! ## Two daemons -/

/-- `b` connects to `a` and announces an edge to `pointed`, and one of `alone` to itself. -/
def announced (pointed alone : Text) : List Event :=
  [.connectionAdd 0 { name := ascii "<unknown>" },
    .receive 0 (words [ascii "0", ascii "b", ascii "17.7"]),
    .receive 0 (words [ascii "4", ascii "655", ascii "10", ascii "c"])] ++
  ([(ascii "b", ascii "a"), (ascii "b", pointed), (alone, ascii "b")].map fun e =>
    .receive 0 (words [ascii "12", ascii "1", e.1, e.2, ascii "unspec", ascii "unspec", ascii "c",
      ascii "5"]))

/-- The daemon of `a` then. -/
def listener (pointed alone : Text) : Daemon :=
  ((announced pointed alone).map Happening.event).foldl Daemon.happen
    (.setup { Config.plain (ascii "a") with rounds := 50 } id [] [] [])

/-- The subnets stay indexed over events. -/
lemma subnetIndex_happenings (events : List Event) (h : SubnetIndex d.tables)
    (he : Run.Along Daemon.step Event.OnSubnets (graph d) events)
    (ha : Run.Along Daemon.step Event.AddsApart (graph d) events) :
    SubnetIndex ((events.map Happening.event).foldl Daemon.happen (graph d)).tables := by
  rw [List.foldl_map]
  exact Run.Along.invariant (I := fun d => SubnetIndex d.tables)
    (fun _ _ h hs => h.step hs.1 hs.2) h (he.and ha)

/-- The nodes that only `b` knows of are not reachable.  `c` goes before the loop meets `z`. -/
theorem purge_exact_iff_listener :
    ((listener (ascii "z") (ascii "c")).purge false).nodeTree = [ascii "a", ascii "b", ascii "z"] ∧
    (PurgedExactly (listener (ascii "z") (ascii "c")) []
        ((listener (ascii "z") (ascii "c")).purge false) ↔
      PurgeSafe (listener (ascii "z") (ascii "c")) []) := by
  have hsound : Sound (listener (ascii "z") (ascii "c")) :=
    .run _ _ _ _ _ (by decide +kernel) (by decide +kernel)
  have htables : SubnetIndex (listener (ascii "z") (ascii "c")).tables :=
    subnetIndex_happenings _ (.init _ _) (by decide +kernel) (by decide +kernel)
  exact ⟨by decide +kernel,
    purge_exact_iff _ [] hsound.index htables hsound.home (by decide +kernel)⟩

/-- With the names the other way round, `z` is left, although no edge leads to it. -/
theorem purge_not_exact : ¬ ∀ (d : Daemon) (outgoing : List Name), ConnIndex d →
    SubnetIndex d.tables → Home d → d.config.strictsubnets = false →
    (∀ o ∈ outgoing, o ∈ d.nodeTree) → PurgedExactly d outgoing (d.purge false) := by
  intro hall
  have hsound : Sound (listener (ascii "c") (ascii "z")) :=
    .run _ _ _ _ _ (by decide +kernel) (by decide +kernel)
  have htables : SubnetIndex (listener (ascii "c") (ascii "z")).tables :=
    subnetIndex_happenings _ (.init _ _) (by decide +kernel) (by decide +kernel)
  have hexact := hall _ [] hsound.index htables hsound.home (by decide +kernel) (by simp)
  have hpointed := hexact.gone (ascii "z") (by decide +kernel) (by decide +kernel)
  exact absurd hpointed (by decide +kernel)

end Tinc
