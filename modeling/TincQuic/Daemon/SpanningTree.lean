import TincQuic.Daemon.ConnIndex
import TincQuic.Daemon.Reaching
import TincQuic.Lib.TreeGrowth

/-!
# The tree that `mst_kruskal` finds

`mst_kruskal` grows one tree from the start of the first edge, and marks the connections that belong
to edges of the tree.

* `treeEdges` are the edges that it adds, and `kruskalLoop_eq` says that the marks are those of these
  edges.
* **The tree depends only on the order of the edges**: `treeLinks_eq` gives it as the growth from the
  list of links, whatever the daemon.
* **It reaches all nodes, and can be hung up at any of them**: `Meshed.canRoot`.
* **The connection to a neighbour is marked if and only if the link to it is in the tree, in one
  direction or the other**: `Meshed.mst_iff`.
-/

namespace Tinc

open Bytes CText Function TreeGrowth

variable (d : Daemon)

/-- The nodes that an edge connects. -/
def link (i : EdgeId) : Name × Name := ((d.edge i).fromNode, (d.edge i).toNode)

/-- The edges that the loop adds, in their order. -/
def kruskalEdges : ℕ → List EdgeId → Bool → (Name → Bool) → List EdgeId
  | 0, _, _, _ => []
  | _ + 1, [], _, _ => []
  | fuel + 1, i :: rest, skipped, visited =>
      let e := d.edge i
      if e.reverse = none ∨ visited e.fromNode = visited e.toNode then
        kruskalEdges fuel rest true visited
      else
        i :: kruskalEdges fuel (if skipped then d.edgeWeightTree else rest) false
          (mark visited (link d i))

/-- The marks when the loop begins. -/
def kruskalStart (node : Name → Node) : Marks :=
  let cleared : Marks :=
    { visited := fun n => if d.known n then false else (node n).visited
      mst := fun c => if c ∈ d.connectionList then false else d.mst c }
  (d.edgeWeightTree.find? fun i => (node (d.edge i).fromNode).reachable).elim
    cleared fun i =>
      { cleared with visited := Function.update cleared.visited (d.edge i).fromNode true }

/-- The edges that `mst_kruskal` adds to the tree when `graph` is run. -/
def treeEdges : List EdgeId :=
  kruskalEdges d d.config.rounds d.edgeWeightTree false
    (kruskalStart d (checkReachability d (ssspBfs d d.node))).visited

/-- The links of the tree. -/
def treeLinks : List (Name × Name) := (treeEdges d).map (link d)

/-- The links of all edges, in the order of their weights. -/
def allLinks : List (Name × Name) := d.edgeWeightTree.map (link d)

variable {d}

/-! ## The loop -/

variable {fuel : ℕ} {rest : List EdgeId} {skipped : Bool} {visited : Name → Bool} {m : Marks}
  {c : ConnId} {e i : EdgeId} {n n' : Name}

lemma addEdge_visited : (m.addEdge d (d.edge i)).visited = mark m.visited (link d i) := by
  unfold Marks.addEdge Marks.addConnection
  dsimp only
  split <;> split <;> rfl

/-- The loop marks what belongs to the edges that it adds. -/
lemma kruskalLoop_eq (m : Marks) : kruskalLoop d fuel rest skipped m =
    (kruskalEdges d fuel rest skipped m.visited).foldl (fun m i => m.addEdge d (d.edge i)) m := by
  induction fuel generalizing rest skipped m with
  | zero => rfl
  | succ fuel ih =>
      cases rest with
      | nil => rfl
      | cons i rest =>
          rw [kruskalLoop, kruskalEdges]
          split
          · exact ih m
          · rw [List.foldl_cons, ih, addEdge_visited]

lemma kruskalEdges_subset (hrest : ∀ i ∈ rest, i ∈ d.edgeWeightTree) :
    ∀ i ∈ kruskalEdges d fuel rest skipped visited, i ∈ d.edgeWeightTree := by
  induction fuel generalizing rest skipped visited with
  | zero => exact fun i hi => by simp [kruskalEdges] at hi
  | succ fuel ih =>
      cases rest with
      | nil => exact fun i hi => by simp [kruskalEdges] at hi
      | cons i rest =>
          have htail : ∀ j ∈ rest, j ∈ d.edgeWeightTree :=
            fun j hj => hrest j (List.mem_cons_of_mem i hj)
          rw [kruskalEdges]
          split
          · exact ih htail
          · intro j hj
            rcases List.mem_cons.mp hj with rfl | hj
            · exact hrest j List.mem_cons_self
            · refine ih ?_ j hj
              split
              · exact fun _ hmem => hmem
              · exact htail

lemma mem_treeEdges (h : i ∈ treeEdges d) : i ∈ d.edgeWeightTree :=
  kruskalEdges_subset (fun _ hmem => hmem) i h

/-- When all edges have their reverse, the links of the edges are what the tree grows by. -/
lemma kruskalEdges_map (hall : ∀ i ∈ d.edgeWeightTree, (d.edge i).reverse ≠ none)
    (hrest : ∀ i ∈ rest, (d.edge i).reverse ≠ none) :
    (kruskalEdges d fuel rest skipped visited).map (link d) =
      grow (allLinks d) fuel (rest.map (link d)) skipped visited := by
  induction fuel generalizing rest skipped visited with
  | zero => rfl
  | succ fuel ih =>
      cases rest with
      | nil => rfl
      | cons i rest =>
          have htail : ∀ j ∈ rest, (d.edge j).reverse ≠ none :=
            fun j hj => hrest j (List.mem_cons_of_mem i hj)
          rw [kruskalEdges, List.map_cons, grow]
          by_cases heq : visited (d.edge i).fromNode = visited (d.edge i).toNode
          · rw [if_pos (.inr heq), if_pos (show visited (link d i).1 = visited (link d i).2 from heq)]
            exact ih htail
          · have hnot : ¬ ((d.edge i).reverse = none ∨
                visited (d.edge i).fromNode = visited (d.edge i).toNode) := by
              rintro (hnone | heq')
              · exact hrest i List.mem_cons_self hnone
              · exact heq heq'
            rw [if_neg hnot, if_neg (show ¬ visited (link d i).1 = visited (link d i).2 from heq),
              List.map_cons]
            cases skipped with
            | true => exact congrArg _ (ih hall)
            | false => exact congrArg _ (ih htail)

/-- A connection is marked if an edge that was added, or its reverse, stands for it. -/
lemma foldl_addEdge_mst (edges : List EdgeId) (m : Marks) :
    (edges.foldl (fun m i => m.addEdge d (d.edge i)) m).mst c = true ↔
      m.mst c = true ∨ ∃ i ∈ edges, (d.edge i).connection = some c ∨
        ((d.edge i).reverse.bind fun r => (d.edge r).connection) = some c := by
  have hadd : ∀ (m : Marks) (x : Option ConnId), (m.addConnection x).mst c = true ↔
      m.mst c = true ∨ x = some c := by
    intro m x
    cases x with
    | none => simp [Marks.addConnection]
    | some x =>
        by_cases hx : x = c
        · simp [Marks.addConnection, hx]
        · simp [Marks.addConnection, hx, Ne.symm hx]
  induction edges generalizing m with
  | nil => simp
  | cons i edges ih =>
      have hone : (m.addEdge d (d.edge i)).mst c = true ↔ m.mst c = true ∨
          ((d.edge i).connection = some c ∨
            ((d.edge i).reverse.bind fun r => (d.edge r).connection) = some c) := by
        unfold Marks.addEdge
        rw [hadd, hadd, or_assoc]
      rw [List.foldl_cons]
      refine (ih _).trans ?_
      rw [hone, or_assoc]
      simp only [List.mem_cons, exists_eq_or_imp]

/-- After `graph` a connection is marked if an edge of the tree, or its reverse, stands for it. -/
lemma graph_mst_iff (hc : c ∈ d.connectionList) : (graph d).mst c = true ↔
    ∃ i ∈ treeEdges d, (d.edge i).connection = some c ∨
      ((d.edge i).reverse.bind fun r => (d.edge r).connection) = some c := by
  have hstart : (kruskalStart d (checkReachability d (ssspBfs d d.node))).mst c = false := by
    unfold kruskalStart
    cases d.edgeWeightTree.find? _ <;> simp [hc]
  have hgraph : (graph d).mst c = ((treeEdges d).foldl (fun m i => m.addEdge d (d.edge i))
      (kruskalStart d (checkReachability d (ssspBfs d d.node)))).mst c :=
    congrArg (fun m : Marks => m.mst c) (kruskalLoop_eq _)
  rw [hgraph, foldl_addEdge_mst, hstart]
  simp

/-! ## The tree of a daemon in a mesh -/

/-- The edges of the daemon are plain, and form one component, whose nodes are `names`. -/
structure Meshed (d : Daemon) (names : Finset Name) : Prop extends EdgeIndex d where
  plain : PlainGraph d
  rounds : EnoughRounds d
  ends : ∀ n, ∀ i ∈ d.edgeTree n, n ∈ names ∧ (d.edge i).toNode ∈ names
  connected : ∀ n ∈ names, Relation.ReflTransGen (Adjacent d) d.myself n

namespace Meshed

variable {names : Finset Name}

lemma known (h : Meshed d names) (hn : n ∈ names) : n ∈ d.nodeTree :=
  (graph_reachable h.toEdgeIndex h.plain h.rounds (h.connected n hn)).1

lemma reachable (h : Meshed d names) (hn : n ∈ names) : ((graph d).node n).reachable = true :=
  (graph_reachable h.toEdgeIndex h.plain h.rounds (h.connected n hn)).2

lemma mem_tree (h : Meshed d names) (hi : i ∈ d.edgeWeightTree) :
    i ∈ d.edgeTree (d.edge i).fromNode := (h.shelved.both i).mp hi

lemma mem_weight (h : Meshed d names) (hi : i ∈ d.edgeTree n) : i ∈ d.edgeWeightTree := by
  refine (h.shelved.both i).mpr ?_
  rw [h.shelved.start n i hi]
  exact hi

lemma mem_ends (h : Meshed d names) : ∀ l ∈ allLinks d, l.1 ∈ names ∧ l.2 ∈ names := by
  intro l hl
  obtain ⟨i, hi, rfl⟩ := List.mem_map.mp hl
  exact h.ends _ i (h.mem_tree hi)

lemma card_le (h : Meshed d names) : names.card ≤ d.nodeTree.length := by
  refine (Finset.card_le_card fun n hn => ?_).trans (List.toFinset_card_le d.nodeTree)
  exact List.mem_toFinset.mpr (h.known hn)

/-- The loop begins at the start of the first edge. -/
lemma kruskalStart_visited (h : Meshed d names) (hn : n ∈ names) :
    (kruskalStart d (checkReachability d (ssspBfs d d.node))).visited n =
      first (allLinks d) n := by
  have hk : d.known n = true := by simpa [Daemon.known] using h.known hn
  have hreach : ∀ i ∈ d.edgeWeightTree, (checkReachability d (ssspBfs d d.node)
      (d.edge i).fromNode).reachable = true :=
    fun i hi => h.reachable (h.ends _ i (h.mem_tree hi)).1
  unfold kruskalStart first allLinks
  cases hw : d.edgeWeightTree with
  | nil => simp [hk]
  | cons i rest =>
      rw [hw] at hreach
      have hfirst := hreach i List.mem_cons_self
      simp only [List.find?_cons, hfirst, Option.elim_some, List.map_cons, List.head?_cons,
        Option.map_some, Option.some.injEq, update_apply, hk, if_true]
      by_cases he : n = (d.edge i).fromNode
      · simp [he, link]
      · simp [he, Ne.symm he, link]

/-- Any number of rounds is enough that suffices for the nodes of the mesh. -/
lemma treeLinks_eq (h : Meshed d names) {fuel : ℕ}
    (hf : roundsLeft names (allLinks d) (allLinks d) (first (allLinks d)) < fuel) :
    treeLinks d = grow (allLinks d) fuel (allLinks d) false (first (allLinks d)) := by
  have hreverse : ∀ i ∈ d.edgeWeightTree, (d.edge i).reverse ≠ none :=
    fun i hi => h.plain.reverse _ i (h.mem_tree hi)
  have hmap : treeLinks d = grow (allLinks d) d.config.rounds (allLinks d) false
      (kruskalStart d (checkReachability d (ssspBfs d d.node))).visited :=
    kruskalEdges_map hreverse hreverse
  rw [hmap, grow_congr (s := names) h.mem_ends h.mem_ends fun n hn => h.kruskalStart_visited hn]
  refine grow_fuel h.mem_ends h.mem_ends (lt_of_le_of_lt (roundsLeft_le _ _ _ _) ?_) hf
  have hlen : (allLinks d).length = d.edgeWeightTree.length := List.length_map _
  have hmul : names.card * (d.edgeWeightTree.length + 1) ≤
      d.nodeTree.length * (d.edgeWeightTree.length + 1) := Nat.mul_le_mul_right _ h.card_le
  have hrounds := h.rounds
  unfold EnoughRounds at hrounds
  rw [Nat.succ_mul, Nat.mul_assoc, Nat.two_mul] at hrounds
  rw [hlen]
  omega

/-! ### It spans the mesh -/

/-- The tree is built on the links. -/
lemma mem_allLinks (h : Meshed d names) : Adjacent d n n' ↔ (n, n') ∈ allLinks d := by
  constructor
  · rintro ⟨i, hi, rfl⟩
    refine List.mem_map.mpr ⟨i, h.mem_weight hi, ?_⟩
    rw [link, h.shelved.start n i hi]
  · intro hmem
    obtain ⟨i, hi, heq⟩ := List.mem_map.mp hmem
    obtain ⟨rfl, rfl⟩ := Prod.mk.inj heq
    exact ⟨i, h.mem_tree hi, rfl⟩

/-- Two nodes of the mesh are connected by links. -/
lemma linked (h : Meshed d names) :
    ∀ n ∈ names, ∀ n' ∈ names, Relation.ReflTransGen (Linked (allLinks d)) n n' := by
  have hlift : ∀ n ∈ names, Relation.ReflTransGen (Linked (allLinks d)) d.myself n :=
    fun n hn => Relation.ReflTransGen.mono
      (fun _ _ hadj => Or.inl (h.mem_allLinks.mp hadj)) _ _ (h.connected n hn)
  have hsymm : Std.Symm (Linked (allLinks d)) := ⟨fun _ _ hl => hl.symm⟩
  intro n hn n' hn'
  exact (Relation.ReflTransGen.stdSymm.symm _ _ (hlift n hn)).trans (hlift n' hn')

/-- The tree contains all nodes, and it can be hung up at any of them. -/
theorem canRoot (h : Meshed d names) : ∀ o ∈ names, CanRoot (treeLinks d) names o := by
  rw [h.treeLinks_eq (Nat.lt_succ_self _)]
  exact grow_spans h.mem_ends h.linked (Nat.lt_succ_self _)

/-! ### The marks -/

/-- Edges between the same nodes are one edge. -/
lemma link_inj (h : Meshed d names) (he : e ∈ d.edgeWeightTree) (hi : i ∈ d.edgeWeightTree)
    (heq : link d e = link d i) : e = i := by
  obtain ⟨hfrom, hto⟩ := Prod.mk.inj heq
  have hmem := h.mem_tree he
  rw [hfrom] at hmem
  have h1 := h.shelved.findEdge_eq_some.mpr ⟨hmem, hto⟩
  have h2 := h.shelved.findEdge_eq_some.mpr ⟨h.mem_tree hi, rfl⟩
  exact Option.some.inj (h1.symm.trans h2)

/-- An edge is in the tree if and only if its link is. -/
lemma mem_treeLinks (h : Meshed d names) (he : e ∈ d.edgeWeightTree) :
    link d e ∈ treeLinks d ↔ e ∈ treeEdges d := by
  constructor
  · intro hmem
    obtain ⟨i, hi, heq⟩ := List.mem_map.mp hmem
    rw [← h.link_inj (mem_treeEdges hi) he heq]
    exact hi
  · exact fun hmem => List.mem_map.mpr ⟨e, hmem, rfl⟩

end Meshed

/-- Only edges that start at `myself` stand for connections. -/
def OwnConnections (d : Daemon) : Prop :=
  ∀ i ∈ d.edgeWeightTree, (d.edge i).fromNode ≠ d.myself → (d.edge i).connection = none

instance OwnConnections.decidable (d : Daemon) : Decidable (OwnConnections d) :=
  inferInstanceAs (Decidable (∀ i ∈ _, _ → _))

/-- The edge of a connection is the only one that stands for it. -/
lemma ConnIndex.connection_iff (h : ConnIndex d) (hown : OwnConnections d)
    (hc : c ∈ d.connectionList) (he : (d.conn c).edge = some e)
    (hi : i ∈ d.edgeWeightTree) : (d.edge i).connection = some c ↔ i = e := by
  constructor
  · intro hconn
    have hself : (d.edge i).fromNode = d.myself := by
      by_contra hne
      rw [hown i hi hne] at hconn
      cases hconn
    have hmem := (h.shelved.both i).mp hi
    rw [hself] at hmem
    obtain ⟨c', hc', he'⟩ := h.own i hmem
    obtain ⟨-, hconn', -⟩ := h.connEdge c' hc' i he'
    obtain rfl : c' = c := Option.some.inj (hconn'.symm.trans hconn)
    exact Option.some.inj (he'.symm.trans he)
  · rintro rfl
    exact (h.connEdge c hc i he).2.1

/-- A connection is marked if and only if the link to its node is in the tree. -/
theorem Meshed.mst_iff {names : Finset Name} (h : Meshed d names) (hindex : ConnIndex d)
    (hown : OwnConnections d) (hc : c ∈ d.connectionList) (he : (d.conn c).edge = some e) :
    (graph d).mst c = true ↔ Linked (treeLinks d) d.myself (d.edge e).toNode := by
  obtain ⟨hmem, -, -⟩ := hindex.connEdge c hc e he
  have hfrom : (d.edge e).fromNode = d.myself := h.shelved.start _ e hmem
  obtain ⟨r, hr⟩ := Option.ne_none_iff_exists'.mp (h.plain.reverse _ e hmem)
  have hrmem : r ∈ d.edgeTree (d.edge e).toNode ∧ (d.edge r).toNode = d.myself := by
    rw [h.reversed _ e hmem, h.shelved.findEdge_eq_some] at hr
    exact hr
  have hlink : link d e = (d.myself, (d.edge e).toNode) := by rw [link, hfrom]
  have hlink' : link d r = ((d.edge e).toNode, d.myself) := by
    rw [link, h.shelved.start _ r hrmem.1, hrmem.2]
  -- the edge is the only one that stands for the connection, and the reverse of its reverse
  have hconn : ∀ i ∈ treeEdges d, ((d.edge i).connection = some c ↔ i = e) :=
    fun i hi => hindex.connection_iff hown hc he (mem_treeEdges hi)
  have hback : ∀ i ∈ treeEdges d,
      (((d.edge i).reverse.bind fun r => (d.edge r).connection) = some c ↔ i = r) := by
    intro i hi
    have htree := h.mem_tree (mem_treeEdges hi)
    obtain ⟨r', hr'⟩ := Option.ne_none_iff_exists'.mp (h.plain.reverse _ i htree)
    have hsymm := h.shelved.reverse_symm h.reversed htree hr'
    have hrmem : r' ∈ d.edgeWeightTree := by
      rw [h.reversed _ i htree, h.shelved.findEdge_eq_some] at hr'
      exact h.mem_weight hr'.1
    rw [hr', Option.bind_some, hindex.connection_iff hown hc he hrmem]
    constructor
    · rintro rfl
      exact Option.some.inj (hsymm.symm.trans hr)
    · rintro rfl
      have hsymm' := h.shelved.reverse_symm h.reversed hmem hr
      exact Option.some.inj (hr'.symm.trans hsymm')
  rw [graph_mst_iff hc]
  unfold Linked
  rw [← hlink, ← hlink', h.mem_treeLinks (h.mem_weight hmem), h.mem_treeLinks (h.mem_weight hrmem.1)]
  constructor
  · rintro ⟨i, hi, hi' | hi'⟩
    · exact .inl ((hconn i hi).mp hi' ▸ hi)
    · exact .inr ((hback i hi).mp hi' ▸ hi)
  · rintro (hi | hi)
    · exact ⟨e, hi, .inl ((hconn e hi).mpr rfl)⟩
    · exact ⟨r, hi, .inr ((hback r hi).mpr rfl)⟩

end Tinc
