import TincQuic.Daemon.State

/-!
# `graph.c`: reachability and the spanning tree

`graph` computes, from the edges, which nodes can be reached and over which hop, and which
connections belong to the minimum spanning tree.

* `ssspBfs` is the search from `myself`, `checkReachability` turns its marks into the status of
  the nodes, and `mstKruskal` picks the edges of the tree.
* Two loops have no bound in their text, the one over the list of nodes still to examine and the
  one that starts over at the head of `edge_weight_tree`.  Here they stop after
  `config.rounds` rounds; nothing in this development depends on that number.
* **Only the nodes' status and the `mst` flags change**: `graph_eq`.
-/

namespace Tinc

open CText

/-- `OPTION_INDIRECT` -/
def optionIndirect : UInt32 := 0x0001

variable (d : Daemon)

/-! ## `sssp_bfs` -/

/-- The status of the nodes when `sssp_bfs` begins. -/
def bfsStart (node : Name → Node) : Name → Node :=
  let cleared := fun n =>
    if d.known n then { node n with visited := false, indirect := true, distance := -1 }
    else node n
  Function.update cleared d.myself
    { cleared d.myself with
      visited := true, indirect := false, nexthop := some d.myself, prevedge := none,
      via := some d.myself, distance := 0 }

/-- Whether edge `e` of node `n` is no better than what is known of `e->to`. -/
def noBetter (node : Name → Node) (n : Name) (e : Edge) : Bool :=
  let dst := node e.toNode
  let indirect := (node n).indirect || e.options &&& optionIndirect ≠ 0
  dst.visited && (!dst.indirect || indirect) &&
    (dst.distance ≠ (node n).distance + 1 ||
      dst.prevedge.all (fun p => (d.edge p).weight ≤ e.weight))

/-- The body of the loop over the edges of `n`; `todo` collects the nodes that are put at the tail
of the list. -/
def examineEdge (n : Name) (s : (Name → Node) × List Name) (i : EdgeId) :
    (Name → Node) × List Name :=
  let (node, todo) := s
  let e := d.edge i
  if e.reverse = none ∨ e.toNode = d.myself ∨ noBetter d node n e then s
  else
    let dst := node e.toNode
    let indirect := (node n).indirect || e.options &&& optionIndirect ≠ 0
    -- only update nexthop if it doesn't increase the path length
    let nexthop :=
      if !dst.visited ∨ (dst.distance = (node n).distance + 1 ∧
          dst.prevedge.all (fun p => (d.edge p).weight ≤ e.weight)) then
        (if (node n).nexthop = some d.myself then some e.toNode else (node n).nexthop)
      else dst.nexthop
    let newAddress := !dst.reachable ∨ (dst.address = .unspec ∧ !e.address.isUnknown)
    (Function.update node e.toNode
      { dst with
        nexthop := nexthop
        visited := true
        indirect := indirect
        prevedge := some i
        via := if indirect then (node n).via else some e.toNode
        options := e.options
        distance := (node n).distance + 1
        address := if newAddress then e.address else dst.address }, todo ++ [e.toNode])

/-- The loop over the list of nodes to examine.  A negative distance aborts the program. -/
def bfsLoop : ℕ → List Name → (Name → Node) → (Name → Node)
  | 0, _, node => node
  | _ + 1, [], node => node
  | fuel + 1, n :: todo, node =>
      if (node n).distance < 0 then node
      else
        let (node', new) := (d.edgeTree n).foldl (examineEdge d n) (node, [])
        bfsLoop fuel (todo ++ new) node'

/-- `sssp_bfs` -/
def ssspBfs (node : Name → Node) : Name → Node :=
  bfsLoop d d.config.rounds [d.myself] (bfsStart d node)

/-! ## `check_reachability` -/

/-- The new status of one node. -/
def updateReachable (n : Node) : Node :=
  if n.visited = n.reachable then n
  else if n.reachable then
    { n with visited := false, reachable := false, indirect := false, options := 0 }
  else { n with reachable := true }

/-- `check_reachability` -/
def checkReachability (node : Name → Node) : Name → Node :=
  fun n => if d.known n then updateReachable (node n) else node n

/-! ## `mst_kruskal` -/

/-- The marks that `mst_kruskal` sets: on nodes and on connections. -/
structure Marks where
  visited : Name → Bool
  mst : ConnId → Bool

/-- Marks the connection of an edge, if it has one. -/
def Marks.addConnection (m : Marks) (c : Option ConnId) : Marks :=
  match c with
  | none => m
  | some c => { m with mst := Function.update m.mst c true }

/-- Takes edge `e` into the tree. -/
def Marks.addEdge (m : Marks) (e : Edge) : Marks :=
  { m with visited := Function.update (Function.update m.visited e.fromNode true) e.toNode true }
    |>.addConnection e.connection
    |>.addConnection (e.reverse.bind fun r => (d.edge r).connection)

/-- The loop that adds safe edges; after an edge was skipped, an addition starts over. -/
def kruskalLoop : ℕ → List EdgeId → Bool → Marks → Marks
  | 0, _, _, m => m
  | _ + 1, [], _, m => m
  | fuel + 1, i :: rest, skipped, m =>
      let e := d.edge i
      if e.reverse = none ∨ m.visited e.fromNode = m.visited e.toNode then
        kruskalLoop fuel rest true m
      else kruskalLoop fuel (if skipped then d.edgeWeightTree else rest) false (m.addEdge d e)

/-- `mst_kruskal` -/
def mstKruskal (node : Name → Node) : Marks :=
  let cleared : Marks :=
    { visited := fun n => if d.known n then false else (node n).visited
      mst := fun c => if c ∈ d.connectionList then false else d.mst c }
  let start := (d.edgeWeightTree.find? fun i => (node (d.edge i).fromNode).reachable).elim
    cleared fun i =>
      { cleared with visited := Function.update cleared.visited (d.edge i).fromNode true }
  kruskalLoop d d.config.rounds d.edgeWeightTree false start

/-! ## `graph` -/

/-- `graph` -/
def graph : Daemon :=
  let node := checkReachability d (ssspBfs d d.node)
  let m := mstKruskal d node
  { d with node := fun n => { node n with visited := m.visited n }, mst := m.mst }

/-- Only the status of the nodes and the `mst` flags of the connections change. -/
lemma graph_eq : graph d = { d with node := (graph d).node, mst := (graph d).mst } := rfl

/-! ## `myself` stays reachable -/

variable {d}

lemma examineEdges_myself (n : Name) (l : List EdgeId) (s : (Name → Node) × List Name) :
    (l.foldl (examineEdge d n) s).1 d.myself = s.1 d.myself := by
  induction l generalizing s with
  | nil => rfl
  | cons i l ih =>
      rw [List.foldl_cons, ih]
      unfold examineEdge
      dsimp only
      split
      · rfl
      · rename_i h
        have hne : d.myself ≠ (d.edge i).toNode := fun he => h (.inr (.inl he.symm))
        simp [hne]

lemma bfsLoop_myself (fuel : ℕ) (todo : List Name) (node : Name → Node) :
    bfsLoop d fuel todo node d.myself = node d.myself := by
  induction fuel generalizing todo node with
  | zero => rfl
  | succ fuel ih =>
      cases todo with
      | nil => rfl
      | cons n todo =>
          rw [bfsLoop]
          split
          · rfl
          · dsimp only
            rw [ih, examineEdges_myself]

lemma graph_myself (h : d.myself ∈ d.nodeTree) : ((graph d).node d.myself).reachable = true := by
  have hv : (ssspBfs d d.node d.myself).visited = true := by
    rw [ssspBfs, bfsLoop_myself]
    simp [bfsStart]
  have hk : d.known d.myself = true := by simpa [Daemon.known] using h
  simp only [graph, checkReachability, if_pos hk, updateReachable, hv]
  split
  · rename_i hr
    exact hr.symm
  · rename_i hr
    simp only [Bool.true_eq] at hr
    simp [hr]

end Tinc
