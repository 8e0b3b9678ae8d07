import TincQuic.Daemon.Reaching
import TincQuic.Lib.Hops

/-!
# Who is reachable

`sssp_bfs` goes from `myself` over the edges that have a reverse edge, and `check_reachability`
makes its marks the status of the nodes.

* `BothWays` says that there are edges in both directions.  `Enclosed` is what the search needs of
  the indexes, and `EdgeIndex.enclosed` says that it holds while they are consistent.
* `Relaxes` is all that an edge does that is found to be better, and `bfsExams` lists the edges that
  the search examines.  `rounds_invariant` is the rule for what holds after every round.
* `Traced` says of every visited node how it was reached.  Together with `Explored` it makes
  **reachability exact**: `reachable_iff_linked`.
-/

namespace Tinc

open Bytes CText Function Hops

variable {d : Daemon} {n m : Name} {i : EdgeId} {node node' : Name → Node} {s : Search}

/-! ## The graph -/

/-- There are edges in both directions. -/
def BothWays (d : Daemon) (n m : Name) : Prop :=
  (∃ i ∈ d.edgeTree n, (d.edge i).toNode = m) ∧ ∃ j ∈ d.edgeTree m, (d.edge j).toNode = n

/-- Edges belong to nodes, and `reverse` is set if there is an edge back. -/
structure Enclosed (d : Daemon) : Prop where
  myself : d.myself ∈ d.nodeTree
  known : ∀ n, n ∉ d.nodeTree → d.edgeTree n = []
  reverse : ∀ n, ∀ i ∈ d.edgeTree n,
    ((d.edge i).reverse ≠ none ↔ ∃ j ∈ d.edgeTree (d.edge i).toNode, (d.edge j).toNode = n)

/-- The indexes of a daemon are a graph. -/
lemma EdgeIndex.enclosed (h : EdgeIndex d) : Enclosed d := by
  refine ⟨h.myself, h.shelved.known, fun n i hi => ?_⟩
  rw [h.reversed n i hi, Option.ne_none_iff_exists']
  refine exists_congr fun j => ?_
  rw [h.shelved.findEdge_eq_some]

lemma BothWays.symm (h : BothWays d n m) : BothWays d m n := ⟨h.2, h.1⟩

lemma BothWays.known (h : BothWays d n m) (hd : Enclosed d) : m ∈ d.nodeTree := by
  by_contra hm
  obtain ⟨j, hj, -⟩ := h.2
  rw [hd.known m hm] at hj
  exact absurd hj List.not_mem_nil

lemma linked_of_reverse (hd : Enclosed d) (hi : i ∈ d.edgeTree n)
    (hr : (d.edge i).reverse ≠ none) : BothWays d n (d.edge i).toNode :=
  ⟨⟨i, hi, rfl⟩, (hd.reverse n i hi).mp hr⟩

/-- The search can go on over a link, unless it leads to `myself`. -/
lemma BothWays.usable (h : BothWays d n m) (hd : Enclosed d) (hm : m ≠ d.myself) :
    ∃ i, Usable d n i ∧ (d.edge i).toNode = m := by
  obtain ⟨⟨i, hi, rfl⟩, hback⟩ := h
  exact ⟨i, ⟨hi, (hd.reverse n i hi).mpr hback, hm⟩, rfl⟩

/-! ## The steps of the search -/

/-- All that edge `i` of node `n` does when it is found to be better. -/
structure Relaxes (d : Daemon) (node : Name → Node) (n : Name) (i : EdgeId)
    (node' : Name → Node) : Prop extends Taken d node n i node' where
  viaOf : (node' (d.edge i).toNode).via =
    if (node n).indirect || indirectEdge d i then (node n).via else some (d.edge i).toNode
  hopOf : (node' (d.edge i).toNode).nexthop =
    if (node (d.edge i).toNode).visited = false ∨
        (node (d.edge i).toNode).distance = (node n).distance + 1 ∧
          (node (d.edge i).toNode).prevedge.all
            (fun p => (d.edge p).weight ≤ (d.edge i).weight) then
      if (node n).nexthop = some d.myself then some (d.edge i).toNode else (node n).nexthop
    else (node (d.edge i).toNode).nexthop

/-- Edge `i` of `n` is passed over. -/
def Passed (d : Daemon) (node : Name → Node) (n : Name) (i : EdgeId) : Prop :=
  (d.edge i).reverse = none ∨ (d.edge i).toNode = d.myself ∨ noBetter d node n (d.edge i) = true

lemma examineEdge_relaxes (n : Name) (node : Name → Node) (new : List Name) (i : EdgeId) :
    examineEdge d n (node, new) i = (node, new) ∧ Passed d node n i ∨
    ∃ node', examineEdge d n (node, new) i = (node', new ++ [(d.edge i).toNode]) ∧
      Relaxes d node n i node' := by
  rcases examineEdge_cases (d := d) n node new i with hskip | ⟨node', he, ht⟩
  · exact .inl hskip
  · refine .inr ⟨node', he, ht, ?_, ?_⟩
    all_goals
      have hnode' : node' = (examineEdge d n (node, new) i).1 := by rw [he]
      rw [hnode']
      unfold examineEdge
      dsimp only
      rw [if_neg (by simp [ht.reverse, ht.notMyself, ht.better])]
      dsimp only
      rw [update_self]
    · rfl
    · simp

/-- The search examines edge `i` of `n` when the nodes are as `node` says. -/
structure Exam where
  node : Name → Node
  n : Name
  i : EdgeId

/-- The edges of `n`, one after the other. -/
def edgeExams (d : Daemon) (n : Name) : List EdgeId → (Name → Node) × List Name → List Exam
  | [], _ => []
  | i :: edges, t => ⟨t.1, n, i⟩ :: edgeExams d n edges (examineEdge d n t i)

/-- What is examined in one round. -/
def roundExams (d : Daemon) (s : Search) : List Exam :=
  match s.1 with
  | [] => []
  | n :: _ => edgeExams d n (d.edgeTree n) (s.2, [])

/-- What is examined in the first `k` rounds, in this order. -/
def bfsExams (d : Daemon) : ℕ → List Exam
  | 0 => []
  | k + 1 => bfsExams d k ++ roundExams d (bfsRounds d k)

/-- **The rule for what holds after every round**: `T` is what was examined so far, and `J` says
what holds while the edges of a node are examined. -/
lemma rounds_invariant {I : List Exam → Search → Prop}
    {J : Name → List EdgeId → List Exam → Search → Prop}
    (start : I [] ([d.myself], bfsStart d d.node))
    (enter : ∀ k n todo node, bfsRounds d k = (n :: todo, node) →
      I (bfsExams d k) (n :: todo, node) → J n [] (bfsExams d k) (todo, node))
    (skip : ∀ n front i T list node, i ∈ d.edgeTree n → Passed d node n i →
      J n front T (list, node) → J n (front ++ [i]) (T ++ [⟨node, n, i⟩]) (list, node))
    (take : ∀ n front i T list node node', i ∈ d.edgeTree n → Relaxes d node n i node' →
      J n front T (list, node) →
      J n (front ++ [i]) (T ++ [⟨node, n, i⟩]) (list ++ [(d.edge i).toNode], node'))
    (leave : ∀ n T list node, J n (d.edgeTree n) T (list, node) → I T (list, node)) (k : ℕ) :
    I (bfsExams d k) (bfsRounds d k) := by
  have hedges : ∀ n todo back front T node new, d.edgeTree n = front ++ back →
      J n front T (todo ++ new, node) →
      let t := back.foldl (examineEdge d n) (node, new)
      J n (d.edgeTree n) (T ++ edgeExams d n back (node, new)) (todo ++ t.2, t.1) := by
    intro n todo back
    induction back with
    | nil =>
        intro front T node new hsplit h
        rw [hsplit]
        simpa [edgeExams] using h
    | cons i back ih =>
        intro front T node new hsplit h
        have hi : i ∈ d.edgeTree n := by rw [hsplit]; simp
        have hsplit' : d.edgeTree n = front ++ [i] ++ back := by rw [hsplit]; simp
        have hexams : T ++ edgeExams d n (i :: back) (node, new) =
            T ++ [⟨node, n, i⟩] ++ edgeExams d n back (examineEdge d n (node, new) i) := by
          simp [edgeExams]
        rw [hexams, List.foldl_cons]
        rcases examineEdge_relaxes (d := d) n node new i with ⟨he, hpass⟩ | ⟨node', he, ht⟩
        · rw [he]
          exact ih _ _ node new hsplit' (skip n front i T _ node hi hpass h)
        · rw [he]
          refine ih _ _ node' _ hsplit' ?_
          rw [← List.append_assoc]
          exact take n front i T _ node node' hi ht h
  induction k with
  | zero => exact start
  | succ k ih =>
      rw [bfsRounds_succ, bfsExams]
      generalize hs : bfsRounds d k = s at ih
      obtain ⟨list, node⟩ := s
      cases list with
      | nil =>
          rw [bfsRound_nil rfl]
          simpa [roundExams] using ih
      | cons n todo =>
          refine leave n _ _ _ (hedges n todo (d.edgeTree n) [] _ node [] rfl ?_)
          rw [List.append_nil]
          exact enter k n todo node hs ih

/-! ## How the nodes were reached -/

/-- Every visited node but `myself` was reached over `prevedge`, which comes from the end of a path
that is as long as the distance says.  The nodes on the list are visited. -/
structure Traced (d : Daemon) (s : Search) : Prop where
  myself : s.2 d.myself = bfsStart d d.node d.myself
  reached : ∀ n ∈ d.nodeTree, (s.2 n).visited = true → n ≠ d.myself →
    ∃ m i k, (s.2 n).prevedge = some i ∧ i ∈ d.edgeTree m ∧ (d.edge i).toNode = n ∧
      BothWays d m n ∧ Path (BothWays d) d.myself k m ∧ (s.2 n).distance = k + 1
  listed : ∀ n ∈ s.1, n ∈ d.nodeTree ∧ (s.2 n).visited = true

namespace Traced

lemma visited_myself (h : Traced d s) : (s.2 d.myself).visited = true := by
  rw [h.myself]
  exact (bfsStart_myself d).1

/-- The distance of a visited node is the length of a path. -/
lemma path (h : Traced d s) (hn : n ∈ d.nodeTree) (hv : (s.2 n).visited = true) :
    ∃ k : ℕ, Path (BothWays d) d.myself k n ∧ (s.2 n).distance = k := by
  by_cases hm : n = d.myself
  · refine ⟨0, hm ▸ .nil, ?_⟩
    rw [hm, h.myself]
    exact (bfsStart_myself d).2.2
  · obtain ⟨m, i, k, -, -, -, hlink, hpath, hdist⟩ := h.reached n hn hv hm
    refine ⟨k + 1, hpath.tail hlink, ?_⟩
    rw [hdist]
    rfl

lemma init (hd : Enclosed d) : Traced d ([d.myself], bfsStart d d.node) := by
  refine ⟨rfl, fun n hn hv hne => ?_, fun n hn => ?_⟩
  · rw [bfsStart_of_ne hn hne] at hv
    cases hv
  · obtain rfl := List.mem_singleton.mp hn
    exact ⟨hd.myself, (bfsStart_myself d).1⟩

/-- An edge that is taken keeps it. -/
lemma relaxes {list : List Name} (h : Traced d (list, node)) (hd : Enclosed d) (hn : n ∈ d.nodeTree)
    (hv : (node n).visited = true) (hi : i ∈ d.edgeTree n) (ht : Relaxes d node n i node') :
    Traced d (list ++ [(d.edge i).toNode], node') := by
  have hlink := linked_of_reverse hd hi ht.reverse
  obtain ⟨k, hpath, hdist⟩ := h.path hn hv
  refine ⟨?_, fun x hx hvx hne => ?_, fun x hx => ?_⟩
  · exact (ht.others d.myself (Ne.symm ht.notMyself)).trans h.myself
  · dsimp only at hvx ⊢
    by_cases hto : x = (d.edge i).toNode
    · subst hto
      refine ⟨n, i, k, ht.prevedge, hi, rfl, hlink, hpath, ?_⟩
      rw [ht.distance]
      exact congrArg (· + 1) hdist
    · rw [ht.others x hto] at hvx ⊢
      exact h.reached x hx hvx hne
  · rcases List.mem_append.mp hx with hx | hx
    · exact ⟨(h.listed x hx).1, ht.visited_of (h.listed x hx).2⟩
    · obtain rfl := List.mem_singleton.mp hx
      exact ⟨hlink.known hd, ht.visited⟩

/-- **The search keeps it**, however long it takes. -/
lemma rounds (hd : Enclosed d) (k : ℕ) : Traced d (bfsRounds d k) := by
  refine rounds_invariant (I := fun _ => Traced d)
    (J := fun n _ _ s => n ∈ d.nodeTree ∧ (s.2 n).visited = true ∧ Traced d s)
    (init hd) ?_ ?_ ?_ ?_ k
  · intro _ n todo node _ h
    obtain ⟨hn, hv⟩ := h.listed n List.mem_cons_self
    exact ⟨hn, hv, h.myself, h.reached, fun x hx => h.listed x (List.mem_cons_of_mem n hx)⟩
  · intro n front i T list node _ _ h
    exact h
  · intro n front i T list node node' hi ht ⟨hn, hv, h⟩
    exact ⟨hn, ht.visited_of hv, h.relaxes hd hn hv hi ht⟩
  · intro n T list node h
    exact h.2.2

/-- `abort` is not called. -/
lemma bfsEnds (hd : Enclosed d) {k : ℕ} (hk : (bfsRounds d k).1 = []) : BfsEnds d := by
  refine ⟨⟨k, hk⟩, fun j n hn => ?_⟩
  have h := rounds hd j
  obtain ⟨hmem, hv⟩ := h.listed n (List.mem_of_mem_head? hn)
  obtain ⟨len, -, hlen⟩ := h.path hmem hv
  rw [hlen]
  exact Int.natCast_nonneg len

end Traced

/-- When the list is empty, everything that is linked with `myself` was visited. -/
lemma visited_of_path {k j : ℕ} (hd : Enclosed d) (hk : (bfsRounds d k).1 = [])
    (h : Path (BothWays d) d.myself j n) :
    n ∈ d.nodeTree ∧ ((bfsRounds d k).2 n).visited = true := by
  induction h with
  | nil => exact ⟨hd.myself, (Traced.rounds hd k).visited_myself⟩
  | @tail j m c _ hlink ih =>
      obtain ⟨hm, hv⟩ := ih
      refine ⟨hlink.known hd, ?_⟩
      rcases Explored.rounds d k m hm hv with hmem | hdone
      · rw [hk] at hmem
        exact absurd hmem List.not_mem_nil
      · by_cases hc : c = d.myself
        · rw [hc]
          exact (Traced.rounds hd k).visited_myself
        · obtain ⟨i, hu, rfl⟩ := hlink.usable hd hc
          exact hdone i hu

/-! ## After `graph` -/

/-- What `graph` leaves of the search. -/
lemma graph_search (hn : n ∈ d.nodeTree) :
    ((graph d).node n).reachable = (ssspBfs d d.node n).visited ∧
      ((graph d).node n).prevedge = (ssspBfs d d.node n).prevedge := by
  have hk : d.known n = true := by simpa [Daemon.known] using hn
  simp only [graph, checkReachability, if_pos hk, updateReachable]
  cases hv : (ssspBfs d d.node n).visited <;> cases hr : (ssspBfs d d.node n).reachable <;>
    simp [hr]

/-- The nodes that are reachable are those to which a path leads. -/
lemma reachable_iff_path {k : ℕ} (hd : Enclosed d) (hk : (bfsRounds d k).1 = [])
    (hf : k < d.config.rounds) (hn : n ∈ d.nodeTree) :
    ((graph d).node n).reachable = true ↔ Relation.ReflTransGen (BothWays d) d.myself n := by
  rw [(graph_search hn).1, ssspBfs_eq (Traced.bfsEnds hd hk) hk hf]
  constructor
  · intro hv
    obtain ⟨j, hpath, -⟩ := (Traced.rounds hd k).path hn hv
    exact hpath.reflTransGen
  · intro h
    obtain ⟨j, hpath⟩ := exists_path h
    exact (visited_of_path hd hk hpath).2

/-- **Reachability is exact**: whenever `sssp_bfs` ends, a node is reachable if and only if it is
`myself` or there is a path of edges that all have their reverse, and `prevedge` is the last edge of
such a path. -/
theorem reachable_iff_linked (d : Daemon) (hd : Enclosed d) (k : ℕ) (hk : (bfsRounds d k).1 = [])
    (hf : k < d.config.rounds) (n : Name) (hn : n ∈ d.nodeTree) :
    (((graph d).node n).reachable = true ↔
      n = d.myself ∨ Relation.TransGen (BothWays d) d.myself n) ∧
    (((graph d).node n).reachable = true → n ≠ d.myself →
      ∃ m i, ((graph d).node n).prevedge = some i ∧ i ∈ d.edgeTree m ∧ (d.edge i).toNode = n ∧
        BothWays d m n ∧ Relation.ReflTransGen (BothWays d) d.myself m) := by
  refine ⟨(reachable_iff_path hd hk hf hn).trans Relation.reflTransGen_iff_eq_or_transGen, ?_⟩
  obtain ⟨hreachable, hprevedge⟩ := graph_search hn
  rw [hreachable, hprevedge, ssspBfs_eq (Traced.bfsEnds hd hk) hk hf]
  intro hv hne
  obtain ⟨m, i, j, hprev, hi, hto, hlink, hpath, -⟩ := (Traced.rounds hd k).reached n hn hv hne
  exact ⟨m, i, hprev, hi, hto, hlink, hpath.reflTransGen⟩

/-! ## A graph of three nodes -/

/-- The graph of a table encloses its edges if they come from its nodes. -/
lemma graphOf_enclosed {nodes : List UInt8} {rows : List EdgeRow}
    (hmyself : (graphOf nodes rows).myself ∈ (graphOf nodes rows).nodeTree)
    (hfrom : ∀ i < rows.length, (rowEdge rows i).fromNode ∈ (graphOf nodes rows).nodeTree)
    (hreverse : ∀ i < rows.length, ((rowEdge rows i).reverse ≠ none ↔
      ∃ j < rows.length, (rowEdge rows j).fromNode = (rowEdge rows i).toNode ∧
        (rowEdge rows j).toNode = (rowEdge rows i).fromNode)) :
    Enclosed (graphOf nodes rows) := by
  have hmem : ∀ n i, i ∈ (graphOf nodes rows).edgeTree n ↔
      i < rows.length ∧ (rowEdge rows i).fromNode = n := by
    intro n i
    simp [graphOf]
  refine ⟨hmyself, fun n hn => ?_, fun n i hi => ?_⟩
  · refine List.eq_nil_iff_forall_not_mem.mpr fun i hi => hn ?_
    obtain ⟨hlt, rfl⟩ := (hmem n i).mp hi
    exact hfrom i hlt
  · obtain ⟨hlt, rfl⟩ := (hmem n i).mp hi
    refine (hreverse i hlt).trans (exists_congr fun j => ?_)
    rw [hmem, and_assoc]
    rfl

/-- `a` and `b` have edges to each other; `c` has one to `b` only. -/
def oneWay : Daemon := graphOf [0, 1, 2] [(0, 1, 5, false), (1, 0, 5, true), (2, 1, 1, false)]

/-- `b` is reachable and `c` is not. -/
theorem reachable_iff_linked_one_way :
    (((graph oneWay).node [98]).reachable = true ↔
      [98] = oneWay.myself ∨ Relation.TransGen (BothWays oneWay) oneWay.myself [98]) ∧
    (((graph oneWay).node [99]).reachable = true ↔
      [99] = oneWay.myself ∨ Relation.TransGen (BothWays oneWay) oneWay.myself [99]) ∧
    ((graph oneWay).node [98]).reachable = true ∧ ((graph oneWay).node [99]).reachable = false := by
  have hd : Enclosed oneWay := graphOf_enclosed (by decide) (by decide) (by decide)
  have hk : (bfsRounds oneWay 2).1 = [] := by decide +kernel
  have hf : 2 < oneWay.config.rounds := by decide
  exact ⟨(reachable_iff_linked oneWay hd 2 hk hf [98] (by decide)).1,
    (reachable_iff_linked oneWay hd 2 hk hf [99] (by decide)).1, by decide +kernel,
    by decide +kernel⟩

end Tinc
