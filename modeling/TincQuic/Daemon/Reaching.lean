import TincQuic.Daemon.EdgeIndex
import TincQuic.Daemon.ShortestPaths

/-!
# What `sssp_bfs` finds without INDIRECT edges

When every edge has its reverse and none is INDIRECT, the search visits everything that is connected
with `myself`, and it goes to a neighbour directly.

* `Explored` is the invariant of completeness: a visited node is still on the list, or all edges
  that leave it lead to visited nodes.
* `Beside` says of a node that it was reached from `myself` in one step.  **Later rounds do not
  change such a node**, since they start at distances of one or more: `beside_rounds`.
* **With enough rounds, after `graph` all connected nodes are reachable and the next hop to a
  neighbour is the neighbour**: `graph_reachable`, `graph_nexthop`.
-/

namespace Tinc

open Bytes CText Function

variable {d : Daemon} {n m : Name} {i : EdgeId} {node node' : Name → Node} {s : Search}

/-- Every edge has its reverse and none is INDIRECT. -/
structure PlainGraph (d : Daemon) : Prop where
  reverse : ∀ n, ∀ i ∈ d.edgeTree n, (d.edge i).reverse ≠ none
  direct : ∀ n, ∀ i ∈ d.edgeTree n, indirectEdge d i = false

/-- The indexes are consistent, so that the search is over a graph. -/
lemma EdgeIndex.wellFormed (h : EdgeIndex d) (hp : PlainGraph d) : WellFormed d := by
  have hreverse : ∀ n, ∀ i ∈ d.edgeTree n, ∀ r ∈ (d.edge i).reverse,
      r ∈ d.edgeTree (d.edge i).toNode ∧ (d.edge r).toNode = n := by
    intro n i hi r hr
    rw [Option.mem_def, h.reversed n i hi, h.shelved.findEdge_eq_some] at hr
    exact hr
  refine ⟨h.myself, ?_, ?_, ?_, ?_⟩
  · exact fun n _ i hi => h.shelved.start n i hi
  · intro n _ i hi
    refine ⟨?_, h.shelved.proper n i hi⟩
    obtain ⟨r, hr⟩ := Option.ne_none_iff_exists'.mp (hp.reverse n i hi)
    by_contra hnot
    have hmem := (hreverse n i hi r hr).1
    rw [h.shelved.known _ hnot] at hmem
    exact absurd hmem List.not_mem_nil
  · intro n _
    exact (h.shelved.sorted n).imp fun hlt => strcmp_neg.mpr hlt
  · intro n _ i hi r hr
    obtain ⟨hmem, hto⟩ := hreverse n i hi r hr
    exact ⟨hmem, hto, h.shelved.reverse_symm h.reversed hi hr⟩

/-! ## Visited nodes stay visited -/

lemma visited_of_noBetter (h : noBetter d node n (d.edge i) = true) :
    (node (d.edge i).toNode).visited = true := by
  unfold noBetter at h
  simp only [Bool.and_eq_true] at h
  exact h.1.1

lemma Taken.visited_of (ht : Taken d node n i node') (hv : (node m).visited = true) :
    (node' m).visited = true := by
  by_cases hto : m = (d.edge i).toNode
  · rw [hto]
    exact ht.visited
  · rw [ht.others m hto]
    exact hv

/-- What the loop over the edges of `n` does: visited nodes stay visited, the new ones are put on the
list, and the edges that were examined lead to visited nodes. -/
structure Examined (d : Daemon) (n : Name) (edges : List EdgeId) (t t' : (Name → Node) × List Name) :
    Prop where
  kept : ∀ m, (t.1 m).visited = true → (t'.1 m).visited = true
  sub : ∀ m ∈ t.2, m ∈ t'.2
  fresh : ∀ m, (t'.1 m).visited = true → (t.1 m).visited = true ∨ m ∈ t'.2
  listed : ∀ m ∈ t'.2, m ∈ t.2 ∨ m ≠ d.myself
  targets : ∀ i ∈ edges, Usable d n i → (t'.1 (d.edge i).toNode).visited = true

lemma examined_edge (n : Name) (t : (Name → Node) × List Name) (i : EdgeId) :
    Examined d n [i] t (examineEdge d n t i) := by
  obtain ⟨node, new⟩ := t
  rcases examineEdge_cases (d := d) n node new i with ⟨he, hskip⟩ | ⟨node', he, ht⟩
  · rw [he]
    refine ⟨fun m hm => hm, fun m hm => hm, fun m hm => .inl hm, fun m hm => .inl hm, ?_⟩
    intro j hj hu
    obtain rfl := List.mem_singleton.mp hj
    rcases hskip with hnone | hself | hworse
    · exact absurd hnone hu.reverse
    · exact absurd hself hu.notMyself
    · exact visited_of_noBetter hworse
  · rw [he]
    refine ⟨fun m hm => ht.visited_of hm, fun m hm => List.mem_append_left _ hm, ?_, ?_, ?_⟩
    · intro m hm
      by_cases hto : m = (d.edge i).toNode
      · right
        rw [hto]
        exact List.mem_append_right _ (List.mem_singleton_self _)
      · left
        dsimp only at hm ⊢
        rw [ht.others m hto] at hm
        exact hm
    · intro m hm
      rcases List.mem_append.mp hm with hm | hm
      · exact .inl hm
      · right
        rw [List.mem_singleton.mp hm]
        exact ht.notMyself
    · intro j hj _
      obtain rfl := List.mem_singleton.mp hj
      exact ht.visited

lemma examined_foldl (n : Name) (edges : List EdgeId) (t : (Name → Node) × List Name) :
    Examined d n edges t (edges.foldl (examineEdge d n) t) := by
  induction edges generalizing t with
  | nil =>
      exact ⟨fun m hm => hm, fun m hm => hm, fun m hm => .inl hm, fun m hm => .inl hm,
        fun i hi => by simp at hi⟩
  | cons i edges ih =>
      have hone := examined_edge (d := d) n t i
      have hrest := ih (examineEdge d n t i)
      refine ⟨fun m hm => hrest.kept m (hone.kept m hm), fun m hm => hrest.sub m (hone.sub m hm),
        ?_, ?_, ?_⟩
      · intro m hm
        rcases hrest.fresh m hm with hm | hm
        · exact (hone.fresh m hm).imp id (hrest.sub m)
        · exact .inr hm
      · intro m hm
        exact (hrest.listed m hm).elim (hone.listed m) .inr
      · intro j hj hu
        rcases List.mem_cons.mp hj with rfl | hj
        · exact hrest.kept _ (hone.targets j (List.mem_singleton_self j) hu)
        · exact hrest.targets j hj hu

/-! ## Completeness -/

/-- A visited node is still to be examined, or the edges that leave it lead to visited nodes. -/
def Explored (d : Daemon) (s : Search) : Prop :=
  ∀ n ∈ d.nodeTree, (s.2 n).visited = true →
    n ∈ s.1 ∨ ∀ i, Usable d n i → (s.2 (d.edge i).toNode).visited = true

lemma Explored.round (h : Explored d s) : Explored d (bfsRound d s) := by
  obtain ⟨list, node⟩ := s
  cases list with
  | nil => exact h
  | cons k todo =>
      have hx := examined_foldl (d := d) k (d.edgeTree k) (node, [])
      intro n hn hv
      change n ∈ todo ++ _ ∨ _
      rcases hx.fresh n hv with hold | hnew
      · rcases h n hn hold with hmem | hdone
        · rcases List.mem_cons.mp hmem with rfl | hmem
          · exact .inr fun i hu => hx.targets i hu.mem hu
          · exact .inl (List.mem_append_left _ hmem)
        · exact .inr fun i hu => hx.kept _ (hdone i hu)
      · exact .inl (List.mem_append_right _ hnew)

lemma Explored.rounds (d : Daemon) (k : ℕ) : Explored d (bfsRounds d k) := by
  induction k with
  | zero =>
      intro n hn hv
      by_cases hne : n = d.myself
      · left
        rw [hne]
        exact List.mem_singleton_self _
      · have hnot := bfsStart_of_ne hn hne
        change (bfsStart d d.node n).visited = true at hv
        rw [hnot] at hv
        cases hv
  | succ k ih =>
      rw [bfsRounds_succ]
      exact ih.round

/-- An edge leads from one node to the other. -/
def Adjacent (d : Daemon) (n m : Name) : Prop := ∃ i ∈ d.edgeTree n, (d.edge i).toNode = m

/-- When the list is empty, everything that is connected with `myself` was visited. -/
lemma visited_of_connected {k : ℕ} (hw : WellFormed d) (hp : PlainGraph d)
    (hk : (bfsRounds d k).1 = []) (h : Honest d (bfsRounds d k))
    (hn : Relation.ReflTransGen (Adjacent d) d.myself n) :
    n ∈ d.nodeTree ∧ ((bfsRounds d k).2 n).visited = true := by
  induction hn with
  | refl => exact ⟨hw.myself, h.myself.1⟩
  | tail _ hedge ih =>
      obtain ⟨hn, hv⟩ := ih
      obtain ⟨i, hi, rfl⟩ := hedge
      refine ⟨(hw.toNode _ hn i hi).1, ?_⟩
      rcases Explored.rounds d k _ hn hv with hmem | hdone
      · rw [hk] at hmem
        exact absurd hmem List.not_mem_nil
      · by_cases hself : (d.edge i).toNode = d.myself
        · rw [hself]
          exact h.myself.1
        · exact hdone i ⟨hi, hp.reverse _ i hi, hself⟩

/-! ## Neighbours -/

/-- The node was reached from `myself` in one step. -/
structure Beside (d : Daemon) (node : Name → Node) (n : Name) : Prop where
  visited : (node n).visited = true
  indirect : (node n).indirect = false
  distance : (node n).distance = 1
  nexthop : (node n).nexthop = some n

lemma Beside.congr (h : Beside d node n) (he : node' n = node n) : Beside d node' n := by
  refine ⟨?_, ?_, ?_, ?_⟩
  · rw [he]
    exact h.visited
  · rw [he]
    exact h.indirect
  · rw [he]
    exact h.distance
  · rw [he]
    exact h.nexthop

/-- A longer way to a neighbour is no better. -/
lemma Beside.noBetter (h : Beside d node (d.edge i).toNode) (hfar : (node n).distance ≠ 0) :
    noBetter d node n (d.edge i) = true := by
  have hne : (1 : ℤ) ≠ (node n).distance + 1 := by omega
  unfold Tinc.noBetter
  simp [h.visited, h.indirect, h.distance, hne]

/-- The edges of other nodes do not change a neighbour. -/
lemma Beside.foldl (edges : List EdgeId) (t : (Name → Node) × List Name) (h : Beside d t.1 m)
    (hfar : (t.1 n).distance ≠ 0) (hto : ∀ i ∈ edges, (d.edge i).toNode ≠ n) :
    Beside d (edges.foldl (examineEdge d n) t).1 m := by
  induction edges generalizing t with
  | nil => exact h
  | cons i edges ih =>
      have hrest : ∀ j ∈ edges, (d.edge j).toNode ≠ n :=
        fun j hj => hto j (List.mem_cons_of_mem i hj)
      obtain ⟨node, new⟩ := t
      rw [List.foldl_cons]
      rcases examineEdge_cases (d := d) n node new i with ⟨he, -⟩ | ⟨node', he, ht⟩
      · rw [he]
        exact ih _ h hfar hrest
      · rw [he]
        have hne : m ≠ (d.edge i).toNode := by
          rintro rfl
          have hbetter := ht.better
          rw [h.noBetter hfar] at hbetter
          cases hbetter
        refine ih _ (h.congr (ht.others m hne)) ?_ hrest
        dsimp only
        rw [ht.others n (hto i List.mem_cons_self).symm]
        exact hfar

/-- Edges that lead elsewhere do not change a node. -/
lemma examineEdges_others (edges : List EdgeId) (t : (Name → Node) × List Name)
    (hto : ∀ i ∈ edges, (d.edge i).toNode ≠ m) :
    (edges.foldl (examineEdge d n) t).1 m = t.1 m := by
  induction edges generalizing t with
  | nil => rfl
  | cons i edges ih =>
      rw [List.foldl_cons, ih _ fun j hj => hto j (List.mem_cons_of_mem i hj)]
      obtain ⟨node, new⟩ := t
      rcases examineEdge_cases (d := d) n node new i with ⟨he, -⟩ | ⟨node', he, ht⟩
      · rw [he]
      · rw [he]
        exact ht.others m (hto i List.mem_cons_self).symm

/-- What is known of `myself` when the search begins. -/
structure AtHome (d : Daemon) (node : Name → Node) : Prop where
  indirect : (node d.myself).indirect = false
  distance : (node d.myself).distance = 0
  nexthop : (node d.myself).nexthop = some d.myself

/-- The first round reaches the neighbours. -/
lemma beside_first (edges : List EdgeId) (t : (Name → Node) × List Name) (h : AtHome d t.1)
    (hu : ∀ i ∈ edges, Usable d d.myself i ∧ indirectEdge d i = false)
    (hnew : ∀ i ∈ edges, (t.1 (d.edge i).toNode).visited = false)
    (hsorted : edges.Pairwise fun i j => strcmp (d.edge i).toNode (d.edge j).toNode < 0) :
    ∀ i ∈ edges, Beside d (edges.foldl (examineEdge d d.myself) t).1 (d.edge i).toNode := by
  induction edges generalizing t with
  | nil => exact fun i hi => by simp at hi
  | cons i edges ih =>
      obtain ⟨hlt, hsorted⟩ := List.pairwise_cons.mp hsorted
      have hne : ∀ j ∈ edges, (d.edge j).toNode ≠ (d.edge i).toNode := by
        intro j hj he
        have hlt' := hlt j hj
        rw [he, strcmp_eq_zero.mpr rfl] at hlt'
        omega
      obtain ⟨node, new⟩ := t
      obtain ⟨husable, hdirect⟩ := hu i List.mem_cons_self
      have hnewi : (node (d.edge i).toNode).visited = false := hnew i List.mem_cons_self
      rw [List.foldl_cons]
      rcases examineEdge_cases (d := d) d.myself node new i with ⟨-, hskip⟩ | ⟨node', he, ht⟩
      · rcases hskip with hnone | hself | hworse
        · exact absurd hnone husable.reverse
        · exact absurd hself husable.notMyself
        · have hvisited := visited_of_noBetter hworse
          rw [hnewi] at hvisited
          cases hvisited
      · rw [he]
        have hmyself : node' d.myself = node d.myself := ht.others _ ht.notMyself.symm
        have hbeside : Beside d node' (d.edge i).toNode := by
          refine ⟨ht.visited, ?_, ?_, ht.nexthop hnewi h.nexthop⟩
          · rw [ht.indirect, h.indirect, hdirect]
            rfl
          · rw [ht.distance, h.distance]
            rfl
        intro j hj
        rcases List.mem_cons.mp hj with rfl | hj
        · exact hbeside.congr (examineEdges_others edges _ hne)
        · refine ih _ ?_ (fun j hj => hu j (List.mem_cons_of_mem i hj)) ?_ hsorted j hj
          · refine ⟨?_, ?_, ?_⟩ <;> dsimp only <;> rw [hmyself]
            · exact h.indirect
            · exact h.distance
            · exact h.nexthop
          · intro j hj
            dsimp only
            rw [ht.others _ (hne j hj)]
            exact hnew j (List.mem_cons_of_mem i hj)

lemma bfsStart_atHome (d : Daemon) : AtHome d (bfsStart d d.node) := by
  refine ⟨(bfsStart_myself d).2.1, (bfsStart_myself d).2.2, ?_⟩
  simp [bfsStart]

/-- After the first round, `myself` is not examined again and the neighbours stay as they are. -/
lemma beside_rounds (hw : WellFormed d) (hp : PlainGraph d) (k : ℕ) :
    d.myself ∉ (bfsRounds d (k + 1)).1 ∧
      ∀ i ∈ d.edgeTree d.myself, Beside d (bfsRounds d (k + 1)).2 (d.edge i).toNode := by
  have hself : ∀ i ∈ d.edgeTree d.myself, (d.edge i).toNode ≠ d.myself :=
    fun i hi => (hw.toNode _ hw.myself i hi).2
  induction k with
  | zero =>
      have hx := examined_foldl (d := d) d.myself (d.edgeTree d.myself) (bfsStart d d.node, [])
      refine ⟨?_, ?_⟩
      · intro hmem
        have hlisted := hx.listed d.myself (by simpa [bfsRounds, bfsRound] using hmem)
        simp at hlisted
      · refine beside_first (d.edgeTree d.myself) (bfsStart d d.node, []) (bfsStart_atHome d)
          ?_ ?_ (hw.sorted _ hw.myself)
        · exact fun i hi => ⟨⟨hi, hp.reverse _ i hi, hself i hi⟩, hp.direct _ i hi⟩
        · exact fun i hi => bfsStart_of_ne (hw.toNode _ hw.myself i hi).1 (hself i hi)
  | succ k ih =>
      obtain ⟨hnot, hbeside⟩ := ih
      have hh := Honest.rounds hw (noLighterDetour_of_direct hw fun n _ => hp.direct n) (k + 1)
      rw [bfsRounds_succ]
      generalize bfsRounds d (k + 1) = s at hnot hbeside hh
      obtain ⟨list, node⟩ := s
      cases list with
      | nil => exact ⟨hnot, hbeside⟩
      | cons n todo =>
          have hn : n ≠ d.myself := fun he => hnot (he ▸ List.mem_cons_self)
          obtain ⟨hmem, hv⟩ := hh.listed n List.mem_cons_self
          obtain ⟨len, -, -, -, -, hdist⟩ := hh.walked n hmem hn hv
          have hx := examined_foldl (d := d) n (d.edgeTree n) (node, [])
          refine ⟨?_, fun i hi => ?_⟩
          · intro hin
            rcases List.mem_append.mp hin with hin | hin
            · exact hnot (List.mem_cons_of_mem n hin)
            · have hlisted := hx.listed d.myself hin
              simp at hlisted
          · refine Beside.foldl _ _ (hbeside i hi) ?_ fun j hj => (hw.toNode n hmem j hj).2
            dsimp only at hdist ⊢
            omega

/-! ## After `graph` -/

/-- The loops of `graph.c` have rounds enough. -/
def EnoughRounds (d : Daemon) : Prop :=
  (2 * d.nodeTree.length + 1) * (d.edgeWeightTree.length + 1) < d.config.rounds

instance EnoughRounds.decidable (d : Daemon) : Decidable (EnoughRounds d) :=
  inferInstanceAs (Decidable (_ < _))

lemma potential_le (d : Daemon) (x : Node) : potential d x ≤ 2 * ((allEdges d).card + 1) := by
  have hle := lighter_le (d := d) x
  unfold potential rank
  split
  · split <;> omega
  · omega

/-- All edges are in `edge_weight_tree`. -/
lemma card_allEdges_le (h : EdgeIndex d) : (allEdges d).card ≤ d.edgeWeightTree.length := by
  refine (Finset.card_le_card ?_).trans (List.toFinset_card_le d.edgeWeightTree)
  intro i hi
  obtain ⟨n, -, hi⟩ := List.mem_flatMap.mp (List.mem_toFinset.mp hi)
  refine List.mem_toFinset.mpr ((h.shelved.both i).mpr ?_)
  rw [h.shelved.start n i hi]
  exact hi

/-- There is no more work to do than there are rounds. -/
lemma workLeft_lt (h : EdgeIndex d) (hr : EnoughRounds d) :
    workLeft d (bfsRounds d 0) < d.config.rounds := by
  have hsum : total d (potential d) (bfsRounds d 0).2 ≤
      d.nodeTree.length * (2 * ((allEdges d).card + 1)) := by
    have hle := List.sum_le_card_nsmul
      (d.nodeTree.map fun n => potential d ((bfsRounds d 0).2 n)) (2 * ((allEdges d).card + 1)) (by
        intro x hx
        obtain ⟨n, -, rfl⟩ := List.mem_map.mp hx
        exact potential_le d _)
    rw [List.length_map, smul_eq_mul] at hle
    exact hle
  have hmul : d.nodeTree.length * (2 * ((allEdges d).card + 1)) ≤
      2 * d.nodeTree.length * (d.edgeWeightTree.length + 1) := by
    have hcard := card_allEdges_le h
    calc d.nodeTree.length * (2 * ((allEdges d).card + 1))
        = 2 * d.nodeTree.length * ((allEdges d).card + 1) := by ring
      _ ≤ 2 * d.nodeTree.length * (d.edgeWeightTree.length + 1) :=
          Nat.mul_le_mul_left _ (by omega)
  unfold EnoughRounds at hr
  rw [Nat.succ_mul] at hr
  unfold workLeft
  have hlen : (bfsRounds d 0).1.length = 1 := rfl
  omega

/-- `sssp_bfs` ends within its rounds. -/
lemma ssspBfs_ends (h : EdgeIndex d) (hp : PlainGraph d) (hr : EnoughRounds d) :
    ∃ k, ssspBfs d d.node = (bfsRounds d (k + 1)).2 ∧ (bfsRounds d (k + 1)).1 = [] := by
  have hw := h.wellFormed hp
  have hc := noLighterDetour_of_direct hw fun n _ => hp.direct n
  obtain ⟨k, hle, hnil⟩ := exists_bfsRounds_nil_le hw hc
  have hends : BfsEnds d := ⟨⟨k, hnil⟩, fun j n hn => (Honest.rounds hw hc j).nonneg hn⟩
  have hlt := workLeft_lt h hr
  cases k with
  | zero => cases hnil
  | succ k => exact ⟨k, ssspBfs_eq hends hnil (by omega), hnil⟩

lemma graph_node_of_visited (hn : n ∈ d.nodeTree) (hv : (ssspBfs d d.node n).visited = true) :
    ((graph d).node n).reachable = true ∧
      ((graph d).node n).nexthop = (ssspBfs d d.node n).nexthop := by
  have hk : d.known n = true := by simpa [Daemon.known] using hn
  simp only [graph, checkReachability, if_pos hk, updateReachable, hv]
  cases hreach : (ssspBfs d d.node n).reachable <;> simp [hreach]

/-- Everything that is connected with `myself` is reachable. -/
theorem graph_reachable (h : EdgeIndex d) (hp : PlainGraph d) (hr : EnoughRounds d)
    (hn : Relation.ReflTransGen (Adjacent d) d.myself n) :
    n ∈ d.nodeTree ∧ ((graph d).node n).reachable = true := by
  have hw := h.wellFormed hp
  have hc := noLighterDetour_of_direct hw fun n _ => hp.direct n
  obtain ⟨k, heq, hnil⟩ := ssspBfs_ends h hp hr
  obtain ⟨hmem, hv⟩ := visited_of_connected hw hp hnil (Honest.rounds hw hc (k + 1)) hn
  rw [← heq] at hv
  exact ⟨hmem, (graph_node_of_visited hmem hv).1⟩

/-- The next hop to a neighbour is the neighbour. -/
theorem graph_nexthop (h : EdgeIndex d) (hp : PlainGraph d) (hr : EnoughRounds d)
    (hi : i ∈ d.edgeTree d.myself) :
    ((graph d).node (d.edge i).toNode).nexthop = some (d.edge i).toNode := by
  have hw := h.wellFormed hp
  obtain ⟨k, heq, -⟩ := ssspBfs_ends h hp hr
  have hbeside := (beside_rounds hw hp k).2 i hi
  rw [← heq] at hbeside
  rw [(graph_node_of_visited (hw.toNode _ hw.myself i hi).1 hbeside.visited).2]
  exact hbeside.nexthop

/-- The next hop to `myself` is `myself`. -/
theorem graph_nexthop_myself (h : d.myself ∈ d.nodeTree) :
    ((graph d).node d.myself).nexthop = some d.myself := by
  have hstart : ssspBfs d d.node d.myself = bfsStart d d.node d.myself := bfsLoop_myself _ _ _
  rw [(graph_node_of_visited h (hstart ▸ (bfsStart_myself d).1)).2, hstart]
  exact (bfsStart_atHome d).nexthop

end Tinc
