import TincQuic.Daemon.Indexes
import TincQuic.Daemon.Reachability
import TincQuic.Daemon.SpanningTree
import TincQuic.Lib.Spanning

/-!
# The tree of `mst_kruskal` is minimal

The loop goes through the edges from the lightest on, and starts over when it adds an edge after
others were skipped.  Whatever it adds is therefore the lightest link between the nodes that are
visited and the others, as in the algorithm of Prim.

* `kruskalRound` is one round of the loop, and `kruskalLoop_eq_rounds` says that `kruskalLoop` is
  the same loop.
* `usableLinks` are the links with edges in both directions, and `linkWeight` is the smaller of
  their weights.
* `Swept` is the invariant of the loop.
* **The loop ends, with a spanning tree of the reachable nodes whose weight is least**:
  `mst_minimal`.
-/

namespace Tinc

open Bytes CText Function Spanning

variable {d : Daemon} {n m x y : Name} {i j : EdgeId} {rest : List EdgeId} {skipped : Bool}
  {marks : Marks} {taken : List EdgeId} {R : Set Name}

/-! ## Rounds -/

/-- The loop between two rounds: the edges that are left, the marks, and the edges that were
added. -/
structure Sweep where
  rest : List EdgeId
  skipped : Bool
  marks : Marks
  taken : List EdgeId

/-- One round of the loop. -/
def kruskalRound (d : Daemon) (s : Sweep) : Sweep :=
  match s.rest with
  | [] => s
  | i :: rest =>
      let e := d.edge i
      if e.reverse = none ∨ s.marks.visited e.fromNode = s.marks.visited e.toNode then
        { s with rest := rest, skipped := true }
      else
        { rest := if s.skipped then d.edgeWeightTree else rest
          skipped := false
          marks := s.marks.addEdge d e
          taken := s.taken ++ [i] }

/-- The loop when it begins. -/
def sweepStart (d : Daemon) : Sweep :=
  ⟨d.edgeWeightTree, false, kruskalStart d (checkReachability d (ssspBfs d d.node)), []⟩

/-- The state after so many rounds. -/
def kruskalRounds (d : Daemon) (k : ℕ) : Sweep := (kruskalRound d)^[k] (sweepStart d)

lemma kruskalRounds_succ (k : ℕ) :
    kruskalRounds d (k + 1) = kruskalRound d (kruskalRounds d k) := iterate_succ_apply' _ _ _

/-- The loop with a bound on its rounds does these rounds. -/
lemma kruskalLoop_eq_rounds (k fuel : ℕ) (s : Sweep) (hk : ((kruskalRound d)^[k] s).rest = [])
    (hf : k < fuel) :
    kruskalLoop d fuel s.rest s.skipped s.marks = ((kruskalRound d)^[k] s).marks ∧
      s.taken ++ kruskalEdges d fuel s.rest s.skipped s.marks.visited =
        ((kruskalRound d)^[k] s).taken := by
  induction k generalizing fuel s with
  | zero =>
      obtain ⟨fuel, rfl⟩ : ∃ f, fuel = f + 1 := ⟨fuel - 1, by omega⟩
      rw [show s.rest = [] from hk]
      exact ⟨rfl, List.append_nil _⟩
  | succ k ih =>
      obtain ⟨fuel, rfl⟩ : ∃ f, fuel = f + 1 := ⟨fuel - 1, by omega⟩
      have hrest := ih fuel (kruskalRound d s) hk (by omega)
      rw [iterate_succ_apply]
      obtain ⟨rest, skipped, marks, taken⟩ := s
      cases rest with
      | nil =>
          obtain ⟨fuel, rfl⟩ : ∃ f, fuel = f + 1 := ⟨fuel - 1, by omega⟩
          exact hrest
      | cons i rest =>
          rw [kruskalLoop, kruskalEdges]
          unfold kruskalRound at hrest ⊢
          dsimp only at hrest ⊢
          split
          next hskip =>
            rw [if_pos hskip] at hrest
            exact hrest
          next htake =>
            rw [if_neg htake] at hrest
            dsimp only at hrest
            rw [addEdge_visited, List.append_assoc] at hrest
            exact hrest

/-- What one round does. -/
lemma kruskalRound_cases (d : Daemon) (i : EdgeId) (rest : List EdgeId) (skipped : Bool)
    (marks : Marks) (taken : List EdgeId) :
    ((d.edge i).reverse = none ∨
        marks.visited (d.edge i).fromNode = marks.visited (d.edge i).toNode) ∧
      kruskalRound d ⟨i :: rest, skipped, marks, taken⟩ = ⟨rest, true, marks, taken⟩ ∨
    (d.edge i).reverse ≠ none ∧
      marks.visited (d.edge i).fromNode ≠ marks.visited (d.edge i).toNode ∧
      kruskalRound d ⟨i :: rest, skipped, marks, taken⟩ =
        ⟨if skipped then d.edgeWeightTree else rest, false, marks.addEdge d (d.edge i),
          taken ++ [i]⟩ := by
  unfold kruskalRound
  dsimp only
  split
  next hskip => exact .inl ⟨hskip, rfl⟩
  next htake =>
    rw [not_or] at htake
    exact .inr ⟨htake.1, htake.2, rfl⟩

/-! ## Links -/

/-- The link that an edge belongs to. -/
def edgeLink (d : Daemon) (i : EdgeId) : Sym2 Name := s((d.edge i).fromNode, (d.edge i).toNode)

/-- The links that have edges in both directions. -/
def usableLinks (d : Daemon) : Finset (Sym2 Name) :=
  ((d.edgeWeightTree.filter fun i => (d.edge i).reverse ≠ none).map (edgeLink d)).toFinset

/-- The weight of the edge from one node to the other. -/
def directedWeight (d : Daemon) (n m : Name) : ℤ :=
  ((findEdge d.edge d.edgeTree n m).map fun i => (d.edge i).weight).getD 0

/-- The smaller weight of the two edges of a link. -/
def linkWeight (d : Daemon) : Sym2 Name → ℤ :=
  Sym2.lift ⟨fun n m => min (directedWeight d n m) (directedWeight d m n), fun _ _ => min_comm _ _⟩

/-- The links of these edges. -/
def linkSet (d : Daemon) (edges : List EdgeId) : Finset (Sym2 Name) :=
  (edges.map (edgeLink d)).toFinset

namespace EdgeIndex

lemma mem_weightTree (h : EdgeIndex d) :
    i ∈ d.edgeWeightTree ↔ i ∈ d.edgeTree (d.edge i).fromNode := h.shelved.both i

lemma weight_of_mem (h : EdgeIndex d) (hi : i ∈ d.edgeTree n) : i ∈ d.edgeWeightTree := by
  rw [h.mem_weightTree, h.shelved.start n i hi]
  exact hi

lemma bothWays_of_reverse (h : EdgeIndex d) (hi : i ∈ d.edgeWeightTree)
    (hr : (d.edge i).reverse ≠ none) : BothWays d (d.edge i).fromNode (d.edge i).toNode :=
  linked_of_reverse h.enclosed (h.mem_weightTree.mp hi) hr

/-- The links are those of the graph that the search goes through. -/
lemma mem_usableLinks (h : EdgeIndex d) : s(n, m) ∈ usableLinks d ↔ BothWays d n m := by
  simp only [usableLinks, List.mem_toFinset, List.mem_map, List.mem_filter, decide_eq_true_eq]
  constructor
  · rintro ⟨i, ⟨hi, hr⟩, he⟩
    have hboth := h.bothWays_of_reverse hi hr
    rcases Sym2.eq_iff.mp he with ⟨rfl, rfl⟩ | ⟨rfl, rfl⟩
    · exact hboth
    · exact hboth.symm
  · rintro ⟨⟨i, hi, rfl⟩, hback⟩
    refine ⟨i, ⟨h.weight_of_mem hi, (h.enclosed.reverse n i hi).mpr hback⟩, ?_⟩
    rw [edgeLink, h.shelved.start n i hi]

lemma directedWeight_eq (h : EdgeIndex d) (hi : i ∈ d.edgeTree n) :
    directedWeight d n (d.edge i).toNode = (d.edge i).weight := by
  rw [directedWeight, h.shelved.findEdge_eq_some.mpr ⟨hi, rfl⟩]
  rfl

lemma linkWeight_le (h : EdgeIndex d) (hi : i ∈ d.edgeWeightTree) :
    linkWeight d (edgeLink d i) ≤ (d.edge i).weight := by
  rw [← h.directedWeight_eq (h.mem_weightTree.mp hi)]
  exact min_le_left _ _

/-- The weight of a link is that of one of its edges. -/
lemma le_linkWeight (h : EdgeIndex d) (hboth : BothWays d n m) {w : ℤ}
    (hle : ∀ j ∈ d.edgeWeightTree, edgeLink d j = s(n, m) → w ≤ (d.edge j).weight) :
    w ≤ linkWeight d s(n, m) := by
  have hone : ∀ {a b}, BothWays d a b → s(a, b) = s(n, m) → w ≤ directedWeight d a b := by
    rintro a b ⟨⟨j, hj, rfl⟩, -⟩ he
    rw [h.directedWeight_eq hj]
    refine hle j (h.weight_of_mem hj) ?_
    rw [← he, edgeLink, h.shelved.start a j hj]
  exact le_min (hone hboth rfl) (hone hboth.symm Sym2.eq_swap)

/-- The edges come in the order of their weights. -/
lemma weights_sorted (h : EdgeIndex d) :
    d.edgeWeightTree.Pairwise fun i j => (d.edge i).weight ≤ (d.edge j).weight := by
  refine h.shelved.weightSorted.imp fun {i j} hlt => ?_
  unfold weightKey at hlt
  rcases Prod.Lex.toLex_lt_toLex.mp hlt with hlt | ⟨heq, -⟩
  · exact hlt.le
  · exact heq.le

end EdgeIndex

/-! ## The invariant -/

/-- The nodes that are visited. -/
def seen (d : Daemon) (marks : Marks) : Set Name :=
  {n | n ∈ d.nodeTree ∧ marks.visited n = true}

/-- Among the edges that were passed since the start none leads out of the tree; if none was
skipped, all are in it. -/
structure Behind (d : Daemon) (skipped : Bool) (marks : Marks) (passed : List EdgeId) : Prop where
  level : ∀ i ∈ passed, (d.edge i).reverse = none ∨
    marks.visited (d.edge i).fromNode = marks.visited (d.edge i).toNode
  inside : skipped = false → ∀ i ∈ passed,
    marks.visited (d.edge i).fromNode = true ∧ marks.visited (d.edge i).toNode = true

/-- What holds between two rounds, where `R` are the nodes that the tree shall span. -/
structure Swept (d : Daemon) (R : Set Name) (s : Sweep) : Prop where
  kept : seen d (sweepStart d).marks ⊆ seen d s.marks
  split : ∃ passed, d.edgeWeightTree = passed ++ s.rest ∧ Behind d s.skipped s.marks passed
  within : seen d s.marks ⊆ R
  tree : SpanningTree (usableLinks d) (seen d s.marks) (linkSet d s.taken)
  promising : ∀ T₀, SpanningTree (usableLinks d) R T₀ →
    Promising (usableLinks d) R (linkWeight d) T₀ (linkSet d s.taken)
  nodup : (s.taken.map (edgeLink d)).Nodup

lemma visited_addEdge : (marks.addEdge d (d.edge i)).visited n = true ↔
    marks.visited n = true ∨ n = (d.edge i).fromNode ∨ n = (d.edge i).toNode := by
  rw [addEdge_visited, TreeGrowth.mark_eq_true]
  rfl

namespace Behind

variable {passed : List EdgeId}

lemma skip (h : Behind d skipped marks passed) (hi : (d.edge i).reverse = none ∨
      marks.visited (d.edge i).fromNode = marks.visited (d.edge i).toNode) :
    Behind d true marks (passed ++ [i]) := by
  refine ⟨fun j hj => ?_, fun hfalse => by cases hfalse⟩
  rcases List.mem_append.mp hj with hj | hj
  · exact h.level j hj
  · obtain rfl := List.mem_singleton.mp hj
    exact hi

lemma take (h : Behind d false marks passed) :
    Behind d false (marks.addEdge d (d.edge i)) (passed ++ [i]) := by
  have hinside : ∀ j ∈ passed ++ [i],
      (marks.addEdge d (d.edge i)).visited (d.edge j).fromNode = true ∧
        (marks.addEdge d (d.edge i)).visited (d.edge j).toNode = true := by
    intro j hj
    rw [visited_addEdge, visited_addEdge]
    rcases List.mem_append.mp hj with hj | hj
    · obtain ⟨hfrom, hto⟩ := h.inside rfl j hj
      exact ⟨.inl hfrom, .inl hto⟩
    · obtain rfl := List.mem_singleton.mp hj
      exact ⟨.inr (.inl rfl), .inr (.inr rfl)⟩
  exact ⟨fun j hj => .inr ((hinside j hj).1.trans (hinside j hj).2.symm), fun _ => hinside⟩

end Behind

/-- **An edge that is added is the lightest one that leads out of the tree.** -/
lemma lightest_of_behind (h : EdgeIndex d) {passed : List EdgeId}
    (hsplit : d.edgeWeightTree = passed ++ i :: rest) (hb : Behind d skipped marks passed)
    (hlink : s(n, m) ∈ usableLinks d) (hn : n ∈ seen d marks) (hm : m ∉ seen d marks) :
    linkWeight d (edgeLink d i) ≤ linkWeight d s(n, m) := by
  have hboth := h.mem_usableLinks.mp hlink
  have hcross : marks.visited n ≠ marks.visited m := by
    rw [hn.2]
    exact fun he => hm ⟨hboth.known h.enclosed, he.symm⟩
  have hmem : i ∈ d.edgeWeightTree := by rw [hsplit]; simp
  refine (h.linkWeight_le hmem).trans (h.le_linkWeight hboth fun j hj he => ?_)
  -- an edge of the link was not passed
  have hr : (d.edge j).reverse ≠ none := by
    rw [h.enclosed.reverse _ j (h.mem_weightTree.mp hj)]
    rcases Sym2.eq_iff.mp he with ⟨hfrom, hto⟩ | ⟨hfrom, hto⟩
    · rw [hfrom, hto]
      exact hboth.2
    · rw [hfrom, hto]
      exact hboth.1
  have hnot : j ∉ passed := by
    intro hp
    rcases hb.level j hp with hnone | hsame
    · exact hr hnone
    · rcases Sym2.eq_iff.mp he with ⟨hfrom, hto⟩ | ⟨hfrom, hto⟩
      · exact hcross (by rw [← hfrom, ← hto]; exact hsame)
      · exact hcross (by rw [← hfrom, ← hto]; exact hsame.symm)
  have hsorted := h.weights_sorted
  rw [hsplit] at hj hsorted
  rcases List.mem_cons.mp ((List.mem_append.mp hj).resolve_left hnot) with rfl | hrest
  · exact le_rfl
  · exact (List.pairwise_cons.mp (List.pairwise_append.mp hsorted).2.1).1 j hrest

/-- An edge that is added leads from a node of the tree to a new one, in one direction or the
other. -/
lemma new_end (h : EdgeIndex d) (hi : i ∈ d.edgeWeightTree) (hr : (d.edge i).reverse ≠ none)
    (hne : marks.visited (d.edge i).fromNode ≠ marks.visited (d.edge i).toNode) :
    ∃ x y, edgeLink d i = s(x, y) ∧ BothWays d x y ∧ x ∈ seen d marks ∧ y ∉ seen d marks ∧
      seen d (marks.addEdge d (d.edge i)) = insert y (seen d marks) := by
  have hboth := h.bothWays_of_reverse hi hr
  have hto := hboth.known h.enclosed
  have hfrom := hboth.symm.known h.enclosed
  have hset : ∀ x y, (x = (d.edge i).fromNode ∧ y = (d.edge i).toNode ∨
      x = (d.edge i).toNode ∧ y = (d.edge i).fromNode) → x ∈ seen d marks →
      seen d (marks.addEdge d (d.edge i)) = insert y (seen d marks) := by
    intro x y hxy hx
    refine Set.ext fun n => ?_
    change (n ∈ d.nodeTree ∧ _) ↔ n = y ∨ (n ∈ d.nodeTree ∧ _)
    rw [visited_addEdge]
    have hx' := hx.2
    rcases hxy with ⟨rfl, rfl⟩ | ⟨rfl, rfl⟩ <;> grind
  cases hv : marks.visited (d.edge i).fromNode with
  | true =>
      have hv' : marks.visited (d.edge i).toNode ≠ true := fun he => hne (hv.trans he.symm)
      exact ⟨_, _, rfl, hboth, ⟨hfrom, hv⟩, fun hmem => hv' hmem.2,
        hset _ _ (.inl ⟨rfl, rfl⟩) ⟨hfrom, hv⟩⟩
  | false =>
      have hv' : marks.visited (d.edge i).toNode = true := by
        rw [hv] at hne
        simpa using hne.symm
      refine ⟨_, _, Sym2.eq_swap, hboth.symm, ⟨hto, hv'⟩, fun hmem => ?_,
        hset _ _ (.inr ⟨rfl, rfl⟩) ⟨hto, hv'⟩⟩
      rw [hmem.2] at hv
      cases hv

lemma linkSet_snoc : linkSet d (taken ++ [i]) = insert (edgeLink d i) (linkSet d taken) := by
  ext e
  simp [linkSet]

/-- A round keeps the invariant. -/
lemma Swept.round (h : EdgeIndex d) (hR : ∀ n ∈ R, ∀ m, BothWays d n m → m ∈ R) {s : Sweep}
    (hs : Swept d R s) : Swept d R (kruskalRound d s) := by
  obtain ⟨rest, skipped, marks, taken⟩ := s
  cases rest with
  | nil => exact hs
  | cons i rest =>
      obtain ⟨passed, hsplit, hbehind⟩ := hs.split
      dsimp only at hsplit hbehind
      have hnext : d.edgeWeightTree = (passed ++ [i]) ++ rest := by rw [hsplit]; simp
      rcases kruskalRound_cases d i rest skipped marks taken with ⟨hskip, heq⟩ | ⟨hr, hne, heq⟩
      · rw [heq]
        exact ⟨hs.kept, ⟨passed ++ [i], hnext, hbehind.skip hskip⟩, hs.within, hs.tree,
          hs.promising, hs.nodup⟩
      · rw [heq]
        have hmem : i ∈ d.edgeWeightTree := by rw [hsplit]; simp
        obtain ⟨x, y, hlink, hboth, hx, hy, hseen⟩ := new_end h hmem hr hne
        have husable := h.mem_usableLinks.mpr hboth
        have hyR := hR x (hs.within hx) y hboth
        have hends := hs.tree.ends
        refine ⟨?_, ?_, ?_, ?_, fun T₀ hT₀ => ?_, ?_⟩
        · dsimp only
          rw [hseen]
          exact hs.kept.trans (Set.subset_insert _ _)
        · cases skipped with
          | true => exact ⟨[], rfl, ⟨by simp, by simp⟩⟩
          | false => exact ⟨passed ++ [i], hnext, hbehind.take⟩
        · dsimp only
          rw [hseen]
          exact Set.insert_subset hyR hs.within
        · dsimp only
          rw [hseen, linkSet_snoc, hlink]
          exact hs.tree.leaf husable hx hy
        · dsimp only
          rw [linkSet_snoc, hlink]
          refine (hs.promising T₀ hT₀).add husable (hs.within hx) hyR hx hy
            (fun a b hab _ => (hends a b hab).2.1) fun a b hab ha hb => ?_
          rw [← hlink]
          exact lightest_of_behind h hsplit hbehind hab ha hb
        · dsimp only
          rw [List.map_append, List.map_singleton]
          refine List.nodup_append.mpr ⟨hs.nodup, List.nodup_singleton _, ?_⟩
          rintro e he f hf rfl
          rw [List.mem_singleton.mp hf, hlink] at he
          exact hy (hends x y (List.mem_toFinset.mpr he)).2.1

/-! ## The loop comes to an end -/

/-- The rounds that are left at most. -/
def sweepLeft (d : Daemon) (s : Sweep) : ℕ :=
  TreeGrowth.roundsLeft d.nodeTree.toFinset (allLinks d) (s.rest.map (link d)) s.marks.visited

lemma sweepLeft_lt (h : EdgeIndex d) {s : Sweep} (hs : Swept d R s) (hne : s.rest ≠ []) :
    sweepLeft d (kruskalRound d s) < sweepLeft d s := by
  obtain ⟨rest, skipped, marks, taken⟩ := s
  cases rest with
  | nil => exact absurd rfl hne
  | cons i rest =>
      rcases kruskalRound_cases d i rest skipped marks taken with ⟨-, heq⟩ | ⟨hr, hcross, heq⟩
      · rw [heq]
        simp [sweepLeft, TreeGrowth.roundsLeft]
      · rw [heq]
        obtain ⟨passed, hsplit, -⟩ := hs.split
        dsimp only at hsplit
        have hboth := h.bothWays_of_reverse (by rw [hsplit]; simp) hr
        have hlt := TreeGrowth.roundsLeft_mark (allLinks d) (rest.map (link d)) skipped
          (List.mem_toFinset.mpr (hboth.symm.known h.enclosed))
          (List.mem_toFinset.mpr (hboth.known h.enclosed)) (l := link d i) hcross
        unfold sweepLeft
        rw [addEdge_visited]
        cases skipped with
        | true => exact hlt
        | false => exact hlt

lemma exists_rest_nil (h : EdgeIndex d) (hR : ∀ n ∈ R, ∀ m, BothWays d n m → m ∈ R) {s : Sweep}
    (hs : Swept d R s) : ∃ k ≤ sweepLeft d s, ((kruskalRound d)^[k] s).rest = [] := by
  induction hN : sweepLeft d s using Nat.strong_induction_on generalizing s with
  | _ N ih =>
      by_cases hnil : s.rest = []
      · exact ⟨0, Nat.zero_le _, hnil⟩
      · have hlt := sweepLeft_lt h hs hnil
        rw [hN] at hlt
        obtain ⟨k, hk, hend⟩ := ih _ hlt (hs.round h hR) rfl
        exact ⟨k + 1, by omega, hend⟩

lemma Swept.rounds (h : EdgeIndex d) (hR : ∀ n ∈ R, ∀ m, BothWays d n m → m ∈ R)
    (hs : Swept d R (sweepStart d)) (k : ℕ) : Swept d R (kruskalRounds d k) := by
  induction k with
  | zero => exact hs
  | succ k ih =>
      rw [kruskalRounds_succ]
      exact ih.round h hR

/-- When no edge is left, no link leads out of the tree. -/
lemma Swept.closed (h : EdgeIndex d) {s : Sweep} (hs : Swept d R s) (hnil : s.rest = [])
    (hn : n ∈ seen d s.marks) (hlink : BothWays d n m) : m ∈ seen d s.marks := by
  obtain ⟨passed, hsplit, hbehind⟩ := hs.split
  rw [hnil, List.append_nil] at hsplit
  subst hsplit
  refine ⟨hlink.known h.enclosed, ?_⟩
  obtain ⟨⟨i, hi, rfl⟩, hback⟩ := hlink
  rcases hbehind.level i (h.weight_of_mem hi) with hnone | hsame
  · exact absurd hnone ((h.enclosed.reverse n i hi).mpr hback)
  · rw [← hsame, h.shelved.start n i hi]
    exact hn.2

/-! ## The reachable nodes -/

/-- The nodes that are reachable after `graph`. -/
def reachableNodes (d : Daemon) : Set Name :=
  {n | n ∈ d.nodeTree ∧ ((graph d).node n).reachable = true}

/-- What the first loop over the edges marks. -/
lemma seen_start (h : EdgeIndex d) :
    (∀ i ∈ d.edgeWeightTree, (d.edge i).fromNode ∉ reachableNodes d) ∧
      seen d (sweepStart d).marks = ∅ ∨
    ∃ o ∈ reachableNodes d, seen d (sweepStart d).marks = {o} := by
  have hunvisited : ∀ n ∈ d.nodeTree, d.known n = true := fun n hn => by
    simpa [Daemon.known] using hn
  unfold sweepStart kruskalStart
  cases hfind : d.edgeWeightTree.find? fun i =>
      (checkReachability d (ssspBfs d d.node) (d.edge i).fromNode).reachable with
  | none =>
      left
      refine ⟨fun i hi hreach => ?_, ?_⟩
      · exact List.find?_eq_none.mp hfind i hi hreach.2
      · refine Set.eq_empty_iff_forall_notMem.mpr fun n hn => ?_
        have hv := hn.2
        dsimp only [Option.elim_none] at hv
        rw [if_pos (hunvisited n hn.1)] at hv
        cases hv
  | some i =>
      right
      have hi := h.mem_weightTree.mp (List.mem_of_find?_eq_some hfind)
      have hknown : (d.edge i).fromNode ∈ d.nodeTree := by
        by_contra hnot
        rw [h.shelved.known _ hnot] at hi
        exact absurd hi List.not_mem_nil
      have hreach := List.find?_some hfind
      refine ⟨(d.edge i).fromNode, ⟨hknown, hreach⟩, Set.ext fun n => ?_⟩
      constructor
      · rintro ⟨hn, hv⟩
        by_contra hne
        dsimp only [Option.elim_some] at hv
        rw [update_of_ne hne, if_pos (hunvisited n hn)] at hv
        cases hv
      · rintro rfl
        exact ⟨hknown, by simp⟩

lemma swept_start (h : EdgeIndex d) : Swept d (reachableNodes d) (sweepStart d) := by
  have hsingle : (seen d (sweepStart d).marks).Subsingleton ∧
      seen d (sweepStart d).marks ⊆ reachableNodes d := by
    rcases seen_start h with ⟨-, hseen⟩ | ⟨o, ho, hseen⟩
    · rw [hseen]
      exact ⟨Set.subsingleton_empty, Set.empty_subset _⟩
    · rw [hseen]
      exact ⟨Set.subsingleton_singleton, Set.singleton_subset_iff.mpr ho⟩
  exact ⟨subset_rfl, ⟨[], rfl, by simp, by simp⟩, hsingle.2, .empty hsingle.1,
    fun T₀ hT₀ => .start hT₀, List.nodup_nil⟩

section Reachable

variable {k : ℕ} (h : EdgeIndex d) (hk : (bfsRounds d k).1 = []) (hf : k < d.config.rounds)

include h hk hf

lemma mem_reachableNodes :
    n ∈ reachableNodes d ↔ Relation.ReflTransGen (BothWays d) d.myself n := by
  constructor
  · rintro ⟨hn, hreach⟩
    exact (reachable_iff_path h.enclosed hk hf hn).mp hreach
  · intro hpath
    have hn : n ∈ d.nodeTree := by
      cases hpath with
      | refl => exact h.myself
      | tail _ hlink => exact hlink.known h.enclosed
    exact ⟨hn, (reachable_iff_path h.enclosed hk hf hn).mpr hpath⟩

lemma reachableNodes_closed :
    ∀ n ∈ reachableNodes d, ∀ m, BothWays d n m → m ∈ reachableNodes d := by
  intro n hn m hlink
  rw [mem_reachableNodes h hk hf] at hn ⊢
  exact hn.tail hlink

/-- The edges that are added in the end are a spanning tree of the reachable nodes. -/
lemma Swept.spanning {s : Sweep} (hs : Swept d (reachableNodes d) s) (hnil : s.rest = []) :
    SpanningTree (usableLinks d) (reachableNodes d) (linkSet d s.taken) := by
  rcases seen_start h with ⟨hnone, -⟩ | ⟨o, ho, hseen⟩
  · -- without edges of reachable nodes, `myself` is alone
    have halone : ∀ n ∈ reachableNodes d, n = d.myself := by
      intro n hn
      rcases Relation.ReflTransGen.cases_tail ((mem_reachableNodes h hk hf).mp hn) with he | hpath
      · exact he
      · obtain ⟨m, -, -, ⟨j, hj, -⟩⟩ := hpath
        refine absurd ?_ (hnone j (h.weight_of_mem hj))
        rw [h.shelved.start n j hj]
        exact hn
    have hempty : linkSet d s.taken = ∅ := by
      refine Finset.eq_empty_of_forall_notMem fun e he => ?_
      induction e with
      | h a b =>
          obtain ⟨ha, hb, hne⟩ := hs.tree.ends a b he
          exact hne ((halone a (hs.within ha)).trans (halone b (hs.within hb)).symm)
    rw [hempty]
    exact .empty fun a ha b hb => (halone a ha).trans (halone b hb).symm
  · have hset : seen d s.marks = reachableNodes d := by
      refine Set.Subset.antisymm hs.within fun n hn => ?_
      have hsymm : Std.Symm (BothWays d) := ⟨fun _ _ hl => hl.symm⟩
      have hpath : Relation.ReflTransGen (BothWays d) o n :=
        (Relation.ReflTransGen.stdSymm.symm _ _ ((mem_reachableNodes h hk hf).mp ho)).trans
          ((mem_reachableNodes h hk hf).mp hn)
      induction hpath with
      | refl => exact hs.kept (by rw [hseen]; rfl)
      | tail hpath hlink ih =>
          refine hs.closed h hnil (ih ?_) hlink
          exact reachableNodes_closed h hk hf _ hn _ hlink.symm
    rw [← hset]
    exact hs.tree

end Reachable

/-- **The tree is minimal**: the loop ends, and the edges that it adds are a spanning tree of the
reachable nodes that is not heavier than any other.  A connection is marked if and only if its edge
or the reverse of its edge was added. -/
theorem mst_minimal (d : Daemon) (h : EdgeIndex d) (k : ℕ) (hk : (bfsRounds d k).1 = [])
    (hf : k < d.config.rounds)
    (hrounds : d.nodeTree.length * (d.edgeWeightTree.length + 1) + d.edgeWeightTree.length <
      d.config.rounds) :
    (∃ r, (kruskalRounds d r).rest = [] ∧ (kruskalRounds d r).taken = treeEdges d ∧
      (kruskalRounds d r).marks.mst = (graph d).mst) ∧
    ((treeEdges d).map (edgeLink d)).Nodup ∧
    SpanningTree (usableLinks d) (reachableNodes d) (linkSet d (treeEdges d)) ∧
    (∀ T, SpanningTree (usableLinks d) (reachableNodes d) T →
      ∑ e ∈ linkSet d (treeEdges d), linkWeight d e ≤ ∑ e ∈ T, linkWeight d e) ∧
    ∀ c ∈ d.connectionList, ((graph d).mst c = true ↔
      ∃ e ∈ d.edgeWeightTree, (d.edge e).connection = some c ∧
        (e ∈ treeEdges d ∨ ∃ r, (d.edge e).reverse = some r ∧ r ∈ treeEdges d)) := by
  have hR := reachableNodes_closed h hk hf
  have hstart := swept_start h
  obtain ⟨r, hr, hnil⟩ := exists_rest_nil h hR hstart
  have hbound : r < d.config.rounds := by
    have hcard : d.nodeTree.toFinset.card ≤ d.nodeTree.length := List.toFinset_card_le _
    have hle := TreeGrowth.roundsLeft_le d.nodeTree.toFinset (allLinks d)
      ((sweepStart d).rest.map (link d)) (sweepStart d).marks.visited
    have hlen : (allLinks d).length = d.edgeWeightTree.length := List.length_map _
    have hlen' : ((sweepStart d).rest.map (link d)).length = d.edgeWeightTree.length :=
      List.length_map _
    have hmul := Nat.mul_le_mul_right (d.edgeWeightTree.length + 1) hcard
    unfold sweepLeft at hr
    rw [hlen, hlen'] at hle
    omega
  obtain ⟨hmarks, htaken⟩ := kruskalLoop_eq_rounds r d.config.rounds (sweepStart d) hnil hbound
  have hs : Swept d (reachableNodes d) (kruskalRounds d r) := .rounds h hR hstart r
  have htree : (kruskalRounds d r).taken = treeEdges d := htaken.symm
  have hspanning := hs.spanning h hk hf hnil
  rw [← htree]
  refine ⟨⟨r, hnil, rfl, (congrArg Marks.mst hmarks).symm⟩, hs.nodup, hspanning,
    fun T hT => (hs.promising T hT).minimal hspanning, fun c hc => ?_⟩
  rw [htree, graph_mst_iff hc]
  constructor
  · rintro ⟨i, hi, hconn | hconn⟩
    · exact ⟨i, mem_treeEdges hi, hconn, .inl hi⟩
    · obtain ⟨e, he, hconn⟩ := Option.bind_eq_some_iff.mp hconn
      have hmem := h.mem_weightTree.mp (mem_treeEdges hi)
      have hback := h.shelved.reverse_symm h.reversed hmem he
      rw [h.reversed _ i hmem, h.shelved.findEdge_eq_some] at he
      exact ⟨e, h.weight_of_mem he.1, hconn, .inr ⟨i, hback, hi⟩⟩
  · rintro ⟨e, he, hconn, hi | ⟨r, hr, hi⟩⟩
    · exact ⟨e, hi, .inl hconn⟩
    · have hback := h.shelved.reverse_symm h.reversed (h.mem_weightTree.mp he) hr
      exact ⟨r, hi, .inr (by rw [hback]; exact hconn)⟩

/-! ## Three nodes -/

/-- `b` connects to `a`, and announces its edges with `a` and `c`; only `c` knows of one to `a`. -/
def chainEvents : List Event :=
  [.connectionAdd 0 { name := ascii "<unknown>" },
    .receive 0 (words [ascii "0", ascii "b", ascii "17.7"]),
    .receive 0 (words [ascii "4", ascii "655", ascii "10", ascii "c"])] ++
  ([(ascii "b", ascii "a", ascii "3"), (ascii "b", ascii "c", ascii "6"),
      (ascii "c", ascii "b", ascii "9"), (ascii "c", ascii "a", ascii "1")].map fun e =>
    .receive 0 (words [ascii "12", ascii "1", e.1, e.2.1, ascii "unspec", ascii "unspec", ascii "c",
      e.2.2]))

/-- The daemon of `a` then. -/
def trio : Daemon :=
  (Daemon.init { Config.plain (ascii "a") with rounds := 50 } id).run chainEvents

/-- The lighter edges of both links are added. -/
theorem mst_minimal_chain :
    (treeEdges trio).map (fun i => ((trio.edge i).fromNode, (trio.edge i).toNode)) =
      [(ascii "b", ascii "c"), (ascii "b", ascii "a")] ∧
    SpanningTree (usableLinks trio) (reachableNodes trio) (linkSet trio (treeEdges trio)) ∧
    ((graph trio).mst 0 = true ↔ ∃ e ∈ trio.edgeWeightTree, (trio.edge e).connection = some 0 ∧
      (e ∈ treeEdges trio ∨ ∃ r, (trio.edge e).reverse = some r ∧ r ∈ treeEdges trio)) := by
  have h : EdgeIndex trio := (ConnIndex.run (by decide +kernel) (by decide +kernel)).toEdgeIndex
  obtain ⟨-, -, hspanning, -, hmst⟩ :=
    mst_minimal trio h 3 (by decide +kernel) (by decide +kernel) (by decide +kernel)
  exact ⟨by decide +kernel, hspanning, hmst 0 (by decide +kernel)⟩

end Tinc
