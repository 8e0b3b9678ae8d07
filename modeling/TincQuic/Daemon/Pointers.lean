import TincQuic.Daemon.Indexes
import TincQuic.Daemon.Routes

/-!
# Pointers from node to node

`graph` sets `via` and `nexthop` of the nodes that it reaches and leaves those of the others as they
are; `purge` frees nodes without a look at who points to them.

* `Way` says where the pointers lead: **to nodes that are known, and have been reached themselves**.
* `Routed` adds what holds of reachable nodes: the next hop is at the other end of an edge of ours,
  and so has a connection.
* `Happening.Keeps` says what a call of `purge` must not do.  **Nothing else leaves a pointer to a
  node that is gone**: `Sound.run`.
-/

namespace Tinc

open Bytes CText Function Run

variable {d d' : Daemon} {node node' : Name → Node} {n m : Name} {i : EdgeId}

/-! ## The search -/

/-- Where `via` and `nexthop` lead. -/
structure Way (d : Daemon) (node : Name → Node) : Prop where
  known : ∀ n ∈ d.nodeTree, ∀ m, (node n).via = some m ∨ (node n).nexthop = some m →
    m ∈ d.nodeTree ∧ (node m).nexthop ≠ none
  both : ∀ n ∈ d.nodeTree, (node n).via = none ↔ (node n).nexthop = none

/-- An edge that the search can take leads to a node that is known, and does not lead back. -/
def Joined (d : Daemon) : Prop :=
  ∀ n, ∀ e ∈ d.edgeTree n, (d.edge e).reverse ≠ none → (d.edge e).toNode ∈ d.nodeTree

lemma EdgeIndex.joined (h : EdgeIndex d) : Joined d := by
  intro n e he hr
  obtain ⟨r, hr⟩ := Option.ne_none_iff_exists'.mp hr
  rw [h.reversed n e he, h.shelved.findEdge_eq_some] at hr
  by_contra hn
  rw [h.shelved.known _ hn] at hr
  exact absurd hr.1 List.not_mem_nil

/-- There is an edge of ours to `h`. -/
def Neighbour (d : Daemon) (h : Name) : Prop := ∃ e ∈ d.edgeTree d.myself, (d.edge e).toNode = h

/-- The nodes that were visited, and those that are still to examine. -/
structure Visits (d : Daemon) (s : Search) : Prop where
  way : Way d s.2
  todo : ∀ n ∈ s.1, n ∈ d.nodeTree ∧ (s.2 n).visited = true
  myself : (s.2 d.myself).nexthop = some d.myself
  nexthop : ∀ n ∈ d.nodeTree, (s.2 n).visited = true → n ≠ d.myself →
    ∃ h, (s.2 n).nexthop = some h ∧ h ≠ d.myself ∧ Neighbour d h

/-- The way over edge `i` of `n`, if it is taken. -/
structure Turned (d : Daemon) (node : Name → Node) (n : Name) (i : EdgeId) (node' : Name → Node) :
    Prop where
  others : ∀ m, m ≠ (d.edge i).toNode → node' m = node m
  visited : (node' (d.edge i).toNode).visited = true
  via : (node' (d.edge i).toNode).via = (node n).via ∨
    (node' (d.edge i).toNode).via = some (d.edge i).toNode
  nexthop : (node' (d.edge i).toNode).nexthop =
      (if (node n).nexthop = some d.myself then some (d.edge i).toNode else (node n).nexthop) ∨
    (node (d.edge i).toNode).visited = true ∧
      (node' (d.edge i).toNode).nexthop = (node (d.edge i).toNode).nexthop
  reverse : (d.edge i).reverse ≠ none
  notMyself : (d.edge i).toNode ≠ d.myself

lemma examineEdge_turned (n : Name) (node : Name → Node) (new : List Name) (i : EdgeId) :
    examineEdge d n (node, new) i = (node, new) ∨
    ∃ node', examineEdge d n (node, new) i = (node', new ++ [(d.edge i).toNode]) ∧
      Turned d node n i node' := by
  unfold examineEdge
  dsimp only
  split
  · exact .inl rfl
  · rename_i hskip
    simp only [not_or] at hskip
    refine .inr ⟨_, rfl, fun m hm => update_of_ne hm _ _, ?_, ?_, ?_, hskip.1, hskip.2.1⟩
    · rw [update_self]
    · rw [update_self]
      dsimp only
      split
      · exact .inl rfl
      · exact .inr rfl
    · rw [update_self]
      dsimp only
      split
      · exact .inl rfl
      · rename_i hold
        refine .inr ⟨?_, rfl⟩
        by_contra hv
        exact hold (.inl (by simpa using hv))

namespace Visits

variable {todo new : List Name}

/-- The next hop of a node that was visited. -/
lemma hop {s : Search} (h : Visits d s) (hn : n ∈ d.nodeTree) (hv : (s.2 n).visited = true)
    (hi : i ∈ d.edgeTree n) (hne : (d.edge i).toNode ≠ d.myself) :
    ∃ k, (if (s.2 n).nexthop = some d.myself then some (d.edge i).toNode else (s.2 n).nexthop) =
        some k ∧ k ≠ d.myself ∧ Neighbour d k ∧
      (k = (d.edge i).toNode ∨ (s.2 n).nexthop = some k) := by
  by_cases hm : n = d.myself
  · subst hm
    rw [if_pos h.myself]
    exact ⟨_, rfl, hne, ⟨i, hi, rfl⟩, .inl rfl⟩
  · obtain ⟨k, hk, hkm, hnb⟩ := h.nexthop n hn hv hm
    rw [hk, if_neg fun heq => hkm (Option.some.inj heq)]
    exact ⟨k, rfl, hkm, hnb, .inr rfl⟩

lemma turned (h : Visits d (todo ++ new, node)) (hj : Joined d) (hn : n ∈ d.nodeTree)
    (hv : (node n).visited = true) (hi : i ∈ d.edgeTree n) (ht : Turned d node n i node') :
    Visits d (todo ++ (new ++ [(d.edge i).toNode]), node') := by
  have hto : (d.edge i).toNode ∈ d.nodeTree := hj n i hi ht.reverse
  -- what the end of the edge points to now
  obtain ⟨k, hk, hkm, hnb, hkold⟩ : ∃ k, (node' (d.edge i).toNode).nexthop = some k ∧
      k ≠ d.myself ∧ Neighbour d k ∧ (k = (d.edge i).toNode ∨
        k ∈ d.nodeTree ∧ (node k).nexthop ≠ none) := by
    rcases ht.nexthop with heq | ⟨hold, heq⟩
    · obtain ⟨k, hk, hkm, hnb, hkold⟩ := h.hop hn hv hi ht.notMyself
      exact ⟨k, heq.trans hk, hkm, hnb, hkold.imp_right fun hk => h.way.known n hn k (.inr hk)⟩
    · obtain ⟨k, hk, hkm, hnb⟩ := h.nexthop _ hto hold ht.notMyself
      exact ⟨k, heq.trans hk, hkm, hnb, .inr (h.way.known _ hto k (.inr hk))⟩
  have hset : ∀ m, (node m).nexthop ≠ none → (node' m).nexthop ≠ none := by
    intro m hm
    by_cases hmt : m = (d.edge i).toNode
    · rw [hmt, hk]
      exact Option.some_ne_none k
    · rwa [ht.others m hmt]
  have hlead : ∀ m, m = (d.edge i).toNode ∨ m ∈ d.nodeTree ∧ (node m).nexthop ≠ none →
      m ∈ d.nodeTree ∧ (node' m).nexthop ≠ none := by
    rintro m (rfl | ⟨hm, hset'⟩)
    · exact ⟨hto, by rw [hk]; exact Option.some_ne_none k⟩
    · exact ⟨hm, hset m hset'⟩
  have hvian : (node n).via ≠ none := by
    rw [ne_eq, h.way.both n hn]
    obtain ⟨k, hk, -⟩ := h.hop hn hv hi ht.notMyself
    intro hnone
    rw [hnone] at hk
    simp at hk
  refine ⟨⟨fun m hm k' hk' => ?_, fun m hm => ?_⟩, fun m hm => ?_, ?_, fun m hm hvm hmm => ?_⟩
  · by_cases hmt : m = (d.edge i).toNode
    · subst hmt
      refine hlead k' ?_
      rcases hk' with hk' | hk'
      · rcases ht.via with heq | heq
        · exact .inr (h.way.known n hn k' (.inl (heq.symm.trans hk')))
        · exact .inl (Option.some.inj (hk'.symm.trans heq))
      · obtain rfl := Option.some.inj (hk.symm.trans hk')
        exact hkold
    · change (node' m).via = some k' ∨ (node' m).nexthop = some k' at hk'
      rw [ht.others m hmt] at hk'
      exact hlead k' (.inr (h.way.known m hm k' hk'))
  · by_cases hmt : m = (d.edge i).toNode
    · subst hmt
      refine iff_of_false ?_ (by rw [hk]; exact Option.some_ne_none k)
      rcases ht.via with heq | heq
      · rwa [heq]
      · rw [heq]
        exact Option.some_ne_none _
    · change (node' m).via = none ↔ (node' m).nexthop = none
      rw [ht.others m hmt]
      exact h.way.both m hm
  · change m ∈ todo ++ (new ++ [(d.edge i).toNode]) at hm
    change m ∈ d.nodeTree ∧ (node' m).visited = true
    by_cases hmt : m = (d.edge i).toNode
    · subst hmt
      exact ⟨hto, ht.visited⟩
    · rw [ht.others m hmt]
      refine h.todo m ?_
      simpa [hmt] using hm
  · change (node' d.myself).nexthop = some d.myself
    rw [ht.others _ ht.notMyself.symm]
    exact h.myself
  · change (node' m).visited = true at hvm
    change ∃ k, (node' m).nexthop = some k ∧ k ≠ d.myself ∧ Neighbour d k
    by_cases hmt : m = (d.edge i).toNode
    · subst hmt
      exact ⟨k, hk, hkm, hnb⟩
    · rw [ht.others m hmt] at hvm ⊢
      exact h.nexthop m hm hvm hmm

lemma foldl (hj : Joined d) (hn : n ∈ d.nodeTree) (edges : List EdgeId)
    (hsub : ∀ i ∈ edges, i ∈ d.edgeTree n) (h : Visits d (todo ++ new, node))
    (hv : (node n).visited = true) :
    Visits d (todo ++ (edges.foldl (examineEdge d n) (node, new)).2,
      (edges.foldl (examineEdge d n) (node, new)).1) := by
  induction edges generalizing node new with
  | nil => exact h
  | cons i edges ih =>
      have hsub' : ∀ i ∈ edges, i ∈ d.edgeTree n := fun i hi => hsub i (List.mem_cons_of_mem _ hi)
      rw [List.foldl_cons]
      rcases examineEdge_turned n node new i with heq | ⟨node', heq, ht⟩
      · rw [heq]
        exact ih hsub' h hv
      · rw [heq]
        refine ih hsub' (h.turned hj hn hv (hsub i List.mem_cons_self) ht) ?_
        by_cases hnt : n = (d.edge i).toNode
        · rw [hnt]
          exact ht.visited
        · rwa [ht.others n hnt]

/-- The search keeps it, however many rounds there are. -/
lemma bfsLoop (hj : Joined d) (fuel : ℕ) (h : Visits d (todo, node)) :
    ∃ todo', Visits d (todo', Tinc.bfsLoop d fuel todo node) := by
  induction fuel generalizing todo node with
  | zero => exact ⟨todo, h⟩
  | succ fuel ih =>
      cases todo with
      | nil => exact ⟨[], h⟩
      | cons n todo =>
          rw [Tinc.bfsLoop]
          split
          · exact ⟨_, h⟩
          · obtain ⟨hn, hv⟩ := h.todo n List.mem_cons_self
            refine ih ?_
            refine foldl hj hn _ (fun _ hi => hi) ?_ hv
            rw [List.append_nil]
            exact ⟨h.way, fun m hm => h.todo m (List.mem_cons_of_mem _ hm), h.myself, h.nexthop⟩

/-- When the search begins, only `myself` was visited. -/
lemma bfsStart (h : Way d d.node) (hm : d.myself ∈ d.nodeTree) :
    Visits d ([d.myself], Tinc.bfsStart d d.node) := by
  have hk : ∀ n ∈ d.nodeTree, d.known n = true := fun n hn => by simpa [Daemon.known] using hn
  have hmyself : (Tinc.bfsStart d d.node d.myself).visited = true ∧
      (Tinc.bfsStart d d.node d.myself).nexthop = some d.myself ∧
      (Tinc.bfsStart d d.node d.myself).via = some d.myself := by simp [Tinc.bfsStart]
  have hold : ∀ n, n ≠ d.myself → (Tinc.bfsStart d d.node n).via = (d.node n).via ∧
      (Tinc.bfsStart d d.node n).nexthop = (d.node n).nexthop := by
    intro n hne
    simp only [Tinc.bfsStart, update_of_ne hne]
    split <;> exact ⟨rfl, rfl⟩
  have hset : ∀ n, (d.node n).nexthop ≠ none → (Tinc.bfsStart d d.node n).nexthop ≠ none := by
    intro n hn
    by_cases hne : n = d.myself
    · rw [hne, hmyself.2.1]
      exact Option.some_ne_none _
    · rwa [(hold n hne).2]
  refine ⟨⟨fun n hn k hkn => ?_, fun n hn => ?_⟩, fun n hn => ?_, hmyself.2.1,
    fun n hn hv hne => ?_⟩ <;> dsimp only at *
  · by_cases hne : n = d.myself
    · rw [hne, hmyself.2.1, hmyself.2.2, or_self] at hkn
      obtain rfl := Option.some.inj hkn
      exact ⟨hm, by rw [hmyself.2.1]; exact Option.some_ne_none _⟩
    · rw [(hold n hne).1, (hold n hne).2] at hkn
      obtain ⟨h1, h2⟩ := h.known n hn k hkn
      exact ⟨h1, hset k h2⟩
  · by_cases hne : n = d.myself
    · rw [hne, hmyself.2.1, hmyself.2.2]
    · rw [(hold n hne).1, (hold n hne).2]
      exact h.both n hn
  · obtain rfl := List.mem_singleton.1 hn
    exact ⟨hm, hmyself.1⟩
  · simp [Tinc.bfsStart, update_of_ne hne, hk n hn] at hv

end Visits

/-! ## Reachable nodes -/

/-- All pointers lead to nodes that are known, and there is an edge to the next hop of every
reachable node. -/
structure Routed (d : Daemon) : Prop where
  way : Way d d.node
  nexthop : ∀ n ∈ d.nodeTree, (d.node n).reachable = true → n ≠ d.myself →
    ∃ h, (d.node n).nexthop = some h ∧ h ≠ d.myself ∧ Neighbour d h

namespace Routed

/-- What `graph` leaves of the search. -/
lemma graph_node (hn : n ∈ d.nodeTree) : ((graph d).node n).via = (ssspBfs d d.node n).via ∧
    ((graph d).node n).nexthop = (ssspBfs d d.node n).nexthop ∧
    ((graph d).node n).reachable = (ssspBfs d d.node n).visited := by
  have hk : d.known n = true := by simpa [Daemon.known] using hn
  simp only [Tinc.graph, checkReachability, if_pos hk, updateReachable]
  split
  · rename_i heq
    exact ⟨rfl, rfl, heq.symm⟩
  · rename_i hne
    split
    · rename_i hr
      refine ⟨rfl, rfl, ?_⟩
      rw [hr] at hne
      simpa using Ne.symm hne
    · rename_i hr
      refine ⟨rfl, rfl, ?_⟩
      rw [Bool.not_eq_true] at hr
      rw [hr] at hne
      simpa using Ne.symm hne

/-- `graph` sets the pointers anew. -/
lemma graph (h : Way d d.node) (hj : Joined d) (hm : d.myself ∈ d.nodeTree) :
    Routed (graph d) := by
  obtain ⟨todo, hv⟩ := (Visits.bfsStart h hm).bfsLoop hj d.config.rounds
  have hnode := fun {n} hn => graph_node (d := d) (n := n) hn
  refine ⟨⟨fun n hn k hk => ?_, fun n hn => ?_⟩, fun n hn hr hne => ?_⟩
  · rw [(hnode hn).1, (hnode hn).2.1] at hk
    obtain ⟨h1, h2⟩ := hv.way.known n hn k hk
    exact ⟨h1, by rwa [(hnode h1).2.1]⟩
  · rw [(hnode hn).1, (hnode hn).2.1]
    exact hv.way.both n hn
  · rw [(hnode hn).2.2] at hr
    rw [(hnode hn).2.1]
    exact hv.nexthop n hn hr hne

end Routed

/-! ## What may happen to them -/

/-- `d'` has the edges of ours that `d` has. -/
structure OwnEdges (d d' : Daemon) : Prop where
  config : d'.config = d.config
  edgeTree : d'.edgeTree d.myself = d.edgeTree d.myself
  toNode : ∀ e ∈ d.edgeTree d.myself, (d'.edge e).toNode = (d.edge e).toNode

namespace OwnEdges

lemma refl (d : Daemon) : OwnEdges d d := ⟨rfl, rfl, fun _ _ => rfl⟩

lemma of_kept (h : OwnKept d d') (hf : Filed d) : OwnEdges d d' := by
  refine ⟨h.config, h.edgeTree, fun e he => ?_⟩
  obtain ⟨hfrom, hlt⟩ := hf.edge _ e he
  exact (Edge.said_inj (h.edge e hlt hfrom)).2.1

lemma of_same (h : SameIndexes d d') : OwnEdges d d' := by
  obtain ⟨_, _, _, _, _, _, _, rfl⟩ := h
  exact ⟨rfl, rfl, fun _ _ => rfl⟩

lemma trans {d'' : Daemon} (h : OwnEdges d d') (h' : OwnEdges d' d'') : OwnEdges d d'' := by
  have hmyself : d'.myself = d.myself := congrArg Config.myself h.config
  have htree := h'.edgeTree
  have hto := h'.toNode
  rw [hmyself, h.edgeTree] at htree hto
  exact ⟨h'.config.trans h.config, htree, fun e he => (hto e he).trans (h.toNode e he)⟩

lemma neighbour (h : OwnEdges d d') {k : Name} (hk : Neighbour d k) : Neighbour d' k := by
  obtain ⟨e, he, rfl⟩ := hk
  refine ⟨e, ?_, h.toNode e he⟩
  rw [Daemon.myself, h.config]
  exact h.edgeTree.symm ▸ he

end OwnEdges

/-- Nodes come, pointers are set by `graph`, and our edges stay unless `graph` is called
afterwards. -/
inductive Steers : Daemon → Daemon → Prop where
  | keeps {d d' : Daemon} : SameNodes d d' → OwnEdges d d' → Steers d d'
  | ensureNode {d : Daemon} : Filed d → ∀ n, Steers d (d.ensureNode n)
  | graph {d d' : Daemon} : SameNodes d d' → EdgeIndex d' → Steers d (Tinc.graph d')
  | trans {d d' d'' : Daemon} : Steers d d' → Steers d' d'' → Steers d d''

lemma Way.same (h : Way d d.node) (hs : SameNodes d d') : Way d' d'.node := by
  obtain ⟨-, htree, hnode⟩ := hs
  refine ⟨?_, ?_⟩
  · rw [htree, hnode]
    exact h.known
  · rw [htree, hnode]
    exact h.both

namespace Routed

lemma same (h : Routed d) (hs : SameNodes d d') (ho : OwnEdges d d') : Routed d' := by
  refine ⟨h.way.same hs, fun n hn hr hne => ?_⟩
  rw [hs.nodeTree] at hn
  rw [hs.node] at hr ⊢
  rw [Daemon.myself, ho.config] at hne ⊢
  obtain ⟨k, hk, hkm, hnb⟩ := h.nexthop n hn hr hne
  exact ⟨k, hk, hkm, ho.neighbour hnb⟩

/-- Nobody points to a node that is new. -/
lemma ensureNode (h : Routed d) (hf : Filed d) (n : Name) : Routed (d.ensureNode n) := by
  unfold Daemon.ensureNode
  split
  · rename_i hnone
    have hnew : n ∉ d.nodeTree := (lookupNode_eq_none hf.nodes).mp hnone
    have hmem : ∀ m, m ∈ (d.addNode n).nodeTree ↔ m = n ∨ m ∈ d.nodeTree := fun m =>
      mem_addNode hf.nodes
    have hself : (d.addNode n).node n = .new := update_self _ _ _
    have hold : ∀ m ∈ d.nodeTree, (d.addNode n).node m = d.node m := fun m hm =>
      update_of_ne (by rintro rfl; exact hnew hm) _ _
    refine ⟨⟨fun m hm k hk => ?_, fun m hm => ?_⟩, fun m hm hr hne => ?_⟩
    · rcases (hmem m).mp hm with rfl | hm
      · rw [hself] at hk
        simp [Node.new] at hk
      · rw [hold m hm] at hk
        obtain ⟨h1, h2⟩ := h.way.known m hm k hk
        exact ⟨(hmem k).mpr (.inr h1), by rwa [hold k h1]⟩
    · rcases (hmem m).mp hm with rfl | hm
      · rw [hself]
        simp [Node.new]
      · rw [hold m hm]
        exact h.way.both m hm
    · rcases (hmem m).mp hm with rfl | hm
      · rw [hself] at hr
        simp [Node.new] at hr
      · rw [hold m hm] at hr ⊢
        obtain ⟨k, hk, hkm, e, he, hto⟩ := h.nexthop m hm hr hne
        have hnm : d.myself ≠ n := by
          rintro rfl
          exact hnew hf.myself
        refine ⟨k, hk, hkm, e, ?_, hto⟩
        change e ∈ update d.edgeTree n [] d.myself
        rwa [update_of_ne hnm]
  · exact h

lemma steers (h : Routed d) (hs : Steers d d') : Routed d' := by
  induction hs with
  | keeps hs ho => exact h.same hs ho
  | ensureNode hf n => exact h.ensureNode hf n
  | graph hs he => exact graph (h.way.same hs) he.joined he.myself
  | trans _ _ ih ih' => exact ih' (ih h)

end Routed

namespace Steers

lemma refl (d : Daemon) : Steers d d := .keeps (.refl d) (.refl d)

/-- Only what is sent and remembered changes. -/
lemma of_same (hn : SameNodes d d') (hs : SameIndexes d d') : Steers d d' :=
  .keeps hn (.of_same hs)

lemma of_graph (h : EdgeIndex (Tinc.graph d)) : EdgeIndex d := by
  have hs : SameIndexes (Tinc.graph d) d := ⟨d.node, d.mst, _, _, _, _, _, rfl⟩
  exact h.of_same hs

/-- After the edges changed, `graph` is called. -/
lemma regraph (hn : SameNodes d d') (h : EdgeIndex (Tinc.graph d')) : Steers d (Tinc.graph d') :=
  .graph hn (of_graph h)

lemma applyAddEdge (d : Daemon) (c : ConnId) (request : Text) (r : AddEdge) :
    EdgeIndex (d.applyAddEdge c request r) → Steers d (d.applyAddEdge c request r) := by
  unfold Daemon.applyAddEdge
  split
  · split
    · exact fun _ => refl d
    · split
      · exact fun _ => of_same (.sendAddEdge d _ _) (.sendAddEdge d _ _)
      · exact regraph ((SameNodes.changeEdge d _ r).trans (.tellRest _ c request))
  · split
    · intro _
      have hsend := SameIndexes.sendDelEdge
        { d with contradictingAddEdge := d.contradictingAddEdge + 1 } (.one c) r.fromName r.toName
      refine of_same (.trans ?_ (.sendDelEdge _ _ _ _)) (.trans ?_ hsend)
      · exact ⟨rfl, rfl, rfl⟩
      · exact ⟨_, _, _, _, _, _, _, rfl⟩
    · exact regraph ((SameNodes.addNewEdge d _).trans (.tellRest _ c request))

/-- An edge back to us is cleaned up. -/
lemma cleanUp (hf : Filed d) {n : Name} (hn : n = d.myself → (d.node n).reachable = true) :
    Steers d (d.cleanUp n) := .keeps (.cleanUp d n) (.of_kept (.cleanUp hf hn) hf)

lemma applyDelEdge (h : EdgeIndex d) (c : ConnId) (request : Text) (fromName toName : Name) :
    Steers d (d.applyDelEdge c request fromName toName) := by
  unfold Daemon.applyDelEdge
  split
  · exact refl d
  · rename_i e he
    have hmem : e ∈ d.edgeTree fromName := (OrdList.search_some he).1
    split
    · have hsend := SameIndexes.sendAddEdge
        { d with contradictingDelEdge := d.contradictingDelEdge + 1 } (.one c) (d.edge e)
      refine of_same (.trans ?_ (.sendAddEdge _ _ _)) (.trans ?_ hsend)
      · exact ⟨rfl, rfl, rfl⟩
      · exact ⟨_, _, _, _, _, _, _, rfl⟩
    · have ht := SameIndexes.tellRest d c request
      have hmem' := ht.keeps (P := fun d => e ∈ d.edgeTree fromName) (fun _ _ _ _ _ _ _ h => h) hmem
      have hdel : EdgeIndex ((d.tellRest c request).edgeDel e) := ((h.of_same ht).edgeDel hmem').1
      refine .trans (.graph ((SameNodes.tellRest d c request).trans (.edgeDel _ _)) hdel)
        (cleanUp (hdel.toFiled.of_same (SameIndexes.graph _)) ?_)
      rintro rfl
      exact graph_myself hdel.myself

/-- A change of connections. -/
lemma of_conns (d : Daemon) (list : List ConnId) (conn : ConnId → Conn)
    (nodeConnection : Name → Option ConnId) (retries : List ℕ) :
    Steers d { d with
      connectionList := list, conn := conn, nodeConnection := nodeConnection,
      retries := retries } :=
  .keeps ⟨rfl, rfl, rfl⟩ ⟨rfl, rfl, fun _ _ => rfl⟩

lemma connectionDel (d : Daemon) (c : ConnId) : Steers d (d.connectionDel c) := of_conns d _ _ _ _

lemma setConn (d : Daemon) (c : ConnId) (f : Conn → Conn) : Steers d (d.setConn c f) :=
  of_conns d _ _ _ _

lemma detach (d : Daemon) (c : ConnId) (n : Name) : Steers d (d.detach c n) := by
  unfold Daemon.detach
  split
  · exact of_conns d _ _ _ _
  · exact refl d

lemma removeEdge (h : EdgeIndex d) (c : ConnId) (n : Name) {e : EdgeId}
    (he : e ∈ d.edgeTree d.myself) (report : Bool) : Steers d (d.removeEdge c n e report) := by
  unfold Daemon.removeEdge
  dsimp only
  generalize hsent : (if report = true ∧ ¬ d.config.tunnelserver = true then
      d.sendDelEdge .everyone (d.edge e).fromNode (d.edge e).toNode else d) = d₁
  have hs : SameNodes d d₁ ∧ SameIndexes d d₁ := by
    rw [← hsent]
    split
    · exact ⟨.sendDelEdge d _ _ _, .sendDelEdge d _ _ _⟩
    · exact ⟨.refl d, .refl d⟩
  have hmem : e ∈ d₁.edgeTree d.myself :=
    hs.2.keeps (P := fun d' => e ∈ d'.edgeTree d.myself) (fun _ _ _ _ _ _ _ h => h) he
  have hdel : EdgeIndex ((d₁.edgeDel e).setConn c ({ · with edge := none })) :=
    ((h.of_same hs.2).edgeDel hmem).1.setConn c _
  have hgraph : Steers d (Tinc.graph ((d₁.edgeDel e).setConn c ({ · with edge := none }))) :=
    .graph ((hs.1.trans (.edgeDel _ e)).trans (.setConn _ c _)) hdel
  split
  · refine hgraph.trans (cleanUp (hdel.toFiled.of_same (SameIndexes.graph _)) fun heq => ?_)
    rw [heq]
    exact graph_myself hdel.myself
  · exact hgraph

lemma terminateConnection (h : ConnIndex d) {c : ConnId} (hc : c ∈ d.connectionList)
    (report : Bool) : Steers d (d.terminateConnection c report) := by
  unfold Daemon.terminateConnection
  split
  · exact connectionDel d c
  · rename_i n hn
    split
    · exact (detach d c n).trans (connectionDel _ c)
    · rename_i e hce
      have hmem := (h.connEdge c hc e hce).1
      have hd : EdgeIndex (d.detach c n) ∧ (d.detach c n).myself = d.myself ∧
          (d.detach c n).edgeTree = d.edgeTree := by
        unfold Daemon.detach
        split
        · exact ⟨h.toEdgeIndex.of_conns _ _ _ _, rfl, rfl⟩
        · exact ⟨h.toEdgeIndex, rfl, rfl⟩
      refine ((detach d c n).trans (removeEdge hd.1 c n ?_ report)).trans (connectionDel _ c)
      rwa [hd.2.1, hd.2.2]

/-- An older connection ends, and `graph` is called once more. -/
lemma replace (h : ConnIndex d) {old : ConnId} (hold : old ∈ d.connectionList) :
    Steers d (Tinc.graph (d.terminateConnection old false)) :=
  (terminateConnection h hold false).trans
    (.graph (.refl _) (h.terminateConnection hold false).toEdgeIndex)

lemma tieBreak (h : ConnIndex d) {c old : ConnId} (hc : c ∈ d.connectionList)
    (hold : old ∈ d.connectionList) : Steers d (d.tieBreak c old).1 := by
  have hmove : Steers d (Tinc.graph ((d.moveOutgoing old c).terminateConnection old false)) :=
    ((setConn d c _).trans (setConn _ old _)).trans
      (replace ((h.setOutgoing hc _).setOutgoing hold _) hold)
  unfold Daemon.tieBreak
  dsimp only
  split
  · split
    · split
      · exact hmove
      · exact replace h hold
    · exact terminateConnection h hc false
  · split
    · split
      · exact hmove
      · exact terminateConnection h hc false
    · exact (setConn d c _).trans (replace (h.setOutgoing hc _) hold)

lemma activate (d : Daemon) (c : ConnId) (n : Name) (r : AckRequest) :
    EdgeIndex (d.activate c n r) → Steers d (d.activate c n r) := by
  have hbind : SameNodes d (d.bindNode c n r) := ⟨rfl, rfl, rfl⟩
  have hadd : ∀ d : Daemon, SameNodes d (d.addConnectionEdge c n r) := by
    intro d
    unfold Daemon.addConnectionEdge
    refine SameNodes.trans ?_ (.edgeAdd _ _)
    exact ⟨rfl, rfl, rfl⟩
  exact regraph (((hbind.trans (.sendEverything _ c)).trans (hadd _)).trans (.announceEdge _ c))

lemma ackH (h : ConnIndex d) {c : ConnId} (hc : c ∈ d.connectionList) (request : Text)
    (hres : ConnIndex (ackH d c request).1) : Steers d (ackH d c request).1 := by
  revert hres
  unfold Tinc.ackH
  split
  · exact fun _ => refl d
  · dsimp only
    have hensure : Steers d (d.ensureNode (d.conn c).name) := .ensureNode h.toFiled _
    have h' := h.ensureNode (d.conn c).name
    have hc' : c ∈ (d.ensureNode (d.conn c).name).connectionList := by
      unfold Daemon.ensureNode
      split <;> exact hc
    split
    · exact fun hres => hensure.trans (activate _ c _ _ hres.toEdgeIndex)
    · rename_i old hold
      have hlisted := (h'.listed _ _ hold).1
      split
      · exact fun hres => hensure.trans (activate _ c _ _ hres.toEdgeIndex)
      · have htie := hensure.trans (tieBreak h' hc' hlisted)
        split
        · exact fun hres => htie.trans (activate _ c _ _ hres.toEdgeIndex)
        · exact fun _ => htie

lemma idH (d : Daemon) (c : ConnId) (request : Text) : Steers d (idH d c request).1 := by
  obtain ⟨x, hx, -⟩ := idH_becomes d c request
  have hconn : OwnEdges d (d.setConn c fun _ => x) := ⟨rfl, rfl, fun _ _ => rfl⟩
  exact .keeps (.idH d c request) (hconn.trans (.of_same hx))

lemma addEdgeH (h : EdgeIndex d) (c : ConnId) (request : Text)
    (hres : EdgeIndex (addEdgeH d c request).1) : Steers d (addEdgeH d c request).1 := by
  have hs : Steers d (d.seenRequest request).1 :=
    of_same (.seenRequest d request) (.seenRequest d request)
  have hf := h.toFiled.of_same (SameIndexes.seenRequest d request)
  rcases addEdgeH_cases d c request with he | he | ⟨r, -, -, -, he⟩
  · rw [he]
    exact refl d
  · rw [he]
    exact hs
  · rw [he] at hres ⊢
    exact ((hs.trans (.ensureNode hf _)).trans (.ensureNode (hf.ensureNode _) _)).trans
      (applyAddEdge _ c request r hres)

lemma delEdgeH (h : EdgeIndex d) (c : ConnId) (request : Text) :
    Steers d (delEdgeH d c request).1 := by
  have hs : Steers d (d.seenRequest request).1 :=
    of_same (.seenRequest d request) (.seenRequest d request)
  rcases delEdgeH_cases d c request with he | he | ⟨_, _, -, -, -, -, -, he⟩
  · rw [he]
    exact refl d
  · rw [he]
    exact hs
  · rw [he]
    exact hs.trans (applyDelEdge (h.of_same (SameIndexes.seenRequest d request)) c request _ _)

lemma addSubnetH (h : Filed d) (c : ConnId) (request : Text) :
    Steers d (addSubnetH d c request).1 := by
  have hs : Steers d (d.seenRequest request).1 :=
    of_same (.seenRequest d request) (.seenRequest d request)
  have hf := h.of_same (SameIndexes.seenRequest d request)
  rcases addSubnetH_cases d c request with he | he | ⟨name, s, -, he⟩
  · rw [he]
    exact refl d
  · rw [he]
    exact hs
  · rw [he]
    have hn := hf.ensureNode name
    exact (hs.trans (.ensureNode hf name)).trans
      (.keeps (.applyAddSubnet _ c request name s) (.of_kept (.applyAddSubnet hn c request name s) hn))

lemma delSubnetH (h : Filed d) (c : ConnId) (request : Text) :
    Steers d (delSubnetH d c request).1 :=
  .keeps (.delSubnetH d c request) (.of_kept (.handler h .delSubnet c request) h)

end Steers

/-! ## Subnets -/

/-- Subnets, and what is sent and remembered, may differ. -/
def SubnetsOnly (d d' : Daemon) : Prop :=
  ∃ tree subnets subnet new node mst past drawn sent add del, d' =
    { d with
      subnetTree := tree, nodeSubnets := subnets, subnet := subnet, newSubnet := new, node := node,
      mst := mst, pastRequests := past, drawn := drawn, sent := sent,
      contradictingAddEdge := add, contradictingDelEdge := del }

namespace SubnetsOnly

lemma of_same (h : SameIndexes d d') : SubnetsOnly d d' := by
  obtain ⟨_, _, _, _, _, _, _, rfl⟩ := h
  exact ⟨_, _, _, _, _, _, _, _, _, _, _, rfl⟩

lemma refl (d : Daemon) : SubnetsOnly d d := of_same (.refl d)

lemma trans {d'' : Daemon} (h : SubnetsOnly d d') (h' : SubnetsOnly d' d'') : SubnetsOnly d d'' := by
  obtain ⟨_, _, _, _, _, _, _, _, _, _, _, rfl⟩ := h
  obtain ⟨_, _, _, _, _, _, _, _, _, _, _, rfl⟩ := h'
  exact ⟨_, _, _, _, _, _, _, _, _, _, _, rfl⟩

lemma subnetAdd (d : Daemon) (owner : Option Name) (s : Subnet) :
    SubnetsOnly d (d.subnetAdd owner s) := ⟨_, _, _, _, _, _, _, _, _, _, _, rfl⟩

lemma subnetDel (d : Daemon) (owner : Option Name) (s : SubnetId) :
    SubnetsOnly d (d.subnetDel owner s) := ⟨_, _, _, _, _, _, _, _, _, _, _, rfl⟩

lemma handoff (d : Daemon) (s : Subnet) : SubnetsOnly d (d.handoff s) := by
  unfold Daemon.handoff
  split
  · split
    · split
      · exact refl d
      · exact ⟨_, _, _, _, _, _, _, _, _, _, _, rfl⟩
    · exact refl d
  · exact refl d

lemma applyAddSubnet (d : Daemon) (c : ConnId) (request : Text) (owner : Name) (s : Subnet) :
    SubnetsOnly d (d.applyAddSubnet c request owner s) := by
  unfold Daemon.applyAddSubnet
  split
  · exact refl d
  split
  · exact of_same (.sendSubnet _ _ _ _ _)
  split
  · exact refl d
  split
  · exact of_same (.broadcastMeta _ _ _)
  · exact ((subnetAdd d _ s).trans (of_same (.tellRest _ c request))).trans (handoff _ s)

lemma applyDelSubnet (d : Daemon) (c : ConnId) (request : Text) (owner : Name) (s : Subnet) :
    SubnetsOnly d (d.applyDelSubnet c request owner s) := by
  unfold Daemon.applyDelSubnet
  split
  · split
    · exact of_same (.broadcastMeta _ _ _)
    · exact refl d
  · split
    · exact of_same (.sendSubnet _ _ _ _ _)
    split
    · exact refl d
    split
    · exact of_same (.tellRest _ _ _)
    · exact (of_same (.tellRest _ c request)).trans (subnetDel _ _ _)

/-- No index of edges and connections looks at subnets. -/
lemma connIndex (hs : SubnetsOnly d d') (h : ConnIndex d) (hf : Filed d') : ConnIndex d' := by
  obtain ⟨_, _, _, _, _, _, _, _, _, _, _, rfl⟩ := hs
  exact ⟨⟨hf, h.shelved, h.reversed⟩, h.node, h.listed, h.connEdge, h.noEdge, h.own, h.name⟩

lemma ownEdges (hs : SubnetsOnly d d') : OwnEdges d d' := by
  obtain ⟨_, _, _, _, _, _, _, _, _, _, _, rfl⟩ := hs
  exact ⟨rfl, rfl, fun _ _ => rfl⟩

end SubnetsOnly

namespace ConnIndex

lemma addSubnetH (h : ConnIndex d) (c : ConnId) (request : Text) :
    ConnIndex (addSubnetH d c request).1 := by
  have hs := h.of_same (SameIndexes.seenRequest d request)
  rcases addSubnetH_cases d c request with he | he | ⟨name, s, -, he⟩
  · rw [he]
    exact h
  · rw [he]
    exact hs
  · rw [he]
    have hn := hs.ensureNode name
    exact (SubnetsOnly.applyAddSubnet _ c request name s).connIndex hn
      (hn.toFiled.applyAddSubnet c request name s)

lemma delSubnetH (h : ConnIndex d) (c : ConnId) (request : Text) :
    ConnIndex (delSubnetH d c request).1 := by
  have hs := h.of_same (SameIndexes.seenRequest d request)
  rcases delSubnetH_cases d c request with he | he | ⟨name, s, he⟩
  · rw [he]
    exact h
  · rw [he]
    exact hs
  · rw [he]
    exact (SubnetsOnly.applyDelSubnet _ c request name s).connIndex hs
      (hs.toFiled.applyDelSubnet c request name s)

end ConnIndex

/-! ## `purge` -/

/-- Nodes were deleted; nothing else happened to them and to our edges. -/
structure Sheds (d d' : Daemon) : Prop where
  node : d'.node = d.node
  nodeTree : d'.nodeTree ⊆ d.nodeTree
  own : OwnEdges d d'

namespace Sheds

lemma of_same (hs : SameNodes d d') (ho : OwnEdges d d') : Sheds d d' :=
  ⟨hs.node, hs.nodeTree ▸ List.Subset.refl _, ho⟩

lemma refl (d : Daemon) : Sheds d d := of_same (.refl d) (.refl d)

lemma trans {d'' : Daemon} (h : Sheds d d') (h' : Sheds d' d'') : Sheds d d'' :=
  ⟨h'.node.trans h.node, List.Subset.trans h'.nodeTree h.nodeTree, h.own.trans h'.own⟩

end Sheds

namespace ConnIndex

/-- An edge of somebody else is deleted. -/
lemma edgeDel (h : ConnIndex d) {e : EdgeId} (he : e ∈ d.edgeTree n) (hn : n ≠ d.myself) :
    ConnIndex (d.edgeDel e) ∧ OwnEdges d (d.edgeDel e) ∧
      (d.edgeDel e).nodeConnection = d.nodeConnection ∧
      ∀ m j, j ∈ (d.edgeDel e).edgeTree m ↔ j ∈ d.edgeTree m ∧ j ≠ e := by
  have hfrom : (d.edge e).fromNode ≠ d.myself := by rwa [h.shelved.start n e he]
  obtain ⟨hdel, hmem⟩ := h.toEdgeIndex.edgeDel he
  refine ⟨h.of_own hdel (.edgeDel hfrom) (.edgeDel d e), .of_kept (.edgeDel hfrom) h.toFiled, ?_,
    hmem⟩
  obtain ⟨_, _, _, _, _, _, _, _, _, _, _, heq⟩ := SameConns.edgeDel d e
  rw [heq]

/-- The edges of somebody else are deleted, and everyone may be told before. -/
lemma foldlEdgeDel (tell : Daemon → EdgeId → Daemon) (htell : ∀ d e, SameIndexes d (tell d e))
    (l : List EdgeId) (hl : l.Nodup) (h : ConnIndex d) (hsub : ∀ e ∈ l, e ∈ d.edgeTree n)
    (hn : n ≠ d.myself) : ConnIndex (l.foldl (fun d e => (tell d e).edgeDel e) d) ∧
      OwnEdges d (l.foldl (fun d e => (tell d e).edgeDel e) d) ∧
      (l.foldl (fun d e => (tell d e).edgeDel e) d).nodeConnection = d.nodeConnection ∧
      ∀ m j, j ∈ (l.foldl (fun d e => (tell d e).edgeDel e) d).edgeTree m ↔
        j ∈ d.edgeTree m ∧ j ∉ l := by
  induction l generalizing d with
  | nil => exact ⟨h, .refl d, rfl, fun m j => by simp⟩
  | cons e l ih =>
      obtain ⟨hel, hl⟩ := List.nodup_cons.1 hl
      have htold := htell d e
      have hown := OwnEdges.of_same htold
      have htree : (tell d e).edgeTree = d.edgeTree ∧
          (tell d e).nodeConnection = d.nodeConnection := by
        obtain ⟨_, _, _, _, _, _, _, heq⟩ := htold
        rw [heq]
        exact ⟨rfl, rfl⟩
      have hmyself : (tell d e).myself = d.myself := congrArg Config.myself hown.config
      have he : e ∈ (tell d e).edgeTree n := htree.1 ▸ hsub e List.mem_cons_self
      obtain ⟨h1, hown1, hconn1, hmem1⟩ := (h.of_same htold).edgeDel he (hmyself ▸ hn)
      have hmyself1 : ((tell d e).edgeDel e).myself = d.myself :=
        (congrArg Config.myself hown1.config).trans hmyself
      have hsub' : ∀ j ∈ l, j ∈ ((tell d e).edgeDel e).edgeTree n := fun j hj =>
        (hmem1 n j).mpr ⟨htree.1 ▸ hsub j (List.mem_cons_of_mem _ hj), fun hje => hel (hje ▸ hj)⟩
      obtain ⟨h2, hown2, hconn2, hmem2⟩ := ih hl h1 hsub' (hmyself1 ▸ hn)
      refine ⟨h2, (hown.trans hown1).trans hown2, hconn2.trans (hconn1.trans htree.2),
        fun m j => ?_⟩
      rw [List.foldl_cons, hmem2, hmem1, htree.1, List.mem_cons, not_or]
      tauto

/-- Subnets are added or deleted. -/
lemma foldlSubnet {β : Type} {f : Daemon → β → Daemon}
    (hf : ∀ d s, SubnetsOnly d (f d s) ∧ (Filed d → Filed (f d s))) (l : List β)
    (h : ConnIndex d) : ConnIndex (l.foldl f d) ∧ SubnetsOnly d (l.foldl f d) := by
  induction l generalizing d with
  | nil => exact ⟨h, .refl d⟩
  | cons s l ih =>
      obtain ⟨h1, h2⟩ := hf d s
      obtain ⟨h3, h4⟩ := ih (h1.connIndex h (h2 h.toFiled))
      exact ⟨h3, h1.trans h4⟩

lemma purgeNode (h : ConnIndex d) (hn : (d.node n).reachable = false → n ≠ d.myself) :
    ConnIndex (d.purgeNode n) ∧ OwnEdges d (d.purgeNode n) := by
  unfold Daemon.purgeNode
  split
  · exact ⟨h, .refl d⟩
  · rename_i hr
    have hne : n ≠ d.myself := hn (by simpa using hr)
    dsimp only
    have hsub : ∀ (d : Daemon) (s : SubnetId),
        SubnetsOnly d (if (d.announceDelSubnet n s).config.strictsubnets = true then
          d.announceDelSubnet n s else (d.announceDelSubnet n s).subnetDel (some n) s) ∧
        (Filed d → Filed (if (d.announceDelSubnet n s).config.strictsubnets = true then
          d.announceDelSubnet n s else (d.announceDelSubnet n s).subnetDel (some n) s)) := by
      intro d s
      have hs := SameIndexes.announceDelSubnet d n s
      split
      · exact ⟨.of_same hs, fun hf => hf.of_same hs⟩
      · exact ⟨(SubnetsOnly.of_same hs).trans (.subnetDel _ _ s),
          fun hf => (hf.of_same hs).subnetDel _ s⟩
    obtain ⟨h1, hs1⟩ := foldlSubnet hsub (d.nodeSubnets n) h
    generalize (d.nodeSubnets n).foldl _ d = d₁ at h1 hs1 ⊢
    have hown := hs1.ownEdges
    have hmyself : d₁.myself = d.myself := congrArg Config.myself hown.config
    have htell : ∀ (d : Daemon) (e : EdgeId), SameIndexes d (if d.config.tunnelserver = true then d
        else d.sendDelEdge .everyone (d.edge e).fromNode (d.edge e).toNode) := by
      intro d e
      split
      · exact .refl d
      · exact .sendDelEdge d _ _ _
    obtain ⟨h2, hown2, -⟩ := h1.foldlEdgeDel _ htell _ (h1.shelved.sorted n).nodup (fun _ he => he)
      (hmyself ▸ hne)
    exact ⟨h2, hown.trans hown2⟩

/-- A node to which there is no edge has no connection. -/
lemma nodeConnection_eq_none (h : ConnIndex d)
    (hto : ∀ e ∈ d.edgeWeightTree, (d.edge e).toNode ≠ n) : d.nodeConnection n = none := by
  by_contra hne
  obtain ⟨c, hc⟩ := Option.ne_none_iff_exists'.mp hne
  have hlisted := (h.listed n c hc).1
  have hnode := (h.node c hlisted n).mp hc
  cases hedge : (d.conn c).edge with
  | none =>
      rw [h.noEdge c hlisted hedge] at hnode
      cases hnode
  | some e =>
      obtain ⟨hmem, -, hnode'⟩ := h.connEdge c hlisted e hedge
      have hweight : e ∈ d.edgeWeightTree :=
        (h.shelved.both e).mpr (by rwa [h.shelved.start _ e hmem])
      exact hto e hweight (Option.some.inj (hnode'.symm.trans hnode))

lemma nodeDel (h : ConnIndex d) (hn : n ≠ d.myself)
    (hto : ∀ e ∈ d.edgeWeightTree, (d.edge e).toNode ≠ n) :
    ConnIndex (d.nodeDel n) ∧ Sheds d (d.nodeDel n) := by
  have hfree := h.nodeConnection_eq_none hto
  have hfiled := h.toFiled.nodeDel hn
  have hclear := SameNodes.clearNode d n
  unfold Daemon.nodeDel at hfiled ⊢
  dsimp only at hfiled ⊢
  have hsub : ∀ (d : Daemon) (s : SubnetId), SubnetsOnly d (d.subnetDel (some n) s) ∧
      (Filed d → Filed (d.subnetDel (some n) s)) := fun d s =>
    ⟨.subnetDel d _ s, fun hf => hf.subnetDel _ s⟩
  obtain ⟨h1, hs1⟩ := foldlSubnet hsub (d.nodeSubnets n) h
  generalize (d.nodeSubnets n).foldl (fun d s => d.subnetDel (some n) s) d = d₁
    at h1 hs1 hfiled hclear ⊢
  have hown := hs1.ownEdges
  have hfree1 : d₁.nodeConnection n = none := by
    obtain ⟨_, _, _, _, _, _, _, _, _, _, _, rfl⟩ := hs1
    exact hfree
  obtain ⟨h2, hown2, hconn, hmem⟩ := h1.foldlEdgeDel (fun d _ => d) (fun d _ => .refl d) _
    (h1.shelved.sorted n).nodup (fun _ he => he)
    (hn.trans_eq (congrArg Config.myself hown.config).symm)
  change SameNodes d ((d₁.edgeTree n).foldl (fun d e => d.edgeDel e) d₁) at hclear
  change Filed { (d₁.edgeTree n).foldl (fun d e => d.edgeDel e) d₁ with nodeTree := _ } at hfiled
  change ConnIndex { (d₁.edgeTree n).foldl (fun d e => d.edgeDel e) d₁ with nodeTree := _ } ∧
    Sheds d { (d₁.edgeTree n).foldl (fun d e => d.edgeDel e) d₁ with nodeTree := _ }
  generalize (d₁.edgeTree n).foldl (fun d e => d.edgeDel e) d₁ = d₂ at *
  have hempty : d₂.edgeTree n = [] := List.eq_nil_iff_forall_not_mem.2 fun j hj =>
    ((hmem n j).mp hj).2 ((hmem n j).mp hj).1
  have hstill : ∀ m ∈ d₂.nodeTree, m ≠ n → m ∈ OrdList.delete (strcmp n) d₂.nodeTree :=
    fun m hm hmn => OrdList.mem_delete_of_ne hm fun h0 => hmn (strcmp_eq_zero.mp h0).symm
  have hs := h2.shelved
  refine ⟨⟨⟨hfiled, ⟨hs.sorted, hs.weightSorted, hs.start, hs.both, hs.near, fun m hm => ?_,
    hs.proper⟩, h2.reversed⟩, h2.node, fun m c hc => ?_, h2.connEdge, h2.noEdge, h2.own, h2.name⟩,
    hclear.node, ?_, ⟨(hown.trans hown2).config, (hown.trans hown2).edgeTree,
      (hown.trans hown2).toNode⟩⟩
  · by_cases hmn : m = n
    · rw [hmn]
      exact hempty
    · exact hs.known m fun hmem => hm (hstill m hmem hmn)
  · obtain ⟨hlisted, hknown⟩ := h2.listed m c hc
    refine ⟨hlisted, hstill m hknown ?_⟩
    rintro rfl
    change d₂.nodeConnection m = some c at hc
    rw [hconn, hfree1] at hc
    cases hc
  · intro m hm
    rw [← hclear.nodeTree]
    exact OrdList.mem_of_mem_delete hm

lemma purgeNodes (autoconnect : Bool) (nodes : List Name) (h : ConnIndex d) (hd : Home d) :
    ConnIndex (Daemon.purgeNodes autoconnect nodes d) ∧
      Sheds d (Daemon.purgeNodes autoconnect nodes d) := by
  induction nodes generalizing d with
  | nil => exact ⟨h, .refl d⟩
  | cons n nodes ih =>
      unfold Daemon.purgeNodes
      split
      · exact ih h hd
      · rename_i hreach
        have hn : n ≠ d.myself := by
          rintro rfl
          exact hreach hd.reachable
        split
        · exact ⟨h, .refl d⟩
        · rename_i hto
          split
          · have hto' : ∀ e ∈ d.edgeWeightTree, (d.edge e).toNode ≠ n := by simpa using hto
            obtain ⟨h1, hs1⟩ := h.nodeDel hn hto'
            obtain ⟨h2, hs2⟩ := ih h1 (hd.nodeDel hn)
            exact ⟨h2, hs1.trans hs2⟩
          · exact ih h hd

/-- `purge` keeps the indexes of edges and connections. -/
lemma purge (h : ConnIndex d) (hd : Home d) (autoconnect : Bool) :
    ConnIndex (d.purge autoconnect) ∧ Sheds d (d.purge autoconnect) := by
  have hfold : ∀ (l : List Name) (d : Daemon), ConnIndex d → Home d →
      ConnIndex (l.foldl Daemon.purgeNode d) ∧ Home (l.foldl Daemon.purgeNode d) ∧
        Sheds d (l.foldl Daemon.purgeNode d) := by
    intro l
    induction l with
    | nil => exact fun d h hd => ⟨h, hd, .refl d⟩
    | cons n l ih =>
        intro d h hd
        obtain ⟨h1, hown⟩ := h.purgeNode (n := n) fun hr heq => by
          rw [heq, hd.reachable] at hr
          cases hr
        obtain ⟨h2, hd2, hs2⟩ := ih _ h1 (hd.purgeNode n)
        exact ⟨h2, hd2, (Sheds.of_same (.purgeNode d n) hown).trans hs2⟩
  obtain ⟨h1, hd1, hs1⟩ := hfold d.nodeTree d h hd
  obtain ⟨h2, hs2⟩ := h1.purgeNodes autoconnect _ hd1
  exact ⟨h2, hs1.trans hs2⟩

end ConnIndex

/-- Nobody who is left points to a node that was deleted. -/
def NoneLost (d d' : Daemon) : Prop :=
  ∀ n ∈ d'.nodeTree, (∀ m ∈ (d.node n).via, m ∈ d'.nodeTree) ∧
    ∀ m ∈ (d.node n).nexthop, m ∈ d'.nodeTree

instance : Decidable (NoneLost d d') := inferInstanceAs (Decidable (∀ _ ∈ _, _ ∧ _))

lemma Routed.sheds (h : Routed d) (hs : Sheds d d') (hl : NoneLost d d') : Routed d' := by
  refine ⟨⟨fun n hn m hm => ?_, fun n hn => ?_⟩, fun n hn hr hne => ?_⟩
  · rw [hs.node] at hm ⊢
    refine ⟨?_, (h.way.known n (hs.nodeTree hn) m hm).2⟩
    rcases hm with hm | hm
    · exact (hl n hn).1 m hm
    · exact (hl n hn).2 m hm
  · rw [hs.node]
    exact h.way.both n (hs.nodeTree hn)
  · rw [hs.node] at hr ⊢
    have hmyself : d'.myself = d.myself := congrArg Config.myself hs.own.config
    rw [hmyself] at hne ⊢
    obtain ⟨k, hk, hkm, hnb⟩ := h.nexthop n (hs.nodeTree hn) hr hne
    exact ⟨k, hk, hkm, hs.own.neighbour hnb⟩

/-! ## Runs -/

/-- What can happen: new connections are like `new_connection` makes them, requests come on
connections that are there, and nodes are deleted by `purge` only. -/
def Happening.Possible (d : Daemon) : Happening → Prop
  | .event (.connectionAdd c conn) => c ∉ d.connectionList ∧ conn.node = none ∧ conn.edge = none ∧
      conn.allowRequest ≠ Request.ack.number ∧ conn.allowRequest ≠ allRequests
  | .event (.receive c _) => c ∈ d.connectionList
  | .event (.terminate c _) => c ∈ d.connectionList
  | .event (.nodeDel _) => False
  | _ => True

/-- No ACK comes on a connection that has an edge already, every new weight can be compared with the
weights of the other edges, and `purge` deletes no node that a node which it keeps points to. -/
def Happening.Keeps (d : Daemon) : Happening → Prop
  | .event e => e.Orderly d
  | .purge autoconnect => NoneLost d (d.purge autoconnect)

instance Happening.decidablePossible (x : Happening) : Decidable (x.Possible d) :=
  match x with
  | .event (.connectionAdd _ _) => inferInstanceAs (Decidable (_ ∧ _))
  | .event (.receive _ _) => inferInstanceAs (Decidable (_ ∈ _))
  | .event (.terminate _ _) => inferInstanceAs (Decidable (_ ∈ _))
  | .event (.nodeDel _) => isFalse id
  | .event (.subnetAdd _ _) => isTrue trivial
  | .event (.subnetDel _ _) => isTrue trivial
  | .event (.agePastRequests _) => isTrue trivial
  | .purge _ => isTrue trivial

instance (x : Happening) : Decidable (x.Keeps d) :=
  match x with
  | .event e => inferInstanceAs (Decidable (e.Orderly d))
  | .purge autoconnect => inferInstanceAs (Decidable (NoneLost d (d.purge autoconnect)))

/-- What holds in every state. -/
structure Sound (d : Daemon) : Prop where
  index : ConnIndex d
  home : Home d
  routed : Routed d

namespace Sound

/-- A request that is admitted. -/
lemma handler (h : Sound d) {c : ConnId} (hc : c ∈ d.connectionList) {r : Request} {request : Text}
    (hgate : d.gate c request = .admitted r) (ho : (Event.receive c request).Orderly d) :
    ConnIndex (handler r d c request).1 ∧ Steers d (handler r d c request).1 := by
  have hi := h.index
  cases r with
  | id => exact ⟨hi.idH hc request, .idH d c request⟩
  | ack =>
      have hres : ConnIndex (ackH d c request).1 := by
        by_cases hp : parseAck request = none
        · simpa [ackH, hp] using hi
        · obtain ⟨r, hr⟩ := Option.ne_none_iff_exists'.mp hp
          refine hi.ackH hc ?_ (ho.1 hgate r hr).1 fun r hr => (ho.1 hgate r hr).2
          rcases gate_admitted hgate with ha | ha | ⟨-, ha⟩
          · exact .inr ha
          · exact .inl ha
          · cases ha
      exact ⟨hres, .ackH hi hc request hres⟩
  | addSubnet => exact ⟨hi.addSubnetH c request, .addSubnetH hi.toFiled c request⟩
  | delSubnet => exact ⟨hi.delSubnetH c request, .delSubnetH hi.toFiled c request⟩
  | addEdge =>
      have hres := hi.addEdgeH c request fun r hr => ho.2 hgate r hr
      exact ⟨hres, .addEdgeH hi.toEdgeIndex c request hres.toEdgeIndex⟩
  | delEdge => exact ⟨hi.delEdgeH c request, .delEdgeH hi.toEdgeIndex c request⟩
  | ping =>
      exact ⟨hi.of_same (SameIndexes.sendRequest d c _),
        .of_same (.sendRequest d c _) (.sendRequest d c _)⟩
  | _ => exact ⟨hi, .refl d⟩

lemma step (h : Sound d) {e : Event} (hp : Happening.Possible d (.event e)) (ho : e.Orderly d) :
    ConnIndex (d.step e) ∧ Steers d (d.step e) := by
  have hi := h.index
  cases e with
  | connectionAdd c conn =>
      exact ⟨hi.connectionAdd hp.1 hp.2.1 hp.2.2.1 hp.2.2.2, .of_conns d _ _ _ _⟩
  | receive c request =>
      unfold Daemon.step Daemon.receive
      dsimp only
      split
      · exact ⟨hi, .refl d⟩
      · exact ⟨hi, .refl d⟩
      · rename_i r hgate
        exact h.handler hp hgate ho
  | terminate c report =>
      exact ⟨hi.terminateConnection hp report, .terminateConnection hi hp report⟩
  | subnetAdd owner s =>
      have hs := SubnetsOnly.subnetAdd d owner s
      exact ⟨hs.connIndex hi (hi.toFiled.subnetAdd owner s),
        .keeps (.subnetAdd d owner s) hs.ownEdges⟩
  | subnetDel owner s =>
      have hs := SubnetsOnly.subnetDel d owner s
      exact ⟨hs.connIndex hi (hi.toFiled.subnetDel owner s),
        .keeps (.subnetDel d owner s) hs.ownEdges⟩
  | agePastRequests keep =>
      exact ⟨hi.of_same ⟨_, _, _, _, _, _, _, rfl⟩,
        .of_same ⟨rfl, rfl, rfl⟩ ⟨_, _, _, _, _, _, _, rfl⟩⟩
  | nodeDel n => exact hp.elim

lemma happen (h : Sound d) {x : Happening} (hp : x.Possible d) (hk : x.Keeps d) :
    Sound (d.happen x) := by
  cases x with
  | purge autoconnect =>
      obtain ⟨hi, hs⟩ := h.index.purge h.home autoconnect
      exact ⟨hi, h.home.purge autoconnect, h.routed.sheds hs hk⟩
  | event e =>
      obtain ⟨hi, hs⟩ := h.step hp hk
      refine ⟨hi, h.home.evolves (.step d ?_), h.routed.steers hs⟩
      rintro n rfl
      exact hp

/-- A node of `hosts.json` is loaded. -/
lemma loadNode (h : Sound d) (host : Name × Option Subnet) : Sound (d.loadNode host) := by
  unfold Daemon.loadNode
  split
  · exact h
  · have hn : Sound (d.ensureNode host.1) :=
      ⟨h.index.ensureNode _, h.home.ensureNode _, h.routed.ensureNode h.index.toFiled _⟩
    dsimp only
    split
    · exact hn
    · split
      · exact hn
      · rename_i s _ _
        have hs := SubnetsOnly.subnetAdd (d.ensureNode host.1) (some host.1) s
        exact ⟨hs.connIndex hn.index (hn.index.toFiled.subnetAdd _ s),
          hn.home.same (.subnetAdd _ _ s), hn.routed.same (.subnetAdd _ _ s) hs.ownEdges⟩

lemma setup (config : Config) (rand : ℕ → ℕ) (own broadcasts : List Subnet)
    (hosts : List (Name × Option Subnet)) : Sound (.setup config rand own broadcasts hosts) := by
  have hload : ∀ (hosts : List (Name × Option Subnet)) (d : Daemon), Sound d →
      Sound (hosts.foldl Daemon.loadNode d) := by
    intro hosts
    induction hosts with
    | nil => exact fun _ h => h
    | cons host hosts ih => exact fun d h => ih _ (h.loadNode host)
  obtain ⟨h1, -⟩ := (ConnIndex.init config rand).foldlSubnet
    (f := fun d s => d.subnetAdd (some d.myself) s)
    (fun d s => ⟨.subnetAdd d _ s, fun hf => hf.subnetAdd _ s⟩) own
  obtain ⟨h2, -⟩ := h1.foldlSubnet (f := fun d s => d.subnetAdd none s)
    (fun d s => ⟨.subnetAdd d _ s, fun hf => hf.subnetAdd _ s⟩) broadcasts
  have hsame : SameNodes (.init config rand) (broadcasts.foldl (fun d s => d.subnetAdd none s)
      (own.foldl (fun d s => d.subnetAdd (some d.myself) s) (.init config rand))) :=
    (SameNodes.foldl (fun d s => .subnetAdd d _ s) own _).trans
      (SameNodes.foldl (fun d s => .subnetAdd d _ s) broadcasts _)
  have hway : Way (.init config rand) (Daemon.init config rand).node :=
    ⟨fun n _ m hm => by simp [Daemon.init, Node.new] at hm, fun n _ => by
      simp [Daemon.init, Node.new]⟩
  exact hload hosts _ ⟨h2.of_same (SameIndexes.graph _), .graph h2.nodes h2.myself,
    .graph (hway.same hsame) h2.toEdgeIndex.joined h2.myself⟩

/-- It holds in every state of a run in which `purge` leaves no pointer behind. -/
lemma run (config : Config) (rand : ℕ → ℕ) (own broadcasts : List Subnet)
    (hosts : List (Name × Option Subnet)) {happenings : List Happening}
    (hp : Along Daemon.happen Happening.Possible (.setup config rand own broadcasts hosts)
      happenings)
    (hk : Along Daemon.happen Happening.Keeps (.setup config rand own broadcasts hosts)
      happenings) :
    Sound (happenings.foldl Daemon.happen (.setup config rand own broadcasts hosts)) :=
  Along.invariant (fun _ _ h ha => h.happen ha.1 ha.2) (setup config rand own broadcasts hosts)
    (hp.and hk)

end Sound

end Tinc
