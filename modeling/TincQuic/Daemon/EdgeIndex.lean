import TincQuic.Daemon.Run

/-!
# The indexes of edges

Every edge is found in two ways, under the node it starts from and by its weight, and it points to
its reverse.  The three indexes are updated by hand, in `edge_add`, in `edge_del` and where
`add_edge_h` changes a weight.

* `Shelved` says that the trees are sorted and contain the same edges.  The order of
  `edge_weight_tree` is one only as long as the difference of two weights fits into an `int`;
  `Near` is that condition.
* `Reversed` says that `e->reverse` is what `lookup_edge` finds.
* **The operations keep both**: `EdgeIndex.addNewEdge`, `EdgeIndex.edgeDel`,
  `EdgeIndex.changeEdge`.
-/

namespace Tinc

open CText Function

/-! ## The two orders -/

/-- The difference of the weights does not overflow, either way. -/
def Near (v w : ℤ) : Prop := v - w < 2 ^ 31 ∧ w - v < 2 ^ 31

instance Near.decidable (v w : ℤ) : Decidable (Near v w) := inferInstanceAs (Decidable (_ ∧ _))

lemma Near.symm {v w : ℤ} (h : Near v w) : Near w v := ⟨h.2, h.1⟩

/-- The key of an edge in `edge_weight_tree`. -/
def weightKey (e : Edge) : ℤ ×ₗ List ℕ ×ₗ List ℕ :=
  toLex (e.weight, toLex (textKey e.fromNode, textKey e.toNode))

lemma toInt32_sub {v w : ℤ} (h : Near v w) : toInt32 (v - w) = v - w := by
  obtain ⟨h1, h2⟩ := h
  unfold toInt32
  omega

lemma edgeWeightCompare_spec {a b : Edge} (h : Near a.weight b.weight) :
    (edgeWeightCompare a b = 0 ↔ weightKey a = weightKey b) ∧
    (edgeWeightCompare a b < 0 ↔ weightKey a < weightKey b) := by
  unfold edgeWeightCompare weightKey
  simp only [toInt32_sub h, Prod.Lex.toLex_lt_toLex, EmbeddingLike.apply_eq_iff_eq, Prod.mk.injEq,
    textKey_inj]
  by_cases hw : a.weight = b.weight
  · simp only [hw, sub_self, ne_eq, not_true_eq_false, if_false, lt_irrefl, true_and, false_or]
    by_cases hf : a.fromNode = b.fromNode
    · simp only [hf, strcmp_eq_zero.mpr, not_true_eq_false, if_false, strcmp_eq_zero, strcmp_neg,
        lt_irrefl, true_and, false_or, and_self]
    · have hne : strcmp a.fromNode b.fromNode ≠ 0 := fun h => hf (strcmp_eq_zero.mp h)
      simp only [hne, not_false_eq_true, if_true, hf, false_and, or_false, strcmp_neg, and_self]
  · have hne : a.weight - b.weight ≠ 0 := sub_ne_zero.mpr hw
    simp only [hne, ne_eq, not_false_eq_true, if_true, hw, false_and, or_false, sub_neg, and_self]

/-! ## The invariant -/

section Shelves

/- The three indexes by themselves: the edges, the tree of every node, the tree of weights, and the
nodes. -/
variable {edge edge' : EdgeId → Edge} {tree : Name → List EdgeId} {weights : List EdgeId}
  {nodes : List Name} {n m : Name} {e : EdgeId}

/-- The key of an edge in the tree of its start. -/
def toKey (edge : EdgeId → Edge) (e : EdgeId) : List ℕ := textKey (edge e).toNode

/-- Both trees are sorted and contain the same edges. -/
structure Shelved (edge : EdgeId → Edge) (tree : Name → List EdgeId) (weights : List EdgeId)
    (nodes : List Name) : Prop where
  sorted : ∀ n, OrdList.Sorted (toKey edge) (tree n)
  weightSorted : OrdList.Sorted (fun e => weightKey (edge e)) weights
  start : ∀ n, ∀ e ∈ tree n, (edge e).fromNode = n
  both : ∀ e, e ∈ weights ↔ e ∈ tree (edge e).fromNode
  near : ∀ e ∈ weights, ∀ i ∈ weights, Near (edge e).weight (edge i).weight
  known : ∀ n, n ∉ nodes → tree n = []
  proper : ∀ n, ∀ e ∈ tree n, (edge e).toNode ≠ n

/-- `lookup_edge` -/
def findEdge (edge : EdgeId → Edge) (tree : Name → List EdgeId) (n m : Name) : Option EdgeId :=
  OrdList.search (fun e => strcmp m (edge e).toNode) (tree n)

/-- Every edge points to its reverse. -/
def Reversed (edge : EdgeId → Edge) (tree : Name → List EdgeId) : Prop :=
  ∀ n, ∀ e ∈ tree n, (edge e).reverse = findEdge edge tree (edge e).toNode n

lemma follows_toKey (m : Name) (l : List EdgeId) :
    OrdList.Follows (fun e => strcmp m (edge e).toNode) (textKey m) (toKey edge) l :=
  fun _ _ => ⟨strcmp_eq_zero.trans textKey_inj.symm, strcmp_neg⟩

/-- The search in `edge_weight_tree` is by key if the weights are near. -/
lemma follows_weightKey {a : Edge} {l : List EdgeId} (h : ∀ i ∈ l, Near a.weight (edge i).weight) :
    OrdList.Follows (fun i => edgeWeightCompare a (edge i)) (weightKey a)
      (fun i => weightKey (edge i)) l :=
  fun i hi => edgeWeightCompare_spec (h i hi)

namespace Shelved

lemma findEdge_eq_some (h : Shelved edge tree weights nodes) :
    findEdge edge tree n m = some e ↔ e ∈ tree n ∧ (edge e).toNode = m := by
  rw [findEdge, OrdList.search_eq_some_iff (follows_toKey m _) (h.sorted n), toKey, textKey_inj]

lemma findEdge_eq_none (h : Shelved edge tree weights nodes) :
    findEdge edge tree n m = none ↔ ∀ e ∈ tree n, (edge e).toNode ≠ m := by
  rw [findEdge, OrdList.search_eq_none_iff (follows_toKey m _) (h.sorted n)]
  simp only [toKey, ne_eq, textKey_inj]

/-- The trees do not look at `reverse`, options and addresses. -/
lemma congr (h : Shelved edge tree weights nodes)
    (hfrom : ∀ e, (edge' e).fromNode = (edge e).fromNode)
    (hto : ∀ e, (edge' e).toNode = (edge e).toNode)
    (hw : ∀ e, (edge' e).weight = (edge e).weight) : Shelved edge' tree weights nodes := by
  have hkey : toKey edge' = toKey edge := funext fun e => by rw [toKey, hto, toKey]
  have hwkey : (fun e => weightKey (edge' e)) = fun e => weightKey (edge e) :=
    funext fun e => by rw [weightKey, weightKey, hfrom, hto, hw]
  refine ⟨?_, ?_, ?_, ?_, ?_, h.known, ?_⟩
  · rw [hkey]
    exact h.sorted
  · rw [hwkey]
    exact h.weightSorted
  · intro n e he
    rw [hfrom]
    exact h.start n e he
  · intro e
    rw [hfrom]
    exact h.both e
  · intro e he i hi
    rw [hw, hw]
    exact h.near e he i hi
  · intro n e he
    rw [hto]
    exact h.proper n e he

lemma of_said (h : Shelved edge tree weights nodes) (hs : ∀ i, (edge' i).said = (edge i).said) :
    Shelved edge' tree weights nodes :=
  h.congr (fun i => (Edge.said_inj (hs i)).1) (fun i => (Edge.said_inj (hs i)).2.1)
    fun i => (Edge.said_inj (hs i)).2.2.1

/-- Pointers that are right go both ways. -/
lemma reverse_symm (h : Shelved edge tree weights nodes) (hr : Reversed edge tree) {r : EdgeId}
    (he : e ∈ tree n) (her : (edge e).reverse = some r) : (edge r).reverse = some e := by
  rw [hr n e he, h.findEdge_eq_some] at her
  rw [hr _ r her.1, h.findEdge_eq_some, her.2]
  exact ⟨he, rfl⟩

end Shelved

lemma findEdge_congr {tree' : Name → List EdgeId} (htree : tree' n = tree n)
    (hto : ∀ e, (edge' e).toNode = (edge e).toNode) :
    findEdge edge' tree' n m = findEdge edge tree n m := by
  rw [findEdge, htree]
  exact OrdList.search_congr fun e _ => by rw [hto]

lemma Reversed.congr (h : Reversed edge tree) (hto : ∀ e, (edge' e).toNode = (edge e).toNode)
    (hrev : ∀ e, (edge' e).reverse = (edge e).reverse) : Reversed edge' tree := by
  intro n e he
  rw [findEdge_congr rfl hto, hto, hrev]
  exact h n e he

/-! ## Adding an edge -/

lemma edgeWeightCompare_congr {a a' b b' : Edge} (ha : a.said = a'.said) (hb : b.said = b'.said) :
    edgeWeightCompare a b = edgeWeightCompare a' b' := by
  obtain ⟨h1, h2, h3, -⟩ := Edge.said_inj ha
  obtain ⟨h4, h5, h6, -⟩ := Edge.said_inj hb
  rw [edgeWeightCompare, edgeWeightCompare, h1, h2, h3, h4, h5, h6]

variable {t ws : List EdgeId}

/-- An edge is put on both shelves. -/
lemma Shelved.insert (h : Shelved edge tree weights nodes) (hfrom : (edge e).fromNode = n)
    (hproper : (edge e).toNode ≠ n) (hknown : n ∈ nodes)
    (hnear : ∀ i ∈ weights, Near (edge e).weight (edge i).weight)
    (ht : OrdList.insert (fun i => strcmp (edge e).toNode (edge i).toNode) e (tree n) = some t)
    (hw : OrdList.insert (fun i => edgeWeightCompare (edge e) (edge i)) e weights = some ws) :
    Shelved edge (update tree n t) ws nodes := by
  have hmemT := fun i => OrdList.mem_insert (a := i) ht
  have hmemW := fun i => OrdList.mem_insert (a := i) hw
  have hin : ∀ m i, i ∈ update tree n t m ↔ (i = e ∧ m = n) ∨ i ∈ tree m := by
    intro m i
    by_cases hm : m = n
    · subst hm
      rw [update_self, hmemT]
      tauto
    · rw [update_of_ne hm]
      tauto
  refine ⟨fun m => ?_, h.weightSorted.insert (follows_weightKey hnear) hw, fun m i hi => ?_,
    fun i => ?_, fun i hi j hj => ?_, fun m hm => ?_, fun m i hi => ?_⟩
  · by_cases hm : m = n
    · subst hm
      rw [update_self]
      exact (h.sorted m).insert (follows_toKey _ _) ht
    · rw [update_of_ne hm]
      exact h.sorted m
  · rcases (hin m i).mp hi with ⟨rfl, rfl⟩ | hi
    · exact hfrom
    · exact h.start m i hi
  · rw [hmemW, hin, h.both i]
    constructor
    · rintro (rfl | hi)
      · exact .inl ⟨rfl, hfrom⟩
      · exact .inr hi
    · exact Or.imp_left And.left
  · rcases (hmemW i).mp hi with hie | hi' <;> rcases (hmemW j).mp hj with hje | hj'
    · rw [hie, hje]
      exact ⟨by simp, by simp⟩
    · rw [hie]
      exact hnear j hj'
    · rw [hje]
      exact (hnear i hi').symm
    · exact h.near i hi' j hj'
  · have hne : m ≠ n := by
      rintro rfl
      exact hm hknown
    rw [update_of_ne hne]
    exact h.known m hm
  · rcases (hin m i).mp hi with ⟨rfl, rfl⟩ | hi
    · exact hproper
    · exact h.proper m i hi

/-- No edge with these ends is there, so both insertions succeed. -/
lemma Shelved.insert_isSome (h : Shelved edge tree weights nodes) (hfrom : (edge e).fromNode = n)
    (hnone : findEdge edge tree n (edge e).toNode = none)
    (hnear : ∀ i ∈ weights, Near (edge e).weight (edge i).weight) :
    (∃ t, OrdList.insert (fun i => strcmp (edge e).toNode (edge i).toNode) e (tree n) = some t) ∧
    ∃ ws, OrdList.insert (fun i => edgeWeightCompare (edge e) (edge i)) e weights = some ws := by
  have hno := h.findEdge_eq_none.mp hnone
  constructor <;> refine Option.ne_none_iff_exists'.mp fun hins => ?_
  · obtain ⟨i, hi, hk⟩ := (OrdList.insert_eq_none_iff (follows_toKey _ _) (h.sorted _)).mp hins
    exact hno i hi (textKey_inj.mp hk)
  · obtain ⟨i, hi, hk⟩ :=
      (OrdList.insert_eq_none_iff (follows_weightKey hnear) h.weightSorted).mp hins
    -- an edge of the same key has the same ends
    simp only [weightKey, EmbeddingLike.apply_eq_iff_eq, Prod.mk.injEq, textKey_inj] at hk
    have hi := (h.both i).mp hi
    rw [hk.2.1, hfrom] at hi
    exact hno i hi hk.2.2

/-- The pointers that `edge_add` sets are the right ones. -/
lemma Reversed.insert (h : Shelved edge tree weights nodes) (hr : Reversed edge tree)
    (h' : Shelved edge (update tree n t) ws nodes) (hmem : ∀ i, i ∈ t ↔ i = e ∨ i ∈ tree n)
    (hfrom : (edge e).fromNode = n) (hsaid : ∀ i, (edge' i).said = (edge i).said)
    (hrev : ∀ i, (edge' i).reverse =
      if findEdge edge (update tree n t) (edge e).toNode n = some i then some e
      else if i = e then findEdge edge (update tree n t) (edge e).toNode n
      else (edge i).reverse) : Reversed edge' (update tree n t) := by
  intro m i hi
  have hto := fun i => (Edge.said_inj (hsaid i)).2.1
  rw [findEdge_congr rfl hto, hto, hrev]
  have hfromI := h'.start m i hi
  have he : e ∈ update tree n t n := by
    rw [update_self]
    exact (hmem e).mpr (.inl rfl)
  split
  · -- `i` is the reverse of `e`
    rename_i hri
    obtain ⟨h1, h2⟩ := h'.findEdge_eq_some.mp hri
    rw [eq_comm, h'.findEdge_eq_some, h2, ← hfromI, h'.start _ i h1]
    exact ⟨he, rfl⟩
  · rename_i hri
    split
    · -- `i` is `e` itself
      rename_i hie
      subst hie
      rw [← hfromI, hfrom]
    · -- another edge; its reverse is neither `e` nor has it changed
      rename_i hie
      have hold : i ∈ tree m := by
        by_cases hm : m = n
        · subst hm
          rw [update_self, hmem] at hi
          exact hi.resolve_left hie
        · rwa [update_of_ne hm] at hi
      rw [hr m i hold]
      refine Option.ext fun j => ?_
      rw [h.findEdge_eq_some, h'.findEdge_eq_some]
      refine and_congr_left fun hj => ?_
      by_cases hn : (edge i).toNode = n
      · rw [hn, update_self, hmem]
        refine (or_iff_right ?_).symm
        rintro rfl
        -- then `i` would be the reverse of `e`
        refine hri (h'.findEdge_eq_some.mpr ⟨?_, hn⟩)
        rw [hj]
        exact hi
      · rw [update_of_ne hn]

/-! ## Removing an edge -/

/-- One edge has the key of `e` in the tree of its start, and that is `e`. -/
lemma Shelved.mem_delete (h : Shelved edge tree weights nodes) (he : e ∈ tree n) {i : EdgeId} :
    i ∈ OrdList.delete (fun i => strcmp (edge e).toNode (edge i).toNode) (tree n) ↔
      i ∈ tree n ∧ i ≠ e := by
  rw [OrdList.mem_delete_iff (follows_toKey _ _) (h.sorted n)]
  refine and_congr_right fun hi => not_congr ⟨fun hk => ?_, fun hie => by rw [hie, toKey]⟩
  exact (h.sorted n).eq_of_key hi he hk

/-- One edge has the key of `e` among the weights, and that is `e`. -/
lemma Shelved.mem_deleteWeight (h : Shelved edge tree weights nodes) (he : e ∈ weights)
    {i : EdgeId} : i ∈ OrdList.delete (fun i => edgeWeightCompare (edge e) (edge i)) weights ↔
      i ∈ weights ∧ i ≠ e := by
  rw [OrdList.mem_delete_iff (follows_weightKey fun i hi => h.near e he i hi) h.weightSorted]
  refine and_congr_right fun hi => not_congr ⟨fun hk => ?_, fun hie => by rw [hie]⟩
  exact h.weightSorted.eq_of_key hi he hk

/-- One edge is missing afterwards. -/
lemma Shelved.mem_update_delete (h : Shelved edge tree weights nodes) (he : e ∈ tree n)
    {i : EdgeId} : i ∈ update tree n
      (OrdList.delete (fun i => strcmp (edge e).toNode (edge i).toNode) (tree n)) m ↔
      i ∈ tree m ∧ i ≠ e := by
  by_cases hm : m = n
  · subst hm
    rw [update_self, h.mem_delete he]
  · rw [update_of_ne hm]
    refine ⟨fun hi => ⟨hi, ?_⟩, And.left⟩
    rintro rfl
    exact hm ((h.start m i hi).symm.trans (h.start n i he))

/-- An edge is taken from both shelves. -/
lemma Shelved.delete (h : Shelved edge tree weights nodes) (he : e ∈ tree n) :
    Shelved edge
      (update tree n (OrdList.delete (fun i => strcmp (edge e).toNode (edge i).toNode) (tree n)))
      (OrdList.delete (fun i => edgeWeightCompare (edge e) (edge i)) weights) nodes := by
  have hew : e ∈ weights := (h.both e).mpr (by rwa [h.start n e he])
  have hmemT := fun m i => h.mem_update_delete (m := m) (i := i) he
  have hmemW := fun i => h.mem_deleteWeight (i := i) hew
  refine ⟨fun m => ?_, h.weightSorted.delete, fun m i hi => ?_, fun i => ?_, fun i hi j hj => ?_,
    fun m hm => ?_, fun m i hi => ?_⟩
  · by_cases hm : m = n
    · subst hm
      rw [update_self]
      exact (h.sorted m).delete
    · rw [update_of_ne hm]
      exact h.sorted m
  · exact h.start m i ((hmemT m i).mp hi).1
  · rw [hmemW, hmemT, h.both i]
  · exact h.near i ((hmemW i).mp hi).1 j ((hmemW j).mp hj).1
  · have hne : m ≠ n := by
      rintro rfl
      simp [h.known m hm] at he
    rw [update_of_ne hne]
    exact h.known m hm
  · exact h.proper m i ((hmemT m i).mp hi).1

/-- The pointers that `edge_del` leaves are the right ones. -/
lemma Reversed.delete (h : Shelved edge tree weights nodes) (hr : Reversed edge tree)
    (h' : Shelved edge (update tree n t) ws nodes) (he : e ∈ tree n)
    (hmem : ∀ i, i ∈ t ↔ i ∈ tree n ∧ i ≠ e) (hsaid : ∀ i, (edge' i).said = (edge i).said)
    (hrev : ∀ i, (edge' i).reverse =
      if (edge e).reverse = some i then none else (edge i).reverse) :
    Reversed edge' (update tree n t) := by
  intro m i hi
  have hto := fun i => (Edge.said_inj (hsaid i)).2.1
  rw [findEdge_congr rfl hto, hto, hrev]
  have hold : i ∈ tree m := by
    by_cases hm : m = n
    · subst hm
      rw [update_self, hmem] at hi
      exact hi.1
    · rwa [update_of_ne hm] at hi
  split
  · -- `i` is the reverse of `e`, which is gone
    rename_i hri
    rw [hr n e he, h.findEdge_eq_some] at hri
    rw [eq_comm, h'.findEdge_eq_none, hri.2, update_self]
    intro j hj hjm
    obtain ⟨hj, hje⟩ := (hmem j).mp hj
    refine hje ((h.sorted n).eq_of_key hj he ?_)
    rw [toKey, toKey, hjm, ← h.start m i hold, h.start _ i hri.1]
  · rename_i hri
    rw [hr m i hold]
    refine Option.ext fun j => ?_
    rw [h.findEdge_eq_some, h'.findEdge_eq_some]
    refine and_congr_left fun hj => ?_
    by_cases hn : (edge i).toNode = n
    · rw [hn, update_self, hmem]
      refine (and_iff_left ?_).symm
      rintro rfl
      -- then `i` would be the reverse of `e`
      refine hri ?_
      rw [hr n j he, h.findEdge_eq_some, hj]
      exact ⟨hold, hn⟩
    · rw [update_of_ne hn]

/-! ## Changing a weight -/

/-- An edge that gets another weight finds its new place. -/
lemma Shelved.reweigh (h : Shelved edge tree weights nodes) (he : e ∈ weights)
    (hfrom : ∀ i, (edge' i).fromNode = (edge i).fromNode)
    (hto : ∀ i, (edge' i).toNode = (edge i).toNode)
    (hw : ∀ i, i ≠ e → (edge' i).weight = (edge i).weight)
    (hnear : ∀ i ∈ weights, i ≠ e → Near (edge' e).weight (edge i).weight) :
    ∃ ws, OrdList.insert (fun i => edgeWeightCompare (edge' e) (edge' i)) e
        (OrdList.delete (fun i => edgeWeightCompare (edge e) (edge i)) weights) = some ws ∧
      Shelved edge' tree ws nodes := by
  have hmem := fun i => h.mem_deleteWeight (i := i) he
  -- the other edges keep their keys
  have hkey : ∀ i, i ≠ e → weightKey (edge' i) = weightKey (edge i) := by
    intro i hi
    rw [weightKey, weightKey, hfrom, hto, hw i hi]
  have hsorted : OrdList.Sorted (fun i => weightKey (edge' i))
      (OrdList.delete (fun i => edgeWeightCompare (edge e) (edge i)) weights) := by
    refine List.Pairwise.imp_of_mem (fun {i j} hi hj hlt => ?_) h.weightSorted.delete
    change weightKey (edge' i) < weightKey (edge' j)
    rw [hkey _ ((hmem _).mp hi).2, hkey _ ((hmem _).mp hj).2]
    exact hlt
  have hfollows : OrdList.Follows (fun i => edgeWeightCompare (edge' e) (edge' i))
      (weightKey (edge' e)) (fun i => weightKey (edge' i))
      (OrdList.delete (fun i => edgeWeightCompare (edge e) (edge i)) weights) :=
    follows_weightKey fun i hi => by
      rw [hw i ((hmem i).mp hi).2]
      exact hnear i ((hmem i).mp hi).1 ((hmem i).mp hi).2
  have hsome : OrdList.insert (fun i => edgeWeightCompare (edge' e) (edge' i)) e
      (OrdList.delete (fun i => edgeWeightCompare (edge e) (edge i)) weights) ≠ none := by
    intro hins
    obtain ⟨i, hi, hk⟩ := (OrdList.insert_eq_none_iff hfollows hsorted).mp hins
    obtain ⟨hi, hne⟩ := (hmem i).mp hi
    -- an edge of the same key has the same ends, so it is `e`
    simp only [weightKey, EmbeddingLike.apply_eq_iff_eq, Prod.mk.injEq, textKey_inj, hfrom, hto]
      at hk
    have hi' := (h.both i).mp hi
    rw [hk.2.1] at hi'
    exact hne ((h.sorted _).eq_of_key hi' ((h.both e).mp he) (by rw [toKey, toKey, hk.2.2]))
  obtain ⟨ws, hws⟩ := Option.ne_none_iff_exists'.mp hsome
  have hin : ∀ i, i ∈ ws ↔ i ∈ weights := by
    intro i
    rw [OrdList.mem_insert hws, hmem]
    constructor
    · rintro (rfl | ⟨hi, -⟩)
      · exact he
      · exact hi
    · intro hi
      by_cases hie : i = e
      · exact .inl hie
      · exact .inr ⟨hi, hie⟩
  have hkeyT : toKey edge' = toKey edge := funext fun i => by rw [toKey, hto, toKey]
  refine ⟨ws, hws, ?_, hsorted.insert hfollows hws, ?_, ?_, ?_, h.known, ?_⟩
  · rw [hkeyT]
    exact h.sorted
  · intro n i hi
    rw [hfrom]
    exact h.start n i hi
  · intro i
    rw [hin, hfrom]
    exact h.both i
  · intro i hi j hj
    rw [hin] at hi hj
    by_cases hie : i = e <;> by_cases hje : j = e
    · rw [hie, hje]
      exact ⟨by simp, by simp⟩
    · rw [hie, hw j hje]
      exact hnear j hj hje
    · rw [hje, hw i hie]
      exact (hnear i hi hie).symm
    · rw [hw i hie, hw j hje]
      exact h.near i hi j hj
  · intro n i hi
    rw [hto]
    exact h.proper n i hi

end Shelves

/-! ## The daemon's operations -/

variable {d d' : Daemon}

/-- The indexes of edges are consistent. -/
structure EdgeIndex (d : Daemon) : Prop extends Filed d where
  shelved : Shelved d.edge d.edgeTree d.edgeWeightTree d.nodeTree
  reversed : Reversed d.edge d.edgeTree

/-- A weight for the edge between two nodes that is near the weights of all other edges. -/
def Daemon.Fits (d : Daemon) (fromNode toNode : Name) (weight : ℤ) : Prop :=
  ∀ i ∈ d.edgeWeightTree, (d.edge i).fromNode ≠ fromNode ∨ (d.edge i).toNode ≠ toNode →
    Near weight (d.edge i).weight

namespace EdgeIndex

lemma of_same (hs : SameIndexes d d') (h : EdgeIndex d) : EdgeIndex d' := by
  have hf := h.toFiled.of_same hs
  obtain ⟨_, _, _, _, _, _, _, rfl⟩ := hs
  exact ⟨hf, h.shelved, h.reversed⟩

/-- Connections are not looked at. -/
lemma of_conns (h : EdgeIndex d) (list : List ConnId) (conn : ConnId → Conn)
    (nodeConnection : Name → Option ConnId) (retries : List ℕ) :
    EdgeIndex { d with
      connectionList := list, conn := conn, nodeConnection := nodeConnection,
      retries := retries } :=
  ⟨h.toFiled.of_conns _ _ _ _, h.shelved, h.reversed⟩

lemma setConn (h : EdgeIndex d) (c : ConnId) (f : Conn → Conn) : EdgeIndex (d.setConn c f) :=
  h.of_conns _ _ _ _

lemma ensureNode (h : EdgeIndex d) (n : Name) : EdgeIndex (d.ensureNode n) := by
  have hf := h.toFiled.ensureNode n
  unfold Daemon.ensureNode at hf ⊢
  split at hf <;> rename_i hn
  · rw [if_pos hn]
    have hnot : n ∉ d.nodeTree := (lookupNode_eq_none h.nodes).mp hn
    -- the tree of the new node was empty before
    have htree : (d.addNode n).edgeTree = d.edgeTree := by
      refine funext fun m => ?_
      by_cases hm : m = n
      · subst hm
        simp [Daemon.addNode, h.shelved.known m hnot]
      · simp [Daemon.addNode, hm]
    have hs := h.shelved
    refine ⟨hf, ?_, ?_⟩
    · rw [htree]
      exact ⟨hs.sorted, hs.weightSorted, hs.start, hs.both, hs.near,
        fun m hm => hs.known m fun hmem => hm ((mem_addNode h.nodes).mpr (.inr hmem)), hs.proper⟩
    · rw [htree]
      exact h.reversed
  · rw [if_neg hn]
    exact h

lemma allocEdge (h : EdgeIndex d) (edge : Edge) : EdgeIndex (d.allocEdge edge).1 := by
  have hold : ∀ n, ∀ i ∈ d.edgeTree n, (d.allocEdge edge).1.edge i = d.edge i := by
    intro n i hi
    simp [Daemon.allocEdge, (h.edge n i hi).2.ne]
  have holdW : ∀ i ∈ d.edgeWeightTree, (d.allocEdge edge).1.edge i = d.edge i := by
    intro i hi
    simp [Daemon.allocEdge, (h.weight i hi).ne]
  have hnew : ∀ n, d.newEdge ∉ d.edgeTree n := fun n hi => (h.edge n _ hi).2.ne rfl
  have hs := h.shelved
  refine ⟨h.toFiled.allocEdge edge, ⟨fun n => ?_, ?_, fun n i hi => ?_, fun i => ?_,
    fun i hi j hj => ?_, hs.known, fun n i hi => ?_⟩, fun n i hi => ?_⟩
  · refine List.Pairwise.imp_of_mem (fun hi hj hlt => ?_) (hs.sorted n)
    rw [toKey, toKey, hold n _ hi, hold n _ hj]
    exact hlt
  · refine List.Pairwise.imp_of_mem (fun {i j} hi hj hlt => ?_) hs.weightSorted
    change weightKey _ < weightKey _
    rw [holdW _ hi, holdW _ hj]
    exact hlt
  · rw [hold n i hi]
    exact hs.start n i hi
  · by_cases hi : i = d.newEdge
    · subst hi
      exact iff_of_false (fun hi => (h.weight _ hi).ne rfl) (hnew _)
    · have : (d.allocEdge edge).1.edge i = d.edge i := by simp [Daemon.allocEdge, hi]
      rw [this]
      exact hs.both i
  · rw [holdW i hi, holdW j hj]
    exact hs.near i hi j hj
  · rw [hold n i hi]
    exact hs.proper n i hi
  · rw [hold n i hi, h.reversed n i hi]
    exact (OrdList.search_congr fun j hj => by rw [hold _ j hj]).symm

/-- `edge_add` of an edge that is in no tree, whose ends are known and are not connected. -/
lemma edgeAdd (h : EdgeIndex d) {e : EdgeId} {n : Name} (he : e < d.newEdge)
    (hfrom : (d.edge e).fromNode = n) (hnone : d.lookupEdge n (d.edge e).toNode = none)
    (hproper : (d.edge e).toNode ≠ n) (hknown : n ∈ d.nodeTree)
    (hnear : ∀ i ∈ d.edgeWeightTree, Near (d.edge e).weight (d.edge i).weight) :
    EdgeIndex (d.edgeAdd e) ∧
      ∀ m i, i ∈ (d.edgeAdd e).edgeTree m ↔ (i = e ∧ m = n) ∨ i ∈ d.edgeTree m := by
  have hfiled := h.toFiled.edgeAdd he
  obtain ⟨⟨t, ht⟩, ws, hws⟩ := h.shelved.insert_isSome hfrom hnone hnear
  have hs := h.shelved.insert hfrom hproper hknown hnear ht hws
  -- the state before the pointers are set
  let d₁ : Daemon := { d with edgeTree := update d.edgeTree n t }
  have heq : d.edgeAdd e = { d₁ with
      edgeWeightTree := ws, edge := (d₁.linkReverse e).edge } := by
    unfold Daemon.edgeAdd
    simp only [hfrom, ht]
    rw [Daemon.insertWeight]
    have hcmp : (fun i => edgeWeightCompare ((d₁.linkReverse e).edge e)
        ((d₁.linkReverse e).edge i)) = fun i => edgeWeightCompare (d.edge e) (d.edge i) :=
      funext fun i => edgeWeightCompare_congr (linkReverse_said d₁ e e) (linkReverse_said d₁ e i)
    have hw : (d₁.linkReverse e).edgeWeightTree = d.edgeWeightTree := by rw [linkReverse_eq]
    rw [hcmp, hw, hws, linkReverse_eq]
    rfl
  rw [heq] at hfiled ⊢
  refine ⟨⟨hfiled, hs.of_said (linkReverse_said d₁ e), ?_⟩, fun m i => ?_⟩
  · refine Reversed.insert h.shelved h.reversed hs (fun i => OrdList.mem_insert ht) hfrom
      (linkReverse_said d₁ e) fun i => ?_
    have hrev := linkReverse_reverse (d := d₁) (e := e)
      (by rw [← hfrom] at hproper; exact hproper) hs.start i
    rw [hrev, show (d₁.edge e).fromNode = n from hfrom]
    rfl
  · by_cases hm : m = n
    · subst hm
      refine (iff_of_eq (congrArg (i ∈ ·) (update_self m t d.edgeTree))).trans ?_
      rw [OrdList.mem_insert ht]
      tauto
    · refine (iff_of_eq (congrArg (i ∈ ·) (update_of_ne hm t d.edgeTree))).trans ?_
      tauto

lemma edgeAdd_said (d : Daemon) (e i : EdgeId) :
    ((d.edgeAdd e).edge i).said = (d.edge i).said := by
  unfold Daemon.edgeAdd
  dsimp only
  split
  · rfl
  · exact linkReverse_said _ e i

lemma edgeDel_said (d : Daemon) (e i : EdgeId) :
    ((d.edgeDel e).edge i).said = (d.edge i).said := unlinkReverse_said d e i

/-- `edge_del` of an edge that is in its tree. -/
lemma edgeDel (h : EdgeIndex d) {e : EdgeId} {n : Name} (he : e ∈ d.edgeTree n) :
    EdgeIndex (d.edgeDel e) ∧
      ∀ m i, i ∈ (d.edgeDel e).edgeTree m ↔ i ∈ d.edgeTree m ∧ i ≠ e := by
  have hfiled := h.toFiled.edgeDel e
  have hfrom := h.shelved.start n e he
  have hs := h.shelved.delete he
  have hsaid := unlinkReverse_said d e
  have hcmpW : (fun i => edgeWeightCompare ((d.unlinkReverse e).edge e)
      ((d.unlinkReverse e).edge i)) = fun i => edgeWeightCompare (d.edge e) (d.edge i) :=
    funext fun i => edgeWeightCompare_congr (hsaid e) (hsaid i)
  have hcmpT : (fun i => strcmp ((d.unlinkReverse e).edge e).toNode
      ((d.unlinkReverse e).edge i).toNode) =
      fun i => strcmp (d.edge e).toNode (d.edge i).toNode :=
    funext fun i => by rw [(Edge.said_inj (hsaid e)).2.1, (Edge.said_inj (hsaid i)).2.1]
  have heq : d.edgeDel e = { d with
      edge := (d.unlinkReverse e).edge
      edgeTree := update d.edgeTree n
        (OrdList.delete (fun i => strcmp (d.edge e).toNode (d.edge i).toNode) (d.edgeTree n))
      edgeWeightTree :=
        OrdList.delete (fun i => edgeWeightCompare (d.edge e) (d.edge i)) d.edgeWeightTree } := by
    unfold Daemon.edgeDel Daemon.deleteWeight
    dsimp only
    rw [hcmpW, hcmpT, (Edge.said_inj (hsaid e)).1, hfrom, unlinkReverse_eq]
  rw [heq] at hfiled ⊢
  exact ⟨⟨hfiled, hs.of_said hsaid, Reversed.delete h.shelved h.reversed hs he
    (fun i => h.shelved.mem_delete he) hsaid (unlinkReverse_reverse d e)⟩,
    fun m i => h.shelved.mem_update_delete he⟩

/-- `new_edge` and `edge_add` of an edge between two nodes that were not connected. -/
lemma addNewEdge (h : EdgeIndex d) {edge : Edge}
    (hnone : d.lookupEdge edge.fromNode edge.toNode = none)
    (hproper : edge.toNode ≠ edge.fromNode) (hknown : edge.fromNode ∈ d.nodeTree)
    (hnear : ∀ i ∈ d.edgeWeightTree, Near edge.weight (d.edge i).weight) :
    EdgeIndex (d.addNewEdge edge) ∧ ∀ m i, i ∈ (d.addNewEdge edge).edgeTree m ↔
      (i = d.newEdge ∧ m = edge.fromNode) ∨ i ∈ d.edgeTree m := by
  have hnew : (d.allocEdge edge).1.edge (d.allocEdge edge).2 = edge := by simp [Daemon.allocEdge]
  have hold : ∀ n, ∀ i ∈ d.edgeTree n, (d.allocEdge edge).1.edge i = d.edge i := by
    intro n i hi
    simp [Daemon.allocEdge, (h.edge n i hi).2.ne]
  refine (h.allocEdge edge).edgeAdd (n := edge.fromNode) (Nat.lt_succ_self _) (by rw [hnew]) ?_
    (by rw [hnew]; exact hproper) hknown fun i hi => ?_
  · rw [hnew, ← hnone]
    exact OrdList.search_congr fun i hi => by rw [hold _ i hi]
  · rw [hnew, hold _ i ((h.shelved.both i).mp hi)]
    exact hnear i hi

/-- The fields that no index looks at may change. -/
lemma setEdge (h : EdgeIndex d) (e : EdgeId) {f : Edge → Edge}
    (hfrom : ∀ x, (f x).fromNode = x.fromNode) (hto : ∀ x, (f x).toNode = x.toNode)
    (hw : ∀ x, (f x).weight = x.weight) (hrev : ∀ x, (f x).reverse = x.reverse) :
    EdgeIndex (d.setEdge e f) := by
  have hset : ∀ i, (d.setEdge e f).edge i = d.edge i ∨
      (d.setEdge e f).edge i = f (d.edge i) := by
    intro i
    by_cases hi : i = e
    · subst hi
      exact .inr (by simp [Daemon.setEdge])
    · exact .inl (by simp [Daemon.setEdge, hi])
  have hto' : ∀ i, ((d.setEdge e f).edge i).toNode = (d.edge i).toNode := fun i =>
    (hset i).elim (fun h => by rw [h]) fun h => by rw [h, hto]
  refine ⟨h.toFiled.setEdge e hfrom, h.shelved.congr (fun i => ?_) hto' fun i => ?_, ?_⟩
  · exact (hset i).elim (fun h => by rw [h]) fun h => by rw [h, hfrom]
  · exact (hset i).elim (fun h => by rw [h]) fun h => by rw [h, hw]
  · refine h.reversed.congr hto' fun i => ?_
    exact (hset i).elim (fun h => by rw [h]) fun h => by rw [h, hrev]

/-- The weight of an edge in `edge_weight_tree` changes. -/
lemma changeWeight (h : EdgeIndex d) {e : EdgeId} (he : e ∈ d.edgeWeightTree) {weight : ℤ}
    (hnear : ∀ i ∈ d.edgeWeightTree, i ≠ e → Near weight (d.edge i).weight) :
    EdgeIndex (d.changeWeight e weight) := by
  have hfiled := h.toFiled.changeWeight e weight
  unfold Daemon.changeWeight at hfiled ⊢
  split at hfiled <;> rename_i hw
  · rw [if_pos hw]
    exact h
  · rw [if_neg hw]
    -- the search finds `e`
    have hfind : OrdList.search (fun i => edgeWeightCompare (d.edge e) (d.edge i))
        d.edgeWeightTree = some e :=
      (OrdList.search_eq_some_iff (follows_weightKey fun i hi => h.shelved.near e he i hi)
        h.shelved.weightSorted).mpr ⟨he, rfl⟩
    rw [hfind] at hfiled ⊢
    dsimp only at hfiled ⊢
    let edge' := update d.edge e { d.edge e with weight := weight }
    have hother : ∀ i, i ≠ e → edge' i = d.edge i := fun i hi => update_of_ne hi _ _
    have hself : edge' e = { d.edge e with weight := weight } := update_self _ _ _
    have hsame : ∀ i, (edge' i).fromNode = (d.edge i).fromNode ∧
        (edge' i).toNode = (d.edge i).toNode ∧ (edge' i).reverse = (d.edge i).reverse := by
      intro i
      by_cases hi : i = e
      · rw [hi, hself]
        exact ⟨rfl, rfl, rfl⟩
      · rw [hother i hi]
        exact ⟨rfl, rfl, rfl⟩
    obtain ⟨ws, hws, hs⟩ := h.shelved.reweigh he (fun i => (hsame i).1)
      (fun i => (hsame i).2.1) (fun i hi => by rw [hother i hi]) (by rw [hself]; exact hnear)
    have heq : ((d.deleteWeight e).setEdge e ({ · with weight := weight })).insertWeight e =
        { d with edge := edge', edgeWeightTree := ws } := by
      unfold Daemon.insertWeight Daemon.setEdge Daemon.deleteWeight
      dsimp only
      rw [hws]
      rfl
    rw [heq] at hfiled ⊢
    exact ⟨hfiled, hs, h.reversed.congr (fun i => (hsame i).2.1) fun i => (hsame i).2.2⟩

lemma changeEdge (h : EdgeIndex d) {e : EdgeId} (he : e ∈ d.edgeWeightTree) {r : AddEdge}
    (hnear : ∀ i ∈ d.edgeWeightTree, i ≠ e → Near r.weight (d.edge i).weight) :
    EdgeIndex (d.changeEdge e r) := by
  refine changeWeight (setEdge h e ?_ ?_ ?_ ?_) he fun i hi hie => ?_
  · exact fun _ => rfl
  · exact fun _ => rfl
  · exact fun _ => rfl
  · exact fun _ => rfl
  · simpa [Daemon.setEdge, hie] using hnear i hi hie

lemma cleanUp (h : EdgeIndex d) (n : Name) : EdgeIndex (d.cleanUp n) := by
  unfold Daemon.cleanUp
  split
  · exact h
  · split
    · exact h
    · rename_i e he
      have hmem := (OrdList.search_some he).1
      split
      · exact (h.edgeDel hmem).1
      · have hs := SameIndexes.sendDelEdge d .everyone (d.edge e).fromNode (d.edge e).toNode
        exact ((h.of_same hs).edgeDel (hs.keeps (P := fun d' => e ∈ d'.edgeTree n)
          (fun _ _ _ _ _ _ _ h => h) hmem)).1

/-! ## The handlers -/

lemma mem_ensureNode (h : EdgeIndex d) (n : Name) {m : Name} :
    m ∈ (d.ensureNode n).nodeTree ↔ m = n ∨ m ∈ d.nodeTree := by
  unfold Daemon.ensureNode
  split
  · exact mem_addNode h.nodes
  · rename_i hn
    refine (or_iff_right_of_imp ?_).symm
    rintro rfl
    by_contra hm
    exact hn ((lookupNode_eq_none h.nodes).mpr hm)

lemma ensureNode_config (d : Daemon) (n : Name) : (d.ensureNode n).config = d.config := by
  unfold Daemon.ensureNode
  split <;> rfl

lemma seenRequest_config (d : Daemon) (request : Text) :
    (d.seenRequest request).1.config = d.config := by
  unfold Daemon.seenRequest
  split <;> rfl

/-- The weight does not fit less because of a new node. -/
lemma fits_ensureNode (n : Name) {fromNode toNode : Name} {weight : ℤ}
    (h : d.Fits fromNode toNode weight) : (d.ensureNode n).Fits fromNode toNode weight := by
  unfold Daemon.ensureNode
  split <;> exact h

lemma applyAddEdge (h : EdgeIndex d) (c : ConnId) (request : Text) {r : AddEdge}
    (hne : r.toName ≠ r.fromName) (hknown : r.fromName ∈ d.nodeTree)
    (hfits : r.fromName ≠ d.myself → d.Fits r.fromName r.toName r.weight) :
    EdgeIndex (d.applyAddEdge c request r) := by
  unfold Daemon.applyAddEdge
  split
  · rename_i e he
    obtain ⟨hmem, hto⟩ := h.shelved.findEdge_eq_some.mp he
    have hfrom := h.shelved.start _ e hmem
    split
    · exact h
    · split
      · exact h.of_same (SameIndexes.sendAddEdge d _ _)
      · rename_i hown
        have hs := (SameIndexes.tellRest (d.changeEdge e r) c request).trans (SameIndexes.graph _)
        refine of_same hs (h.changeEdge ((h.shelved.both e).mpr ?_) fun i hi hie => ?_)
        · rwa [hfrom]
        · refine hfits hown i hi (not_and_or.mp fun hends => hie ?_)
          -- an edge with the ends of `e` is `e`
          have hi' := (h.shelved.both i).mp hi
          rw [hends.1] at hi'
          exact (h.shelved.sorted _).eq_of_key hi' hmem (by rw [toKey, toKey, hends.2, hto])
  · rename_i hnone
    split
    · exact of_same (SameIndexes.sendDelEdge _ _ _ _) (h.of_same ⟨_, _, _, _, _, _, _, rfl⟩)
    · rename_i hown
      have hs := (SameIndexes.tellRest (d.addNewEdge (d.edgeOf r)) c request).trans
        (SameIndexes.graph _)
      refine of_same hs (h.addNewEdge hnone hne hknown fun i hi => ?_).1
      refine hfits hown i hi (not_and_or.mp fun hends => ?_)
      have hi' := (h.shelved.both i).mp hi
      rw [hends.1] at hi'
      exact h.shelved.findEdge_eq_none.mp hnone i hi' hends.2

lemma addEdgeH (h : EdgeIndex d) (c : ConnId) (request : Text)
    (hfits : ∀ r, parseAddEdge request = some r → r.fromName ≠ d.myself →
      d.Fits r.fromName r.toName r.weight) : EdgeIndex (addEdgeH d c request).1 := by
  have hseen := SameIndexes.seenRequest d request
  have hs := h.of_same hseen
  rcases addEdgeH_cases d c request with he | he | ⟨r, hr, hv, -, he⟩ <;> rw [he]
  · exact h
  · exact hs
  · have hne : r.toName ≠ r.fromName := by
      simp only [validEnds, decide_eq_true_eq] at hv
      exact hv.2.2.symm
    refine ((hs.ensureNode _).ensureNode _).applyAddEdge c request hne ?_ fun hown => ?_
    · rw [(hs.ensureNode _).mem_ensureNode, hs.mem_ensureNode]
      exact .inr (.inl rfl)
    · have hown' : r.fromName ≠ d.myself := by
        rwa [Daemon.myself, ensureNode_config, ensureNode_config, seenRequest_config] at hown
      exact fits_ensureNode _ (fits_ensureNode _ (hseen.keeps
        (P := fun d => d.Fits r.fromName r.toName r.weight) (fun _ _ _ _ _ _ _ h => h)
        (hfits r hr hown')))

lemma applyDelEdge (h : EdgeIndex d) (c : ConnId) (request : Text) (fromName toName : Name) :
    EdgeIndex (d.applyDelEdge c request fromName toName) := by
  unfold Daemon.applyDelEdge
  split
  · exact h
  · rename_i e he
    have hmem := (OrdList.search_some he).1
    split
    · exact of_same (SameIndexes.sendAddEdge _ _ _) (h.of_same ⟨_, _, _, _, _, _, _, rfl⟩)
    · have ht := SameIndexes.tellRest d c request
      exact (of_same (SameIndexes.graph _) ((h.of_same ht).edgeDel (ht.keeps
        (P := fun d => e ∈ d.edgeTree fromName) (fun _ _ _ _ _ _ _ h => h) hmem)).1).cleanUp _

lemma delEdgeH (h : EdgeIndex d) (c : ConnId) (request : Text) :
    EdgeIndex (delEdgeH d c request).1 := by
  have hs := h.of_same (SameIndexes.seenRequest d request)
  rcases delEdgeH_cases d c request with he | he | ⟨_, _, -, -, -, -, -, he⟩ <;> rw [he]
  · exact h
  · exact hs
  · exact hs.applyDelEdge c request _ _

end EdgeIndex

end Tinc
