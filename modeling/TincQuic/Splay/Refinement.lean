import Mathlib.Data.Set.Insert
import TincQuic.Splay.Operations

/-!
# A splay tree is a sorted set

Abstractly a `splay_tree_t` is a set of elements with the operations below.  Every sequence of
calls on a tree that was created empty keeps the pointer structure of `splay_tree.c` intact and
answers as the set does.

* `Op` lists the calls; `step` makes one on the pointer model; `Op.apply` and `Op.Answer` say
  what it means for a set.
* `Represents` is the representation invariant with the set it stands for.
* **Every run refines the set**: `run_refines`.
-/

namespace Tinc.Splay

open PtrTree PtrTree.PTree PtrTree.Links PtrList

variable {α : Type} {compare : α → α → ℤ} {st : SplayTree α} {s l r : List Loc} {x : α}

/-! ## The calls -/

/-- A call.  A node that the caller owns is named by its address; `insertNode i x` stores `x` in
the node before it is inserted, as the callers of `splay_insert_node` do. -/
inductive Op (α : Type) where
  | insert (x : α)
  | insertNode (i : ℕ) (x : α)
  | unlink (x : α)
  | unlinkNode (i : ℕ)
  | delete (x : α)
  | search (x : α)
  | searchClosest (x : α)
  | searchClosestSmaller (x : α)
  | searchClosestGreater (x : α)

/-- The caller's node `i` with payload `x`. -/
def ownNode (st : SplayTree α) (i : ℕ) (x : α) : SplayTree α :=
  { st with data := Function.update st.data (.node i) x, fresh := max st.fresh (i + 1) }

/-- One call: the tree it leaves and the element it returns, if it returns one. -/
def step (compare : α → α → ℤ) (st : SplayTree α) : Op α → Option (SplayTree α × Option α)
  | .insert x => do
      let (t, n) ← splayInsert compare st x
      some (t, t.dataOf n)
  | .insertNode i x => do
      let (t, n) ← splayInsertNode compare (ownNode st i x) (.node i)
      some (t, t.dataOf n)
  | .unlink x => do
      let (t, n) ← splayUnlink compare st x
      some (t, t.dataOf n)
  | .unlinkNode i => do
      let t ← splayUnlinkNode st (.node i)
      some (t, none)
  | .delete x => do
      let t ← splayDelete compare st x
      some (t, none)
  | .search x => do
      let (t, n) ← splaySearchNode compare st x
      some (t, t.dataOf n)
  | .searchClosest x => do
      let (t, n, _) ← splaySearchClosestNode compare st x
      some (t, t.dataOf n)
  | .searchClosestSmaller x => do
      let (t, n) ← splaySearchClosestSmallerNode compare st x
      some (t, t.dataOf n)
  | .searchClosestGreater x => do
      let (t, n) ← splaySearchClosestGreaterNode compare st x
      some (t, t.dataOf n)

/-- The nodes met from `head` along `next`. -/
def SplayTree.nodes (st : SplayTree α) : List Loc :=
  Chain.follow st.chain.next (st.count + 1) st.head

/-- What the interface asks of its callers: a node is inserted only while it is not in the tree,
and unlinked only while it is. -/
def Op.Valid (st : SplayTree α) : Op α → Prop
  | .insertNode i _ => Loc.node i ∉ st.nodes
  | .unlinkNode i => Loc.node i ∈ st.nodes
  | _ => True

instance (st : SplayTree α) : (op : Op α) → Decidable (op.Valid st)
  | .insertNode _ _ => inferInstanceAs (Decidable (_ ∉ _))
  | .unlinkNode _ => inferInstanceAs (Decidable (_ ∈ _))
  | .insert _ | .unlink _ | .delete _ | .search _ | .searchClosest _ | .searchClosestSmaller _
  | .searchClosestGreater _ => .isTrue trivial

/-- Every call of a sequence is valid when it is made. -/
def ValidRun (compare : α → α → ℤ) : SplayTree α → List (Op α) → Prop
  | _, [] => True
  | st, op :: ops => op.Valid st ∧
      match step compare st op with
      | none => True
      | some (st', _) => ValidRun compare st' ops

/-- Validity of a run can be checked by making it. -/
def decidableValidRun (compare : α → α → ℤ) :
    (st : SplayTree α) → (ops : List (Op α)) → Decidable (ValidRun compare st ops)
  | _, [] => .isTrue trivial
  | st, op :: ops =>
      have : Decidable (match step compare st op with
          | none => True
          | some (st', _) => ValidRun compare st' ops) :=
        match step compare st op with
        | none => .isTrue trivial
        | some (st', _) => decidableValidRun compare st' ops
      inferInstanceAs (Decidable (_ ∧ _))

instance (st : SplayTree α) (ops : List (Op α)) : Decidable (ValidRun compare st ops) :=
  decidableValidRun compare st ops

/-! ## The set -/

/-- The set after a call.  `elem` is the payload of a node, for the call that names a node. -/
def Op.apply (compare : α → α → ℤ) (elem : Loc → α) (S : Set α) : Op α → Set α
  | .insert x | .insertNode _ x => {y | y ∈ S ∨ (y = x ∧ ∀ z ∈ S, compare x z ≠ 0)}
  | .unlink x | .delete x => {y ∈ S | compare x y ≠ 0}
  | .unlinkNode i => {y ∈ S | compare (elem (.node i)) y ≠ 0}
  | _ => S

/-- The element a call may return. -/
def Op.Answer (compare : α → α → ℤ) (S : Set α) (res : Option α) : Op α → Prop
  | .insert x | .insertNode _ x =>
      ((∃ y ∈ S, compare x y = 0) → res = none) ∧ ((∀ y ∈ S, compare x y ≠ 0) → res = some x)
  | .unlink x | .search x =>
      (∀ y, res = some y → y ∈ S ∧ compare x y = 0) ∧ (res = none → ∀ y ∈ S, compare x y ≠ 0)
  | .unlinkNode _ | .delete _ => res = none
  | .searchClosest x =>
      (∀ y, res = some y → y ∈ S ∧
        (∀ z ∈ S, compare x z ≤ 0 → ¬ compare z y < 0) ∧
        (∀ z ∈ S, compare z x ≤ 0 → ¬ compare y z < 0)) ∧ (res = none → S = ∅)
  | .searchClosestSmaller x =>
      (∀ y, res = some y → y ∈ S ∧ compare y x ≤ 0 ∧ ∀ z ∈ S, compare z x ≤ 0 → compare z y ≤ 0) ∧
      (res = none → ∀ z ∈ S, ¬ compare z x ≤ 0)
  | .searchClosestGreater x =>
      (∀ y, res = some y → y ∈ S ∧ compare x y ≤ 0 ∧ ∀ z ∈ S, compare x z ≤ 0 → compare y z ≤ 0) ∧
      (res = none → ∀ z ∈ S, ¬ compare x z ≤ 0)

/-- The pointer structure is intact and stores the set `S`: a binary search tree with consistent
parent pointers, threaded in both directions in its order, whose size is `count`. -/
def Represents (compare : α → α → ℤ) (st : SplayTree α) (S : Set α) : Prop :=
  ∃ t : PTree Loc, st.links.IsTree st.root none t ∧ t.inorder.Nodup ∧
    t.inorder.Pairwise (fun a b => compare (st.data a) (st.data b) < 0) ∧
    st.nodes = t.inorder ∧
    Chain.follow st.chain.prev (st.count + 1) st.tail = t.inorder.reverse ∧
    st.count = t.inorder.length ∧ S = {x | ∃ a ∈ t.inorder, st.data a = x}

/-- Along the calls `ops` the tree represents the set, and each answer is one the set allows. -/
def Refines (compare : α → α → ℤ) : SplayTree α → Set α → List (Op α) → Prop
  | st, S, [] => Represents compare st S
  | st, S, op :: ops => Represents compare st S ∧ ∃ st' res, step compare st op = some (st', res) ∧
      op.Answer compare S res ∧ Refines compare st' (op.apply compare st.data S) ops

/-- The elements at the nodes `s`. -/
def elems (st : SplayTree α) (s : List Loc) : Set α := {x | ∃ a ∈ s, st.data a = x}

lemma Inv.nodes_eq (h : Inv compare st s) : st.nodes = s := by
  rw [SplayTree.nodes, h.head]
  exact h.chain.follow_next _ (by rw [h.count]; omega)

lemma Inv.represents (h : Inv compare st s) : Represents compare st (elems st s) := by
  obtain ⟨t, ht, rfl⟩ := h.tree
  refine ⟨t, ht, h.nodup, h.sorted, h.nodes_eq, ?_, h.count, rfl⟩
  rw [h.tail]
  exact h.chain.follow_prev _ (by rw [h.count]; omega)

/-! ## One call -/

/-- A call was answered and the nodes are now `s'`. -/
def Simulated (compare : α → α → ℤ) (st : SplayTree α) (s : List Loc) (op : Op α) : Prop :=
  ∃ st' res s', step compare st op = some (st', res) ∧ Inv compare st' s' ∧
    op.Answer compare (elems st s) res ∧ elems st' s' = op.apply compare st.data (elems st s)

/-- Only the pointers of the tree part changed. -/
structure Resplayed (st st' : SplayTree α) : Prop where
  data : st'.data = st.data
  chain : st'.chain = st.chain
  fresh : st'.fresh = st.fresh

lemma Resplayed.elems {st' : SplayTree α} (h : Resplayed st st') (s : List Loc) :
    elems st' s = Splay.elems st s := by
  rw [Splay.elems, h.data]
  rfl

/-- `splay_search_closest_node`: nothing is found in the empty tree, else the sequence is split
at the node that is returned. -/
lemma splaySearchClosestNode_inv (hc : LawfulCompare compare) (h : Inv compare st s) (x : α) :
    ∃ st' n c, splaySearchClosestNode compare st x = some (st', n, c) ∧ Inv compare st' s ∧
      Resplayed st st' ∧ (s = [] ∧ n = none ∧ c = 0 ∨ ∃ l b r, s = l ++ b :: r ∧ n = some b ∧
        c = compare x (st.data b) ∧ (∀ a ∈ l, 0 < compare x (st.data a)) ∧
        (∀ a ∈ r, compare x (st.data a) < 0)) := by
  by_cases hs : s = []
  · exact ⟨st, none, 0, splayTopDown_nil (h.root_eq_none_iff.mpr hs), h, ⟨rfl, rfl, rfl⟩,
      .inl ⟨hs, rfl, rfl⟩⟩
  · obtain ⟨links, root, l, b, r, h1, h2, h3, h4, h5⟩ := splayTopDown_inv hc h hs x
    exact ⟨_, _, _, h1, h2, ⟨rfl, rfl, rfl⟩, .inr ⟨l, b, r, h3, rfl, rfl, h4, h5⟩⟩

/-- A stored element that is equal to `x` is the one at the node the search returns. -/
lemma compare_ne_zero_of_split {f : Loc → ℤ} {b : Loc} (hb : f b ≠ 0) (hl : ∀ a ∈ l, 0 < f a)
    (hr : ∀ a ∈ r, f a < 0) : ∀ a ∈ l ++ b :: r, f a ≠ 0 := by
  intro a ha
  simp only [List.mem_append, List.mem_cons] at ha
  rcases ha with ha | rfl | ha
  · exact (hl a ha).ne'
  · exact hb
  · exact (hr a ha).ne

/-- `splay_search_node` -/
lemma splaySearchNode_inv (hc : LawfulCompare compare) (h : Inv compare st s) (x : α) :
    ∃ st' n, splaySearchNode compare st x = some (st', n) ∧ Inv compare st' s ∧ Resplayed st st' ∧
      (n = none ∧ (∀ a ∈ s, compare x (st.data a) ≠ 0) ∨ ∃ l b r, s = l ++ b :: r ∧ n = some b ∧
        compare x (st.data b) = 0 ∧ (∀ a ∈ l ++ r, compare x (st.data a) ≠ 0)) := by
  obtain ⟨st', n, c, h1, h2, h3, h4⟩ := splaySearchClosestNode_inv hc h x
  refine ⟨st', if c = 0 then n else none, by simp [splaySearchNode, h1], h2, h3, ?_⟩
  rcases h4 with ⟨rfl, rfl, rfl⟩ | ⟨l, b, r, rfl, rfl, rfl, h5, h6⟩
  · exact .inl ⟨rfl, by simp⟩
  · by_cases hb : compare x (st.data b) = 0
    · refine .inr ⟨l, b, r, rfl, if_pos hb, hb, ?_⟩
      intro a ha
      rcases List.mem_append.mp ha with ha | ha
      · exact (h5 a ha).ne'
      · exact (h6 a ha).ne
    · exact .inl ⟨if_neg hb, compare_ne_zero_of_split hb h5 h6⟩

lemma simulated_search (hc : LawfulCompare compare) (h : Inv compare st s) (x : α) :
    Simulated compare st s (.search x) := by
  obtain ⟨st', n, h1, h2, h3, h4⟩ := splaySearchNode_inv hc h x
  refine ⟨st', st'.dataOf n, s, by simp [step, h1], h2, ?_, h3.elems s⟩
  rw [SplayTree.dataOf, h3.data]
  rcases h4 with ⟨rfl, h5⟩ | ⟨l, b, r, rfl, rfl, h5, -⟩
  · refine ⟨by simp, fun _ => ?_⟩
    rintro y ⟨a, ha, rfl⟩
    exact h5 a ha
  · refine ⟨?_, by simp⟩
    rintro y ⟨⟩
    exact ⟨⟨b, by simp, rfl⟩, h5⟩

/-- Where a node is tells how its payload compares. -/
lemma Inv.mem_split {a b : Loc} (h : Inv compare st (l ++ b :: r)) (ha : a ∈ l ++ b :: r) :
    (a ∈ l ∧ compare (st.data a) (st.data b) < 0) ∨ a = b ∨
      (a ∈ r ∧ compare (st.data b) (st.data a) < 0) := by
  obtain ⟨-, hbr, hlb⟩ := List.pairwise_append.mp h.sorted
  simp only [List.mem_append, List.mem_cons] at ha
  rcases ha with ha | rfl | ha
  · exact .inl ⟨ha, hlb a ha b (by simp)⟩
  · exact .inr (.inl rfl)
  · exact .inr (.inr ⟨ha, (List.pairwise_cons.mp hbr).1 a ha⟩)

lemma simulated_searchClosest (hc : LawfulCompare compare) (h : Inv compare st s) (x : α) :
    Simulated compare st s (.searchClosest x) := by
  obtain ⟨st', n, c, h1, h2, h3, h4⟩ := splaySearchClosestNode_inv hc h x
  refine ⟨st', st'.dataOf n, s, by simp [step, h1], h2, ?_, h3.elems s⟩
  rw [SplayTree.dataOf, h3.data]
  rcases h4 with ⟨rfl, rfl, rfl⟩ | ⟨l, b, r, rfl, rfl, rfl, h5, h6⟩
  · exact ⟨by simp, fun _ => by simp [Splay.elems]⟩
  · refine ⟨?_, by simp⟩
    rintro y ⟨⟩
    refine ⟨⟨b, by simp, rfl⟩, ?_, ?_⟩
    · rintro z ⟨a, ha, rfl⟩ hxa hlt
      rcases h.mem_split ha with ⟨ha, -⟩ | rfl | ⟨-, hba⟩
      · exact absurd hxa (not_le.mpr (h5 a ha))
      · rw [hc.refl] at hlt
        omega
      · have := hc.lt_swap.mp hba
        omega
    · rintro z ⟨a, ha, rfl⟩ hax hlt
      rcases h.mem_split ha with ⟨-, hab⟩ | rfl | ⟨ha, -⟩
      · have := hc.lt_swap.mp hab
        omega
      · rw [hc.refl] at hlt
        omega
      · have := (hc.swap _ _).mp hax
        have := h6 a ha
        omega

/-- An element is the greatest one that is not above `x` if it is at the end of the nodes that
are not above `x`. -/
lemma greatest_of_split (hc : LawfulCompare compare) {b : Loc} (h : Inv compare st (l ++ b :: r))
    (hb : 0 ≤ compare x (st.data b)) (hr : ∀ a ∈ r, compare x (st.data a) < 0) :
    st.data b ∈ elems st (l ++ b :: r) ∧ compare (st.data b) x ≤ 0 ∧
      ∀ z ∈ elems st (l ++ b :: r), compare z x ≤ 0 → compare z (st.data b) ≤ 0 := by
  refine ⟨⟨b, by simp, rfl⟩, (hc.swap _ _).mpr hb, ?_⟩
  rintro z ⟨a, ha, rfl⟩ hax
  rcases h.mem_split ha with ⟨-, hab⟩ | rfl | ⟨ha, -⟩
  · exact hab.le
  · exact (hc.refl _).le
  · have := (hc.swap _ _).mp hax
    have := hr a ha
    omega

lemma least_of_split (hc : LawfulCompare compare) {b : Loc} (h : Inv compare st (l ++ b :: r))
    (hb : compare x (st.data b) ≤ 0) (hl : ∀ a ∈ l, 0 < compare x (st.data a)) :
    st.data b ∈ elems st (l ++ b :: r) ∧ compare x (st.data b) ≤ 0 ∧
      ∀ z ∈ elems st (l ++ b :: r), compare x z ≤ 0 → compare (st.data b) z ≤ 0 := by
  refine ⟨⟨b, by simp, rfl⟩, hb, ?_⟩
  rintro z ⟨a, ha, rfl⟩ hxa
  rcases h.mem_split ha with ⟨ha, -⟩ | rfl | ⟨-, hba⟩
  · have := hl a ha
    omega
  · exact (hc.refl _).le
  · exact hba.le

lemma simulated_searchClosestSmaller (hc : LawfulCompare compare) (h : Inv compare st s) (x : α) :
    Simulated compare st s (.searchClosestSmaller x) := by
  obtain ⟨st', n, c, h1, h2, h3, h4⟩ := splaySearchClosestNode_inv hc h x
  rcases h4 with ⟨rfl, rfl, rfl⟩ | ⟨l, b, r, rfl, rfl, rfl, h5, h6⟩
  · refine ⟨st', none, [], by simp [step, splaySearchClosestSmallerNode, h1, SplayTree.dataOf],
      h2, ⟨by simp, by simp [Splay.elems]⟩, h3.elems []⟩
  · by_cases hb : compare x (st.data b) < 0
    · have hp : st'.chain.prev b = l.getLast? := by
        simpa using (Chain.seg_append.mp h2.chain).2.1
      refine ⟨st', st'.dataOf l.getLast?, _, ?_, h2, ?_, h3.elems _⟩
      · simp [step, splaySearchClosestSmallerNode, h1, hb, hp]
      · rw [SplayTree.dataOf, h3.data]
        rcases List.eq_nil_or_concat' l with rfl | ⟨l', p, rfl⟩
        · refine ⟨by simp, fun _ => ?_⟩
          rintro z ⟨a, ha, rfl⟩ hax
          have hxa : compare x (st.data a) < 0 := by
            rcases List.mem_cons.mp ha with rfl | ha
            · exact hb
            · exact h6 a ha
          have := hc.lt_swap.mp hxa
          omega
        · refine ⟨?_, by simp⟩
          rintro y hy
          obtain rfl : st.data p = y := by simpa using hy
          have := greatest_of_split (x := x) (l := l') (b := p) (r := b :: r) hc (by simpa using h)
            (h5 p (by simp)).le (by simpa [hb] using h6)
          simpa using this
    · refine ⟨st', st'.dataOf (some b), _, ?_, h2, ?_, h3.elems _⟩
      · simp [step, splaySearchClosestSmallerNode, h1, hb]
      · rw [SplayTree.dataOf, h3.data]
        refine ⟨?_, by simp⟩
        rintro y ⟨⟩
        exact greatest_of_split hc h (not_lt.mp hb) h6

lemma simulated_searchClosestGreater (hc : LawfulCompare compare) (h : Inv compare st s) (x : α) :
    Simulated compare st s (.searchClosestGreater x) := by
  obtain ⟨st', n, c, h1, h2, h3, h4⟩ := splaySearchClosestNode_inv hc h x
  rcases h4 with ⟨rfl, rfl, rfl⟩ | ⟨l, b, r, rfl, rfl, rfl, h5, h6⟩
  · refine ⟨st', none, [], by simp [step, splaySearchClosestGreaterNode, h1, SplayTree.dataOf],
      h2, ⟨by simp, by simp [Splay.elems]⟩, h3.elems []⟩
  · by_cases hb : 0 < compare x (st.data b)
    · have hn : st'.chain.next b = r.head? := h2.next_eq
      refine ⟨st', st'.dataOf r.head?, _, ?_, h2, ?_, h3.elems _⟩
      · simp [step, splaySearchClosestGreaterNode, h1, hb, hn]
      · rw [SplayTree.dataOf, h3.data]
        cases r with
        | nil =>
            refine ⟨by simp, fun _ => ?_⟩
            rintro z ⟨a, ha, rfl⟩ hxa
            have : 0 < compare x (st.data a) := by
              rcases List.mem_append.mp ha with ha | ha
              · exact h5 a ha
              · rw [List.mem_singleton.mp ha]
                exact hb
            omega
        | cons p r' =>
            refine ⟨?_, by simp⟩
            rintro y hy
            obtain rfl : st.data p = y := by simpa using hy
            have := least_of_split (x := x) (l := l ++ [b]) (b := p) (r := r') hc
              (by simpa using h) (h6 p (by simp)).le (by
                intro a ha
                rcases List.mem_append.mp ha with ha | ha
                · exact h5 a ha
                · rw [List.mem_singleton.mp ha]
                  exact hb)
            simpa using this
    · refine ⟨st', st'.dataOf (some b), _, ?_, h2, ?_, h3.elems _⟩
      · simp [step, splaySearchClosestGreaterNode, h1, hb]
      · rw [SplayTree.dataOf, h3.data]
        refine ⟨?_, by simp⟩
        rintro y ⟨⟩
        exact least_of_split hc h (not_lt.mp hb) h5

/-! ### Unlinking -/

lemma elems_remove {st' : SplayTree α} {b : Loc} (hd : st'.data = st.data)
    (hb : compare x (st.data b) = 0) (ho : ∀ a ∈ l ++ r, compare x (st.data a) ≠ 0) :
    elems st' (l ++ r) = {y ∈ elems st (l ++ b :: r) | compare x y ≠ 0} := by
  ext y
  simp only [Splay.elems, hd, Set.mem_ofPred_eq]
  constructor
  · rintro ⟨a, ha, rfl⟩
    refine ⟨⟨a, ?_, rfl⟩, ho a ha⟩
    simp only [List.mem_append, List.mem_cons] at ha ⊢
    tauto
  · rintro ⟨⟨a, ha, rfl⟩, hne⟩
    refine ⟨a, ?_, rfl⟩
    simp only [List.mem_append, List.mem_cons] at ha ⊢
    rcases ha with ha | rfl | ha
    · exact .inl ha
    · exact absurd hb hne
    · exact .inr ha

lemma elems_of_forall_ne (ho : ∀ a ∈ s, compare x (st.data a) ≠ 0) :
    elems st s = {y ∈ elems st s | compare x y ≠ 0} := by
  ext y
  constructor
  · rintro ⟨a, ha, rfl⟩
    exact ⟨⟨a, ha, rfl⟩, ho a ha⟩
  · exact fun h => h.1

lemma simulated_unlink (hc : LawfulCompare compare) (h : Inv compare st s) (x : α) :
    Simulated compare st s (.unlink x) := by
  obtain ⟨st₁, n, h1, h2, h3, h4⟩ := splaySearchNode_inv hc h x
  rcases h4 with ⟨rfl, h5⟩ | ⟨l, b, r, rfl, rfl, h5, h6⟩
  · refine ⟨st₁, none, s, by simp [step, splayUnlink, h1, SplayTree.dataOf], h2, ?_, ?_⟩
    · refine ⟨by simp, fun _ => ?_⟩
      rintro y ⟨a, ha, rfl⟩
      exact h5 a ha
    · rw [h3.elems]
      exact elems_of_forall_ne h5
  · obtain ⟨st', h7, h8, h9, -⟩ := splayUnlinkNode_inv h2
    refine ⟨st', some (st.data b), l ++ r, ?_, h8, ⟨?_, by simp⟩, ?_⟩
    · simp [step, splayUnlink, h1, h7, SplayTree.dataOf, h9, h3.data]
    · rintro y ⟨⟩
      exact ⟨⟨b, by simp, rfl⟩, h5⟩
    · exact elems_remove (h9.trans h3.data) h5 h6

lemma simulated_delete (hc : LawfulCompare compare) (h : Inv compare st s) (x : α) :
    Simulated compare st s (.delete x) := by
  obtain ⟨st₁, n, h1, h2, h3, h4⟩ := splaySearchNode_inv hc h x
  rcases h4 with ⟨rfl, h5⟩ | ⟨l, b, r, rfl, rfl, h5, h6⟩
  · refine ⟨st₁, none, s, by simp [step, splayDelete, h1], h2, rfl, ?_⟩
    rw [h3.elems]
    exact elems_of_forall_ne h5
  · obtain ⟨st', h7, h8, h9, -⟩ := splayUnlinkNode_inv h2
    refine ⟨st', none, l ++ r, by simp [step, splayDelete, h1, h7], h8, rfl, ?_⟩
    exact elems_remove (h9.trans h3.data) h5 h6

lemma simulated_unlinkNode (hc : LawfulCompare compare) (h : Inv compare st s) {i : ℕ}
    (hi : Loc.node i ∈ s) : Simulated compare st s (.unlinkNode i) := by
  obtain ⟨l, r, rfl⟩ := List.append_of_mem hi
  obtain ⟨st', h7, h8, h9, -⟩ := splayUnlinkNode_inv h
  refine ⟨st', none, l ++ r, by simp [step, h7], h8, rfl, ?_⟩
  refine elems_remove h9 (hc.refl _) ?_
  intro a ha
  have hne : a ≠ .node i := by
    rintro rfl
    exact (List.nodup_cons.mp (List.nodup_middle.mp h.nodup)).1 ha
  rcases h.mem_split (a := a) (by
    simp only [List.mem_append, List.mem_cons] at ha ⊢
    tauto) with ⟨-, hab⟩ | rfl | ⟨-, hba⟩
  · exact (hc.lt_swap.mp hab).ne'
  · exact absurd rfl hne
  · exact hba.ne

/-! ### Insertion -/

/-- The tree after `n` was inserted. -/
def Inserted (compare : α → α → ℤ) (st : SplayTree α) (s : List Loc) (n : Loc)
    (st' : SplayTree α) : Prop :=
  ∃ s', Inv compare st' s' ∧ (∀ a, a ∈ s' ↔ a = n ∨ a ∈ s) ∧ st'.data = st.data

/-- The two ways to insert next to the node a search returned. -/
lemma insertFound (hc : LawfulCompare compare) {b n : Loc} (h : Inv compare st (l ++ b :: r))
    (hn : n ∉ l ++ b :: r) (hi : ∃ i < st.fresh, n = .node i)
    (hb : compare (st.data n) (st.data b) ≠ 0)
    (hl : ∀ a ∈ l, 0 < compare (st.data n) (st.data a))
    (hr : ∀ a ∈ r, compare (st.data n) (st.data a) < 0) :
    ∃ st', (if compare (st.data n) (st.data b) < 0 then splayInsertBefore st (some b) n
        else splayInsertAfter st (some b) n) = some st' ∧
      Inserted compare st (l ++ b :: r) n st' := by
  by_cases hlt : compare (st.data n) (st.data b) < 0
  · obtain ⟨st', h1, h2, h3, -⟩ := insertBeforeNode_inv hc h hn hi
      (fun a ha => hc.lt_swap.mpr (hl a ha)) hlt
    refine ⟨st', by rw [if_pos hlt]; exact h1, _, h2, ?_, h3⟩
    simp only [List.mem_append, List.mem_cons]
    tauto
  · obtain ⟨st', h1, h2, h3, -⟩ := insertAfterNode_inv hc h hn hi
      (hc.lt_swap.mpr (by omega)) hr
    refine ⟨st', by rw [if_neg hlt]; exact h1, _, h2, ?_, h3⟩
    simp only [List.mem_append, List.mem_cons]
    tauto

/-- `splay_insert_top` -/
lemma splayInsertTop_inv {n : Loc} (h : Inv compare st []) (hi : ∃ i < st.fresh, n = .node i) :
    Inserted compare st [] n (splayInsertTop st n) := by
  refine ⟨[n], ?_, by simp, rfl⟩
  refine ⟨⟨node nil n nil, by simp [splayInsertTop, zeroNode], rfl⟩, by simp [splayInsertTop], rfl,
    rfl, by simp [splayInsertTop, h.count], by simp, by simp,
    by simpa [splayInsertTop] using hi⟩

/-- A node that is not in the tree may be overwritten. -/
lemma Inv.frame {st' : SplayTree α} {n : Loc} (h : Inv compare st s) (hn : n ∉ s)
    (hl : st'.links = zeroNode st.links n ∨ st'.links = st.links)
    (hch : st'.chain = (st.chain.setNext n none).setPrev n none ∨ st'.chain = st.chain)
    (hd : ∀ a, a ≠ n → st'.data a = st.data a) (hf : st.fresh ≤ st'.fresh)
    (hr : st'.root = st.root) (hh : st'.head = st.head) (ht : st'.tail = st.tail)
    (hcount : st'.count = st.count) : Inv compare st' s := by
  have hne : ∀ a ∈ s, a ≠ n := fun a ha e => hn (e ▸ ha)
  refine ⟨?_, ?_, by rw [hh, h.head], by rw [ht, h.tail], by rw [hcount, h.count], h.nodup, ?_, ?_⟩
  · obtain ⟨t, h1, rfl⟩ := h.tree
    rw [hr]
    rcases hl with hl | hl <;> rw [hl]
    · exact ⟨t, isTree_zeroNode h1 hn, rfl⟩
    · exact ⟨t, h1, rfl⟩
  · rcases hch with hch | hch <;> rw [hch]
    · exact (Chain.seg_setPrev hn).mpr ((Chain.seg_setNext hn).mpr h.chain)
    · exact h.chain
  · refine h.sorted.imp_of_mem ?_
    intro a b ha hb hab
    rwa [hd a (hne a ha), hd b (hne b hb)]
  · intro a ha
    obtain ⟨i, hi, he⟩ := h.heap a ha
    exact ⟨i, by omega, he⟩

lemma Inserted.elems {st₀ st' : SplayTree α} {n : Loc} (h : Inserted compare st₀ s n st')
    (st : SplayTree α) (hd : ∀ a ∈ s, st₀.data a = st.data a) (hx : st₀.data n = x)
    (hne : ∀ a ∈ s, compare x (st.data a) ≠ 0) :
    ∃ s', Inv compare st' s' ∧ st'.dataOf (some n) = some x ∧
      elems st' s' = {y | y ∈ Splay.elems st s ∨ (y = x ∧ ∀ z ∈ Splay.elems st s,
        compare x z ≠ 0)} := by
  obtain ⟨s', h1, h2, h3⟩ := h
  refine ⟨s', h1, by simp [SplayTree.dataOf, h3, hx], ?_⟩
  ext y
  simp only [Splay.elems, h2, h3, Set.mem_ofPred_eq]
  constructor
  · rintro ⟨a, rfl | ha, rfl⟩
    · refine .inr ⟨hx, ?_⟩
      rintro z ⟨b, hb, rfl⟩
      exact hne b hb
    · exact .inl ⟨a, ha, (hd a ha).symm⟩
  · rintro (⟨a, ha, rfl⟩ | ⟨rfl, -⟩)
    · exact ⟨a, .inr ha, hd a ha⟩
    · exact ⟨n, .inl rfl, hx⟩

/-- An element that is stored is found, and nothing changes. -/
lemma answer_found (st : SplayTree α) {op : Op α} (hop : op = .insert x ∨ ∃ i, op = .insertNode i x)
    (hs : ∃ a ∈ s, compare x (st.data a) = 0) :
    op.Answer compare (elems st s) none ∧
      elems st s = op.apply compare st.data (elems st s) := by
  obtain ⟨a, ha, hxa⟩ := hs
  have hmem : st.data a ∈ elems st s := ⟨a, ha, rfl⟩
  have hans : ((∃ y ∈ elems st s, compare x y = 0) → (none : Option α) = none) ∧
      ((∀ y ∈ elems st s, compare x y ≠ 0) → (none : Option α) = some x) :=
    ⟨fun _ => rfl, fun hne => absurd hxa (hne _ hmem)⟩
  have happ : elems st s = {y | y ∈ elems st s ∨ (y = x ∧ ∀ z ∈ elems st s, compare x z ≠ 0)} := by
    ext y
    refine ⟨fun hy => .inl hy, ?_⟩
    rintro (hy | ⟨-, hne⟩)
    · exact hy
    · exact absurd hxa (hne _ hmem)
  rcases hop with rfl | ⟨i, rfl⟩ <;> exact ⟨hans, happ⟩

lemma answer_inserted (st : SplayTree α) (s : List Loc) (hs : ∀ a ∈ s, compare x (st.data a) ≠ 0) :
    ((∃ y ∈ elems st s, compare x y = 0) → some x = none) ∧
      ((∀ y ∈ elems st s, compare x y ≠ 0) → some x = some x) := by
  refine ⟨?_, fun _ => rfl⟩
  rintro ⟨y, ⟨a, ha, rfl⟩, hxa⟩
  exact absurd hxa (hs a ha)

/-- The node the allocator hands out is not in the tree. -/
lemma Inv.fresh_notMem (h : Inv compare st s) : Loc.node st.fresh ∉ s := by
  intro hm
  obtain ⟨i, hi, he⟩ := h.heap _ hm
  cases he
  omega

lemma splayAllocNode_inv (h : Inv compare st s) (x : α) :
    Inv compare (splayAllocNode st x).1 s :=
  h.frame h.fresh_notMem (.inl rfl) (.inl rfl) (fun a ha => by simp [splayAllocNode, ha])
    (Nat.le_succ _) rfl rfl rfl rfl

lemma splayAllocNode_data (h : Inv compare st s) (x : α) :
    ∀ a ∈ s, (splayAllocNode st x).1.data a = st.data a := by
  intro a ha
  have hne : a ≠ .node st.fresh := fun e => h.fresh_notMem (e ▸ ha)
  simp [splayAllocNode, hne]

lemma splayAllocNode_data_new (st : SplayTree α) (x : α) :
    (splayAllocNode st x).1.data (.node st.fresh) = x := by
  simp [splayAllocNode]

lemma simulated_insert (hc : LawfulCompare compare) (h : Inv compare st s) (x : α) :
    Simulated compare st s (.insert x) := by
  obtain ⟨st₁, n, c, h1, h2, h3, h4⟩ := splaySearchClosestNode_inv hc h x
  rcases h4 with ⟨rfl, rfl, rfl⟩ | ⟨l, b, r, rfl, rfl, rfl, h5, h6⟩
  · have hroot : st.root = none := h.root_eq_none_iff.mpr rfl
    have hins := splayInsertTop_inv (splayAllocNode_inv h x)
      ⟨st.fresh, Nat.lt_succ_self _, rfl⟩
    obtain ⟨s', i1, i2, i3⟩ := hins.elems st (splayAllocNode_data h x)
      (splayAllocNode_data_new st x) (by simp)
    refine ⟨_, some x, s', ?_, i1, answer_inserted st [] (by simp), i3⟩
    simp only [step, splayInsert, hroot, Option.bind_eq_bind, Option.bind_some]
    exact congrArg (fun o => some (_, o)) i2
  · obtain ⟨root, hroot⟩ : ∃ root, st.root = some root :=
      Option.ne_none_iff_exists'.mp (fun e => by simpa using h.root_eq_none_iff.mp e)
    by_cases hb : compare x (st.data b) = 0
    · obtain ⟨ha, he⟩ := answer_found st (s := l ++ b :: r) (.inl rfl)
        ⟨b, by simp, hb⟩
      refine ⟨st₁, none, l ++ b :: r, ?_, h2, ha, by rw [h3.elems, ← he]⟩
      simp [step, splayInsert, hroot, h1, hb, SplayTree.dataOf]
    · have hne := compare_ne_zero_of_split (f := fun a => compare x (st.data a)) hb h5 h6
      have hd := splayAllocNode_data h2 x
      rw [h3.data] at hd
      have hx := splayAllocNode_data_new st₁ x
      obtain ⟨st', j1, j2⟩ := insertFound hc (splayAllocNode_inv h2 x) h2.fresh_notMem
        ⟨st₁.fresh, Nat.lt_succ_self _, rfl⟩ (by rw [hx, hd b (by simp)]; exact hb)
        (fun a ha => by rw [hx, hd a (by simp [ha])]; exact h5 a ha)
        (fun a ha => by rw [hx, hd a (by simp [ha])]; exact h6 a ha)
      obtain ⟨s', i1, i2, i3⟩ := j2.elems st hd hx hne
      refine ⟨st', some x, s', ?_, i1, answer_inserted st _ hne, i3⟩
      rw [hx, hd b (by simp)] at j1
      simp only [step, splayInsert, hroot, h1, Option.bind_eq_bind, Option.bind_some, if_neg hb]
      have hnew : (splayAllocNode st₁ x).2 = .node st₁.fresh := rfl
      by_cases hlt : compare x (st.data b) < 0
      · rw [if_pos hlt] at j1 ⊢
        rw [hnew, j1]
        exact congrArg (fun o => some (_, o)) i2
      · rw [if_neg hlt] at j1 ⊢
        rw [hnew, j1]
        exact congrArg (fun o => some (_, o)) i2

/-- `splay_insert_node`: the node is inserted, unless an equal element is stored. -/
lemma splayInsertNode_inv (hc : LawfulCompare compare) (h : Inv compare st s) {i : ℕ}
    (hi : Loc.node i ∉ s) (hfresh : i < st.fresh) :
    ∃ st' n, splayInsertNode compare st (.node i) = some (st', n) ∧
      ((n = none ∧ (∃ a ∈ s, compare (st.data (.node i)) (st.data a) = 0) ∧
          Inv compare st' s ∧ st'.data = st.data) ∨
        (n = some (.node i) ∧ (∀ a ∈ s, compare (st.data (.node i)) (st.data a) ≠ 0) ∧
          Inserted compare st s (.node i) st')) := by
  -- the node is zeroed before the search
  let st₀ : SplayTree α := { st with
    links := zeroNode st.links (.node i)
    chain := (st.chain.setNext (.node i) none).setPrev (.node i) none }
  have h₀ : Inv compare st₀ s := h.frame hi (.inl rfl) (.inl rfl) (fun _ _ => rfl) le_rfl rfl rfl
    rfl rfl
  have hfresh₀ : ∃ j < st₀.fresh, Loc.node i = .node j := ⟨i, hfresh, rfl⟩
  obtain ⟨st₁, n, c, h1, h2, h3, h4⟩ := splaySearchClosestNode_inv hc h₀ (st.data (.node i))
  rcases h4 with ⟨rfl, rfl, rfl⟩ | ⟨l, b, r, rfl, rfl, rfl, h5, h6⟩
  · have hroot : st.root = none := h.root_eq_none_iff.mpr rfl
    obtain ⟨s', j2, j3, j4⟩ := splayInsertTop_inv h₀ hfresh₀
    refine ⟨splayInsertTop st₀ (.node i), some (.node i), ?_, .inr ⟨rfl, by simp, s', j2, j3, j4⟩⟩
    unfold splayInsertNode
    dsimp only
    split
    · rfl
    · rename_i hsome
      exact absurd (hroot.symm.trans hsome) (by simp)
  · obtain ⟨root, hroot⟩ : ∃ root, st.root = some root :=
      Option.ne_none_iff_exists'.mp (fun e => by simpa using h.root_eq_none_iff.mp e)
    have hstep : splayInsertNode compare st (.node i) =
        if compare (st.data (.node i)) (st.data b) = 0 then some (st₁, none)
        else if compare (st.data (.node i)) (st.data b) < 0 then
          (splayInsertBefore st₁ (some b) (.node i)).bind (fun t => some (t, some (.node i)))
        else
          (splayInsertAfter st₁ (some b) (.node i)).bind (fun t => some (t, some (.node i))) := by
      unfold splayInsertNode
      dsimp only
      split
      · rename_i hnone
        exact absurd (hnone.symm.trans hroot) (by simp)
      · change (splaySearchClosestNode compare st₀ (st.data (.node i))).bind _ = _
        rw [h1]
        rfl
    have hd₁ : st₁.data = st.data := h3.data
    by_cases hb : compare (st.data (.node i)) (st.data b) = 0
    · refine ⟨st₁, none, ?_, .inl ⟨rfl, ⟨b, by simp, hb⟩, h2, hd₁⟩⟩
      rw [hstep, if_pos hb]
    · have hne := compare_ne_zero_of_split (f := fun a => compare (st.data (.node i)) (st.data a))
        hb h5 h6
      obtain ⟨st', j1, s', j2, j3, j4⟩ := insertFound hc h2 hi (h3.fresh ▸ hfresh₀)
        (by rw [hd₁]; exact hb) (by rw [hd₁]; exact h5) (by rw [hd₁]; exact h6)
      refine ⟨st', some (.node i), ?_, .inr ⟨rfl, hne, s', j2, j3, j4.trans hd₁⟩⟩
      rw [hd₁] at j1
      rw [hstep, if_neg hb]
      by_cases hlt : compare (st.data (.node i)) (st.data b) < 0
      · rw [if_pos hlt] at j1 ⊢
        rw [j1]
        rfl
      · rw [if_neg hlt] at j1 ⊢
        rw [j1]
        rfl

lemma ownNode_inv (h : Inv compare st s) {i : ℕ} (hi : Loc.node i ∉ s) (x : α) :
    Inv compare (ownNode st i x) s :=
  h.frame hi (.inr rfl) (.inr rfl) (fun a ha => by simp [ownNode, ha]) (Nat.le_max_left _ _) rfl
    rfl rfl rfl

lemma simulated_insertNode (hc : LawfulCompare compare) (h : Inv compare st s) {i : ℕ}
    (hi : Loc.node i ∉ s) (x : α) : Simulated compare st s (.insertNode i x) := by
  have hx : (ownNode st i x).data (.node i) = x := by simp [ownNode]
  have hd : ∀ a ∈ s, (ownNode st i x).data a = st.data a := by
    intro a ha
    have hne : a ≠ .node i := fun e => hi (e ▸ ha)
    simp [ownNode, hne]
  have hfresh : i < (ownNode st i x).fresh := by simp [ownNode]
  have helems : elems (ownNode st i x) s = elems st s := by
    ext y
    constructor <;> rintro ⟨a, ha, rfl⟩
    · exact ⟨a, ha, (hd a ha).symm⟩
    · exact ⟨a, ha, hd a ha⟩
  obtain ⟨st', n, h1, h2⟩ := splayInsertNode_inv hc (ownNode_inv h hi x) hi hfresh
  have hstep : step compare st (.insertNode i x) = some (st', st'.dataOf n) := by
    simp [step, h1]
  rw [hx] at h2
  rcases h2 with ⟨rfl, ⟨a, ha, hxa⟩, h3, h4⟩ | ⟨rfl, hne, h3⟩
  · obtain ⟨hans, hsame⟩ := answer_found st (s := s) (.inr ⟨i, rfl⟩)
      ⟨a, ha, by rwa [hd a ha] at hxa⟩
    refine ⟨st', none, s, hstep, h3, hans, ?_⟩
    rw [← hsame, ← helems, elems, h4, elems]
  · have hne' : ∀ a ∈ s, compare x (st.data a) ≠ 0 := fun a ha => hd a ha ▸ hne a ha
    obtain ⟨s', i1, i2, i3⟩ := h3.elems st hd hx hne'
    exact ⟨st', some x, s', by rw [hstep, i2], i1, answer_inserted st s hne', i3⟩

/-! ## Whole runs -/

/-- Every valid call is simulated by the set. -/
lemma simulated (hc : LawfulCompare compare) (h : Inv compare st s) (op : Op α)
    (hv : op.Valid st) : Simulated compare st s op := by
  cases op with
  | insert x => exact simulated_insert hc h x
  | insertNode i x => exact simulated_insertNode hc h (h.nodes_eq ▸ hv) x
  | unlink x => exact simulated_unlink hc h x
  | unlinkNode i => exact simulated_unlinkNode hc h (h.nodes_eq ▸ hv)
  | delete x => exact simulated_delete hc h x
  | search x => exact simulated_search hc h x
  | searchClosest x => exact simulated_searchClosest hc h x
  | searchClosestSmaller x => exact simulated_searchClosestSmaller hc h x
  | searchClosestGreater x => exact simulated_searchClosestGreater hc h x

lemma refines_of_inv (hc : LawfulCompare compare) (ops : List (Op α)) (h : Inv compare st s)
    (hv : ValidRun compare st ops) : Refines compare st (elems st s) ops := by
  induction ops generalizing st s with
  | nil => exact h.represents
  | cons op ops ih =>
      obtain ⟨st', res, s', h1, h2, h3, h4⟩ := simulated hc h op hv.1
      have hv' := hv.2
      rw [h1] at hv'
      refine ⟨h.represents, st', res, h1, h3, ?_⟩
      rw [← h4]
      exact ih h2 hv'

/-- Every sequence of calls on a tree that was created empty: no call follows a null pointer or
fails to return, the pointer structure is intact before and after each one, and every answer and
every change is that of the set. -/
theorem run_refines [Inhabited α] (hc : LawfulCompare compare) (ops : List (Op α))
    (hv : ValidRun compare splayAllocTree ops) : Refines compare splayAllocTree ∅ ops := by
  have h := refines_of_inv hc ops splayAllocTree_inv hv
  rwa [show elems (splayAllocTree : SplayTree α) [] = ∅ by simp [elems]] at h

/-- Integers ordered by their difference. -/
lemma lawfulCompare_sub : LawfulCompare (fun x y : ℤ => x - y) where
  swap x y := by omega
  trans x y z h h' := by omega

/-- A run with a duplicate insertion, a caller's node and an unlinked node. -/
theorem run_refines_ints : Refines (fun x y : ℤ => x - y) splayAllocTree ∅
    [.insert 5, .insert 3, .insertNode 7 4, .insert 3, .searchClosestSmaller 4, .unlinkNode 7,
      .searchClosestGreater 4, .delete 5, .unlink 3, .search 3] :=
  run_refines lawfulCompare_sub _ (by decide)

end Tinc.Splay
