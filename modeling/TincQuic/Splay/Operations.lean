import Mathlib.Data.List.Basic
import TincQuic.Splay.TopDown
import TincQuic.Splay.BottomUp

/-!
# The operations keep the representation invariant

`Inv compare st s` says that the nodes `s`, in this order, are what the tree `st` stores: they are
the in-order sequence of the tree below `root`, they are threaded from `head` to `tail`, and
their payloads increase.  Each operation has one lemma here, which says how it changes `s`.

* **Searching splits the sequence** at the root it leaves: `splayTopDown_inv`.
* **Insertion and unlinking are list edits**: `insertBeforeNode_inv`, `insertAfterNode_inv`,
  `splayUnlinkNode_inv`.
-/

namespace Tinc.Splay

open PtrTree PtrTree.PTree PtrTree.Links PtrList

variable {α : Type} {compare : α → α → ℤ} {st : SplayTree α} {s l r : List Loc} {n b : Loc} {x : α}

/-- A comparison function that orders its arguments: only the sign counts, exchanging the
arguments reverses it, and the order is transitive. -/
structure LawfulCompare (compare : α → α → ℤ) : Prop where
  swap : ∀ x y, compare x y ≤ 0 ↔ 0 ≤ compare y x
  trans : ∀ x y z, compare x y ≤ 0 → compare y z ≤ 0 → compare x z ≤ 0

namespace LawfulCompare

variable {y z : α}

lemma lt_swap (hc : LawfulCompare compare) : compare x y < 0 ↔ 0 < compare y x := by
  have := hc.swap y x
  omega

lemma lt_of_lt_of_le (hc : LawfulCompare compare) (h : compare x y < 0) (h' : compare y z ≤ 0) :
    compare x z < 0 := by
  by_contra hge
  have := hc.trans y z x h' ((hc.swap z x).mpr (by omega))
  have := hc.lt_swap.mp h
  omega

lemma lt_of_le_of_lt (hc : LawfulCompare compare) (h : compare x y ≤ 0) (h' : compare y z < 0) :
    compare x z < 0 := by
  by_contra hge
  have := hc.trans z x y ((hc.swap z x).mpr (by omega)) h
  have := hc.lt_swap.mp h'
  omega

lemma refl (hc : LawfulCompare compare) (x : α) : compare x x = 0 := by
  have := hc.swap x x
  omega

end LawfulCompare

/-- The nodes `s` are what `st` stores, in this order. -/
structure Inv (compare : α → α → ℤ) (st : SplayTree α) (s : List Loc) : Prop where
  tree : ∃ t, st.links.IsTree st.root none t ∧ t.inorder = s
  chain : st.chain.Seg none s none
  head : st.head = s.head?
  tail : st.tail = s.getLast?
  count : st.count = s.length
  nodup : s.Nodup
  sorted : s.Pairwise (fun a b => compare (st.data a) (st.data b) < 0)
  heap : ∀ a ∈ s, ∃ i < st.fresh, a = .node i

lemma Inv.left_notMem (h : Inv compare st s) : Loc.left ∉ s := by
  intro hm
  obtain ⟨i, -, hi⟩ := h.heap _ hm
  cases hi

lemma Inv.right_notMem (h : Inv compare st s) : Loc.right ∉ s := by
  intro hm
  obtain ⟨i, -, hi⟩ := h.heap _ hm
  cases hi

/-- The thread goes on to the next node. -/
lemma Inv.next_eq (h : Inv compare st (l ++ b :: r)) : st.chain.next b = r.head? := by
  simpa using (Chain.seg_append.mp h.chain).2.2.1

lemma Inv.root_eq_none_iff (h : Inv compare st s) : st.root = none ↔ s = [] := by
  obtain ⟨t, ht, rfl⟩ := h.tree
  cases t with
  | nil => simpa using ht
  | node l a r => simp [ht.1]

lemma Inv.monotone (hc : LawfulCompare compare) (h : Inv compare st s) (x : α) :
    Monotone (fun a => compare x (st.data a)) s := by
  refine h.sorted.imp ?_
  intro a b hab hx
  exact hc.lt_swap.mp (hc.lt_of_lt_of_le hab ((hc.swap _ _).mpr hx))

/-- The splay operations change `links` and `root` only. -/
lemma Inv.relink (h : Inv compare st s) {links : Links Loc} {root : Option Loc} {t : PTree Loc}
    (ht : links.IsTree root none t) (ho : t.inorder = s) :
    Inv compare { st with links := links, root := root } s :=
  { h with tree := ⟨t, ht, ho⟩ }

lemma splayAllocTree_inv [Inhabited α] : Inv compare (splayAllocTree : SplayTree α) [] where
  tree := ⟨nil, rfl, rfl⟩
  chain := trivial
  head := rfl
  tail := rfl
  count := rfl
  nodup := List.nodup_nil
  sorted := List.Pairwise.nil
  heap := by simp

/-! ## Searching -/

/-- `splay_top_down` leaves the nodes before the element to the left of the root it returns and
those after it to the right. -/
lemma splayTopDown_inv (hc : LawfulCompare compare) (h : Inv compare st s) (hs : s ≠ []) (x : α) :
    ∃ links root l n r, splayTopDown compare st x =
        some ({ st with links := links, root := root }, some n, compare x (st.data n)) ∧
      Inv compare { st with links := links, root := root } s ∧ s = l ++ n :: r ∧
      (∀ a ∈ l, 0 < compare x (st.data a)) ∧ (∀ a ∈ r, compare x (st.data a) < 0) := by
  obtain ⟨t, ht, rfl⟩ := h.tree
  obtain ⟨links, tl, n, tr, h1, h2, h3, h4, h5⟩ := splayTopDown_spec compare (x := x)
    ht (fun e => hs (by rw [e]; rfl)) h.nodup h.left_notMem h.right_notMem
    (by rw [h.count]; rfl) (h.monotone hc x)
  exact ⟨links, some n, tl.inorder, n, tr.inorder, h1, h.relink h2 h3, h3.symm, h4, h5⟩

/-! ## Splicing a node in -/

/-- The writes that put `n` between the left subtree of the root `b` and `b`. -/
def spliceBefore (m : Links Loc) (n b : Loc) : Links Loc :=
  let m := (m.setRight n (some b)).setParent b (some n)
  let m := m.setLeft n (m.left b)
  let m := m.setParentOf (m.left b) (some n)
  let m := m.setLeft b none
  m.setParent n none

lemma isTree_spliceBefore {m : Links Loc} {tl tr : PTree Loc}
    (h : m.IsTree (some b) none (node tl b tr)) (nd : (n :: (node tl b tr).inorder).Nodup) :
    (spliceBefore m n b).IsTree (some n) none (node tl n (node nil b tr)) := by
  obtain ⟨-, -, hl, hr⟩ := h
  obtain ⟨reg, g1, g2, g3, g4, -⟩ := exists_regions 0 [[n], tl.inorder, [b], tr.inorder]
    (by simpa using nd)
  simp only [List.mem_singleton, forall_eq] at g1 g3
  have hlm := hl.mem
  have ndl : tl.inorder.Nodup := (List.nodup_append.mp (List.nodup_cons.mp nd).2).1
  have hbn : b ≠ n := by grind
  have el : ∀ y, (spliceBefore m n b).left y =
      if y = b then none else if y = n then m.left b else m.left y := by
    simp [spliceBefore, hbn]
  have er : ∀ y, (spliceBefore m n b).right y = if y = n then some b else m.right y := by
    simp [spliceBefore]
  have ep : ∀ y, (spliceBefore m n b).parent y = if y = n then none
      else if m.left b = some y then some n else if y = b then some n else m.parent y := by
    simp [spliceBefore, setParentOf_parent, hbn]
  generalize spliceBefore m n b = m' at *
  clear nd
  refine ⟨rfl, by grind, ?_, by grind, by grind, by simp [el], ?_⟩
  · rw [show m'.left n = m.left b by grind]
    refine hl.transfer ndl ?_ ?_ ?_ ?_ <;> grind
  · rw [show m'.right b = m.right b by grind]
    refine hr.congr ?_ ?_ ?_ <;> grind

/-- The writes that put `n` between the root `a` and its right subtree. -/
def spliceAfter (m : Links Loc) (n a : Loc) : Links Loc :=
  let m := (m.setLeft n (some a)).setParent a (some n)
  let m := m.setRight n (m.right a)
  let m := m.setParentOf (m.right a) (some n)
  let m := m.setRight a none
  m.setParent n none

lemma spliceAfter_eq_mirror (m : Links Loc) (n a : Loc) :
    spliceAfter m n a = (spliceBefore m.mirror n a).mirror := by
  simp only [spliceAfter, spliceBefore, setParent, setLeft, setRight, setParentOf, Links.mirror]
  split <;> simp_all

lemma isTree_spliceAfter {m : Links Loc} {a : Loc} {tl tr : PTree Loc}
    (h : m.IsTree (some a) none (node tl a tr)) (nd : (n :: (node tl a tr).inorder).Nodup) :
    (spliceAfter m n a).IsTree (some n) none (node (node tl a nil) n tr) := by
  rw [spliceAfter_eq_mirror]
  have h' := isTree_spliceBefore (n := n) h.mirror (by
    rw [List.nodup_cons] at nd ⊢
    rw [← mirror_node, inorder_mirror, List.mem_reverse, List.nodup_reverse]
    exact nd)
  simpa using h'.mirror

/-- In a sequence without repetitions a node determines what is before and after it. -/
lemma append_cons_inj {l₁ r₁ l₂ r₂ : List Loc} (h : l₁ ++ n :: r₁ = l₂ ++ n :: r₂)
    (nd : (l₂ ++ n :: r₂).Nodup) : l₁ = l₂ ∧ r₁ = r₂ := by
  rw [← h] at nd
  have h1 : n ∉ l₁ := fun hm => (List.nodup_append.mp nd).2.2 n hm n (by simp) rfl
  have h2 : n ∉ r₁ := (List.nodup_cons.mp (List.nodup_append.mp nd).2.1).1
  obtain ⟨e1, -, e2⟩ := (List.append_cons_inj_of_notMem h1 h2).mp h
  exact ⟨e1, e2⟩

lemma pairwise_insert {R : Loc → Loc → Prop} (h : (l ++ r).Pairwise R) (hl : ∀ a ∈ l, R a n)
    (hr : ∀ a ∈ r, R n a) : (l ++ n :: r).Pairwise R := by
  simp only [List.pairwise_append, List.pairwise_cons, List.mem_cons] at h ⊢
  refine ⟨h.1, ⟨hr, h.2.1⟩, ?_⟩
  rintro a ha b (rfl | hb)
  · exact hl a ha
  · exact h.2.2 a ha b hb

/-- `splay_insert_before` -/
lemma insertBeforeNode_inv (hc : LawfulCompare compare) (h : Inv compare st (l ++ b :: r))
    (hn : n ∉ l ++ b :: r) (hi : ∃ i < st.fresh, n = .node i)
    (hl : ∀ a ∈ l, compare (st.data a) (st.data n) < 0)
    (hb : compare (st.data n) (st.data b) < 0) :
    ∃ st', insertBeforeNode st b n = some st' ∧ Inv compare st' (l ++ n :: b :: r) ∧
      st'.data = st.data ∧ st'.fresh = st.fresh := by
  obtain ⟨t, ht, ho⟩ := h.tree
  have nd := h.nodup
  have nd' : (n :: (l ++ b :: r)).Nodup := List.nodup_cons.mpr ⟨hn, nd⟩
  have hseg := h.chain.insertBefore nd'
  have hbn : b ≠ n := fun e => hn (by simp [e])
  have hpb : st.chain.prev b = l.getLast? := by
    simpa using (Chain.seg_append.mp h.chain).2.1
  have hbr : ∀ a ∈ b :: r, compare (st.data n) (st.data a) < 0 := by
    intro a ha
    rcases List.mem_cons.mp ha with rfl | ha
    · exact hb
    · have hba := (List.pairwise_cons.mp (List.pairwise_append.mp h.sorted).2.1).1 a ha
      exact hc.lt_of_lt_of_le hb hba.le
  -- the list part is rewired before the tree part
  let st₁ : SplayTree α := { st with
    chain := (((st.chain.setNext n (some b)).setPrev n (st.chain.prev b)).setNextOf
      (st.chain.prev b) (some n)).setPrev b (some n)
    head := if (st.chain.prev b).isNone then some n else st.head }
  obtain ⟨links, tl, tr, h1, h2, h3⟩ := splayBottomUp_spec st₁ ht (n := b)
    (by rw [ho]; simp) (by rw [ho]; exact nd) (by rw [← ho] at h; exact h.count.ge)
  obtain ⟨rfl, rfl⟩ := append_cons_inj (h3.trans ho) nd
  refine ⟨{ st₁ with
    links := spliceBefore links n b
    root := some n
    count := st.count + 1
    generation := st.generation + 1 }, ?_, ?_, rfl, rfl⟩
  · simp only [insertBeforeNode, Chain.setNext_prev]
    change (splayBottomUp st₁ b).bind _ = _
    rw [h1]
    rfl
  · refine ⟨⟨_, isTree_spliceBefore h2 nd', by simp⟩, hseg, ?_, ?_, ?_, ?_, ?_, ?_⟩
    · simp only [st₁, hpb, h.head]
      rcases List.eq_nil_or_concat' tl.inorder with e | ⟨l', a, e⟩ <;> simp [e]
    · simp [st₁, h.tail]
    · simp [h.count]; omega
    · exact (List.nodup_middle).mpr nd'
    · exact pairwise_insert h.sorted hl hbr
    · intro a ha
      simp only [List.mem_append, List.mem_cons] at ha
      rcases ha with ha | rfl | ha
      · exact h.heap a (by simp [ha])
      · exact hi
      · exact h.heap a (by simpa using .inr ha)

/-- `splay_insert_after` -/
lemma insertAfterNode_inv (hc : LawfulCompare compare) (h : Inv compare st (l ++ b :: r))
    (hn : n ∉ l ++ b :: r) (hi : ∃ i < st.fresh, n = .node i)
    (hb : compare (st.data b) (st.data n) < 0)
    (hr : ∀ a ∈ r, compare (st.data n) (st.data a) < 0) :
    ∃ st', insertAfterNode st b n = some st' ∧ Inv compare st' (l ++ b :: n :: r) ∧
      st'.data = st.data ∧ st'.fresh = st.fresh := by
  obtain ⟨t, ht, ho⟩ := h.tree
  have nd := h.nodup
  have nd' : (n :: (l ++ b :: r)).Nodup := List.nodup_cons.mpr ⟨hn, nd⟩
  have hseg := h.chain.insertAfter nd'
  have hbn : b ≠ n := fun e => hn (by simp [e])
  have hnb : st.chain.next b = r.head? := by
    simpa using (Chain.seg_append.mp h.chain).2.2.1
  have hlb : ∀ a ∈ l ++ [b], compare (st.data a) (st.data n) < 0 := by
    intro a ha
    rcases List.mem_append.mp ha with ha | ha
    · have hab := (List.pairwise_append.mp h.sorted).2.2 a ha b (by simp)
      exact hc.lt_of_lt_of_le hab hb.le
    · rw [List.mem_singleton.mp ha]
      exact hb
  let st₁ : SplayTree α := { st with
    chain := (((st.chain.setPrev n (some b)).setNext n (st.chain.next b)).setPrevOf
      (st.chain.next b) (some n)).setNext b (some n)
    tail := if (st.chain.next b).isNone then some n else st.tail }
  obtain ⟨links, tl, tr, h1, h2, h3⟩ := splayBottomUp_spec st₁ ht (n := b)
    (by rw [ho]; simp) (by rw [ho]; exact nd) (by rw [← ho] at h; exact h.count.ge)
  obtain ⟨rfl, rfl⟩ := append_cons_inj (h3.trans ho) nd
  have hassoc : tl.inorder ++ b :: n :: tr.inorder = (tl.inorder ++ [b]) ++ n :: tr.inorder := by
    simp
  refine ⟨{ st₁ with
    links := spliceAfter links n b
    root := some n
    count := st.count + 1
    generation := st.generation + 1 }, ?_, ?_, rfl, rfl⟩
  · simp only [insertAfterNode, Chain.setPrev_next]
    change (splayBottomUp st₁ b).bind _ = _
    rw [h1]
    rfl
  · refine ⟨⟨_, isTree_spliceAfter h2 nd', by simp⟩, hseg, ?_, ?_, ?_, ?_, ?_, ?_⟩
    · simp [st₁, h.head]
    · simp only [st₁, hnb, h.tail]
      cases e : tr.inorder <;> simp
    · simp [h.count]; omega
    · rw [hassoc]
      exact List.nodup_middle.mpr (by simpa using nd')
    · rw [hassoc]
      exact pairwise_insert (by simpa using h.sorted) hlb hr
    · intro a ha
      simp only [List.mem_append, List.mem_cons] at ha
      rcases ha with ha | rfl | rfl | ha
      · exact h.heap a (by simp [ha])
      · exact h.heap a (by simp)
      · exact hi
      · exact h.heap a (by simp [ha])

/-! ## Taking a node out -/

/-- The last node of the right spine is the last node of the tree. -/
lemma getLast?_inorder (tl : PTree Loc) (a : Loc) (tr : PTree Loc) :
    (node tl a tr).inorder.getLast? = some (lastRight a tr) := by
  induction tr generalizing tl a with
  | nil => simp [lastRight]
  | node l c r _ ih =>
      rw [inorder_node, List.getLast?_append, List.getLast?_cons, ih]
      rfl

/-- The writes that hang the right subtree of the root `n` below the node `prev` before it. -/
def joinAt (m : Links Loc) (n root prev : Loc) : Links Loc :=
  let m := m.setParent root none
  let m := m.setRight prev (m.right n)
  m.setParentOf (m.right n) (some prev)

lemma isTree_joinAt {m : Links Loc} {a c tr : PTree Loc} {root : Loc}
    (h : m.IsTree (some n) none (node (node a root c) n tr))
    (nd : (node (node a root c) n tr).inorder.Nodup) :
    (joinAt m n root (lastRight root c)).IsTree (some root) none
      ((node a root c).graftRight tr) := by
  obtain ⟨-, -, ⟨hl, hpr, ha, hcc⟩, hr⟩ := h
  obtain ⟨reg, g1, g2, g3, -⟩ := exists_regions 0
    [(node a root c).inorder, [n], tr.inorder] (by simpa using nd)
  simp only [List.mem_singleton, forall_eq] at g2
  have ndl := (List.nodup_append.mp nd).1
  have ndr := (List.nodup_cons.mp (List.nodup_append.mp nd).2.1).2
  have hroot : root ∈ (node a root c).inorder := by simp
  have hprev : lastRight root c ∈ (node a root c).inorder :=
    List.mem_append_right _ (lastRight_mem root c)
  have htl : (m.setParent root none).IsTree (some root) none (node a root c) := by
    refine IsTree.transfer (m := m) (q := some n) ⟨rfl, hpr, ha, hcc⟩ ndl (by simp) (by simp) ?_
      (by simp)
    intro y _ hy
    rw [setParent_parent, if_neg (fun e => hy (by rw [e]))]
  have hrm := hr.mem
  generalize hpv : lastRight root c = prev at *
  have hnp : n ≠ prev := by grind
  have el : ∀ y, (joinAt m n root prev).left y = m.left y := by simp [joinAt]
  have er : ∀ y, (joinAt m n root prev).right y = if y = prev then m.right n else m.right y := by
    simp [joinAt]
  have ep : ∀ y, (joinAt m n root prev).parent y = if m.right n = some y then some prev
      else if y = root then none else m.parent y := by
    simp [joinAt, setParentOf_parent, hnp]
  generalize joinAt m n root prev = m' at *
  clear nd
  refine htl.graftRight (s := m.right n) ndl ?_ ?_ ?_ ?_ ?_
  · rw [hpv]
    refine hr.transfer ndr ?_ ?_ ?_ ?_ <;> grind
  · grind
  · intro y hy
    rw [el, setParent_left]
  · intro y hy hne
    rw [er, if_neg (by grind), setParent_right]
  · intro y hy
    rw [ep, setParent_parent]
    grind

/-- `splay_unlink_node` -/
lemma splayUnlinkNode_inv (h : Inv compare st (l ++ n :: r)) :
    ∃ st', splayUnlinkNode st n = some st' ∧ Inv compare st' (l ++ r) ∧
      st'.data = st.data ∧ st'.fresh = st.fresh := by
  obtain ⟨t, ht, ho⟩ := h.tree
  have nd := h.nodup
  have hseg := h.chain.remove nd
  obtain ⟨hp, hx, -⟩ := (Chain.seg_append.mp h.chain).2
  have hp : st.chain.prev n = l.getLast? := by simpa using hp
  have hx : st.chain.next n = r.head? := by simpa using hx
  let st₁ : SplayTree α := { st with
    chain := (st.chain.setNextOf (st.chain.prev n) (st.chain.next n)).setPrevOf
      (st.chain.next n) (st.chain.prev n)
    head := if (st.chain.prev n).isNone then st.chain.next n else st.head
    tail := if (st.chain.next n).isNone then st.chain.prev n else st.tail }
  obtain ⟨links, tl, tr, h1, h2, h3⟩ := splayBottomUp_spec st₁ ht (n := n)
    (by rw [ho]; simp) (by rw [ho]; exact nd) (by rw [← ho] at h; exact h.count.ge)
  obtain ⟨rfl, rfl⟩ := append_cons_inj (h3.trans ho) nd
  obtain ⟨hn1, hn2⟩ : n ∉ tl.inorder ∧ n ∉ tr.inorder :=
    ⟨fun hm => (List.nodup_append.mp nd).2.2 n hm n (by simp) rfl,
      (List.nodup_cons.mp (List.nodup_append.mp nd).2.1).1⟩
  have hp₁ : st₁.chain.prev n = tl.inorder.getLast? := by
    simp only [st₁, hx, hp]
    cases e : tr.inorder.head? with
    | none => simpa [Chain.setPrevOf] using hp
    | some y =>
        have hny : n ≠ y := fun e' => hn2 (e' ▸ List.mem_of_mem_head? e)
        simpa [Chain.setPrevOf, hny] using hp
  have hx₁ : st₁.chain.next n = tr.inorder.head? := by
    simp only [st₁, hx, hp, Chain.setPrevOf_next]
    cases e : tl.inorder.getLast? with
    | none => simpa [Chain.setNextOf] using hx
    | some y =>
        have hny : n ≠ y := fun e' => hn1 (e' ▸ List.mem_of_getLast? e)
        simpa [Chain.setNextOf, hny] using hx
  -- whichever subtree is empty, the writes join the two
  have hjoin : ∃ links' root' t', splayUnlinkNode st n = some { st₁ with
        links := links', root := root', count := st.count - 1,
        generation := st.generation + 1 } ∧
      links'.IsTree root' none t' ∧ t'.inorder = tl.inorder ++ tr.inorder := by
    cases tl with
    | nil =>
        cases tr with
        | nil =>
            refine ⟨links, none, nil, ?_, rfl, rfl⟩
            change (splayBottomUp st₁ n).bind _ = _
            rw [h1, Option.bind_some]
            simp only [hp₁, hx₁]
            rfl
        | node a root c =>
            obtain ⟨-, -, -, hr⟩ := h2
            have hroot : links.right n = some root := hr.1
            obtain ⟨y, hy⟩ : ∃ y, (node a root c).inorder.head? = some y := by
              cases e : (node a root c).inorder with
              | nil => simp at e
              | cons y _ => exact ⟨y, rfl⟩
            refine ⟨links.setParent root none, some root, node a root c, ?_, ?_, rfl⟩
            · change (splayBottomUp st₁ n).bind _ = _
              rw [h1, Option.bind_some]
              simp only [hp₁, hx₁, hy, hroot]
              rfl
            · rw [hroot] at hr
              exact isTree_setParent_root hr (List.nodup_cons.mp nd).2 none
    | node a root c =>
        have hroot : links.left n = some root := h2.2.2.1.1
        have hlast := getLast?_inorder a root c
        refine ⟨joinAt links n root (lastRight root c), some root, _, ?_, isTree_joinAt h2 nd,
          inorder_graftRight _ _⟩
        change (splayBottomUp st₁ n).bind _ = _
        rw [h1, Option.bind_some]
        simp only [hp₁, hlast, hroot]
        simp only [joinAt, setParent_right, setRight_left, setParent_left, hroot]
        rfl
  obtain ⟨links', root', t', he, ht', ho'⟩ := hjoin
  refine ⟨_, he, ⟨⟨t', ht', ho'⟩, hseg, ?_, ?_, ?_, ?_, ?_, ?_⟩, rfl, rfl⟩
  · simp only [st₁, hp, hx, h.head]
    cases e : tl.inorder <;> simp
  · simp only [st₁, hp, hx, h.tail]
    rcases List.eq_nil_or_concat' tr.inorder with e | ⟨l', a, e⟩ <;>
      simp [e, List.getLast?_cons]
  · simp [h.count]
  · exact nd.sublist (List.Sublist.append_left (List.sublist_cons_self n _) _)
  · exact h.sorted.sublist (List.Sublist.append_left (List.sublist_cons_self n _) _)
  · intro a ha
    refine h.heap a ?_
    simp only [List.mem_append, List.mem_cons] at ha ⊢
    tauto

end Tinc.Splay
