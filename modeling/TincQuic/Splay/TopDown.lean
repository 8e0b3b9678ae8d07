import TincQuic.Splay.Rotation

/-!
# `splay_top_down` rearranges the tree without reordering it

The loop of `splay_top_down` takes the tree apart while it descends: nodes below the element go
to a left tree, nodes above it to a right tree, and the two hang under stack variables.  `Split`
is that state, `Split.zigLeft` and its relatives are the six ways to go on, and the merge puts
the three trees together.

* **No step reorders the nodes.**  In every `Split` lemma the in-order sequences of the three
  trees, put one after the other, stay what they were.
* **The loop ends**: `topDownLoop_spec`, with as much fuel as there are nodes.
* **The element's place is at the root**: `splayTopDown_spec`.
-/

namespace Tinc.Splay

open PtrTree PtrTree.PTree PtrTree.Links

/-- The three trees the loop works on.  The left tree hangs to the right of the stack variable
`lo`, the right tree to the left of `hi`, and `root` is on top of what remains to be split. -/
structure Split (lo hi : Loc) (m : Links Loc) (q : Option Loc) (root leftbottom rightbottom : Loc)
    (L t R : PTree Loc) : Prop where
  left : m.IsTree (some lo) none (node nil lo L)
  mid : m.IsTree (some root) q t
  right : m.IsTree (some hi) none (node R hi nil)
  leftbottom_eq : leftbottom = lastRight lo L
  rightbottom_eq : rightbottom = lastLeft hi R
  nodup : (lo :: (L.inorder ++ (t.inorder ++ (R.inorder ++ [hi])))).Nodup

variable {lo hi : Loc} {m : Links Loc} {q : Option Loc}
  {root child grandchild leftbottom rightbottom : Loc} {L R gl gr cl cr r l t : PTree Loc}

/-- The loop treats left and right alike. -/
lemma Split.mirror (h : Split lo hi m q root leftbottom rightbottom L t R) :
    Split hi lo m.mirror q root rightbottom leftbottom R.mirror t.mirror L.mirror where
  left := h.right.mirror
  mid := h.mid.mirror
  right := h.left.mirror
  leftbottom_eq := by simpa using h.rightbottom_eq
  rightbottom_eq := by simpa using h.leftbottom_eq
  nodup := by
    have := List.nodup_reverse.mpr h.nodup
    simpa using this

lemma zigLeft_left (m : Links Loc) (root child rightbottom x : Loc) :
    (zigLeft m root child rightbottom).left x =
      if x = root then none else if x = rightbottom then some root else m.left x := by
  simp [zigLeft, linkRight]

lemma zigLeft_right (m : Links Loc) (root child rightbottom x : Loc) :
    (zigLeft m root child rightbottom).right x = m.right x := by
  simp [zigLeft, linkRight]

lemma zigLeft_parent (m : Links Loc) (root child rightbottom x : Loc) :
    (zigLeft m root child rightbottom).parent x =
      if x = child then none else if x = root then some rightbottom else m.parent x := by
  simp [zigLeft, linkRight]

/-- The step to the left: `root` and its right subtree go below the right tree. -/
lemma Split.zigLeft
    (h : Split lo hi m q root leftbottom rightbottom L (node (node cl child cr) root r) R) :
    Split lo hi (zigLeft m root child rightbottom) none child leftbottom root L
      (node cl child cr) (R.graftLeft (node nil root r)) := by
  obtain ⟨hL, ⟨-, hp0, ⟨hl, hpc, hcl, hcr⟩, hr⟩, hR, hlb, hrb, nd⟩ := h
  have hrbm := lastLeft_mem hi R
  rw [← hrb] at hrbm
  obtain ⟨reg, g0, g1, g2, g3, g4, g5, g6, g7, -⟩ := exists_regions 0
    [[lo], L.inorder, cl.inorder, [child], cr.inorder, [root], r.inorder, R.inorder ++ [hi]]
    (by simpa using nd)
  simp only [List.mem_singleton, forall_eq] at g0 g3 g5
  have ndR : (node R hi nil).inorder.Nodup := by
    simp only [inorder_node, inorder_nil, List.nodup_append, List.nodup_cons] at nd ⊢
    tauto
  have nd' : (lo :: (L.inorder ++ ((node cl child cr).inorder ++
      ((R.graftLeft (node nil root r)).inorder ++ [hi])))).Nodup := by simpa using nd
  clear nd
  have el := zigLeft_left m root child rightbottom
  have er := zigLeft_right m root child rightbottom
  have ep := zigLeft_parent m root child rightbottom
  generalize Splay.zigLeft m root child rightbottom = m' at *
  refine ⟨?_, ⟨rfl, by clear nd'; grind, ?_, ?_⟩, ?_, hlb, by simp [lastLeft], nd'⟩
  all_goals clear nd'

  · refine hL.congr ?_ ?_ ?_ <;>
      simp only [inorder_node, inorder_nil, List.nil_append, List.mem_cons] <;> grind
  · rw [show m'.left child = m.left child by grind]
    refine hcl.congr ?_ ?_ ?_ <;> grind
  · rw [show m'.right child = m.right child by grind]
    refine hcr.congr ?_ ?_ ?_ <;> grind
  · refine hR.graftLeft (s := some root) ndR ?_ (by grind) ?_ ?_ ?_
    · rw [← hrb]
      refine ⟨rfl, by grind, by simp [el], ?_⟩
      rw [er]
      refine hr.congr ?_ ?_ ?_ <;> grind
    all_goals simp only [inorder_node, inorder_nil]; grind

lemma zigRight_eq_mirror (m : Links Loc) (root child leftbottom : Loc) :
    zigRight m root child leftbottom = (Splay.zigLeft m.mirror root child leftbottom).mirror := rfl

/-- The step to the right. -/
lemma Split.zigRight
    (h : Split lo hi m q root leftbottom rightbottom L (node l root (node cl child cr)) R) :
    Split lo hi (zigRight m root child leftbottom) none child root rightbottom
      (L.graftRight (node l root nil)) (node cl child cr) R := by
  rw [zigRight_eq_mirror]
  have h' := h.mirror
  simp only [mirror_node] at h'
  simpa using h'.zigLeft.mirror

/-! ## The double steps

Zig-zig is a rotation followed by a single step, zig-zag two single steps in a row.  The source
interleaves the writes, which makes no difference as the nodes are distinct. -/

lemma Split.rightbottom_notMem (h : Split lo hi m q root leftbottom rightbottom L t R) :
    rightbottom ∉ t.inorder := by
  have hm := lastLeft_mem hi R
  rw [← h.rightbottom_eq] at hm
  intro ht
  obtain ⟨-, hn, -⟩ := List.nodup_append.mp (List.nodup_cons.mp h.nodup).2
  exact (List.nodup_append.mp hn).2.2 _ ht _ hm rfl

lemma Split.mid_nodup (h : Split lo hi m q root leftbottom rightbottom L t R) :
    t.inorder.Nodup := by
  obtain ⟨-, hn, -⟩ := List.nodup_append.mp (List.nodup_cons.mp h.nodup).2
  exact (List.nodup_append.mp hn).1

/-- The middle tree may be rearranged on its own. -/
lemma Split.replaceMid {m' : Links Loc} {q' : Option Loc} {root' : Loc} {t' : PTree Loc}
    (h : Split lo hi m q root leftbottom rightbottom L t R) (h' : m'.IsTree (some root') q' t')
    (ho : t'.inorder = t.inorder)
    (hf : ∀ x ∉ t.inorder,
      m'.left x = m.left x ∧ m'.right x = m.right x ∧ m'.parent x = m.parent x) :
    Split lo hi m' q' root' leftbottom rightbottom L t' R := by
  obtain ⟨reg, g0, g1, g2, g3, -⟩ := exists_regions 0
    [[lo], L.inorder, t.inorder, R.inorder ++ [hi]] (by simpa using h.nodup)
  have hlo : ∀ x ∈ (node nil lo L).inorder, x ∉ t.inorder := by
    simp only [inorder_node, inorder_nil]
    grind
  have hhi : ∀ x ∈ (node R hi nil).inorder, x ∉ t.inorder := by
    simp only [inorder_node, inorder_nil]
    grind
  refine ⟨?_, h', ?_, h.leftbottom_eq, h.rightbottom_eq, by rw [ho]; exact h.nodup⟩
  · exact h.left.congr (fun x hx => (hf x (hlo x hx)).1) (fun x hx => (hf x (hlo x hx)).2.1)
      (fun x hx => (hf x (hlo x hx)).2.2)
  · exact h.right.congr (fun x hx => (hf x (hhi x hx)).1) (fun x hx => (hf x (hhi x hx)).2.1)
      (fun x hx => (hf x (hhi x hx)).2.2)

lemma links_ext {m m' : Links Loc} (hl : ∀ x, m.left x = m'.left x)
    (hr : ∀ x, m.right x = m'.right x) (hp : ∀ x, m.parent x = m'.parent x) : m = m' := by
  cases m
  cases m'
  simp only [Links.mk.injEq]
  exact ⟨funext hl, funext hr, funext hp⟩

lemma zigZigLeft_eq (hrc : root ≠ child) (hbr : rightbottom ≠ root)
    (hcr : m.right child ≠ some child) :
    zigZigLeft m root child grandchild rightbottom =
      Splay.zigLeft (liftLeftChild m root child) child grandchild rightbottom := by
  apply links_ext <;> intro x <;>
    simp only [zigZigLeft, Splay.zigLeft, linkRight, liftLeftChild, setLeft_left, setLeft_right,
      setLeft_parent, setRight_left, setRight_right, setRight_parent, setParent_left,
      setParent_right, setParent_parent, setParentOf_left, setParentOf_right,
      setParentOf_parent] <;>
    grind

lemma zigZagLeft_eq (hrc : root ≠ child) (hrg : root ≠ grandchild) :
    zigZagLeft m root child grandchild leftbottom rightbottom =
      Splay.zigRight (Splay.zigLeft m root child rightbottom) child grandchild leftbottom := by
  apply links_ext <;> intro x <;>
    simp only [Splay.zigZagLeft, Splay.zigLeft, Splay.zigRight, linkRight, linkLeft, setLeft_left,
      setLeft_right, setLeft_parent, setRight_left, setRight_right, setRight_parent,
      setParent_left, setParent_right, setParent_parent]
  all_goals grind

/-- Two steps to the left. -/
lemma Split.zigZigLeft
    (h : Split lo hi m q root leftbottom rightbottom L
      (node (node (node gl grandchild gr) child cr) root r) R) :
    Split lo hi (zigZigLeft m root child grandchild rightbottom) none grandchild leftbottom child L
      (node gl grandchild gr) (R.graftLeft (node nil child (node cr root r))) := by
  have nd := h.mid_nodup
  obtain ⟨reg, -, -, -, g3, g4, g5, -⟩ := exists_regions 0
    [gl.inorder, [grandchild], gr.inorder, [child], cr.inorder, [root], r.inorder]
    (by simpa using nd)
  simp only [List.mem_singleton, forall_eq] at g3 g5
  have hb : rightbottom ≠ root := by
    rintro rfl
    exact h.rightbottom_notMem (by simp)
  obtain ⟨-, -, ⟨hl, hpc, hg, hcr⟩, hr⟩ := h.mid
  rw [zigZigLeft_eq (by grind) hb (fun e => by have := hcr.mem _ e; grind)]
  have hc : m.IsTree (some child) (some root) (node (node gl grandchild gr) child cr) :=
    ⟨rfl, hpc, hg, hcr⟩
  refine Split.zigLeft (h.replaceMid (isTree_liftLeftChild hc hr rfl ?_) (by simp) ?_)
  · simpa using nd
  · intro x hx
    simp only [inorder_node (node _ _ _) root, List.mem_append, List.mem_cons, not_or] at hx
    exact liftLeftChild_frame hc hx.2.1 hx.1

/-- A step to the left and a step to the right. -/
lemma Split.zigZagLeft
    (h : Split lo hi m q root leftbottom rightbottom L
      (node (node cl child (node gl grandchild gr)) root r) R) :
    Split lo hi (zigZagLeft m root child grandchild leftbottom rightbottom) none grandchild
      child root (L.graftRight (node cl child nil)) (node gl grandchild gr)
      (R.graftLeft (node nil root r)) := by
  obtain ⟨reg, -, g1, -, g3, -, g5, -⟩ := exists_regions 0
    [cl.inorder, [child], gl.inorder, [grandchild], gr.inorder, [root], r.inorder]
    (by simpa using h.mid_nodup)
  simp only [List.mem_singleton, forall_eq] at g1 g3 g5
  rw [zigZagLeft_eq (by grind) (by grind)]
  exact h.zigLeft.zigRight

lemma zigZigRight_eq_mirror (m : Links Loc) (root child grandchild leftbottom : Loc) :
    zigZigRight m root child grandchild leftbottom =
      (Splay.zigZigLeft m.mirror root child grandchild leftbottom).mirror := by
  cases h : m.left child <;>
    simp [Splay.zigZigRight, Splay.zigZigLeft, linkRight, linkLeft, setParentOf, setParent,
      setLeft, setRight, Links.mirror, h]

lemma zigZagRight_eq_mirror (m : Links Loc) (root child grandchild leftbottom rightbottom : Loc) :
    zigZagRight m root child grandchild leftbottom rightbottom =
      (Splay.zigZagLeft m.mirror root child grandchild rightbottom leftbottom).mirror := rfl

/-- Two steps to the right. -/
lemma Split.zigZigRight
    (h : Split lo hi m q root leftbottom rightbottom L
      (node l root (node cl child (node gl grandchild gr))) R) :
    Split lo hi (zigZigRight m root child grandchild leftbottom) none grandchild child rightbottom
      (L.graftRight (node (node l root cl) child nil)) (node gl grandchild gr) R := by
  rw [zigZigRight_eq_mirror]
  have h' := h.mirror
  simp only [mirror_node] at h'
  simpa using h'.zigZigLeft.mirror

/-- A step to the right and a step to the left. -/
lemma Split.zigZagRight
    (h : Split lo hi m q root leftbottom rightbottom L
      (node l root (node (node gl grandchild gr) child cr)) R) :
    Split lo hi (zigZagRight m root child grandchild leftbottom rightbottom) none grandchild
      root child (L.graftRight (node l root nil)) (node gl grandchild gr)
      (R.graftLeft (node nil child cr)) := by
  rw [zigZagRight_eq_mirror]
  have h' := h.mirror
  simp only [mirror_node] at h'
  simpa using h'.zigZagLeft.mirror

/-! ## The loop -/

/-- `f` is the comparison of one fixed element with the nodes `l`, which are in order: what is
before a node that is not greater is smaller. -/
def Monotone (f : Loc → ℤ) (l : List Loc) : Prop :=
  l.Pairwise (fun a b => 0 ≤ f b → 0 < f a)

/-- What holds when the loop stops, for the nodes `s` in their order.  The left tree is smaller
than the element, the right tree is greater, and on the side the element belongs to the
remaining root has no child. -/
def Stopped (lo hi : Loc) (f : Loc → ℤ) (w : Walk) (s : List Loc) : Prop :=
  ∃ L ml mr R, Split lo hi w.links none w.root w.leftbottom w.rightbottom L
      (node ml w.root mr) R ∧
    s = L.inorder ++ ((node ml w.root mr).inorder ++ R.inorder) ∧
    (∀ a ∈ L.inorder, 0 < f a) ∧ (∀ a ∈ R.inorder, f a < 0) ∧ w.c = f w.root ∧
    (w.c < 0 → ml = nil) ∧ (0 < w.c → mr = nil)

lemma Monotone.before {f : Loc → ℤ} {l r : List Loc} {a : Loc} (h : Monotone f (l ++ a :: r))
    (ha : 0 ≤ f a) : ∀ b ∈ l, 0 < f b :=
  fun b hb => (List.pairwise_append.mp h).2.2 b hb a (by simp) ha

lemma Monotone.after {f : Loc → ℤ} {l r : List Loc} {a : Loc} (h : Monotone f (l ++ a :: r))
    (ha : f a ≤ 0) : ∀ b ∈ r, f b < 0 := by
  intro b hb
  by_contra hc
  have := (List.pairwise_cons.mp (List.pairwise_append.mp h).2.1).1 b hb (by omega)
  omega

lemma Monotone.left {f : Loc → ℤ} {l r : List Loc} (h : Monotone f (l ++ r)) : Monotone f l :=
  (List.pairwise_append.mp h).1

lemma Monotone.right {f : Loc → ℤ} {l r : List Loc} (h : Monotone f (l ++ r)) : Monotone f r :=
  (List.pairwise_append.mp h).2.1

lemma Split.stopped {f : Loc → ℤ} {ml mr : PTree Loc}
    (h : Split lo hi m none root leftbottom rightbottom L (node ml root mr) R)
    (hL : ∀ a ∈ L.inorder, 0 < f a) (hR : ∀ a ∈ R.inorder, f a < 0)
    (hl : f root < 0 → ml = nil) (hr : 0 < f root → mr = nil) :
    Stopped lo hi f ⟨m, root, leftbottom, rightbottom, f root⟩
      (L.inorder ++ ((node ml root mr).inorder ++ R.inorder)) :=
  ⟨L, ml, mr, R, h, rfl, hL, hR, rfl, hl, hr⟩

/-- A node that is not smaller, with everything after it, may join the right tree. -/
lemma Monotone.graftLeft {f : Loc → ℤ} {s : List Loc} {a : Loc} {u : PTree Loc}
    (h : Monotone f (s ++ a :: u.inorder)) (ha : f a < 0) (hR : ∀ b ∈ R.inorder, f b < 0) :
    ∀ b ∈ (R.graftLeft (node nil a u)).inorder, f b < 0 := by
  intro b hb
  simp only [inorder_graftLeft, inorder_node, inorder_nil, List.nil_append, List.mem_append,
    List.mem_cons] at hb
  rcases hb with (rfl | hb) | hb
  · exact ha
  · exact h.after ha.le b hb
  · exact hR b hb

/-- A node that is not greater, with everything before it, may join the left tree. -/
lemma Monotone.graftRight {f : Loc → ℤ} {s : List Loc} {a : Loc} {u : PTree Loc}
    (h : Monotone f (u.inorder ++ a :: s)) (ha : 0 < f a) (hL : ∀ b ∈ L.inorder, 0 < f b) :
    ∀ b ∈ (L.graftRight (node u a nil)).inorder, 0 < f b := by
  intro b hb
  simp only [inorder_graftRight, inorder_node, inorder_nil, List.mem_append, List.mem_cons,
    List.not_mem_nil, or_false] at hb
  rcases hb with hb | hb | rfl
  · exact hL b hb
  · exact h.before ha.le b hb
  · exact ha

variable {α : Type} {compare : α → α → ℤ} {data : Loc → α} {x : α}

/-- The loop ends, with every node it passed on the right side of the element. -/
lemma topDownLoop_spec (fuel : ℕ) (h : Split lo hi m none root leftbottom rightbottom L t R)
    (hfuel : t.size ≤ fuel) (ht : Monotone (fun a => compare x (data a)) t.inorder)
    (hL : ∀ a ∈ L.inorder, 0 < compare x (data a))
    (hR : ∀ a ∈ R.inorder, compare x (data a) < 0) :
    ∃ w, topDownLoop compare data x fuel m root leftbottom rightbottom = some w ∧
      Stopped lo hi (fun a => compare x (data a)) w (L.inorder ++ (t.inorder ++ R.inorder)) := by
  induction fuel generalizing m root leftbottom rightbottom L t R with
  | zero =>
      obtain ⟨tl, tr, rfl⟩ := h.mid.exists_node
      simp at hfuel
  | succ fuel ih =>
      obtain ⟨tl, tr, rfl⟩ := h.mid.exists_node
      obtain ⟨-, -, htl, htr⟩ := h.mid
      rw [topDownLoop]
      rcases lt_trichotomy (compare x (data root)) 0 with hc | hc | hc
      · rw [if_pos hc]
        cases tl with
        | nil =>
            rw [htl]
            exact ⟨_, rfl, h.stopped hL hR (fun _ => rfl) (by omega)⟩
        | node cl child cr =>
            obtain ⟨hl, -, hcl, hcr⟩ := htl
            have hm := ht.left
            have hR' := ht.graftLeft hc hR
            rw [hl]
            dsimp only
            rcases lt_trichotomy (compare x (data child)) 0 with hcc | hcc | hcc
            · rw [if_pos hcc]
              cases cl with
              | nil =>
                  rw [hcl]
                  refine ⟨_, rfl, ?_⟩
                  simpa using h.zigLeft.stopped hL hR' (fun _ => rfl) (by omega)
              | node gl grandchild gr =>
                  rw [hcl.1]
                  obtain ⟨w, hw, hs⟩ := ih h.zigZigLeft (by simp at hfuel ⊢; omega) hm.left hL
                    (Monotone.graftLeft (s := (node gl grandchild gr).inorder) (u := node cr root tr)
                      (by simpa using ht) hcc hR)
                  exact ⟨w, hw, by simpa using hs⟩
            · rw [if_neg (by omega), if_neg (by omega)]
              refine ⟨_, rfl, ?_⟩
              simpa using h.zigLeft.stopped hL hR' (by omega) (by omega)
            · rw [if_neg (by omega), if_pos hcc]
              cases cr with
              | nil =>
                  rw [hcr]
                  refine ⟨_, rfl, ?_⟩
                  simpa using h.zigLeft.stopped hL hR' (by omega) (fun _ => rfl)
              | node gl grandchild gr =>
                  rw [hcr.1]
                  obtain ⟨w, hw, hs⟩ := ih h.zigZagLeft (by simp at hfuel ⊢; omega)
                    (Monotone.right (l := _ ++ [child]) (by simpa using hm))
                    (hm.graftRight hcc hL) hR'
                  exact ⟨w, hw, by simpa using hs⟩
      · rw [if_neg (by omega), if_neg (by omega)]
        exact ⟨_, rfl, h.stopped hL hR (by omega) (by omega)⟩
      · rw [if_neg (by omega), if_pos hc]
        cases tr with
        | nil =>
            rw [htr]
            exact ⟨_, rfl, h.stopped hL hR (by omega) (fun _ => rfl)⟩
        | node cl child cr =>
            obtain ⟨hr, -, hcl, hcr⟩ := htr
            have hm : Monotone _ (node cl child cr).inorder :=
              Monotone.right (l := _ ++ [root]) (by simpa using ht)
            have hL' := ht.graftRight hc hL
            rw [hr]
            dsimp only
            rcases lt_trichotomy (compare x (data child)) 0 with hcc | hcc | hcc
            · rw [if_neg (by omega), if_pos hcc]
              cases cl with
              | nil =>
                  rw [hcl]
                  refine ⟨_, rfl, ?_⟩
                  simpa using h.zigRight.stopped hL' hR (fun _ => rfl) (by omega)
              | node gl grandchild gr =>
                  rw [hcl.1]
                  obtain ⟨w, hw, hs⟩ := ih h.zigZagRight (by simp at hfuel ⊢; omega) hm.left
                    hL' (hm.graftLeft hcc hR)
                  exact ⟨w, hw, by simpa using hs⟩
            · rw [if_neg (by omega), if_neg (by omega)]
              refine ⟨_, rfl, ?_⟩
              simpa using h.zigRight.stopped hL' hR (by omega) (by omega)
            · rw [if_pos hcc]
              cases cr with
              | nil =>
                  rw [hcr]
                  refine ⟨_, rfl, ?_⟩
                  simpa using h.zigRight.stopped hL' hR (by omega) (fun _ => rfl)
              | node gl grandchild gr =>
                  rw [hcr.1]
                  obtain ⟨w, hw, hs⟩ := ih h.zigZigRight (by simp at hfuel ⊢; omega)
                    (Monotone.right (l := _ ++ [child]) (by simpa using hm))
                    (Monotone.graftRight (u := node tl root cl) (by simpa using ht) hcc hL) hR
                  exact ⟨w, hw, by simpa using hs⟩

/-! ## Merging the three trees -/

/-- The merge of the left tree, for any stack variable it hangs under. -/
def mergeUnder (m : Links Loc) (lo root leftbottom : Loc) : Links Loc :=
  match m.right lo with
  | none => m
  | some _ =>
      let m := match m.left root with
        | none => m
        | some l => (m.setRight leftbottom (some l)).setParent l (some leftbottom)
      (m.setLeft root (m.right lo)).setParentOf (m.right lo) (some root)

lemma mergeLeft_eq (m : Links Loc) (root leftbottom : Loc) :
    mergeLeft m root leftbottom = mergeUnder m .left root leftbottom := rfl

lemma mergeRight_eq (m : Links Loc) (root rightbottom : Loc) :
    mergeRight m root rightbottom = (mergeUnder m.mirror .right root rightbottom).mirror := by
  simp only [mergeRight, mergeUnder, mirror_right, mirror_left]
  cases h : m.left .right with
  | none => rfl
  | some a =>
      cases hr : m.right root with
      | none => simp [h, setParentOf, setParent, setLeft, setRight, Links.mirror]
      | some b =>
          simp only [setParent, setLeft, setRight, Links.mirror, setParentOf]
          split <;> simp_all

lemma mergeUnder_spec {ml mr : PTree Loc} (hL : m.IsTree (some lo) none (node nil lo L))
    (hmid : m.IsTree (some root) q (node ml root mr)) (hlb : leftbottom = lastRight lo L)
    (nd : (lo :: (L.inorder ++ (node ml root mr).inorder)).Nodup) :
    (mergeUnder m lo root leftbottom).IsTree (some root) q (node (L.graftRight ml) root mr) ∧
    ∀ x ∉ L.inorder ++ (node ml root mr).inorder,
      (mergeUnder m lo root leftbottom).left x = m.left x ∧
      (mergeUnder m lo root leftbottom).right x = m.right x ∧
      (mergeUnder m lo root leftbottom).parent x = m.parent x := by
  obtain ⟨-, -, -, hL⟩ := hL
  cases L with
  | nil =>
      have he : mergeUnder m lo root leftbottom = m := by
        rw [mergeUnder, show m.right lo = none from hL]
      rw [he]
      exact ⟨hmid, fun x _ => ⟨rfl, rfl, rfl⟩⟩
  | node Ll a Lr =>
      obtain ⟨-, hq, hml, hmr⟩ := hmid
      obtain ⟨reg, g0, g1, g2, g3, g4, -⟩ := exists_regions 0
        [[lo], (node Ll a Lr).inorder, ml.inorder, [root], mr.inorder] (by simpa using nd)
      simp only [List.mem_singleton, forall_eq] at g0 g3
      have hlb' : leftbottom = lastRight a Lr := hlb
      have hbm : leftbottom ∈ (node Ll a Lr).inorder := by
        rw [hlb']
        exact List.mem_append_right _ (lastRight_mem a Lr)
      have ham : a ∈ (node Ll a Lr).inorder := by simp
      have hend := hL.right_lastRight
      rw [← hlb'] at hend
      have hla : m.right lo = some a := hL.1
      have hmlm := hml.mem
      have nda : (node Ll a Lr).inorder.Nodup :=
        (List.nodup_append.mp (List.nodup_cons.mp nd).2).1
      have ndl : ml.inorder.Nodup :=
        (List.nodup_append.mp (List.nodup_append.mp (List.nodup_cons.mp nd).2).2.1).1
      clear nd
      have el : ∀ x, (mergeUnder m lo root leftbottom).left x =
          if x = root then some a else m.left x := by
        intro x
        cases h : m.left root <;> simp [mergeUnder, hla, h]
        all_goals grind
      have er : ∀ x, (mergeUnder m lo root leftbottom).right x =
          if x = leftbottom then m.left root else m.right x := by
        intro x
        cases h : m.left root <;> simp [mergeUnder, hla, h]
        all_goals grind
      have ep : ∀ x, (mergeUnder m lo root leftbottom).parent x =
          if x = a then some root else if m.left root = some x then some leftbottom
          else m.parent x := by
        intro x
        cases h : m.left root <;> simp [mergeUnder, hla, h, setParentOf_parent] <;> grind
      generalize mergeUnder m lo root leftbottom = m' at *
      have h2 : (m.setParent a (some root)).IsTree (some a) (some root) (node Ll a Lr) := by
        rw [hla] at hL
        refine hL.transfer nda ?_ ?_ ?_ ?_
        · simp
        · simp
        · intro b _ hb
          rw [setParent_parent, if_neg (fun e => hb (by rw [e]))]
        · simp
      refine ⟨⟨rfl, by grind, ?_, ?_⟩, ?_⟩
      · rw [el, if_pos rfl]
        refine h2.graftRight (s := m.left root) nda ?_ ?_ ?_ ?_ ?_
        · rw [← hlb']
          refine hml.transfer ndl ?_ ?_ ?_ ?_ <;> grind
        · grind
        · intro b hb
          rw [el, if_neg (by grind), setParent_left]
        · intro b hb hne
          rw [er, if_neg (by grind), setParent_right]
        · intro b hb
          rw [ep, setParent_parent]
          grind
      · rw [er, if_neg (by grind)]
        refine hmr.congr ?_ ?_ ?_ <;> grind
      · intro x hx
        simp only [List.mem_append, not_or, inorder_node ml, List.mem_cons] at hx
        refine ⟨?_, ?_, ?_⟩ <;> grind

/-- A merged tree: what the loop took apart, with the element's place at the root. -/
lemma Stopped.merge {f : Loc → ℤ} {w : Walk} {s : List Loc} (h : Stopped .left .right f w s)
    (hm : Monotone f s) :
    ∃ tl tr, (mergeRight (mergeLeft w.links w.root w.leftbottom) w.root w.rightbottom).IsTree
        (some w.root) none (node tl w.root tr) ∧
      s = (node tl w.root tr).inorder ∧ w.c = f w.root ∧
      (∀ a ∈ tl.inorder, 0 < f a) ∧ (∀ a ∈ tr.inorder, f a < 0) := by
  obtain ⟨L, ml, mr, R, h, rfl, hL, hR, hc, hl, hr⟩ := h
  obtain ⟨h1, hf⟩ := mergeUnder_spec h.left h.mid h.leftbottom_eq (by
    have := h.nodup
    simp only [← List.append_assoc, ← List.cons_append, List.nodup_append] at this ⊢
    exact ⟨this.1.1.1, this.1.1.2⟩)
  rw [← mergeLeft_eq] at h1 hf
  have hR1 : (mergeLeft w.links w.root w.leftbottom).IsTree (some .right) none
      (node R .right nil) := by
    have hout : ∀ x ∈ (node R .right nil).inorder,
        x ∉ L.inorder ++ (node ml w.root mr).inorder := by
      have nd := (List.nodup_cons.mp h.nodup).2
      rw [← List.append_assoc] at nd
      obtain ⟨-, -, hd⟩ := List.nodup_append.mp nd
      exact fun x hx hx' => hd x hx' x hx rfl
    exact h.right.congr (fun x hx => (hf x (hout x hx)).1) (fun x hx => (hf x (hout x hx)).2.1)
      (fun x hx => (hf x (hout x hx)).2.2)
  obtain ⟨h2, -⟩ := mergeUnder_spec hR1.mirror h1.mirror
    (show w.rightbottom = _ by simpa using h.rightbottom_eq) (by
      have := List.nodup_reverse.mpr (List.nodup_cons.mp h.nodup).2
      simpa using this)
  refine ⟨L.graftRight ml, R.graftLeft mr, ?_, by simp, hc, ?_, ?_⟩
  · rw [mergeRight_eq]
    simpa using h2.mirror
  · intro a ha
    rcases lt_or_ge w.c 0 with hlt | hge
    · rw [hl hlt, inorder_graftRight, inorder_nil, List.append_nil] at ha
      exact hL a ha
    · refine Monotone.before (l := (L.graftRight ml).inorder) (a := w.root)
        (r := mr.inorder ++ R.inorder) (by simpa using hm) (hc ▸ hge) a ha
  · intro a ha
    rcases lt_or_ge 0 w.c with hlt | hge
    · rw [hr hlt, inorder_graftLeft, inorder_nil, List.nil_append] at ha
      exact hR a ha
    · refine Monotone.after (l := L.inorder ++ ml.inorder) (a := w.root)
        (r := (R.graftLeft mr).inorder) (by simpa using hm) (hc ▸ hge) a ha

/-! ## The operation -/

/-- Zeroing a stack variable does not concern the nodes of the tree. -/
lemma isTree_zeroNode {p : Option Loc} {n : Loc} (h : m.IsTree p q t) (hn : n ∉ t.inorder) :
    (zeroNode m n).IsTree p q t := by
  have hne : ∀ a ∈ t.inorder, a ≠ n := fun a ha e => hn (e ▸ ha)
  refine h.congr ?_ ?_ ?_ <;> intro a ha <;> simp [zeroNode, hne a ha]

/-- `splay_top_down` on a tree that is not empty: the nodes stay in their order, and the new
root separates the nodes before the element from those after it. -/
theorem splayTopDown_spec (compare : α → α → ℤ) {st : SplayTree α} (h : st.links.IsTree st.root none t)
    (hne : t ≠ nil) (nd : t.inorder.Nodup) (hlo : Loc.left ∉ t.inorder)
    (hhi : Loc.right ∉ t.inorder) (hcount : t.size ≤ st.count)
    (hm : Monotone (fun a => compare x (st.data a)) t.inorder) :
    ∃ links tl n tr, splayTopDown compare st x =
        some ({ st with links := links, root := some n }, some n, compare x (st.data n)) ∧
      links.IsTree (some n) none (node tl n tr) ∧ (node tl n tr).inorder = t.inorder ∧
      (∀ a ∈ tl.inorder, 0 < compare x (st.data a)) ∧
      (∀ a ∈ tr.inorder, compare x (st.data a) < 0) := by
  cases t with
  | nil => exact absurd rfl hne
  | node l r0 r =>
      have hroot : st.root = some r0 := h.1
      rw [hroot] at h
      have hs : Split .left .right (zeroNode (zeroNode st.links .left) .right) none r0 .left
          .right nil (node l r0 r) nil := by
        refine ⟨by simp [zeroNode], isTree_zeroNode (isTree_zeroNode h hlo) hhi,
          by simp [zeroNode], rfl, rfl, ?_⟩
        have hd : ∀ a ∈ (node l r0 r).inorder, ∀ b ∈ [Loc.right], a ≠ b := by
          intro a ha b hb e
          exact hhi (List.mem_singleton.mp hb ▸ e ▸ ha)
        rw [inorder_nil, List.nil_append, List.nil_append]
        refine List.nodup_cons.mpr ⟨?_, List.nodup_append.mpr ⟨nd, by simp, hd⟩⟩
        rw [List.mem_append, not_or]
        exact ⟨hlo, by simp⟩
      obtain ⟨w, hw, hst⟩ := topDownLoop_spec (st.count + 1) hs (by omega) hm (by simp) (by simp)
      simp only [inorder_nil, List.nil_append, List.append_nil] at hst
      obtain ⟨tl, tr, h1, h2, h3, h4, h5⟩ := hst.merge hm
      refine ⟨_, tl, w.root, tr, ?_, h1, h2.symm, h4, h5⟩
      simp [splayTopDown, hroot, hw, h3]

/-- On the empty tree it does nothing. -/
lemma splayTopDown_nil {st : SplayTree α} (h : st.root = none) :
    splayTopDown compare st x = some (st, none, 0) := by
  rw [splayTopDown, h]

end Tinc.Splay
