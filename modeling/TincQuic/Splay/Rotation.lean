import TincQuic.Splay.Model

/-!
# Rotations

Both splay operations are made of one move, the rotation that lifts a child above its parent.
`liftLeftChild` is used at places where the parent does not point to the child (any more), so
the lemmas ask for the two subtrees only.

* **A rotation keeps the order of the nodes**: `isTree_liftLeftChild`, `isTree_liftRightChild`.
* **It writes to the nodes it moves and to nothing else**: the `frame` lemmas.
-/

namespace Tinc.Splay

open PtrTree PtrTree.PTree PtrTree.Links

variable {m : Links Loc} {p n : Loc} {q s s' : Option Loc} {a b c : PTree Loc}

lemma liftRightChild_eq_mirror (m : Links Loc) (p n : Loc) :
    liftRightChild m p n = (liftLeftChild m.mirror p n).mirror := by
  simp only [liftRightChild, liftLeftChild, mirror_right]
  cases h : m.left n <;> simp [h, setParentOf, setParent, setLeft, setRight, Links.mirror]

lemma liftLeftChild_left (m : Links Loc) (p n x : Loc) :
    (liftLeftChild m p n).left x = if x = p then m.right n else m.left x := by
  simp [liftLeftChild]

lemma liftLeftChild_right (m : Links Loc) (p n x : Loc) :
    (liftLeftChild m p n).right x = if x = n then some p else m.right x := by
  simp [liftLeftChild]

lemma liftLeftChild_parent (m : Links Loc) (p n x : Loc) :
    (liftLeftChild m p n).parent x =
      if x = p then some n else if m.right n = some x then some p else m.parent x := by
  simp [liftLeftChild, setParentOf_parent]

/-- The rotation that lifts `n` above `p`. -/
theorem isTree_liftLeftChild (hn : m.IsTree (some n) q (node a n b)) (hc : m.IsTree (m.right p) s c)
    (hs : s = some p) (nd : (node a n (node b p c)).inorder.Nodup) :
    (liftLeftChild m p n).IsTree (some n) q (node a n (node b p c)) := by
  obtain ⟨-, hq, ha, hb⟩ := hn
  obtain ⟨reg, h1, h2, h3, h4, h5, -⟩ := exists_regions 0
    [a.inorder, [n], b.inorder, [p], c.inorder] (by simpa using nd)
  simp only [List.mem_singleton, forall_eq] at h2 h4
  have hbm := hb.mem
  have hl := liftLeftChild_left m p n
  have hr := liftLeftChild_right m p n
  have hp := liftLeftChild_parent m p n
  generalize liftLeftChild m p n = m' at *
  have nb : b.inorder.Nodup := by
    simp only [inorder_node, List.nodup_append, List.nodup_cons] at nd
    tauto
  subst hs
  refine ⟨rfl, by grind, ?_, by grind, by grind, ?_, ?_⟩
  · rw [show m'.left n = m.left n by grind]
    refine ha.congr ?_ ?_ ?_ <;> grind
  · rw [show m'.left p = m.right n by grind]
    refine hb.transfer nb ?_ ?_ ?_ ?_ <;> grind
  · rw [show m'.right p = m.right p by grind]
    refine hc.congr ?_ ?_ ?_ <;> grind

/-- The rotation that lifts `n` above `p` from the other side. -/
theorem isTree_liftRightChild (hn : m.IsTree (some n) q (node b n c))
    (ha : m.IsTree (m.left p) s a) (hs : s = some p)
    (nd : (node (node a p b) n c).inorder.Nodup) :
    (liftRightChild m p n).IsTree (some n) q (node (node a p b) n c) := by
  rw [liftRightChild_eq_mirror]
  have := isTree_liftLeftChild (p := p) hn.mirror ha.mirror hs
    (by simpa using (List.nodup_reverse.mpr nd))
  simpa using this.mirror

/-- Everything but `p`, `n` and the root of the subtree that changes sides is left alone. -/
lemma liftLeftChild_frame (hn : m.IsTree (some n) q (node a n b)) {x : Loc} (hxp : x ≠ p)
    (hx : x ∉ (node a n b).inorder) :
    (liftLeftChild m p n).left x = m.left x ∧ (liftLeftChild m p n).right x = m.right x ∧
      (liftLeftChild m p n).parent x = m.parent x := by
  have hb := hn.2.2.2.mem
  have hl := liftLeftChild_left m p n
  have hr := liftLeftChild_right m p n
  have hp := liftLeftChild_parent m p n
  simp only [inorder_node, List.mem_append, List.mem_cons, not_or] at hx
  grind

lemma liftRightChild_frame (hn : m.IsTree (some n) q (node b n c)) {x : Loc} (hxp : x ≠ p)
    (hx : x ∉ (node b n c).inorder) :
    (liftRightChild m p n).left x = m.left x ∧ (liftRightChild m p n).right x = m.right x ∧
      (liftRightChild m p n).parent x = m.parent x := by
  rw [liftRightChild_eq_mirror]
  obtain ⟨h1, h2, h3⟩ := liftLeftChild_frame (p := p) hn.mirror hxp
    (by rwa [← mirror_node, inorder_mirror, List.mem_reverse])
  exact ⟨h2, h1, h3⟩

end Tinc.Splay
