import TincQuic.Splay.Rotation

/-!
# `splay_bottom_up` moves a node to the root without reordering the tree

The loop of `splay_bottom_up` follows parent pointers, so it sees the tree as a context around
the node (`Ctx`).  Each iteration rotates the node above its grandparent and hooks the result up
where the grandparent was; the context gets two levels shorter.

* **An iteration is confined to the grandparent's subtree** and to the one pointer that led to
  it: `Rotated`, `isTree_attach`.
* **The loop ends with the node on top**: `bottomUpLoop_spec`, `splayBottomUp_spec`.
-/

namespace Tinc.Splay

open PtrTree PtrTree.PTree PtrTree.Links

variable {m m' : Links Loc} {n p g : Loc} {q rp : Option Loc} {a b c d t t' : PTree Loc}
  {k : Ctx Loc}

/-- A change of memory that is confined to the nodes `s`. -/
def Confined (m m' : Links Loc) (s : List Loc) : Prop :=
  ∀ x ∉ s, m'.left x = m.left x ∧ m'.right x = m.right x ∧ m'.parent x = m.parent x

lemma isTree_setParent_root (h : m.IsTree (some n) q t) (nd : t.inorder.Nodup)
    (v : Option Loc) : (m.setParent n v).IsTree (some n) v t := by
  refine h.transfer nd (by simp) (by simp) ?_ (by simp)
  intro x _ hx
  rw [setParent_parent, if_neg (fun e => hx (by rw [e]))]

/-- The tree below the hole was rearranged, with `n` on top; `attach` hooks it up. -/
lemma isTree_attach (h : m.IsTree rp none (k.plug (node a g b)))
    (nd : (k.plug (node a g b)).inorder.Nodup) (h' : m'.IsTree (some n) q (node c n d))
    (ho : (node c n d).inorder = (node a g b).inorder)
    (hf : Confined m m' (node a g b).inorder) :
    ∃ rp', (attach m' n g k.above).IsTree rp' none (k.plug (node c n d)) := by
  rw [Ctx.inorder_plug] at nd
  obtain ⟨s, ⟨rfl, hg, -, -⟩, hk⟩ := (isTree_plug k).mp h
  have ndt : (node c n d).inorder.Nodup := by
    rw [ho]
    exact (List.nodup_append.mp (List.nodup_append.mp nd).2.1).1
  have hg : g ∈ (node a g b).inorder := by simp
  have hn : n ∈ (node a g b).inorder := by simp [← ho]
  have h1 := isTree_setParent_root h' ndt k.above
  rw [← ho] at hf nd hg hn
  generalize node c n d = t at *
  unfold Confined at hf
  cases k with
  | top => exact ⟨_, h1⟩
  | inL u r k =>
      obtain ⟨hu, hpu, hr, hk⟩ := hk
      obtain ⟨reg, g1, g2, g3, g4, g5, -⟩ := exists_regions 0
        [k.before, t.inorder, [u], r.inorder, k.after] (by simpa [Ctx.before, Ctx.after] using nd)
      simp only [List.mem_singleton, forall_eq] at g3
      clear nd ndt
      have hul : m'.left u = some g := by rw [(hf u (by grind)).1, hu]
      refine ⟨rp, (isTree_plug _).mpr ⟨some n, ?_, ?_⟩⟩
      · refine h1.congr ?_ ?_ ?_ <;> simp [attach, Ctx.above, hul]
        grind
      · have el : ∀ x, (attach m' n g (Ctx.inL u r k).above).left x =
            if x = u then some n else m'.left x := by simp [attach, Ctx.above, hul]
        have er : ∀ x, (attach m' n g (Ctx.inL u r k).above).right x = m'.right x := by
          simp [attach, Ctx.above, hul]
        have ep : ∀ x, (attach m' n g (Ctx.inL u r k).above).parent x =
            if x = n then some u else m'.parent x := by simp [attach, Ctx.above, hul]
        refine ⟨by grind, by grind, ?_, hk.congr ?_ ?_ ?_⟩
        · rw [er, (hf u (by grind)).2.1]
          refine hr.congr ?_ ?_ ?_ <;> grind
        all_goals grind
  | inR l u k =>
      obtain ⟨hu, hpu, hl, hk⟩ := hk
      obtain ⟨reg, g1, g2, g3, g4, g5, -⟩ := exists_regions 0
        [k.before, l.inorder, [u], t.inorder, k.after] (by simpa [Ctx.before, Ctx.after] using nd)
      simp only [List.mem_singleton, forall_eq] at g3
      clear nd ndt
      -- the left child of `u` is in `l`, so the test of `attach` fails
      have hul : m'.left u ≠ some g := by
        rw [(hf u (by grind)).1]
        intro e
        have := hl.mem g e
        grind
      refine ⟨rp, (isTree_plug _).mpr ⟨some n, ?_, ?_⟩⟩
      · refine h1.congr ?_ ?_ ?_ <;> simp [attach, Ctx.above, Ne.symm hul]
        grind
      · have el : ∀ x, (attach m' n g (Ctx.inR l u k).above).left x = m'.left x := by
          simp [attach, Ctx.above, Ne.symm hul]
        have er : ∀ x, (attach m' n g (Ctx.inR l u k).above).right x =
            if x = u then some n else m'.right x := by simp [attach, Ctx.above, Ne.symm hul]
        have ep : ∀ x, (attach m' n g (Ctx.inR l u k).above).parent x =
            if x = n then some u else m'.parent x := by simp [attach, Ctx.above, Ne.symm hul]
        refine ⟨by grind, by grind, ?_, hk.congr ?_ ?_ ?_⟩
        · rw [el, (hf u (by grind)).1]
          refine hl.congr ?_ ?_ ?_ <;> grind
        all_goals grind

/-! ## The two rotations of an iteration -/

lemma Confined.trans {m'' : Links Loc} {s : List Loc} (h : Confined m m' s)
    (h' : Confined m' m'' s) : Confined m m'' s := by
  intro x hx
  obtain ⟨h1, h2, h3⟩ := h x hx
  obtain ⟨h4, h5, h6⟩ := h' x hx
  exact ⟨h4.trans h1, h5.trans h2, h6.trans h3⟩

lemma Confined.mirror (h : Confined m m' t.mirror.inorder) :
    Confined m.mirror m'.mirror t.inorder := by
  intro x hx
  obtain ⟨h1, h2, h3⟩ := h x (by simpa using hx)
  exact ⟨h2, h1, h3⟩

lemma confined_liftLeftChild {s : List Loc} (hn : m.IsTree (some n) q (node a n b)) (hp : p ∈ s)
    (hs : ∀ x ∈ (node a n b).inorder, x ∈ s) : Confined m (liftLeftChild m p n) s :=
  fun x hx => liftLeftChild_frame hn (fun e => hx (e ▸ hp)) (fun h => hx (hs x h))

lemma confined_liftRightChild {s : List Loc} (hn : m.IsTree (some n) q (node a n b)) (hp : p ∈ s)
    (hs : ∀ x ∈ (node a n b).inorder, x ∈ s) : Confined m (liftRightChild m p n) s :=
  fun x hx => liftRightChild_frame hn (fun e => hx (e ▸ hp)) (fun h => hx (hs x h))

/-- Zig-zig from the left. -/
lemma zigZigUp_spec (h : m.IsTree (some g) q (node (node (node a n b) p c) g d))
    (nd : (node (node (node a n b) p c) g d).inorder.Nodup) :
    (liftLeftChild (liftLeftChild m g p) p n).IsTree (some n) (some p)
      (node a n (node b p (node c g d))) ∧
    Confined m (liftLeftChild (liftLeftChild m g p) p n)
      (node (node (node a n b) p c) g d).inorder := by
  obtain ⟨-, -, ⟨hg, hpp, hn, hc⟩, hd⟩ := h
  have hp : m.IsTree (some p) (some g) (node (node a n b) p c) := ⟨rfl, hpp, hn, hc⟩
  have h1 := isTree_liftLeftChild hp hd rfl (by simpa using nd)
  obtain ⟨-, -, ⟨hl, hpn, ha, hb⟩, hr⟩ := h1
  have hn1 : (liftLeftChild m g p).IsTree (some n) (some p) (node a n b) := ⟨rfl, hpn, ha, hb⟩
  refine ⟨isTree_liftLeftChild hn1 hr rfl (by simpa using nd), ?_⟩
  refine (confined_liftLeftChild hp ?_ ?_).trans (confined_liftLeftChild hn1 ?_ ?_) <;>
    simp only [inorder_node, List.mem_append, List.mem_cons] <;> tauto

/-- Zig-zag, from the left and then from the right. -/
lemma zigZagUp_spec (h : m.IsTree (some g) q (node (node a p (node b n c)) g d))
    (nd : (node (node a p (node b n c)) g d).inorder.Nodup) :
    (liftLeftChild (liftRightChild m p n) g n).IsTree (some n) (some p)
      (node (node a p b) n (node c g d)) ∧
    Confined m (liftLeftChild (liftRightChild m p n) g n)
      (node (node a p (node b n c)) g d).inorder := by
  obtain ⟨reg, g1, g2, g3, g4, g5, g6, g7, -⟩ := exists_regions 0
    [a.inorder, [p], b.inorder, [n], c.inorder, [g], d.inorder] (by simpa using nd)
  simp only [List.mem_singleton, forall_eq] at g2 g4 g6
  obtain ⟨-, -, ⟨hg, hpp, ha, hr, hpn, hb, hc⟩, hd⟩ := h
  have hn : m.IsTree (some n) (some p) (node b n c) := ⟨rfl, hpn, hb, hc⟩
  have h1 := isTree_liftRightChild hn ha rfl (by
    simp only [inorder_node, List.nodup_append] at nd ⊢
    grind)
  have hout : ∀ x ∈ g :: d.inorder, x ≠ p ∧ x ∉ (node b n c).inorder := by
    simp only [inorder_node]
    grind
  have hd1 : (liftRightChild m p n).IsTree ((liftRightChild m p n).right g) (some g) d := by
    have hfr := fun x hx => liftRightChild_frame hn (hout x hx).1 (hout x hx).2
    rw [(hfr g (by simp)).2.1]
    exact hd.congr (fun x hx => (hfr x (by simp [hx])).1) (fun x hx => (hfr x (by simp [hx])).2.1)
      (fun x hx => (hfr x (by simp [hx])).2.2)
  refine ⟨isTree_liftLeftChild h1 hd1 rfl (by simpa using nd), ?_⟩
  refine (confined_liftRightChild hn ?_ ?_).trans (confined_liftLeftChild h1 ?_ ?_) <;>
    simp only [inorder_node, List.mem_append, List.mem_cons] <;> tauto

/-- What an iteration does to the subtree of the grandparent. -/
def Rotated (m : Links Loc) (n p g : Loc) (t : PTree Loc) : Prop :=
  ∃ c d, (doubleRotation m n p g).IsTree (some n) (some p) (node c n d) ∧
    (node c n d).inorder = t.inorder ∧ Confined m (doubleRotation m n p g) t.inorder

lemma rotated_left_left (h : m.IsTree (some g) q (node (node (node a n b) p c) g d))
    (nd : (node (node (node a n b) p c) g d).inorder.Nodup) :
    Rotated m n p g (node (node (node a n b) p c) g d) := by
  have he : doubleRotation m n p g = liftLeftChild (liftLeftChild m g p) p n :=
    if_pos ⟨h.2.2.1.2.2.1.1.symm, h.2.2.1.1.symm⟩
  obtain ⟨h1, h2⟩ := zigZigUp_spec h nd
  exact ⟨_, _, he ▸ h1, by simp, he ▸ h2⟩

lemma rotated_right_right (h : m.IsTree (some g) q (node d g (node c p (node b n a))))
    (nd : (node d g (node c p (node b n a))).inorder.Nodup) :
    Rotated m n p g (node d g (node c p (node b n a))) := by
  obtain ⟨-, -, hd, hgr, -, hc, hpr, -⟩ := id h
  obtain ⟨reg, g1, g2, g3, g4, g5, g6, g7, -⟩ := exists_regions 0
    [d.inorder, [g], c.inorder, [p], b.inorder, [n], a.inorder] (by simpa using nd)
  simp only [List.mem_singleton, forall_eq] at g2 g4 g6
  have hpl : some n ≠ m.left p := by
    intro e
    have := hc.mem n e.symm
    grind
  have he : doubleRotation m n p g =
      (liftLeftChild (liftLeftChild m.mirror g p) p n).mirror := by
    rw [doubleRotation, if_neg (fun e => hpl e.1), if_pos ⟨hpr.symm, hgr.symm⟩,
      liftRightChild_eq_mirror, liftRightChild_eq_mirror, Links.mirror_mirror]
  obtain ⟨h1, h2⟩ := zigZigUp_spec h.mirror (by simpa using List.nodup_reverse.mpr nd)
  exact ⟨_, _, he ▸ h1.mirror, by simp, he ▸ h2.mirror (t := node d g (node c p (node b n a)))⟩

lemma rotated_left_right (h : m.IsTree (some g) q (node (node a p (node b n c)) g d))
    (nd : (node (node a p (node b n c)) g d).inorder.Nodup) :
    Rotated m n p g (node (node a p (node b n c)) g d) := by
  obtain ⟨-, -, ⟨hgl, -, ha, hpr, -⟩, hd⟩ := id h
  obtain ⟨reg, g1, g2, g3, g4, g5, g6, g7, -⟩ := exists_regions 0
    [a.inorder, [p], b.inorder, [n], c.inorder, [g], d.inorder] (by simpa using nd)
  simp only [List.mem_singleton, forall_eq] at g2 g4 g6
  have hpl : some n ≠ m.left p := by
    intro e
    have := ha.mem n e.symm
    grind
  have hgr : some p ≠ m.right g := by
    intro e
    have := hd.mem p e.symm
    grind
  have he : doubleRotation m n p g = liftLeftChild (liftRightChild m p n) g n := by
    rw [doubleRotation, if_neg (fun e => hpl e.1), if_neg (fun e => hgr e.2),
      if_pos ⟨hpr.symm, hgl.symm⟩]
  obtain ⟨h1, h2⟩ := zigZagUp_spec h nd
  exact ⟨_, _, he ▸ h1, by simp, he ▸ h2⟩

lemma rotated_right_left (h : m.IsTree (some g) q (node d g (node (node c n b) p a)))
    (nd : (node d g (node (node c n b) p a)).inorder.Nodup) :
    Rotated m n p g (node d g (node (node c n b) p a)) := by
  obtain ⟨-, -, hd, -, -, ⟨hpl, -⟩, ha⟩ := id h
  obtain ⟨reg, g1, g2, g3, g4, g5, g6, g7, -⟩ := exists_regions 0
    [d.inorder, [g], c.inorder, [n], b.inorder, [p], a.inorder] (by simpa using nd)
  simp only [List.mem_singleton, forall_eq] at g2 g4 g6
  have hpr : some n ≠ m.right p := by
    intro e
    have := ha.mem n e.symm
    grind
  have hgl : some p ≠ m.left g := by
    intro e
    have := hd.mem p e.symm
    grind
  have he : doubleRotation m n p g =
      (liftLeftChild (liftRightChild m.mirror p n) g n).mirror := by
    rw [doubleRotation, if_neg (fun e => hgl e.2), if_neg (fun e => hpr e.1),
      if_neg (fun e => hpr e.1), liftRightChild_eq_mirror, liftRightChild_eq_mirror,
      Links.mirror_mirror]
  obtain ⟨h1, h2⟩ := zigZagUp_spec h.mirror (by simpa using List.nodup_reverse.mpr nd)
  exact ⟨_, _, he ▸ h1.mirror, by simp,
    he ▸ h2.mirror (t := node d g (node (node c n b) p a))⟩

/-! ## The loop -/

/-- An iteration below a grandparent. -/
lemma Rotated.attach (hr : Rotated m n p g (node a g b))
    (h : m.IsTree rp none (k.plug (node a g b))) (nd : (k.plug (node a g b)).inorder.Nodup) :
    ∃ rp' c d, (attach (doubleRotation m n p g) n g (m.parent g)).IsTree rp' none
        (k.plug (node c n d)) ∧
      (k.plug (node c n d)).inorder = (k.plug (node a g b)).inorder := by
  obtain ⟨c, d, h1, ho, hf⟩ := hr
  obtain ⟨s, ⟨-, hg, -, -⟩, -⟩ := (isTree_plug k).mp h
  obtain ⟨rp', h2⟩ := isTree_attach h nd h1 ho hf
  rw [hg]
  exact ⟨rp', c, d, h2, by simp only [Ctx.inorder_plug, ho]⟩

lemma bottomUpLoop_double (fuel : ℕ) (hn : m.parent n = some p) (hp : m.parent p = some g) :
    bottomUpLoop n (fuel + 1) m =
      bottomUpLoop n fuel (attach (doubleRotation m n p g) n g (m.parent g)) := by
  simp only [bottomUpLoop, hn, hp]

/-- The iteration below the root. -/
lemma isTree_single (h : m.IsTree rp none t) (nd : t.inorder.Nodup)
    (ht : t = node (node a n b) p c ∨ t = node c p (node a n b)) :
    ∃ x y, ((if some n = m.left p then liftLeftChild m p n else liftRightChild m p n).setParent
        n none).IsTree (some n) none (node x n y) ∧ (node x n y).inorder = t.inorder := by
  rcases ht with rfl | rfl
  · obtain ⟨-, -, ⟨hl, hpn, ha, hb⟩, hc⟩ := h
    rw [if_pos hl.symm]
    have h1 := isTree_liftLeftChild ⟨rfl, hpn, ha, hb⟩ hc rfl (by simpa using nd)
    exact ⟨_, _, isTree_setParent_root h1 (by simpa using nd) none, by simp⟩
  · obtain ⟨-, -, hc, ⟨hr, hpn, ha, hb⟩⟩ := h
    have hne : some n ≠ m.left p := by
      intro e
      exact (List.nodup_append.mp nd).2.2 n (hc.mem n e.symm) n (by simp) rfl
    rw [if_neg hne]
    have h1 := isTree_liftRightChild ⟨rfl, hpn, ha, hb⟩ hc rfl (by simpa using nd)
    exact ⟨_, _, isTree_setParent_root h1 (by simpa using nd) none, by simp⟩

/-- The loop ends with the node on top, and the order is what it was. -/
lemma bottomUpLoop_spec (fuel : ℕ) (h : m.IsTree rp none (k.plug (node a n b)))
    (nd : (k.plug (node a n b)).inorder.Nodup) (hfuel : k.depth < fuel) :
    ∃ m' c d, bottomUpLoop n fuel m = some m' ∧ m'.IsTree (some n) none (node c n d) ∧
      (node c n d).inorder = (k.plug (node a n b)).inorder := by
  induction fuel generalizing m rp k a b with
  | zero => omega
  | succ fuel ih =>
      obtain ⟨s, ⟨-, hn, -, -⟩, hk⟩ := (isTree_plug k).mp h
      -- below the root the tree is rotated once, and the next iteration stops
      have hsingle : ∀ p c, m.parent n = some p → m.parent p = none → 1 < fuel + 1 →
          (k.plug (node a n b) = node (node a n b) p c ∨
            k.plug (node a n b) = node c p (node a n b)) →
          ∃ m' c d, bottomUpLoop n (fuel + 1) m = some m' ∧ m'.IsTree (some n) none (node c n d) ∧
            (node c n d).inorder = (k.plug (node a n b)).inorder := by
        intro p c hn hp hfuel ht
        obtain ⟨x, y, h1, h2⟩ := isTree_single h nd ht
        obtain ⟨m', x', y', h3, h4, h5⟩ := ih (k := .top) h1 (by rw [Ctx.plug, h2]; exact nd)
          (by simp only [Ctx.depth]; omega)
        refine ⟨m', x', y', ?_, h4, by rw [h5, Ctx.plug, h2]⟩
        simp only [bottomUpLoop, hn, hp]
        exact h3
      -- further down the two rotations consume two levels of the context
      have hdouble : ∀ p g c d k', m.parent n = some p → m.parent p = some g →
          k.plug (node a n b) = Ctx.plug k' (node c g d) → k'.depth < fuel →
          ((node c g d).inorder.Nodup → m.IsTree (some g) k'.above (node c g d) →
            Rotated m n p g (node c g d)) →
          ∃ m' c d, bottomUpLoop n (fuel + 1) m = some m' ∧ m'.IsTree (some n) none (node c n d) ∧
            (node c n d).inorder = (k.plug (node a n b)).inorder := by
        intro p g c d k' hn hp he hfuel hrot
        rw [he] at h nd
        obtain ⟨s, ⟨rfl, hg⟩, -⟩ := (isTree_plug k').mp h
        have ndt : (node c g d).inorder.Nodup := by
          rw [Ctx.inorder_plug] at nd
          exact (List.nodup_append.mp (List.nodup_append.mp nd).2.1).1
        obtain ⟨rp', x, y, h1, h2⟩ := (hrot ndt ⟨rfl, hg⟩).attach h nd
        obtain ⟨m', x', y', h3, h4, h5⟩ := ih h1 (h2 ▸ nd) hfuel
        exact ⟨m', x', y', by rw [bottomUpLoop_double fuel hn hp, h3], h4, by rw [h5, h2, he]⟩
      cases k with
      | top =>
          obtain ⟨rfl, h2, h3, h4⟩ := h
          refine ⟨m, a, b, ?_, ⟨rfl, h2, h3, h4⟩, rfl⟩
          rw [bottomUpLoop, hn]
          rfl
      | inL p c k =>
          cases k with
          | top => exact hsingle p c hn hk.2.1 hfuel (.inl rfl)
          | inL g d k =>
              simp only [Ctx.depth] at hfuel
              exact hdouble p g _ _ k hn hk.2.1 rfl (by omega)
                (fun nd h => rotated_left_left h nd)
          | inR d g k =>
              simp only [Ctx.depth] at hfuel
              exact hdouble p g _ _ k hn hk.2.1 rfl (by omega)
                (fun nd h => rotated_right_left h nd)
      | inR c p k =>
          cases k with
          | top => exact hsingle p c hn hk.2.1 hfuel (.inr rfl)
          | inL g d k =>
              simp only [Ctx.depth] at hfuel
              exact hdouble p g _ _ k hn hk.2.1 rfl (by omega)
                (fun nd h => rotated_left_right h nd)
          | inR d g k =>
              simp only [Ctx.depth] at hfuel
              exact hdouble p g _ _ k hn hk.2.1 rfl (by omega)
                (fun nd h => rotated_right_right h nd)

/-- `splay_bottom_up` on a node of the tree. -/
theorem splayBottomUp_spec {α : Type} (st : SplayTree α) (h : st.links.IsTree st.root none t)
    (hn : n ∈ t.inorder) (nd : t.inorder.Nodup) (hcount : t.size ≤ st.count) :
    ∃ links tl tr, splayBottomUp st n = some { st with links := links, root := some n } ∧
      links.IsTree (some n) none (node tl n tr) ∧ (node tl n tr).inorder = t.inorder := by
  obtain ⟨k, a, b, rfl⟩ := exists_plug_of_mem t hn
  have hd := k.depth_le (node a n b)
  obtain ⟨m', c, d, h1, h2, h3⟩ := bottomUpLoop_spec (st.count + 1) h nd (by omega)
  exact ⟨m', c, d, by simp [splayBottomUp, h1], h2, h3⟩

end Tinc.Splay
