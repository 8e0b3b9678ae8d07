import Mathlib.Data.List.Nodup
import Mathlib.Logic.Function.Basic
import Mathlib.Tactic.Common

/-!
# Binary trees linked through a memory

A pointer program that rewires a binary tree works on three arrays, `left`, `right` and
`parent`, indexed by the address of a node.  `Links` is that memory, with an arbitrary type of
addresses; `PTree` is the shape a region of it may have, with an address at every node; and
`Links.IsTree m p q t` says that the pointer `p` roots the tree `t` in the memory `m`, that every
child points back to its parent, and that the root's parent pointer is `q`.

Everything a rewiring proof needs is in a few groups.

* **Frame.**  `IsTree.congr`: a tree does not depend on the memory outside it.
  `IsTree.transfer`: the parent pointer of its root may be redirected as well.
* **Grafting.**  `graftRight t u` hangs `u` below the last node of the right spine of `t`, and
  `IsTree.graftRight` says which single write does that in memory; `graftLeft` is its mirror.
* **Mirroring.**  `IsTree.mirror` turns a fact about one side into a fact about the other.
* **Contexts.**  `Ctx` is a tree with a hole, read from the hole upwards, which is how a loop
  that follows parent pointers sees the tree; `plug` fills the hole.
-/

namespace PtrTree

variable {A : Type*}

/-! ## Regions

A rewiring proof has to tell many addresses apart.  Numbering the regions they come from turns
each inequality into an inequality of two numerals. -/

/-- `reg` numbers the lists `ls` from `i` on: it is constant on each of them. -/
def Regions (reg : A → ℕ) : ℕ → List (List A) → Prop
  | _, [] => True
  | i, l :: ls => (∀ a ∈ l, reg a = i) ∧ Regions reg (i + 1) ls

lemma Regions.congr {reg reg' : A → ℕ} {i : ℕ} {ls : List (List A)} (h : Regions reg i ls)
    (he : ∀ a ∈ ls.flatten, reg' a = reg a) : Regions reg' i ls := by
  induction ls generalizing i with
  | nil => trivial
  | cons l ls ih =>
      refine ⟨fun a ha => ?_, ih h.2 (fun a ha => he a (by simp [List.mem_flatten.mp ha]))⟩
      rw [he a (by simp [ha]), h.1 a ha]

open Classical in
/-- Lists that together have no duplicates can be numbered. -/
lemma exists_regions (i : ℕ) (ls : List (List A)) (h : ls.flatten.Nodup) :
    ∃ reg : A → ℕ, Regions reg i ls := by
  induction ls generalizing i with
  | nil => exact ⟨fun _ => 0, trivial⟩
  | cons l ls ih =>
      obtain ⟨-, hls, hd⟩ := List.nodup_append.mp h
      obtain ⟨reg, hreg⟩ := ih (i + 1) hls
      refine ⟨fun a => if a ∈ l then i else reg a, fun a ha => if_pos ha, hreg.congr ?_⟩
      intro a ha
      exact if_neg (fun hl => hd a hl a ha rfl)

/-- A binary tree with an address at every node. -/
inductive PTree (A : Type*) where
  | nil
  | node (l : PTree A) (a : A) (r : PTree A)
  deriving DecidableEq, Repr

namespace PTree

/-- The addresses of a tree from left to right. -/
def inorder : PTree A → List A
  | nil => []
  | node l a r => l.inorder ++ a :: r.inorder

@[simp] lemma inorder_nil : (nil : PTree A).inorder = [] := rfl

@[simp] lemma inorder_node (l : PTree A) (a : A) (r : PTree A) :
    (node l a r).inorder = l.inorder ++ a :: r.inorder := rfl

/-- The number of nodes. -/
def size (t : PTree A) : ℕ := t.inorder.length

@[simp] lemma size_nil : (nil : PTree A).size = 0 := rfl

@[simp] lemma size_node (l : PTree A) (a : A) (r : PTree A) :
    (node l a r).size = l.size + 1 + r.size := by
  simp only [size, inorder_node, List.length_append, List.length_cons]
  omega

/-- The address a pointer to the tree holds. -/
def root? : PTree A → Option A
  | nil => none
  | node _ a _ => some a

/-- `t` with `u` hung below the last node of its right spine. -/
def graftRight : PTree A → PTree A → PTree A
  | nil, u => u
  | node l a r, u => node l a (graftRight r u)

/-- `t` with `u` hung below the last node of its left spine. -/
def graftLeft : PTree A → PTree A → PTree A
  | nil, u => u
  | node l a r, u => node (graftLeft l u) a r

/-- The last address on the right spine of `r`, or `a` if `r` is empty. -/
def lastRight (a : A) : PTree A → A
  | nil => a
  | node _ b r => lastRight b r

/-- The last address on the left spine of `l`, or `a` if `l` is empty. -/
def lastLeft (a : A) : PTree A → A
  | nil => a
  | node l b _ => lastLeft b l

@[simp] lemma inorder_graftRight (t u : PTree A) :
    (graftRight t u).inorder = t.inorder ++ u.inorder := by
  induction t with
  | nil => rfl
  | node l a r _ ihr => simp [graftRight, ihr]

@[simp] lemma inorder_graftLeft (t u : PTree A) :
    (graftLeft t u).inorder = u.inorder ++ t.inorder := by
  induction t with
  | nil => simp [graftLeft]
  | node l a r ihl _ => simp [graftLeft, ihl]

@[simp] lemma lastRight_graftRight (a : A) (t l : PTree A) (b : A) (r : PTree A) :
    lastRight a (graftRight t (node l b r)) = lastRight b r := by
  induction t generalizing a with
  | nil => rfl
  | node l' a' r' _ ihr => exact ihr a'

@[simp] lemma lastLeft_graftLeft (a : A) (t l : PTree A) (b : A) (r : PTree A) :
    lastLeft a (graftLeft t (node l b r)) = lastLeft b l := by
  induction t generalizing a with
  | nil => rfl
  | node l' a' r' ihl _ => exact ihl a'

/-- The mirror image of a tree. -/
def mirror : PTree A → PTree A
  | nil => nil
  | node l a r => node r.mirror a l.mirror

@[simp] lemma mirror_nil : (nil : PTree A).mirror = nil := rfl

@[simp] lemma mirror_node (l : PTree A) (a : A) (r : PTree A) :
    (node l a r).mirror = node r.mirror a l.mirror := rfl

@[simp] lemma mirror_mirror (t : PTree A) : t.mirror.mirror = t := by
  induction t with
  | nil => rfl
  | node l a r ihl ihr => simp [ihl, ihr]

@[simp] lemma inorder_mirror (t : PTree A) : t.mirror.inorder = t.inorder.reverse := by
  induction t with
  | nil => rfl
  | node l a r ihl ihr => simp [ihl, ihr]

@[simp] lemma mirror_graftRight (t u : PTree A) :
    (t.graftRight u).mirror = t.mirror.graftLeft u.mirror := by
  induction t with
  | nil => rfl
  | node l a r _ ihr => simp [graftRight, graftLeft, ihr]

@[simp] lemma mirror_graftLeft (t u : PTree A) :
    (t.graftLeft u).mirror = t.mirror.graftRight u.mirror := by
  induction t with
  | nil => rfl
  | node l a r ihl _ => simp [graftRight, graftLeft, ihl]

@[simp] lemma lastRight_mirror (a : A) (t : PTree A) : lastRight a t.mirror = lastLeft a t := by
  induction t generalizing a with
  | nil => rfl
  | node l b r ihl _ => exact ihl b

@[simp] lemma lastLeft_mirror (a : A) (t : PTree A) : lastLeft a t.mirror = lastRight a t := by
  induction t generalizing a with
  | nil => rfl
  | node l b r _ ihr => exact ihr b

lemma lastRight_mem (a : A) (r : PTree A) : lastRight a r ∈ a :: r.inorder := by
  induction r generalizing a with
  | nil => simp [lastRight]
  | node l b r _ ihr =>
      have := ihr b
      simp only [lastRight, inorder_node, List.mem_cons, List.mem_append] at this ⊢
      tauto

lemma lastLeft_mem (a : A) (l : PTree A) : lastLeft a l ∈ l.inorder ++ [a] := by
  induction l generalizing a with
  | nil => simp [lastLeft]
  | node l b r ihl _ =>
      have := ihl b
      simp only [lastLeft, inorder_node, List.mem_cons, List.mem_append, List.not_mem_nil,
        or_false] at this ⊢
      tauto

end PTree

open PTree

/-! ## The memory -/

/-- The tree part of a memory of nodes: two child pointers and a parent pointer per address. -/
structure Links (A : Type*) where
  left : A → Option A
  right : A → Option A
  parent : A → Option A

namespace Links

variable {m : Links A} {p q : Option A} {t u : PTree A} {a b : A} {v : Option A}

/-- `p` points to the tree `t` in `m`: the child pointers spell out `t`, every child's parent
pointer leads back, and the root's parent pointer is `q`. -/
def IsTree (m : Links A) : Option A → Option A → PTree A → Prop
  | p, _, nil => p = none
  | p, q, node l a r =>
      p = some a ∧ m.parent a = q ∧ m.IsTree (m.left a) (some a) l ∧ m.IsTree (m.right a) (some a) r

@[simp] lemma isTree_nil : m.IsTree p q nil ↔ p = none := Iff.rfl

@[simp] lemma isTree_node {l r : PTree A} : m.IsTree p q (node l a r) ↔
    p = some a ∧ m.parent a = q ∧ m.IsTree (m.left a) (some a) l ∧
      m.IsTree (m.right a) (some a) r := Iff.rfl

lemma IsTree.eq_root? (h : m.IsTree p q t) : p = t.root? := by
  cases t with
  | nil => exact h
  | node l a r => exact h.1

lemma IsTree.mem (h : m.IsTree p q t) : ∀ a, p = some a → a ∈ t.inorder := by
  cases t with
  | nil => intro a ha; rw [show p = none from h] at ha; cases ha
  | node l b r =>
      intro a ha
      obtain rfl : b = a := Option.some.inj (h.1.symm.trans ha)
      simp

lemma IsTree.exists_node (h : m.IsTree (some a) q t) : ∃ l r, t = node l a r := by
  cases t with
  | nil => exact absurd h (by simp)
  | node l b r =>
      obtain rfl : a = b := Option.some.inj h.1
      exact ⟨l, r, rfl⟩

lemma IsTree.congr {m' : Links A} (h : m.IsTree p q t) (hl : ∀ a ∈ t.inorder, m'.left a = m.left a)
    (hr : ∀ a ∈ t.inorder, m'.right a = m.right a)
    (hp : ∀ a ∈ t.inorder, m'.parent a = m.parent a) : m'.IsTree p q t := by
  induction t generalizing p q with
  | nil => exact h
  | node l a r ihl ihr =>
      obtain ⟨h1, h2, h3, h4⟩ := h
      have ha : a ∈ (node l a r).inorder := by simp
      refine ⟨h1, by rw [hp a ha, h2], ?_, ?_⟩
      · rw [hl a ha]
        exact ihl h3 (fun b hb => hl b (by simp [hb])) (fun b hb => hr b (by simp [hb]))
          (fun b hb => hp b (by simp [hb]))
      · rw [hr a ha]
        exact ihr h4 (fun b hb => hl b (by simp [hb])) (fun b hb => hr b (by simp [hb]))
          (fun b hb => hp b (by simp [hb]))

/-- A tree whose root is hooked up elsewhere: the memory may change outside the tree, and at the
parent pointer of the root. -/
lemma IsTree.transfer {m' : Links A} {q' : Option A} (h : m.IsTree p q t) (hn : t.inorder.Nodup)
    (hl : ∀ a ∈ t.inorder, m'.left a = m.left a) (hr : ∀ a ∈ t.inorder, m'.right a = m.right a)
    (hp : ∀ a ∈ t.inorder, p ≠ some a → m'.parent a = m.parent a)
    (hq : ∀ a, p = some a → m'.parent a = q') : m'.IsTree p q' t := by
  cases t with
  | nil => exact h
  | node l a r =>
      obtain ⟨rfl, -, h3, h4⟩ := h
      have hal : a ∉ l.inorder := by
        intro hmem
        exact (List.nodup_append.mp hn).2.2 a hmem a (by simp) rfl
      have har : a ∉ r.inorder := (List.nodup_cons.mp (List.nodup_append.mp hn).2.1).1
      refine ⟨rfl, hq a rfl, ?_, ?_⟩
      · rw [hl a (by simp)]
        refine h3.congr (fun b hb => hl b (by simp [hb])) (fun b hb => hr b (by simp [hb])) ?_
        intro b hb
        exact hp b (by simp [hb]) (fun e => hal (Option.some.inj e ▸ hb))
      · rw [hr a (by simp)]
        refine h4.congr (fun b hb => hl b (by simp [hb])) (fun b hb => hr b (by simp [hb])) ?_
        intro b hb
        exact hp b (by simp [hb]) (fun e => har (Option.some.inj e ▸ hb))

/-! ### Mirroring

A program that treats left and right alike is verified on one side only. -/

/-- The memory with the two child pointers exchanged. -/
def mirror (m : Links A) : Links A := ⟨m.right, m.left, m.parent⟩

@[simp] lemma mirror_mirror (m : Links A) : m.mirror.mirror = m := rfl

@[simp] lemma mirror_left (m : Links A) : m.mirror.left = m.right := rfl

@[simp] lemma mirror_right (m : Links A) : m.mirror.right = m.left := rfl

@[simp] lemma mirror_parent (m : Links A) : m.mirror.parent = m.parent := rfl

lemma IsTree.mirror (h : m.IsTree p q t) : m.mirror.IsTree p q t.mirror := by
  induction t generalizing p q with
  | nil => exact h
  | node l a r ihl ihr =>
      obtain ⟨h1, h2, h3, h4⟩ := h
      exact ⟨h1, h2, ihr h4, ihl h3⟩

/-! ### Grafting -/

/-- Hanging `u` below the right spine takes one write, to the `right` pointer of the last node
of the spine; the root of `u` has to point up to that node. -/
lemma IsTree.graftRight {m' : Links A} {l r : PTree A} {s : Option A}
    (h : m.IsTree p q (node l a r)) (hn : (node l a r).inorder.Nodup)
    (hu : m'.IsTree s (some (lastRight a r)) u) (hs : m'.right (lastRight a r) = s)
    (hl : ∀ b ∈ (node l a r).inorder, m'.left b = m.left b)
    (hr : ∀ b ∈ (node l a r).inorder, b ≠ lastRight a r → m'.right b = m.right b)
    (hp : ∀ b ∈ (node l a r).inorder, m'.parent b = m.parent b) :
    m'.IsTree p q (node l a (r.graftRight u)) := by
  induction r generalizing p q l a with
  | nil =>
      obtain ⟨h1, h2, h3, -⟩ := h
      have hal : a ∉ l.inorder := by
        intro hmem
        exact (List.nodup_append.mp hn).2.2 a hmem a (by simp) rfl
      refine ⟨h1, by rw [hp a (by simp), h2], ?_, ?_⟩
      · rw [hl a (by simp)]
        refine h3.congr (fun b hb => hl b (by simp [hb])) ?_ (fun b hb => hp b (by simp [hb]))
        intro b hb
        refine hr b (by simp [hb]) ?_
        rintro rfl
        exact hal hb
      · obtain rfl : m'.right a = s := hs
        exact hu
  | node l' b r' _ ih =>
      obtain ⟨h1, h2, h3, h4⟩ := h
      obtain ⟨-, hn2, hdis⟩ := List.nodup_append.mp hn
      have hmem : lastRight b r' ∈ (node l' b r').inorder := by
        have := lastRight_mem b r'
        simp only [inorder_node, List.mem_append, List.mem_cons] at this ⊢
        tauto
      refine ⟨h1, by rw [hp a (by simp), h2], ?_, ?_⟩
      · rw [hl a (by simp)]
        refine h3.congr (fun c hc => hl c (by simp [hc])) ?_ (fun c hc => hp c (by simp [hc]))
        intro c hc
        refine hr c (by simp [hc]) (fun e => ?_)
        exact hdis c hc (lastRight b r') (List.mem_cons_of_mem a hmem) e
      · rw [hr a (by simp) (fun e => (List.nodup_cons.mp hn2).1 (e ▸ hmem))]
        have hsub : ∀ c ∈ (node l' b r').inorder, c ∈ (node l a (node l' b r')).inorder :=
          fun c hc => List.mem_append_right _ (List.mem_cons_of_mem a hc)
        exact ih h4 (List.nodup_cons.mp hn2).2 hu hs (fun c hc => hl c (hsub c hc))
          (fun c hc => hr c (hsub c hc)) (fun c hc => hp c (hsub c hc))

/-- The right spine ends where its last node has no right child. -/
lemma IsTree.right_lastRight {l r : PTree A} (h : m.IsTree p q (node l a r)) :
    m.right (lastRight a r) = none := by
  induction r generalizing p q l a with
  | nil => exact h.2.2.2
  | node l' b r' _ ih => exact ih h.2.2.2

/-- The mirror image: hanging `u` below the left spine. -/
lemma IsTree.graftLeft {m' : Links A} {l r : PTree A} {s : Option A}
    (h : m.IsTree p q (node l a r)) (hn : (node l a r).inorder.Nodup)
    (hu : m'.IsTree s (some (lastLeft a l)) u) (hs : m'.left (lastLeft a l) = s)
    (hl : ∀ b ∈ (node l a r).inorder, b ≠ lastLeft a l → m'.left b = m.left b)
    (hr : ∀ b ∈ (node l a r).inorder, m'.right b = m.right b)
    (hp : ∀ b ∈ (node l a r).inorder, m'.parent b = m.parent b) :
    m'.IsTree p q (node (l.graftLeft u) a r) := by
  induction l generalizing p q r a with
  | nil =>
      obtain ⟨h1, h2, -, h4⟩ := h
      have har : a ∉ r.inorder := (List.nodup_cons.mp hn).1
      refine ⟨h1, by rw [hp a (by simp), h2], ?_, ?_⟩
      · obtain rfl : m'.left a = s := hs
        exact hu
      · rw [hr a (by simp)]
        refine h4.congr ?_ (fun b hb => hr b (by simp [hb])) (fun b hb => hp b (by simp [hb]))
        intro b hb
        refine hl b (by simp [hb]) ?_
        rintro rfl
        exact har hb
  | node l' b r' ih _ =>
      obtain ⟨h1, h2, h3, h4⟩ := h
      obtain ⟨hn1, -, hdis⟩ := List.nodup_append.mp hn
      have hmem : lastLeft b l' ∈ (node l' b r').inorder := by
        have := lastLeft_mem b l'
        simp only [inorder_node, List.mem_append, List.mem_cons, List.not_mem_nil,
          or_false] at this ⊢
        tauto
      refine ⟨h1, by rw [hp a (by simp), h2], ?_, ?_⟩
      · rw [hl a (by simp) (fun e => hdis _ hmem a (by simp) e.symm)]
        exact ih h3 hn1 hu hs (fun c hc => hl c (List.mem_append_left _ hc))
          (fun c hc => hr c (List.mem_append_left _ hc))
          (fun c hc => hp c (List.mem_append_left _ hc))
      · rw [hr a (by simp)]
        refine h4.congr ?_ (fun c hc => hr c (by simp [hc])) (fun c hc => hp c (by simp [hc]))
        intro c hc
        refine hl c (by simp [hc]) (fun e => ?_)
        exact hdis _ hmem c (by simp [hc]) e.symm

/-! ### Contexts -/

/-- A tree with a hole, from the hole upwards. -/
inductive Ctx (A : Type*) where
  | top
  | inL (a : A) (r : PTree A) (k : Ctx A)
  | inR (l : PTree A) (a : A) (k : Ctx A)

namespace Ctx

/-- The tree in the hole. -/
def plug : Ctx A → PTree A → PTree A
  | top, t => t
  | inL a r k, t => k.plug (node t a r)
  | inR l a k, t => k.plug (node l a t)

/-- The address above the hole. -/
def above : Ctx A → Option A
  | top => none
  | inL a _ _ => some a
  | inR _ a _ => some a

/-- The addresses to the left of the hole. -/
def before : Ctx A → List A
  | top => []
  | inL _ _ k => k.before
  | inR l a k => k.before ++ (l.inorder ++ [a])

/-- The addresses to the right of the hole. -/
def after : Ctx A → List A
  | top => []
  | inL a r k => a :: r.inorder ++ k.after
  | inR _ _ k => k.after

/-- The number of steps from the hole to the root. -/
def depth : Ctx A → ℕ
  | top => 0
  | inL _ _ k => k.depth + 1
  | inR _ _ k => k.depth + 1

lemma inorder_plug (k : Ctx A) (t : PTree A) :
    (k.plug t).inorder = k.before ++ (t.inorder ++ k.after) := by
  induction k generalizing t with
  | top => simp [plug, before, after]
  | inL a r k ih => simp [plug, before, after, ih]
  | inR l a k ih => simp [plug, before, after, ih]

lemma depth_le (k : Ctx A) (t : PTree A) : k.depth + t.size ≤ (k.plug t).size := by
  induction k generalizing t with
  | top => simp [plug, depth]
  | inL a r k ih =>
      have := ih (node t a r)
      simp only [plug, depth, size_node] at this ⊢
      omega
  | inR l a k ih =>
      have := ih (node l a t)
      simp only [plug, depth, size_node] at this ⊢
      omega

end Ctx

open Ctx

/-- Every address of a tree is at the hole of some context. -/
lemma exists_plug_of_mem (t : PTree A) (h : a ∈ t.inorder) :
    ∃ k l r, t = Ctx.plug k (node l a r) := by
  suffices ∀ k : Ctx A, ∃ k' l r, k.plug t = Ctx.plug k' (node l a r) from this .top
  induction t with
  | nil => simp at h
  | node l b r ihl ihr =>
      intro k
      simp only [inorder_node, List.mem_append, List.mem_cons] at h
      rcases h with h | rfl | h
      · exact ihl h (.inL b r k)
      · exact ⟨k, l, r, rfl⟩
      · exact ihr h (.inR l b k)

/-- The memory of a context whose root pointer is `p` and whose hole holds the pointer `s`. -/
def IsCtx (m : Links A) : Ctx A → Option A → Option A → Prop
  | .top, p, s => p = s
  | .inL a r k, p, s =>
      m.left a = s ∧ m.parent a = k.above ∧ m.IsTree (m.right a) (some a) r ∧ m.IsCtx k p (some a)
  | .inR l a k, p, s =>
      m.right a = s ∧ m.parent a = k.above ∧ m.IsTree (m.left a) (some a) l ∧ m.IsCtx k p (some a)

lemma isTree_plug (k : Ctx A) : m.IsTree p none (k.plug t) ↔
    ∃ s, m.IsTree s k.above t ∧ m.IsCtx k p s := by
  induction k generalizing t with
  | top => simp [plug, IsCtx, above]
  | inL a r k ih =>
      simp only [plug, ih, IsCtx, above, isTree_node]
      constructor
      · rintro ⟨s, ⟨rfl, h1, h2, h3⟩, h4⟩
        exact ⟨_, h2, rfl, h1, h3, h4⟩
      · rintro ⟨s, h2, rfl, h1, h3, h4⟩
        exact ⟨_, ⟨rfl, h1, h2, h3⟩, h4⟩
  | inR l a k ih =>
      simp only [plug, ih, IsCtx, above, isTree_node]
      constructor
      · rintro ⟨s, ⟨rfl, h1, h2, h3⟩, h4⟩
        exact ⟨_, h3, rfl, h1, h2, h4⟩
      · rintro ⟨s, h3, rfl, h1, h2, h4⟩
        exact ⟨_, ⟨rfl, h1, h2, h3⟩, h4⟩

lemma IsCtx.congr {m' : Links A} {k : Ctx A} {s : Option A} (h : m.IsCtx k p s)
    (hl : ∀ a ∈ k.before ++ k.after, m'.left a = m.left a)
    (hr : ∀ a ∈ k.before ++ k.after, m'.right a = m.right a)
    (hp : ∀ a ∈ k.before ++ k.after, m'.parent a = m.parent a) : m'.IsCtx k p s := by
  induction k generalizing s with
  | top => exact h
  | inL a r k ih =>
      obtain ⟨h1, h2, h3, h4⟩ := h
      have ha : a ∈ before (.inL a r k) ++ after (.inL a r k) := by simp [before, after]
      have hsub : ∀ b ∈ r.inorder, b ∈ before (.inL a r k) ++ after (.inL a r k) := by
        intro b hb
        simp [before, after, hb]
      have hk : ∀ b ∈ k.before ++ k.after, b ∈ before (.inL a r k) ++ after (.inL a r k) := by
        simp only [before, after, List.mem_append, List.mem_cons]
        tauto
      refine ⟨by rw [hl a ha, h1], by rw [hp a ha, h2], ?_, ?_⟩
      · rw [hr a ha]
        exact h3.congr (fun b hb => hl b (hsub b hb)) (fun b hb => hr b (hsub b hb))
          (fun b hb => hp b (hsub b hb))
      · exact ih h4 (fun b hb => hl b (hk b hb)) (fun b hb => hr b (hk b hb))
          (fun b hb => hp b (hk b hb))
  | inR l a k ih =>
      obtain ⟨h1, h2, h3, h4⟩ := h
      have ha : a ∈ before (.inR l a k) ++ after (.inR l a k) := by simp [before]
      have hsub : ∀ b ∈ l.inorder, b ∈ before (.inR l a k) ++ after (.inR l a k) := by
        intro b hb
        simp [before, hb]
      have hk : ∀ b ∈ k.before ++ k.after, b ∈ before (.inR l a k) ++ after (.inR l a k) := by
        simp only [before, after, List.mem_append]
        tauto
      refine ⟨by rw [hr a ha, h1], by rw [hp a ha, h2], ?_, ?_⟩
      · rw [hl a ha]
        exact h3.congr (fun b hb => hl b (hsub b hb)) (fun b hb => hr b (hsub b hb))
          (fun b hb => hp b (hsub b hb))
      · exact ih h4 (fun b hb => hl b (hk b hb)) (fun b hb => hr b (hk b hb))
          (fun b hb => hp b (hk b hb))

/-! ### Writes -/

variable [DecidableEq A]

/-- `a->left = v` -/
def setLeft (m : Links A) (a : A) (v : Option A) : Links A :=
  { m with left := Function.update m.left a v }

/-- `a->right = v` -/
def setRight (m : Links A) (a : A) (v : Option A) : Links A :=
  { m with right := Function.update m.right a v }

/-- `a->parent = v` -/
def setParent (m : Links A) (a : A) (v : Option A) : Links A :=
  { m with parent := Function.update m.parent a v }

/-- `if(p) p->parent = v` -/
def setParentOf (m : Links A) (p : Option A) (v : Option A) : Links A :=
  match p with
  | none => m
  | some a => m.setParent a v

@[simp] lemma setLeft_left (m : Links A) (a b : A) (v : Option A) :
    (m.setLeft a v).left b = if b = a then v else m.left b := by
  simp [setLeft, Function.update_apply]

@[simp] lemma setLeft_right (m : Links A) (a : A) (v : Option A) :
    (m.setLeft a v).right = m.right := rfl

@[simp] lemma setLeft_parent (m : Links A) (a : A) (v : Option A) :
    (m.setLeft a v).parent = m.parent := rfl

@[simp] lemma setRight_right (m : Links A) (a b : A) (v : Option A) :
    (m.setRight a v).right b = if b = a then v else m.right b := by
  simp [setRight, Function.update_apply]

@[simp] lemma setRight_left (m : Links A) (a : A) (v : Option A) :
    (m.setRight a v).left = m.left := rfl

@[simp] lemma setRight_parent (m : Links A) (a : A) (v : Option A) :
    (m.setRight a v).parent = m.parent := rfl

@[simp] lemma setParent_parent (m : Links A) (a b : A) (v : Option A) :
    (m.setParent a v).parent b = if b = a then v else m.parent b := by
  simp [setParent, Function.update_apply]

@[simp] lemma setParent_left (m : Links A) (a : A) (v : Option A) :
    (m.setParent a v).left = m.left := rfl

@[simp] lemma setParent_right (m : Links A) (a : A) (v : Option A) :
    (m.setParent a v).right = m.right := rfl

@[simp] lemma setParentOf_left (m : Links A) (p v : Option A) :
    (m.setParentOf p v).left = m.left := by cases p <;> rfl

@[simp] lemma setParentOf_right (m : Links A) (p v : Option A) :
    (m.setParentOf p v).right = m.right := by cases p <;> rfl

lemma setParentOf_parent (m : Links A) (p v : Option A) (b : A) :
    (m.setParentOf p v).parent b = if p = some b then v else m.parent b := by
  cases p with
  | none => simp [setParentOf]
  | some a => simp [setParentOf, eq_comm]

end Links

end PtrTree
