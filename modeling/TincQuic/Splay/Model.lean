import Mathlib.Data.Int.Notation
import Mathlib.Tactic.Linarith
import TincQuic.Lib.PtrTree
import TincQuic.Lib.PtrList

/-!
# `splay_tree.c`: the pointer program

Every ordered index of the daemon (nodes, edges, subnets, past requests, timers, configuration)
is a `splay_tree_t`.  This file is that program, pointer by pointer.  A node has a list part
(`next`, `prev`), a tree part (`parent`, `left`, `right`) and a payload; the memory is the five
pointer arrays of `Links` and `Chain` and the payload array.

* `Loc` is where a `splay_node_t` can live: the heap, or one of the two stack variables `left`
  and `right` of `splay_top_down` under which the outer trees are assembled.
* `topDownLoop` and `bottomUpLoop` are the two `while` loops.  They run with fuel, and `none` is
  a loop that did not end or a null pointer followed; the operations start them with more fuel
  than there are nodes, and `Splay/Refinement.lean` shows that `none` never comes out.
* The comparison is a parameter and its `int` result an integer, of which only the sign is read.
-/

namespace Tinc.Splay

open PtrTree PtrList

/-- The addresses of `splay_node_t`s: the two stack variables of `splay_top_down`, and the
heap. -/
inductive Loc where
  | left
  | right
  | node (n : ℕ)
  deriving DecidableEq, Repr

/-- `splay_tree_t`, together with the memory its nodes live in.  `fresh` is the allocator: no
heap address from it on is in use. -/
structure SplayTree (α : Type) where
  head : Option Loc
  tail : Option Loc
  root : Option Loc
  count : ℕ
  generation : ℕ
  chain : Chain Loc
  links : Links Loc
  data : Loc → α
  fresh : ℕ

variable {α : Type}

/-- `splay_alloc_tree`: a tree without nodes, over a zeroed memory. -/
def splayAllocTree [Inhabited α] : SplayTree α where
  head := none
  tail := none
  root := none
  count := 0
  generation := 0
  chain := ⟨fun _ => none, fun _ => none⟩
  links := ⟨fun _ => none, fun _ => none, fun _ => none⟩
  data := fun _ => default
  fresh := 0

/-! ## The splay operation, from the root down -/

/-- `rightbottom->left = n; n->parent = rightbottom;` -/
def linkRight (m : Links Loc) (rightbottom n : Loc) : Links Loc :=
  (m.setLeft rightbottom (some n)).setParent n (some rightbottom)

/-- `leftbottom->right = n; n->parent = leftbottom;` -/
def linkLeft (m : Links Loc) (leftbottom n : Loc) : Links Loc :=
  (m.setRight leftbottom (some n)).setParent n (some leftbottom)

/-- Two steps to the left: `child` goes to the right tree, with `root` rotated below it. -/
def zigZigLeft (m : Links Loc) (root child grandchild rightbottom : Loc) : Links Loc :=
  let m := linkRight m rightbottom child
  let m := m.setLeft root (m.right child)
  let m := m.setParentOf (m.right child) (some root)
  let m := (m.setRight child (some root)).setParent root (some child)
  (m.setLeft child none).setParent grandchild none

/-- One step to the left and one to the right: `child` goes to the left tree, `root` to the
right one. -/
def zigZagLeft (m : Links Loc) (root child grandchild leftbottom rightbottom : Loc) : Links Loc :=
  let m := linkLeft m leftbottom child
  let m := (m.setRight child none).setParent grandchild none
  let m := linkRight m rightbottom root
  m.setLeft root none

/-- A last step to the left: `root` goes to the right tree. -/
def zigLeft (m : Links Loc) (root child rightbottom : Loc) : Links Loc :=
  let m := linkRight m rightbottom root
  (m.setLeft root none).setParent child none

/-- Two steps to the right: `child` goes to the left tree, with `root` rotated below it. -/
def zigZigRight (m : Links Loc) (root child grandchild leftbottom : Loc) : Links Loc :=
  let m := linkLeft m leftbottom child
  let m := m.setRight root (m.left child)
  let m := m.setParentOf (m.left child) (some root)
  let m := (m.setLeft child (some root)).setParent root (some child)
  (m.setRight child none).setParent grandchild none

/-- One step to the right and one to the left: `child` goes to the right tree, `root` to the
left one. -/
def zigZagRight (m : Links Loc) (root child grandchild leftbottom rightbottom : Loc) :
    Links Loc :=
  let m := linkRight m rightbottom child
  let m := (m.setLeft child none).setParent grandchild none
  let m := linkLeft m leftbottom root
  m.setRight root none

/-- A last step to the right: `root` goes to the left tree. -/
def zigRight (m : Links Loc) (root child leftbottom : Loc) : Links Loc :=
  let m := linkLeft m leftbottom root
  (m.setRight root none).setParent child none

/-- What the loop of `splay_top_down` leaves behind: the memory, the node it stopped at, the
bottoms of the two outer trees and the last comparison. -/
structure Walk where
  links : Links Loc
  root : Loc
  leftbottom : Loc
  rightbottom : Loc
  c : ℤ

/-- The `while` loop of `splay_top_down`. -/
def topDownLoop (compare : α → α → ℤ) (data : Loc → α) (x : α) :
    ℕ → Links Loc → Loc → Loc → Loc → Option Walk
  | 0, _, _, _, _ => none
  | fuel + 1, m, root, leftbottom, rightbottom =>
      let c := compare x (data root)
      if c < 0 then
        match m.left root with
        | none => some ⟨m, root, leftbottom, rightbottom, c⟩
        | some child =>
            let c := compare x (data child)
            if c < 0 then
              match m.left child with
              | some grandchild =>
                  topDownLoop compare data x fuel (zigZigLeft m root child grandchild rightbottom)
                    grandchild leftbottom child
              | none => some ⟨zigLeft m root child rightbottom, child, leftbottom, root, c⟩
            else if c > 0 then
              match m.right child with
              | some grandchild =>
                  topDownLoop compare data x fuel
                    (zigZagLeft m root child grandchild leftbottom rightbottom)
                    grandchild child root
              | none => some ⟨zigLeft m root child rightbottom, child, leftbottom, root, c⟩
            else some ⟨zigLeft m root child rightbottom, child, leftbottom, root, c⟩
      else if c > 0 then
        match m.right root with
        | none => some ⟨m, root, leftbottom, rightbottom, c⟩
        | some child =>
            let c := compare x (data child)
            if c > 0 then
              match m.right child with
              | some grandchild =>
                  topDownLoop compare data x fuel (zigZigRight m root child grandchild leftbottom)
                    grandchild child rightbottom
              | none => some ⟨zigRight m root child leftbottom, child, root, rightbottom, c⟩
            else if c < 0 then
              match m.left child with
              | some grandchild =>
                  topDownLoop compare data x fuel
                    (zigZagRight m root child grandchild leftbottom rightbottom)
                    grandchild root child
              | none => some ⟨zigRight m root child leftbottom, child, root, rightbottom, c⟩
            else some ⟨zigRight m root child leftbottom, child, root, rightbottom, c⟩
      else some ⟨m, root, leftbottom, rightbottom, c⟩

/-- `if(left.right) { ... }`: the left tree becomes the left child of `root`, and what was there
goes below it. -/
def mergeLeft (m : Links Loc) (root leftbottom : Loc) : Links Loc :=
  match m.right .left with
  | none => m
  | some _ =>
      let m := match m.left root with
        | none => m
        | some l => (m.setRight leftbottom (some l)).setParent l (some leftbottom)
      (m.setLeft root (m.right .left)).setParentOf (m.right .left) (some root)

/-- `if(right.left) { ... }`: the same for the right tree. -/
def mergeRight (m : Links Loc) (root rightbottom : Loc) : Links Loc :=
  match m.left .right with
  | none => m
  | some _ =>
      let m := match m.right root with
        | none => m
        | some r => (m.setLeft rightbottom (some r)).setParent r (some rightbottom)
      (m.setRight root (m.left .right)).setParentOf (m.left .right) (some root)

/-- `splay_node_t n = {0}` on the tree part of a stack variable. -/
def zeroNode (m : Links Loc) (n : Loc) : Links Loc :=
  ((m.setLeft n none).setRight n none).setParent n none

/-- `splay_top_down`: the tree with the node closest to `x` at its root, that node, and how `x`
compares with it. -/
def splayTopDown (compare : α → α → ℤ) (t : SplayTree α) (x : α) :
    Option (SplayTree α × Option Loc × ℤ) :=
  match t.root with
  | none => some (t, none, 0)
  | some root => do
      let w ← topDownLoop compare t.data x (t.count + 1)
        (zeroNode (zeroNode t.links .left) .right) root .left .right
      let m := mergeRight (mergeLeft w.links w.root w.leftbottom) w.root w.rightbottom
      some ({ t with links := m, root := some w.root }, some w.root, w.c)

/-! ## The splay operation, from a node up -/

/-- `if((p->left = n->right)) p->left->parent = p; n->right = p; p->parent = n;` -/
def liftLeftChild (m : Links Loc) (p n : Loc) : Links Loc :=
  let m := m.setLeft p (m.right n)
  let m := m.setParentOf (m.right n) (some p)
  (m.setRight n (some p)).setParent p (some n)

/-- `if((p->right = n->left)) p->right->parent = p; n->left = p; p->parent = n;` -/
def liftRightChild (m : Links Loc) (p n : Loc) : Links Loc :=
  let m := m.setRight p (m.left n)
  let m := m.setParentOf (m.left n) (some p)
  (m.setLeft n (some p)).setParent p (some n)

/-- The two rotations of one iteration: zig-zig to the left or right, zig-zag either way. -/
def doubleRotation (m : Links Loc) (node parent grandparent : Loc) : Links Loc :=
  if some node = m.left parent ∧ some parent = m.left grandparent then
    liftLeftChild (liftLeftChild m grandparent parent) parent node
  else if some node = m.right parent ∧ some parent = m.right grandparent then
    liftRightChild (liftRightChild m grandparent parent) parent node
  else if some node = m.right parent ∧ some parent = m.left grandparent then
    liftLeftChild (liftRightChild m parent node) grandparent node
  else
    liftRightChild (liftLeftChild m parent node) grandparent node

/-- `if((node->parent = greatgrandparent)) { ... }`: the pointer that led to `grandparent` now
leads to `node`. -/
def attach (m : Links Loc) (node grandparent : Loc) (greatgrandparent : Option Loc) : Links Loc :=
  let m := m.setParent node greatgrandparent
  match greatgrandparent with
  | none => m
  | some g => if some grandparent = m.left g then m.setLeft g (some node)
      else m.setRight g (some node)

/-- The `while` loop of `splay_bottom_up`. -/
def bottomUpLoop (node : Loc) : ℕ → Links Loc → Option (Links Loc)
  | 0, _ => none
  | fuel + 1, m =>
      match m.parent node with
      | none => some m
      | some parent =>
          match m.parent parent with
          | none =>
              let m := if some node = m.left parent then liftLeftChild m parent node
                else liftRightChild m parent node
              bottomUpLoop node fuel (m.setParent node none)
          | some grandparent =>
              bottomUpLoop node fuel
                (attach (doubleRotation m node parent grandparent) node grandparent
                  (m.parent grandparent))

/-- `splay_bottom_up`: `node` is moved to the root. -/
def splayBottomUp (t : SplayTree α) (node : Loc) : Option (SplayTree α) := do
  let m ← bottomUpLoop node (t.count + 1) t.links
  some { t with links := m, root := some node }

/-! ## Searching -/

variable (compare : α → α → ℤ)

/-- `splay_search_closest_node` -/
def splaySearchClosestNode (t : SplayTree α) (x : α) : Option (SplayTree α × Option Loc × ℤ) :=
  splayTopDown compare t x

/-- `splay_search_node` -/
def splaySearchNode (t : SplayTree α) (x : α) : Option (SplayTree α × Option Loc) := do
  let (t, node, result) ← splaySearchClosestNode compare t x
  some (t, if result = 0 then node else none)

/-- `splay_search_closest_smaller_node` -/
def splaySearchClosestSmallerNode (t : SplayTree α) (x : α) :
    Option (SplayTree α × Option Loc) := do
  let (t, node, result) ← splaySearchClosestNode compare t x
  if result < 0 then
    let n ← node
    some (t, t.chain.prev n)
  else some (t, node)

/-- `splay_search_closest_greater_node` -/
def splaySearchClosestGreaterNode (t : SplayTree α) (x : α) :
    Option (SplayTree α × Option Loc) := do
  let (t, node, result) ← splaySearchClosestNode compare t x
  if result > 0 then
    let n ← node
    some (t, t.chain.next n)
  else some (t, node)

/-- `node ? node->data : NULL`, which turns each of the above into the search for an element. -/
def SplayTree.dataOf (t : SplayTree α) (node : Option Loc) : Option α := node.map t.data

/-! ## Insertion and deletion -/

/-- `splay_alloc_node`, with the payload its caller stores. -/
def splayAllocNode (t : SplayTree α) (x : α) : SplayTree α × Loc :=
  ({ t with
      chain := (t.chain.setNext (.node t.fresh) none).setPrev (.node t.fresh) none
      links := zeroNode t.links (.node t.fresh)
      data := Function.update t.data (.node t.fresh) x
      fresh := t.fresh + 1 }, .node t.fresh)

/-- `splay_insert_top` -/
def splayInsertTop (t : SplayTree α) (node : Loc) : SplayTree α :=
  { t with
    chain := (t.chain.setPrev node none).setNext node none
    links := zeroNode t.links node
    head := some node
    tail := some node
    root := some node
    count := t.count + 1
    generation := t.generation + 1 }

/-- `splay_insert_before`, for a node to insert before. -/
def insertBeforeNode (t : SplayTree α) (before node : Loc) : Option (SplayTree α) := do
  let c := t.chain.setNext node (some before)
  let prev := c.prev before
  let c := (c.setPrev node prev).setNextOf prev (some node)
  let c := c.setPrev before (some node)
  let t := { t with chain := c, head := if prev.isNone then some node else t.head }
  let t ← splayBottomUp t before
  let m := (t.links.setRight node (some before)).setParent before (some node)
  let m := m.setLeft node (m.left before)
  let m := m.setParentOf (m.left before) (some node)
  let m := m.setLeft before none
  some { t with
    links := m.setParent node none
    root := some node
    count := t.count + 1
    generation := t.generation + 1 }

/-- `splay_insert_after`, for a node to insert after. -/
def insertAfterNode (t : SplayTree α) (after node : Loc) : Option (SplayTree α) := do
  let c := t.chain.setPrev node (some after)
  let next := c.next after
  let c := (c.setNext node next).setPrevOf next (some node)
  let c := c.setNext after (some node)
  let t := { t with chain := c, tail := if next.isNone then some node else t.tail }
  let t ← splayBottomUp t after
  let m := (t.links.setLeft node (some after)).setParent after (some node)
  let m := m.setRight node (m.right after)
  let m := m.setParentOf (m.right after) (some node)
  let m := m.setRight after none
  some { t with
    links := m.setParent node none
    root := some node
    count := t.count + 1
    generation := t.generation + 1 }

/-- `splay_insert_before` -/
def splayInsertBefore (t : SplayTree α) (before : Option Loc) (node : Loc) :
    Option (SplayTree α) :=
  match before with
  | some b => insertBeforeNode t b node
  | none =>
      match t.tail with
      | some tail => insertAfterNode t tail node
      | none => some (splayInsertTop t node)

/-- `splay_insert_after` -/
def splayInsertAfter (t : SplayTree α) (after : Option Loc) (node : Loc) :
    Option (SplayTree α) :=
  match after with
  | some a => insertAfterNode t a node
  | none =>
      match t.head with
      | some head => insertBeforeNode t head node
      | none => some (splayInsertTop t node)

/-- `splay_insert`: the new node, or null if an equal element is stored. -/
def splayInsert (t : SplayTree α) (x : α) : Option (SplayTree α × Option Loc) :=
  match t.root with
  | none =>
      let (t, new) := splayAllocNode t x
      some (splayInsertTop t new, some new)
  | some _ => do
      let (t, closest, result) ← splaySearchClosestNode compare t x
      if result = 0 then some (t, none)
      else
        let (t, new) := splayAllocNode t x
        if result < 0 then
          let t ← splayInsertBefore t closest new
          some (t, some new)
        else
          let t ← splayInsertAfter t closest new
          some (t, some new)

/-- `splay_insert_node`: null, with the node left out, if an equal element is stored. -/
def splayInsertNode (t : SplayTree α) (node : Loc) : Option (SplayTree α × Option Loc) :=
  let t := { t with
    links := zeroNode t.links node
    chain := (t.chain.setNext node none).setPrev node none }
  match t.root with
  | none => some (splayInsertTop t node, some node)
  | some _ => do
      let (t, closest, result) ← splaySearchClosestNode compare t (t.data node)
      if result = 0 then some (t, none)
      else if result < 0 then
        let t ← splayInsertBefore t closest node
        some (t, some node)
      else
        let t ← splayInsertAfter t closest node
        some (t, some node)

/-- `splay_unlink_node` -/
def splayUnlinkNode (t : SplayTree α) (node : Loc) : Option (SplayTree α) := do
  let prev := t.chain.prev node
  let next := t.chain.next node
  let c := (t.chain.setNextOf prev next).setPrevOf next prev
  let t := { t with
    chain := c
    head := if prev.isNone then next else t.head
    tail := if next.isNone then prev else t.tail }
  let t ← splayBottomUp t node
  let m := t.links
  let (m, root) ← match t.chain.prev node with
    | some prev => do
        let l ← m.left node
        let m := m.setParent l none
        let m := m.setRight prev (m.right node)
        some (m.setParentOf (m.right node) (some prev), m.left node)
    | none =>
        match t.chain.next node with
        | some _ => do
            let r ← m.right node
            some (m.setParent r none, m.right node)
        | none => some (m, none)
  some { t with
    links := m
    root := root
    count := t.count - 1
    generation := t.generation + 1 }

/-- `splay_unlink` -/
def splayUnlink (t : SplayTree α) (x : α) : Option (SplayTree α × Option Loc) := do
  let (t, node) ← splaySearchNode compare t x
  match node with
  | some n =>
      let t ← splayUnlinkNode t n
      some (t, some n)
  | none => some (t, none)

/-- `splay_delete`.  What `splay_free_node` releases is outside the tree by then. -/
def splayDelete (t : SplayTree α) (x : α) : Option (SplayTree α) := do
  let (t, node) ← splaySearchNode compare t x
  match node with
  | some n => splayUnlinkNode t n
  | none => some t

end Tinc.Splay
