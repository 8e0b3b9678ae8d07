import Mathlib.Data.List.Induction
import Mathlib.Data.List.Nodup
import Mathlib.Logic.Function.Basic
import Mathlib.Tactic.Common

/-!
# Doubly linked lists through a memory

`Chain` is the list part of a memory of nodes, a `next` and a `prev` pointer per address, and
`Chain.Seg c pr l nx` says that the addresses `l` are threaded through it in order, entered from
`pr` and left towards `nx`.  A whole list is a segment between two null pointers.

Walking along the `next` or the `prev` pointers of a segment gives its addresses back
(`Seg.follow_next`, `Seg.follow_prev`).  The three edits of a threaded list, each with the writes a pointer program makes for it, are
`Seg.insertBefore`, `Seg.insertAfter` and `Seg.remove`.
-/

namespace PtrList

variable {A : Type*}

/-- The list part of a memory of nodes. -/
structure Chain (A : Type*) where
  next : A → Option A
  prev : A → Option A

namespace Chain

variable {c : Chain A} {pr nx v : Option A} {l l₁ l₂ : List A} {a b n : A}

/-- The addresses `l` are threaded in order, between `pr` and `nx`. -/
def Seg (c : Chain A) : Option A → List A → Option A → Prop
  | _, [], _ => True
  | pr, a :: l, nx => c.prev a = pr ∧ c.next a = l.head?.or nx ∧ c.Seg (some a) l nx

@[simp] lemma seg_nil : c.Seg pr [] nx := trivial

@[simp] lemma seg_cons : c.Seg pr (a :: l) nx ↔
    c.prev a = pr ∧ c.next a = l.head?.or nx ∧ c.Seg (some a) l nx := Iff.rfl

lemma seg_append : c.Seg pr (l₁ ++ l₂) nx ↔
    c.Seg pr l₁ (l₂.head?.or nx) ∧ c.Seg (l₁.getLast?.or pr) l₂ nx := by
  induction l₁ generalizing pr with
  | nil => simp
  | cons a l ih =>
      have hlast : (a :: l).getLast?.or pr = l.getLast?.or (some a) := by
        rw [List.getLast?_cons]
        cases l.getLast? <;> rfl
      rw [List.cons_append, seg_cons, seg_cons, ih, hlast, List.head?_append, Option.or_assoc]
      tauto

lemma Seg.congr {c' : Chain A} (h : c.Seg pr l nx) (hn : ∀ a ∈ l, c'.next a = c.next a)
    (hp : ∀ a ∈ l, c'.prev a = c.prev a) : c'.Seg pr l nx := by
  induction l generalizing pr with
  | nil => trivial
  | cons a l ih =>
      obtain ⟨h1, h2, h3⟩ := h
      exact ⟨by rw [hp a (by simp), h1], by rw [hn a (by simp), h2],
        ih h3 (fun b hb => hn b (by simp [hb])) (fun b hb => hp b (by simp [hb]))⟩

lemma notMem_of_mem_getLast? (hn : (l₁ ++ l₂).Nodup) : ∀ a ∈ l₁.getLast?, a ∉ l₂ :=
  fun a ha hmem => (List.nodup_append.mp hn).2.2 a (List.mem_of_getLast? ha) a hmem rfl

lemma notMem_of_mem_head? (hn : (l₁ ++ l₂).Nodup) : ∀ a ∈ l₂.head?, a ∉ l₁ :=
  fun a ha hmem => (List.nodup_append.mp hn).2.2 a hmem a (List.mem_of_mem_head? ha) rfl

/-! ### Walking along a list -/

/-- The addresses met from `p` on along the pointers `f`, at most `fuel` of them. -/
def follow (f : A → Option A) : ℕ → Option A → List A
  | 0, _ => []
  | _ + 1, none => []
  | fuel + 1, some a => a :: follow f fuel (f a)

lemma Seg.follow_next (h : c.Seg pr l none) (fuel : ℕ) (hf : l.length ≤ fuel) :
    follow c.next fuel l.head? = l := by
  induction l generalizing pr fuel with
  | nil => cases fuel <;> rfl
  | cons a l ih =>
      obtain ⟨-, h2, h3⟩ := h
      obtain ⟨fuel, rfl⟩ : ∃ k, fuel = k + 1 := ⟨fuel - 1, by simp at hf; omega⟩
      rw [Option.or_none] at h2
      simp only [List.head?_cons, follow, h2]
      rw [ih h3 fuel (by simp at hf; omega)]

lemma Seg.follow_prev (h : c.Seg none l nx) (fuel : ℕ) (hf : l.length ≤ fuel) :
    follow c.prev fuel l.getLast? = l.reverse := by
  induction l using List.reverseRec generalizing nx fuel with
  | nil => cases fuel <;> rfl
  | append_singleton l a ih =>
      obtain ⟨h1, h2, -⟩ := seg_append.mp h
      obtain ⟨fuel, rfl⟩ : ∃ k, fuel = k + 1 := ⟨fuel - 1, by simp at hf; omega⟩
      rw [Option.or_none] at h2
      simp only [List.getLast?_append, List.getLast?_singleton, Option.some_or, follow, h2,
        List.reverse_append, List.reverse_singleton, List.singleton_append]
      rw [ih h1 fuel (by simp at hf; omega)]

/-! ### Writes -/

variable [DecidableEq A]

/-- `a->next = v` -/
def setNext (c : Chain A) (a : A) (v : Option A) : Chain A :=
  { c with next := Function.update c.next a v }

/-- `a->prev = v` -/
def setPrev (c : Chain A) (a : A) (v : Option A) : Chain A :=
  { c with prev := Function.update c.prev a v }

/-- `if(p) p->next = v` -/
def setNextOf (c : Chain A) (p v : Option A) : Chain A :=
  match p with
  | none => c
  | some a => c.setNext a v

/-- `if(p) p->prev = v` -/
def setPrevOf (c : Chain A) (p v : Option A) : Chain A :=
  match p with
  | none => c
  | some a => c.setPrev a v

@[simp] lemma setNext_next (c : Chain A) (a b : A) (v : Option A) :
    (c.setNext a v).next b = if b = a then v else c.next b := by
  simp [setNext, Function.update_apply]

@[simp] lemma setNext_prev (c : Chain A) (a : A) (v : Option A) :
    (c.setNext a v).prev = c.prev := rfl

@[simp] lemma setPrev_prev (c : Chain A) (a b : A) (v : Option A) :
    (c.setPrev a v).prev b = if b = a then v else c.prev b := by
  simp [setPrev, Function.update_apply]

@[simp] lemma setPrev_next (c : Chain A) (a : A) (v : Option A) :
    (c.setPrev a v).next = c.next := rfl

@[simp] lemma setNextOf_prev (c : Chain A) (p v : Option A) :
    (c.setNextOf p v).prev = c.prev := by cases p <;> rfl

@[simp] lemma setPrevOf_next (c : Chain A) (p v : Option A) :
    (c.setPrevOf p v).next = c.next := by cases p <;> rfl

@[simp] lemma seg_setNext (ha : a ∉ l) : (c.setNext a v).Seg pr l nx ↔ c.Seg pr l nx := by
  constructor <;> intro h <;> refine h.congr ?_ (fun _ _ => rfl) <;>
    · intro b hb
      have hne : b ≠ a := fun e => ha (e ▸ hb)
      simp [hne]

@[simp] lemma seg_setPrev (ha : a ∉ l) : (c.setPrev a v).Seg pr l nx ↔ c.Seg pr l nx := by
  constructor <;> intro h <;> refine h.congr (fun _ _ => rfl) ?_ <;>
    · intro b hb
      have hne : b ≠ a := fun e => ha (e ▸ hb)
      simp [hne]

lemma seg_setNextOf {p : Option A} (ha : ∀ a ∈ p, a ∉ l) :
    (c.setNextOf p v).Seg pr l nx ↔ c.Seg pr l nx := by
  cases p with
  | none => rfl
  | some a => exact seg_setNext (ha a rfl)

lemma seg_setPrevOf {p : Option A} (ha : ∀ a ∈ p, a ∉ l) :
    (c.setPrevOf p v).Seg pr l nx ↔ c.Seg pr l nx := by
  cases p with
  | none => rfl
  | some a => exact seg_setPrev (ha a rfl)

/-- Redirecting the exit of a segment: the last node's `next`. -/
lemma Seg.setNextOf_getLast (h : c.Seg pr l nx) (hn : l.Nodup) (v : Option A) :
    (c.setNextOf l.getLast? v).Seg pr l v := by
  rcases List.eq_nil_or_concat' l with rfl | ⟨l', a, rfl⟩
  · trivial
  · have ha : a ∉ l' := by
      intro hmem
      exact (List.nodup_append.mp hn).2.2 a hmem a (by simp) rfl
    rw [seg_append] at h ⊢
    obtain ⟨h1, h2, -⟩ := h
    simpa [setNextOf, ha] using And.intro h1 h2

/-- Redirecting the entry of a segment: the first node's `prev`. -/
lemma Seg.setPrevOf_head (h : c.Seg pr l nx) (hn : l.Nodup) (v : Option A) :
    (c.setPrevOf l.head? v).Seg v l nx := by
  cases l with
  | nil => trivial
  | cons a l =>
      have ha : a ∉ l := (List.nodup_cons.mp hn).1
      simpa [setPrevOf, ha] using h.2

/-! ### Editing a list -/

/-- Threading `n` in front of `b`. -/
lemma Seg.insertBefore (h : c.Seg none (l₁ ++ b :: l₂) none) (hn : (n :: (l₁ ++ b :: l₂)).Nodup) :
    ((((c.setNext n (some b)).setPrev n (c.prev b)).setNextOf (c.prev b) (some n)).setPrev b
      (some n)).Seg none (l₁ ++ n :: b :: l₂) none := by
  obtain ⟨hnl, hnd⟩ := List.nodup_cons.mp hn
  obtain ⟨hd1, hd2, hdis⟩ := List.nodup_append.mp hnd
  simp only [List.mem_append, List.mem_cons, not_or] at hnl
  obtain ⟨hn1, hnb, hn2⟩ := hnl
  have hb1 : b ∉ l₁ := fun hmem => hdis b hmem b (by simp) rfl
  have hb2 : b ∉ l₂ := (List.nodup_cons.mp hd2).1
  rw [seg_append] at h
  obtain ⟨h1, hpb, hnx, h2⟩ := h
  have hlast : ∀ a ∈ l₁.getLast?, a ∉ b :: l₂ := notMem_of_mem_getLast? hnd
  have hlast2 : ∀ a ∈ l₁.getLast?, a ∉ l₂ := fun a ha => fun hm => hlast a ha (by simp [hm])
  have hpb' : c.prev b = l₁.getLast? := by simpa using hpb
  rw [hpb', seg_append]
  refine ⟨?_, ?_, ?_, ?_, ?_, ?_⟩
  · rw [seg_setPrev hb1]
    have := ((seg_setPrev (v := l₁.getLast?) hn1).mpr
      ((seg_setNext (v := some b) hn1).mpr h1)).setNextOf_getLast hd1 (some n)
    simpa using this
  · simp [hnb]
  · cases hl : l₁.getLast? with
    | none => simp [setNextOf]
    | some a =>
        have hna : n ≠ a := fun e => hn1 (e ▸ List.mem_of_getLast? hl)
        simp [setNextOf, hna]
  · simp
  · cases hl : l₁.getLast? with
    | none => simpa [setNextOf, Ne.symm hnb] using hnx
    | some a =>
        have hba : b ≠ a := fun e => hb1 (e ▸ List.mem_of_getLast? hl)
        simpa [setNextOf, hba, Ne.symm hnb] using hnx
  · rw [seg_setPrev hb2, seg_setNextOf hlast2, seg_setPrev hn2, seg_setNext hn2]
    exact h2

/-- Threading `n` behind `a`. -/
lemma Seg.insertAfter (h : c.Seg none (l₁ ++ a :: l₂) none) (hn : (n :: (l₁ ++ a :: l₂)).Nodup) :
    ((((c.setPrev n (some a)).setNext n (c.next a)).setPrevOf (c.next a) (some n)).setNext a
      (some n)).Seg none (l₁ ++ a :: n :: l₂) none := by
  obtain ⟨hnl, hnd⟩ := List.nodup_cons.mp hn
  obtain ⟨hd1, hd2, hdis⟩ := List.nodup_append.mp hnd
  simp only [List.mem_append, List.mem_cons, not_or] at hnl
  obtain ⟨hn1, hna, hn2⟩ := hnl
  have ha1 : a ∉ l₁ := fun hmem => hdis a hmem a (by simp) rfl
  obtain ⟨ha2, hd2'⟩ := List.nodup_cons.mp hd2
  rw [seg_append] at h
  obtain ⟨h1, hpa, hnx, h2⟩ := h
  have hnx' : c.next a = l₂.head? := by simpa using hnx
  have hhead : ∀ x ∈ l₂.head?, x ∉ l₁ := fun x hx hm =>
    hdis x hm x (by simp [List.mem_of_mem_head? hx]) rfl
  rw [hnx', seg_append]
  refine ⟨?_, ?_, ?_, ?_, ?_, ?_⟩
  · rw [seg_setNext ha1, seg_setPrevOf hhead, seg_setNext hn1, seg_setPrev hn1]
    simpa using h1
  · cases hl : l₂.head? with
    | none => simpa [setPrevOf, Ne.symm hna] using hpa
    | some x =>
        have hxa : a ≠ x := fun e => ha2 (e ▸ List.mem_of_mem_head? hl)
        simpa [setPrevOf, hxa, Ne.symm hna] using hpa
  · simp
  · cases hl : l₂.head? with
    | none => simp [setPrevOf]
    | some x =>
        have hnx : n ≠ x := fun e => hn2 (e ▸ List.mem_of_mem_head? hl)
        simp [setPrevOf, hnx]
  · simp [hna]
  · rw [seg_setNext ha2]
    exact ((seg_setNext (v := l₂.head?) hn2).mpr
      ((seg_setPrev (v := some a) hn2).mpr h2)).setPrevOf_head hd2' (some n)

/-- Unthreading `n`. -/
lemma Seg.remove (h : c.Seg none (l₁ ++ n :: l₂) none) (hnd : (l₁ ++ n :: l₂).Nodup) :
    ((c.setNextOf (c.prev n) (c.next n)).setPrevOf (c.next n) (c.prev n)).Seg none (l₁ ++ l₂)
      none := by
  obtain ⟨hd1, hd2, hdis⟩ := List.nodup_append.mp hnd
  obtain ⟨hn2, hd2'⟩ := List.nodup_cons.mp hd2
  rw [seg_append] at h
  obtain ⟨h1, hp, hx, h2⟩ := h
  have hp' : c.prev n = l₁.getLast? := by simpa using hp
  have hx' : c.next n = l₂.head? := by simpa using hx
  have hnd' : (l₁ ++ l₂).Nodup :=
    hnd.sublist (List.Sublist.append_left (List.sublist_cons_self n l₂) l₁)
  rw [hp', hx', seg_append]
  constructor
  · rw [seg_setPrevOf (notMem_of_mem_head? hnd')]
    simpa using h1.setNextOf_getLast hd1 l₂.head?
  · have := ((seg_setNextOf (v := l₂.head?) (notMem_of_mem_getLast? hnd')).mpr h2).setPrevOf_head
      hd2' l₁.getLast?
    simpa using this

end Chain

end PtrList
