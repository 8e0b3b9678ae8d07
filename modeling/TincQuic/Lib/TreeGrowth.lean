import Mathlib.Data.Finset.Card
import Mathlib.Data.Set.Insert
import Mathlib.Logic.Function.Basic
import Mathlib.Logic.Relation

/-!
# Growing a tree from a list of links

A tree of vertices `V` grows from a list of links: the list is gone through from its head, a link
with exactly one end in the tree is taken, and when links were passed over before one that is
taken, the list is gone through again.

* `grow` is the list of the links that are taken, in their order.
* **With enough rounds the growth is complete**: `Complete` holds of the marks at the end, so that
  all vertices that are connected with the first one are in the tree, `Complete.reaches`.
* `Grows` says of a list of links that each brings one new vertex.
* **What grew can be hung up at any vertex**: `Grows.rooted`.  Every other vertex then has a parent,
  and links go between parents and children only.
* **If the links connect all vertices, the tree contains them all**: `grow_spans`.
-/

namespace TreeGrowth

open Function

universe u

variable {V : Type u} [DecidableEq V]

/-! ## Growing -/

/-- Both ends of the link are in the tree. -/
def mark (visited : V → Bool) (l : V × V) : V → Bool := update (update visited l.1 true) l.2 true

/-- The links that are taken from `rest`, where `skipped` says that a link was passed over. -/
def grow (all : List (V × V)) : ℕ → List (V × V) → Bool → (V → Bool) → List (V × V)
  | 0, _, _, _ => []
  | _ + 1, [], _, _ => []
  | fuel + 1, l :: rest, skipped, visited =>
      if visited l.1 = visited l.2 then grow all fuel rest true visited
      else l :: grow all fuel (if skipped then all else rest) false (mark visited l)

/-- The marks when all these links were taken. -/
def marked (visited : V → Bool) (links : List (V × V)) : V → Bool := links.foldl mark visited

variable {visited visited' : V → Bool} {all rest links : List (V × V)} {skipped : Bool}
  {fuel : ℕ} {l : V × V} {v : V}

lemma mark_eq_true : mark visited l v = true ↔ visited v = true ∨ v = l.1 ∨ v = l.2 := by
  unfold mark
  by_cases h2 : v = l.2
  · simp [h2]
  · by_cases h1 : v = l.1
    · simp [h1, update_apply]
    · simp [h1, h2]

lemma marked_of_visited (h : visited v = true) (links : List (V × V)) :
    marked visited links v = true := by
  induction links generalizing visited with
  | nil => exact h
  | cons l links ih => exact ih (mark_eq_true.mpr (.inl h))

/-- Only what is said of the ends of links matters. -/
lemma grow_congr {s : Set V} (hall : ∀ l ∈ all, l.1 ∈ s ∧ l.2 ∈ s)
    (hrest : ∀ l ∈ rest, l.1 ∈ s ∧ l.2 ∈ s) (h : ∀ v ∈ s, visited v = visited' v) :
    grow all fuel rest skipped visited = grow all fuel rest skipped visited' := by
  induction fuel generalizing rest skipped visited visited' with
  | zero => rfl
  | succ fuel ih =>
      cases rest with
      | nil => rfl
      | cons l rest =>
          obtain ⟨h1, h2⟩ := hrest l List.mem_cons_self
          have htail : ∀ l ∈ rest, l.1 ∈ s ∧ l.2 ∈ s :=
            fun l' hl' => hrest l' (List.mem_cons_of_mem l hl')
          rw [grow, grow, h l.1 h1, h l.2 h2]
          split
          · exact ih htail h
          · refine congrArg (l :: ·) (ih ?_ ?_)
            · split
              · exact hall
              · exact htail
            · intro v hv
              unfold mark
              simp only [update_apply, h v hv]

/-! ## Completeness -/

/-- No link has exactly one marked end. -/
def Complete (all : List (V × V)) (visited : V → Bool) : Prop :=
  ∀ l ∈ all, visited l.1 = visited l.2

/-- The vertices that are not in the tree. -/
def unvisited (verts : Finset V) (visited : V → Bool) : ℕ :=
  (verts.filter fun v => visited v = false).card

/-- The rounds that are enough. -/
def roundsLeft (verts : Finset V) (all rest : List (V × V)) (visited : V → Bool) : ℕ :=
  unvisited verts visited * (all.length + 1) + rest.length

omit [DecidableEq V] in
lemma roundsLeft_le (verts : Finset V) (all rest : List (V × V)) (visited : V → Bool) :
    roundsLeft verts all rest visited ≤ verts.card * (all.length + 1) + rest.length :=
  Nat.add_le_add_right (Nat.mul_le_mul_right _ (Finset.card_filter_le _ _)) _

lemma unvisited_mark {verts : Finset V} (h1 : l.1 ∈ verts) (h2 : l.2 ∈ verts)
    (hne : visited l.1 ≠ visited l.2) :
    unvisited verts (mark visited l) < unvisited verts visited := by
  obtain ⟨v, hv, hl, hfalse⟩ : ∃ v, v ∈ verts ∧ (v = l.1 ∨ v = l.2) ∧ visited v = false := by
    cases hv1 : visited l.1 with
    | false => exact ⟨l.1, h1, .inl rfl, hv1⟩
    | true => exact ⟨l.2, h2, .inr rfl, by rw [hv1] at hne; simpa using hne.symm⟩
  refine Finset.card_lt_card (Finset.ssubset_iff_of_subset ?_ |>.mpr ⟨v, ?_, ?_⟩)
  · intro w hw
    simp only [Finset.mem_filter] at hw ⊢
    refine ⟨hw.1, ?_⟩
    by_contra htrue
    rw [Bool.not_eq_false] at htrue
    rw [mark_eq_true.mpr (.inl htrue)] at hw
    exact absurd hw.2 (by decide)
  · exact Finset.mem_filter.mpr ⟨hv, hfalse⟩
  · intro hself
    rw [Finset.mem_filter, mark_eq_true.mpr (.inr hl)] at hself
    exact absurd hself.2 (by decide)

/-- What a link that is taken leaves to do. -/
lemma roundsLeft_mark {verts : Finset V} (all rest : List (V × V)) (skipped : Bool)
    (h1 : l.1 ∈ verts) (h2 : l.2 ∈ verts) (hne : visited l.1 ≠ visited l.2) :
    roundsLeft verts all (if skipped then all else rest) (mark visited l) <
      roundsLeft verts all (l :: rest) visited := by
  have hlt := unvisited_mark h1 h2 hne
  have hmul : (unvisited verts (mark visited l) + 1) * (all.length + 1) ≤
      unvisited verts visited * (all.length + 1) := Nat.mul_le_mul_right _ hlt
  rw [Nat.succ_mul] at hmul
  unfold roundsLeft
  rw [List.length_cons]
  split <;> omega

/-- More rounds than enough change nothing. -/
lemma grow_fuel {verts : Finset V} {fuel' : ℕ} (hall : ∀ l ∈ all, l.1 ∈ verts ∧ l.2 ∈ verts)
    (hrest : ∀ l ∈ rest, l.1 ∈ verts ∧ l.2 ∈ verts)
    (hf : roundsLeft verts all rest visited < fuel)
    (hf' : roundsLeft verts all rest visited < fuel') :
    grow all fuel rest skipped visited = grow all fuel' rest skipped visited := by
  induction fuel generalizing fuel' rest skipped visited with
  | zero => omega
  | succ fuel ih =>
      obtain ⟨fuel', rfl⟩ : ∃ f, fuel' = f + 1 := ⟨fuel' - 1, by omega⟩
      cases rest with
      | nil => rfl
      | cons l rest =>
          have htail : ∀ l ∈ rest, l.1 ∈ verts ∧ l.2 ∈ verts :=
            fun l' hl' => hrest l' (List.mem_cons_of_mem l hl')
          obtain ⟨h1, h2⟩ := hrest l List.mem_cons_self
          rw [grow, grow]
          split
          · have hlt : roundsLeft verts all rest visited <
                roundsLeft verts all (l :: rest) visited := by simp [roundsLeft]
            exact ih htail (by omega) (by omega)
          · rename_i hne
            have hlt := roundsLeft_mark all rest skipped h1 h2 hne
            refine congrArg (l :: ·) (ih ?_ (by omega) (by omega))
            split
            · exact hall
            · exact htail

/-- The links that were passed since the start: `skipped` is false only if all were taken. -/
structure Passed (visited : V → Bool) (skipped : Bool) (passed : List (V × V)) : Prop where
  level : ∀ l ∈ passed, visited l.1 = visited l.2
  taken : skipped = false → ∀ l ∈ passed, visited l.1 = true ∧ visited l.2 = true

omit [DecidableEq V] in
lemma Passed.skip {passed : List (V × V)} (h : Passed visited skipped passed)
    (hl : visited l.1 = visited l.2) : Passed visited true (passed ++ [l]) := by
  refine ⟨?_, fun hfalse => by cases hfalse⟩
  intro l' hl'
  rcases List.mem_append.mp hl' with hl' | hl'
  · exact h.level l' hl'
  · obtain rfl := List.mem_singleton.mp hl'
    exact hl

lemma Passed.take {passed : List (V × V)} (h : Passed visited false passed) :
    Passed (mark visited l) false (passed ++ [l]) := by
  have hboth : ∀ l' ∈ passed ++ [l], mark visited l l'.1 = true ∧ mark visited l l'.2 = true := by
    intro l' hl'
    rcases List.mem_append.mp hl' with hl' | hl'
    · obtain ⟨h1, h2⟩ := h.taken rfl l' hl'
      exact ⟨mark_eq_true.mpr (.inl h1), mark_eq_true.mpr (.inl h2)⟩
    · obtain rfl := List.mem_singleton.mp hl'
      exact ⟨mark_eq_true.mpr (.inr (.inl rfl)), mark_eq_true.mpr (.inr (.inr rfl))⟩
  exact ⟨fun l' hl' => (hboth l' hl').1.trans (hboth l' hl').2.symm, fun _ => hboth⟩

lemma complete_of_passed {verts : Finset V} {passed : List (V × V)}
    (hall : ∀ l ∈ all, l.1 ∈ verts ∧ l.2 ∈ verts) (hsplit : all = passed ++ rest)
    (hp : Passed visited skipped passed) (hf : roundsLeft verts all rest visited < fuel) :
    Complete all (marked visited (grow all fuel rest skipped visited)) := by
  induction fuel generalizing rest skipped visited passed with
  | zero => omega
  | succ fuel ih =>
      cases rest with
      | nil =>
          rw [List.append_nil] at hsplit
          subst hsplit
          exact hp.level
      | cons l rest =>
          have hnext : all = (passed ++ [l]) ++ rest := by rw [hsplit]; simp
          obtain ⟨h1, h2⟩ := hall l (by rw [hsplit]; simp)
          rw [grow]
          split
          · rename_i heq
            have hlt : roundsLeft verts all rest visited <
                roundsLeft verts all (l :: rest) visited := by simp [roundsLeft]
            exact ih hnext (hp.skip heq) (by omega)
          · rename_i hne
            have hlt := roundsLeft_mark all rest skipped h1 h2 hne
            cases skipped with
            | true =>
                have hnone : Passed (mark visited l) false [] :=
                  ⟨fun l' hl' => by simp at hl', fun _ l' hl' => by simp at hl'⟩
                rw [if_pos rfl] at hlt ⊢
                exact ih (List.nil_append all).symm hnone (by omega)
            | false =>
                rw [if_neg Bool.false_ne_true] at hlt ⊢
                exact ih hnext hp.take (by omega)

/-- With enough rounds no link is left that has exactly one end in the tree. -/
theorem grow_complete {verts : Finset V} (hall : ∀ l ∈ all, l.1 ∈ verts ∧ l.2 ∈ verts)
    (hf : roundsLeft verts all all visited < fuel) :
    Complete all (marked visited (grow all fuel all false visited)) :=
  complete_of_passed hall (List.nil_append all).symm
    ⟨fun l hl => by simp at hl, fun _ l hl => by simp at hl⟩ hf

/-- Two vertices are the ends of a link. -/
def Linked (links : List (V × V)) (v w : V) : Prop := (v, w) ∈ links ∨ (w, v) ∈ links

omit [DecidableEq V] in
/-- What is connected with a vertex of the tree is in the tree. -/
theorem Complete.reaches {w : V} (h : Complete all visited) (hv : visited v = true)
    (hvw : Relation.ReflTransGen (Linked all) v w) : visited w = true := by
  induction hvw with
  | refl => exact hv
  | tail _ hlink ih =>
      rcases hlink with hlink | hlink
      · exact (h _ hlink).symm.trans ih
      · exact (h _ hlink).trans ih

/-- Only ends of links come into the tree. -/
lemma marked_subset {verts : Set V} (hlinks : ∀ l ∈ links, l.1 ∈ verts ∧ l.2 ∈ verts)
    (hvisited : ∀ v, visited v = true → v ∈ verts) (h : marked visited links v = true) :
    v ∈ verts := by
  induction links generalizing visited with
  | nil => exact hvisited v h
  | cons l links ih =>
      refine ih (fun l' hl' => hlinks l' (List.mem_cons_of_mem l hl')) ?_ h
      intro w hw
      obtain ⟨h1, h2⟩ := hlinks l List.mem_cons_self
      rcases mark_eq_true.mp hw with hw | rfl | rfl
      · exact hvisited w hw
      · exact h1
      · exact h2

/-! ## The tree -/

/-- Every link has exactly one end that was in the tree before. -/
inductive Grows : (V → Bool) → List (V × V) → Prop
  | nil (visited : V → Bool) : Grows visited []
  | cons {visited : V → Bool} {l : V × V} {links : List (V × V)} :
      visited l.1 ≠ visited l.2 → Grows (mark visited l) links → Grows visited (l :: links)

lemma grow_grows : Grows visited (grow all fuel rest skipped visited) := by
  induction fuel generalizing rest skipped visited with
  | zero => exact .nil visited
  | succ fuel ih =>
      cases rest with
      | nil => exact .nil visited
      | cons l rest =>
          rw [grow]
          split
          · exact ih
          · rename_i hne
            exact .cons hne ih

lemma grow_subset (hrest : ∀ l ∈ rest, l ∈ all) :
    ∀ l ∈ grow all fuel rest skipped visited, l ∈ all := by
  induction fuel generalizing rest skipped visited with
  | zero => exact fun l hl => by simp [grow] at hl
  | succ fuel ih =>
      cases rest with
      | nil => exact fun l hl => by simp [grow] at hl
      | cons l rest =>
          have htail : ∀ l ∈ rest, l ∈ all := fun l' hl' => hrest l' (List.mem_cons_of_mem l hl')
          rw [grow]
          split
          · exact ih htail
          · intro l' hl'
            rcases List.mem_cons.mp hl' with rfl | hl'
            · exact hrest l' List.mem_cons_self
            · refine ih ?_ l' hl'
              split
              · exact fun _ hmem => hmem
              · exact htail

/-- The tree `adj` on the vertices `verts` hangs from `root`: every other vertex has a parent, which
is one step nearer, and only parents and children are adjacent. -/
structure Rooted (adj : V → V → Prop) (verts : Set V) (root : V) (parent : V → V)
    (depth : V → ℕ) : Prop where
  up : ∀ v ∈ verts, v ≠ root → parent v ∈ verts ∧ adj (parent v) v
  deeper : ∀ v ∈ verts, v ≠ root → depth v = depth (parent v) + 1
  either : ∀ v w, adj v w → v ∈ verts ∧ w ∈ verts ∧
    (w ≠ root ∧ v = parent w ∨ v ≠ root ∧ w = parent v)

/-- The tree can be hung up at `root`. -/
def CanRoot (links : List (V × V)) (verts : Set V) (root : V) : Prop :=
  ∃ parent depth, Rooted (Linked links) verts root parent depth

section Leaf

variable {adj adj' : V → V → Prop} {verts : Set V} {root w : V} {parent : V → V} {depth : V → ℕ}

/-- A leaf `w` is put below `v`. -/
lemma Rooted.leafBelow (h : Rooted adj verts root parent depth) (hroot : root ∈ verts)
    (hv : v ∈ verts) (hw : w ∉ verts)
    (hadj : ∀ a b, adj' a b ↔ adj a b ∨ a = v ∧ b = w ∨ a = w ∧ b = v) :
    Rooted adj' (insert w verts) root (update parent w v) (update depth w (depth v + 1)) := by
  have hne : ∀ x ∈ verts, x ≠ w := fun x hx he => hw (he ▸ hx)
  refine ⟨?_, ?_, ?_⟩
  · rintro x (rfl | hx) hxroot
    · rw [update_self]
      exact ⟨.inr hv, (hadj _ _).mpr (.inr (.inl ⟨rfl, rfl⟩))⟩
    · obtain ⟨hup, hlink⟩ := h.up x hx hxroot
      rw [update_of_ne (hne x hx)]
      exact ⟨.inr hup, (hadj _ _).mpr (.inl hlink)⟩
  · rintro x (rfl | hx) hxroot
    · rw [update_self, update_self, update_of_ne (hne v hv)]
    · have hup := (h.up x hx hxroot).1
      rw [update_of_ne (hne x hx), update_of_ne (hne x hx), update_of_ne (hne _ hup)]
      exact h.deeper x hx hxroot
  · intro a b hab
    rcases (hadj a b).mp hab with hab | ⟨rfl, rfl⟩ | ⟨rfl, rfl⟩
    · obtain ⟨ha, hb, hor⟩ := h.either a b hab
      rw [update_of_ne (hne a ha), update_of_ne (hne b hb)]
      exact ⟨.inr ha, .inr hb, hor⟩
    · refine ⟨.inr hv, .inl rfl, .inl ⟨(hne root hroot).symm, ?_⟩⟩
      rw [update_self]
    · refine ⟨.inl rfl, .inr hv, .inr ⟨(hne root hroot).symm, ?_⟩⟩
      rw [update_self]

/-- A leaf `w` is put above the root `v`. -/
lemma Rooted.leafAbove (h : Rooted adj verts v parent depth) (hv : v ∈ verts) (hw : w ∉ verts)
    (hadj : ∀ a b, adj' a b ↔ adj a b ∨ a = v ∧ b = w ∨ a = w ∧ b = v) :
    Rooted adj' (insert w verts) w (update parent v w)
      (update (fun x => depth x + 1) w (depth v)) := by
  have hne : ∀ x ∈ verts, x ≠ w := fun x hx he => hw (he ▸ hx)
  refine ⟨?_, ?_, ?_⟩
  · rintro x (rfl | hx) hxroot
    · exact absurd rfl hxroot
    · by_cases hxv : x = v
      · subst hxv
        rw [update_self]
        exact ⟨.inl rfl, (hadj _ _).mpr (.inr (.inr ⟨rfl, rfl⟩))⟩
      · obtain ⟨hup, hlink⟩ := h.up x hx hxv
        rw [update_of_ne hxv]
        exact ⟨.inr hup, (hadj _ _).mpr (.inl hlink)⟩
  · rintro x (rfl | hx) hxroot
    · exact absurd rfl hxroot
    · by_cases hxv : x = v
      · subst hxv
        rw [update_self, update_self, update_of_ne hxroot]
      · have hup := (h.up x hx hxv).1
        rw [update_of_ne hxv, update_of_ne hxroot, update_of_ne (hne _ hup), h.deeper x hx hxv]
  · intro a b hab
    rcases (hadj a b).mp hab with hab | ⟨rfl, rfl⟩ | ⟨rfl, rfl⟩
    · obtain ⟨ha, hb, ⟨hbv, rfl⟩ | ⟨hav, rfl⟩⟩ := h.either a b hab
      · rw [update_of_ne hbv]
        exact ⟨.inr ha, .inr hb, .inl ⟨hne b hb, rfl⟩⟩
      · rw [update_of_ne hav]
        exact ⟨.inr ha, .inr hb, .inr ⟨hne a ha, rfl⟩⟩
    · refine ⟨.inr hv, .inl rfl, .inr ⟨hne a hv, ?_⟩⟩
      rw [update_self]
    · refine ⟨.inl rfl, .inr hv, .inl ⟨hne b hv, ?_⟩⟩
      rw [update_self]

/-- A tree with one more leaf can be hung up at any vertex, if the tree can. -/
lemma CanRoot.leaf {done : List (V × V)} (h : ∀ o ∈ verts, CanRoot done verts o)
    (hv : v ∈ verts) (hw : w ∉ verts) (hl : l = (v, w) ∨ l = (w, v)) :
    ∀ o ∈ insert w verts, CanRoot (done ++ [l]) (insert w verts) o := by
  have hadj : ∀ a b, Linked (done ++ [l]) a b ↔
      Linked done a b ∨ a = v ∧ b = w ∨ a = w ∧ b = v := by
    intro a b
    unfold Linked
    rcases hl with rfl | rfl
    · simp only [List.mem_append, List.mem_singleton, Prod.mk.injEq]
      tauto
    · simp only [List.mem_append, List.mem_singleton, Prod.mk.injEq]
      tauto
  rintro o (rfl | ho)
  · obtain ⟨parent, depth, hrooted⟩ := h v hv
    exact ⟨_, _, hrooted.leafAbove hv hw hadj⟩
  · obtain ⟨parent, depth, hrooted⟩ := h o ho
    exact ⟨_, _, hrooted.leafBelow ho hv hw hadj⟩

end Leaf

/-- The vertices of the tree. -/
def vertices (visited : V → Bool) : Set V := {v | visited v = true}

omit [DecidableEq V] in
/-- One vertex alone. -/
lemma canRoot_single {verts : Set V} {o : V} (h : verts ⊆ {o}) : CanRoot [] verts o := by
  refine ⟨id, fun _ => 0, ?_, ?_, ?_⟩
  · exact fun v hv hne => absurd (h hv) hne
  · exact fun v hv hne => absurd (h hv) hne
  · intro v w hlink
    simp [Linked] at hlink

/-- A link that is taken brings one new vertex. -/
lemma vertices_mark (h : visited l.1 ≠ visited l.2) : ∃ v w, v ∈ vertices visited ∧
    w ∉ vertices visited ∧ (l = (v, w) ∨ l = (w, v)) ∧
      vertices (mark visited l) = insert w (vertices visited) := by
  have hset : ∀ w, (∀ x, mark visited l x = true ↔ visited x = true ∨ x = w) →
      vertices (mark visited l) = insert w (vertices visited) := by
    intro w hiff
    refine Set.ext fun x => ?_
    exact (hiff x).trans or_comm
  cases h1 : visited l.1 with
  | true =>
      have h2 : visited l.2 ≠ true := fun h2 => h (h1.trans h2.symm)
      refine ⟨l.1, l.2, h1, h2, .inl rfl, hset l.2 fun x => mark_eq_true.trans ?_⟩
      constructor
      · rintro (hx | rfl | hx)
        · exact .inl hx
        · exact .inl h1
        · exact .inr hx
      · exact fun hx => hx.elim .inl fun hx => .inr (.inr hx)
  | false =>
      have h2 : visited l.2 = true := by
        rw [h1] at h
        simpa using h.symm
      have h1 : visited l.1 ≠ true := by
        rw [h1]
        decide
      refine ⟨l.2, l.1, h2, h1, .inr rfl, hset l.1 fun x => mark_eq_true.trans ?_⟩
      constructor
      · rintro (hx | hx | rfl)
        · exact .inl hx
        · exact .inr hx
        · exact .inl h2
      · exact fun hx => hx.elim .inl fun hx => .inr (.inl hx)

/-- What grew from one vertex can be hung up at every vertex. -/
theorem Grows.rooted {done : List (V × V)} (h : Grows visited links)
    (hdone : ∀ o ∈ vertices visited, CanRoot done (vertices visited) o) :
    ∀ o ∈ vertices (marked visited links),
      CanRoot (done ++ links) (vertices (marked visited links)) o := by
  induction h generalizing done with
  | nil visited =>
      rw [List.append_nil]
      exact hdone
  | @cons visited l links hne _ ih =>
      obtain ⟨v, w, hv, hw, hl, hset⟩ := vertices_mark hne
      have hleaf : ∀ o ∈ vertices (mark visited l),
          CanRoot (done ++ [l]) (vertices (mark visited l)) o := by
        rw [hset]
        exact CanRoot.leaf hdone hv hw hl
      have hrest := ih hleaf
      rw [List.append_assoc] at hrest
      exact hrest

/-- The start of the first link is where the tree begins. -/
def first (all : List (V × V)) (v : V) : Bool := all.head?.map Prod.fst = some v

/-- If the vertices are connected by links, the tree contains them all, and it can be hung up at any
of them. -/
theorem grow_spans {verts : Finset V} (hall : ∀ l ∈ all, l.1 ∈ verts ∧ l.2 ∈ verts)
    (hlinked : ∀ v ∈ verts, ∀ w ∈ verts, Relation.ReflTransGen (Linked all) v w)
    (hf : roundsLeft verts all all (first all) < fuel) :
    ∀ o ∈ verts, CanRoot (grow all fuel all false (first all)) verts o := by
  have hcomplete := grow_complete hall hf
  have hgrows : Grows (first all) (grow all fuel all false (first all)) := grow_grows
  have hsub : ∀ l ∈ grow all fuel all false (first all), l ∈ all :=
    grow_subset fun _ hmem => hmem
  generalize grow all fuel all false (first all) = tree at hcomplete hgrows hsub
  intro o ho
  cases all with
  | nil =>
      obtain rfl : tree = [] := List.eq_nil_iff_forall_not_mem.mpr fun l hl => by
        have hmem := hsub l hl
        simp at hmem
      refine canRoot_single fun v hv => ?_
      have hpath := hlinked o ho v hv
      rcases Relation.ReflTransGen.cases_head hpath with rfl | ⟨w, hlink, -⟩
      · rfl
      · simp [Linked] at hlink
  | cons l rest =>
      have hl : l.1 ∈ verts := (hall l List.mem_cons_self).1
      have hfirst : ∀ v, first (l :: rest) v = true ↔ v = l.1 := by
        intro v
        simp [first, eq_comm]
      have hset : vertices (marked (first (l :: rest)) tree) = verts := by
        refine Set.Subset.antisymm ?_ ?_
        · intro v hv
          refine marked_subset (fun l' hl' => hall l' (hsub l' hl')) ?_ hv
          intro w hw
          rw [(hfirst w).mp hw]
          exact hl
        · intro v hv
          refine hcomplete.reaches ?_ (hlinked l.1 hl v hv)
          exact marked_of_visited ((hfirst l.1).mpr rfl) tree
      have hstart : ∀ o ∈ vertices (first (l :: rest)),
          CanRoot [] (vertices (first (l :: rest))) o := by
        intro o ho
        refine canRoot_single fun v hv => ?_
        rw [Set.mem_singleton_iff, (hfirst v).mp hv, (hfirst o).mp ho]
      have hrooted := hgrows.rooted hstart
      rw [hset, List.nil_append] at hrooted
      exact hrooted o ho

end TreeGrowth
