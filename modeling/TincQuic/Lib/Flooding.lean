import Mathlib.Algebra.BigOperators.Group.Finset.Piecewise
import Mathlib.Algebra.Order.BigOperators.Group.Finset
import Mathlib.Data.List.Perm.Basic
import TincQuic.Lib.Run
import TincQuic.Lib.TreeGrowth

/-!
# Flooding a tree

A vertex that gets a message from a neighbour passes it on to its other neighbours; the one that it
begins with sends it to all.  Messages are delivered in any order.

* `deliver` is one step: it takes any of the messages that are in flight.
* `Spreading` is the invariant: messages go from parents to children, and **a vertex has got its
  message, or the message is in flight to it, if and only if its parent has got it**.
* **In a tree nobody gets the message twice, and when nothing is in flight, everybody has got it**:
  `Spreading.received_le` and `Spreading.received_eq`.
-/

namespace Flooding

open Function Run TreeGrowth

universe u

/-- The messages in flight, each with its sender and its receiver, and how many each vertex got. -/
structure State (V : Type u) where
  inFlight : List (V × V)
  received : V → ℕ

variable {V : Type u} [DecidableEq V] {adj : V → V → Prop} {verts : Set V} {parent : V → V}
  {depth : V → ℕ} {o u v w : V} {s : State V}

section Steps

/- `out v u` are those to whom `v` passes on what it got from `u`. -/
variable (out : V → V → List V)

/-- The messages that `v` sends when it got one from `u`. -/
def messages (v u : V) : List (V × V) := (out v u).map fun w => (v, w)

/-- `o` begins. -/
def start (o : V) : State V := { inFlight := messages out o o, received := fun _ => 0 }

/-- The message number `k` of those in flight is delivered, if there is one. -/
def deliver (s : State V) (k : ℕ) : State V :=
  match s.inFlight[k]? with
  | none => s
  | some (u, v) =>
      { inFlight := s.inFlight.eraseIdx k ++ messages out v u
        received := update s.received v (s.received v + 1) }

/-- There is a message of that number. -/
def Deliverable (s : State V) (k : ℕ) : Prop := k < s.inFlight.length

/-- A vertex passes a message on to all neighbours but the one from whom it got it. -/
def PassesOn (adj : V → V → Prop) (verts : Set V) : Prop :=
  ∀ v ∈ verts, ∀ u, u = v ∨ adj u v →
    (out v u).Nodup ∧ ∀ w, w ∈ out v u ↔ adj v w ∧ w ≠ u

end Steps

/-! ## The invariant -/

/-- A vertex has the message. -/
def Informed (o : V) (s : State V) (v : V) : Prop := v = o ∨ 0 < s.received v

/-- A vertex has got the message, or it is in flight to it, if its parent has it. -/
structure Spreading (verts : Set V) (parent : V → V) (o : V) (s : State V) : Prop where
  down : ∀ p ∈ s.inFlight, p.2 ∈ verts ∧ p.2 ≠ o ∧ p.1 = parent p.2
  once : ∀ v ∈ verts, v ≠ o → Informed o s (parent v) →
    s.received v + s.inFlight.count (parent v, v) = 1
  later : ∀ v ∈ verts, v ≠ o → ¬ Informed o s (parent v) →
    s.received v + s.inFlight.count (parent v, v) = 0
  root : s.received o = 0

variable {out : V → V → List V}

lemma count_messages (hn : (out v u).Nodup) :
    (messages out v u).count (v, w) = if w ∈ out v u then 1 else 0 := by
  unfold messages
  rw [List.count_map_of_injective _ _ (Prod.mk_right_injective v), hn.count]

lemma count_messages_of_ne {x : V} (hx : x ≠ v) : (messages out v u).count (x, w) = 0 := by
  refine List.count_eq_zero.mpr fun hmem => ?_
  obtain ⟨y, -, hy⟩ := List.mem_map.mp hmem
  exact hx (congrArg Prod.fst hy).symm

omit [DecidableEq V] in
/-- The neighbours to whom a message is passed on are the children. -/
lemma mem_out (h : Rooted adj verts o parent depth) (hout : PassesOn out adj verts)
    (hv : v ∈ verts) (hu : u = v ∧ v = o ∨ v ≠ o ∧ u = parent v) :
    (out v u).Nodup ∧ ∀ w, w ∈ out v u ↔ w ∈ verts ∧ w ≠ o ∧ v = parent w := by
  have hsource : u = v ∨ adj u v := by
    rcases hu with ⟨rfl, -⟩ | ⟨hne, rfl⟩
    · exact .inl rfl
    · exact .inr (h.up v hv hne).2
  obtain ⟨hnodup, hmem⟩ := hout v hv u hsource
  refine ⟨hnodup, fun w => (hmem w).trans ?_⟩
  constructor
  · rintro ⟨hlink, hne⟩
    obtain ⟨-, hw, ⟨hwo, hpar⟩ | ⟨hvo, rfl⟩⟩ := h.either v w hlink
    · exact ⟨hw, hwo, hpar⟩
    · rcases hu with ⟨-, rfl⟩ | ⟨-, rfl⟩
      · exact absurd rfl hvo
      · exact absurd rfl hne
  · rintro ⟨hw, hwo, rfl⟩
    refine ⟨(h.up w hw hwo).2, ?_⟩
    rintro rfl
    have hdeeper := h.deeper w hw hwo
    rcases hu with ⟨hu, -⟩ | ⟨hne, hu⟩
    · rw [← hu] at hdeeper
      omega
    · have hdeeper' := h.deeper _ hv hne
      rw [← hu] at hdeeper'
      omega

namespace Spreading

lemma start (h : Rooted adj verts o parent depth) (hout : PassesOn out adj verts)
    (ho : o ∈ verts) : Spreading verts parent o (start out o) := by
  obtain ⟨hnodup, hmem⟩ := mem_out h hout ho (.inl ⟨rfl, rfl⟩)
  refine ⟨?_, ?_, ?_, rfl⟩
  · intro p hp
    obtain ⟨w, hw, rfl⟩ := List.mem_map.mp hp
    exact (hmem w).mp hw
  · intro v hv hne hinf
    have hpar : parent v = o := hinf.elim id fun hpos => absurd hpos (Nat.lt_irrefl 0)
    change 0 + (messages out o o).count (parent v, v) = 1
    rw [hpar, count_messages hnodup, if_pos ((hmem v).mpr ⟨hv, hne, hpar.symm⟩)]
  · intro v hv hne hinf
    have hpar : parent v ≠ o := fun hpar => hinf (.inl hpar)
    change 0 + (messages out o o).count (parent v, v) = 0
    rw [count_messages_of_ne hpar]

/-- A message is in flight only to somebody who has not got it yet. -/
lemma waiting (hs : Spreading verts parent o s) (hv : v ∈ verts) (hne : v ≠ o)
    (hmem : (parent v, v) ∈ s.inFlight) : s.received v = 0 ∧ Informed o s (parent v) := by
  have hpos := List.count_pos_iff.mpr hmem
  by_cases hinf : Informed o s (parent v)
  · have hone := hs.once v hv hne hinf
    exact ⟨by omega, hinf⟩
  · have hzero := hs.later v hv hne hinf
    omega

lemma deliver (h : Rooted adj verts o parent depth) (hout : PassesOn out adj verts)
    (hs : Spreading verts parent o s) (k : ℕ) :
    Spreading verts parent o (deliver out s k) := by
  unfold Flooding.deliver
  cases hk : s.inFlight[k]? with
  | none => exact hs
  | some p =>
      obtain ⟨u, v⟩ := p
      obtain ⟨hlt, hget⟩ := List.getElem?_eq_some_iff.mp hk
      have hmem : (u, v) ∈ s.inFlight := hget ▸ List.getElem_mem hlt
      obtain ⟨hv, hne, hu⟩ := hs.down _ hmem
      dsimp only at hv hne hu
      subst hu
      obtain ⟨hzero, hinf⟩ := hs.waiting hv hne hmem
      have hone := hs.once v hv hne hinf
      obtain ⟨hnodup, hchildren⟩ := mem_out h hout hv (.inr ⟨hne, rfl⟩)
      have hself : parent v ≠ v := by
        intro he
        have hdeeper := h.deeper v hv hne
        rw [he] at hdeeper
        omega
      -- what is left in flight
      have hleft : ∀ p, s.inFlight.count p =
          (s.inFlight.eraseIdx k).count p + if (parent v, v) = p then 1 else 0 := by
        intro p
        have hperm := List.getElem_cons_eraseIdx_perm hlt
        rw [← hperm.count_eq p, hget, List.count_cons]
        simp only [beq_iff_eq]
      -- who else has the message
      have hothers : ∀ x, x ≠ v →
          (Informed o (Flooding.deliver out s k) x ↔ Informed o s x) := by
        intro x hx
        unfold Informed Flooding.deliver
        rw [hk]
        dsimp only
        rw [update_of_ne hx]
      unfold Flooding.deliver at hothers
      rw [hk] at hothers
      dsimp only at hothers ⊢
      refine ⟨?_, ?_, ?_, ?_⟩
      · intro p hp
        rcases List.mem_append.mp hp with hp | hp
        · exact hs.down p (List.mem_of_mem_eraseIdx hp)
        · obtain ⟨w, hw, rfl⟩ := List.mem_map.mp hp
          exact (hchildren w).mp hw
      · intro x hx hxo hxinf
        dsimp only
        rw [List.count_append]
        by_cases hxv : x = v
        · subst hxv
          rw [hleft, if_pos rfl] at hone
          rw [update_self, count_messages_of_ne hself]
          omega
        · rw [update_of_ne hxv]
          have hsame := hleft (parent x, x)
          rw [if_neg (by simp [Ne.symm hxv])] at hsame
          by_cases hxp : parent x = v
          · -- a child of the receiver: now the message is in flight to it
            have hold := hs.later x hx hxo (by simp [Informed, hxp, hne, hzero])
            rw [hxp] at hold hsame ⊢
            rw [count_messages hnodup, if_pos ((hchildren x).mpr ⟨hx, hxo, hxp.symm⟩)]
            omega
          · have hold := hs.once x hx hxo ((hothers _ hxp).mp hxinf)
            rw [count_messages_of_ne hxp]
            omega
      · intro x hx hxo hxinf
        have hxp : parent x ≠ v := by
          intro hxp
          refine hxinf (.inr ?_)
          dsimp only
          rw [hxp, update_self]
          exact Nat.succ_pos _
        have hold := hs.later x hx hxo fun hinf' => hxinf ((hothers _ hxp).mpr hinf')
        have hxv : x ≠ v := by
          rintro rfl
          omega
        have hsame := hleft (parent x, x)
        dsimp only
        rw [List.count_append, update_of_ne hxv, count_messages_of_ne hxp]
        omega
      · dsimp only
        rw [update_of_ne hne.symm]
        exact hs.root

/-- Nobody gets the message twice. -/
lemma received_le (hs : Spreading verts parent o s) (hv : v ∈ verts) : s.received v ≤ 1 := by
  by_cases hne : v = o
  · rw [hne, hs.root]
    exact Nat.zero_le 1
  · by_cases hinf : Informed o s (parent v)
    · have hone := hs.once v hv hne hinf
      omega
    · have hzero := hs.later v hv hne hinf
      omega

/-- When nothing is in flight, everybody has got it. -/
lemma received_eq (h : Rooted adj verts o parent depth) (hs : Spreading verts parent o s)
    (hnil : s.inFlight = []) (hv : v ∈ verts) (hne : v ≠ o) : s.received v = 1 := by
  -- by induction on the distance from the root
  induction hd : depth v generalizing v with
  | zero =>
      have hdeeper := h.deeper v hv hne
      omega
  | succ m ih =>
      have hdeeper := h.deeper v hv hne
      have hinf : Informed o s (parent v) := by
        by_cases hpo : parent v = o
        · exact .inl hpo
        · have hup := ih (h.up v hv hne).1 hpo (by omega)
          exact .inr (by omega)
      have hone := hs.once v hv hne hinf
      rw [hnil, List.count_nil] at hone
      exact hone

end Spreading

/-! ## Runs -/

/-- In every order of deliveries the invariant holds. -/
theorem spreading_run (h : Rooted adj verts o parent depth) (hout : PassesOn out adj verts)
    (ho : o ∈ verts) (order : List ℕ) :
    Spreading verts parent o (order.foldl (deliver out) (start out o)) := by
  have hrun : ∀ s, Spreading verts parent o s →
      Spreading verts parent o (order.foldl (deliver out) s) := by
    induction order with
    | nil => exact fun s hs => hs
    | cons k order ih => exact fun s hs => ih _ (hs.deliver h hout k)
  exact hrun _ (.start h hout ho)

/-- Every delivery is counted by its receiver. -/
lemma sum_received {all : Finset V} (h : Rooted adj all o parent depth)
    (hout : PassesOn out adj all) (hs : Spreading all parent o s) {order : List ℕ}
    (hvalid : Along (deliver out) Deliverable s order) :
    ∑ v ∈ all, (order.foldl (deliver out) s).received v =
      ∑ v ∈ all, s.received v + order.length := by
  induction order generalizing s with
  | nil => rfl
  | cons k order ih =>
      have hrest := ih (hs.deliver h hout k) hvalid.2
      rw [List.foldl_cons, hrest, List.length_cons]
      have hstep : ∑ v ∈ all, (deliver out s k).received v = ∑ v ∈ all, s.received v + 1 := by
        have hlt : k < s.inFlight.length := hvalid.1
        have hv : s.inFlight[k].2 ∈ all := (hs.down _ (List.getElem_mem hlt)).1
        unfold deliver
        rw [List.getElem?_eq_getElem hlt]
        dsimp only
        rw [Finset.sum_update_of_mem hv, ← Finset.add_sum_erase all s.received hv,
          Finset.sdiff_singleton_eq_erase]
        omega
      omega

/-- There are fewer deliveries than vertices. -/
theorem length_lt {all : Finset V} (h : Rooted adj all o parent depth)
    (hout : PassesOn out adj all) (ho : o ∈ all) {order : List ℕ}
    (hvalid : Along (deliver out) Deliverable (start out o) order) : order.length < all.card := by
  have hsum := sum_received h hout (.start h hout ho) hvalid
  have hend := spreading_run h hout ho order
  have hle : ∑ v ∈ all, (order.foldl (deliver out) (start out o)).received v < ∑ v ∈ all, 1 := by
    refine Finset.sum_lt_sum (fun v hv => hend.received_le hv) ⟨o, ho, ?_⟩
    rw [hend.root]
    exact Nat.one_pos
  have hzero : ∑ v ∈ all, (start out o).received v = 0 := Finset.sum_eq_zero fun _ _ => rfl
  rw [hsum, hzero, ← Finset.card_eq_sum_ones] at hle
  omega

end Flooding
