import TincQuic.Lib.Comparison
import TincQuic.Daemon.EdgeIndex

/-!
# The orders of the indexes

`subnet_tree` and the trees of the owners are ordered by `subnet_compare`, `edge_weight_tree` by
`edge_weight_compare`.  Both subtract weights, which are any `int` that a peer sends, and
`subnet_compare` ignores the owners if one of the two subnets has none.

* `subnetCompare_same` and `subnetCompare_ne` take the comparison apart: first the network, then
  the weight, then the owner.
* **When the comparisons are orders**: on a set of subnets, exactly if the weights that are used
  for one network lie in one half of the circle of 32-bit numbers and a subnet without an owner
  shares network and weight with no other; on a set of edges, exactly if all their weights lie in
  one half: `strictTotalOn_subnetCompare`, `strictTotalOn_edgeWeightCompare`.
-/

namespace Tinc

open Bytes CText Comparison

/-! ## What the requests can bring -/

/-- Every integer that a format stores is an `int`. -/
lemma isInt_sscanf (f : List Directive) (t : Text) :
    ∀ n, Item.int n ∈ (sscanf f t).1 → IsInt n := by
  induction f generalizing t with
  | nil => simp [sscanf]
  | cons directive f ih =>
      intro n hn
      cases directive with
      | space => exact ih _ n hn
      | lit c =>
          rw [sscanf] at hn
          split at hn
          · exact ih _ n hn
          · simp at hn
      | conv k =>
          rw [sscanf] at hn
          split at hn
          · simp at hn
          · rename_i item t' hscan
            rcases List.mem_cons.mp hn with rfl | hn
            · cases k with
              | d width =>
                  simp only [Conversion.scan, Option.map_eq_some_iff, Prod.mk.injEq,
                    Item.int.injEq] at hscan
                  obtain ⟨x, -, hn, -⟩ := hscan
                  rw [← hn]
                  exact isInt_toInt32 _
              | x width bits => simp [Conversion.scan, scanUnsigned] at hscan
              | u width bits => simp [Conversion.scan, scanUnsigned] at hscan
              | s width => simp [Conversion.scan] at hscan
            · exact ih _ n hn
      | skip k =>
          rw [sscanf] at hn
          split at hn
          · simp at hn
          · exact ih _ n hn

lemma isInt_scanWholeInt {t : Text} {n : ℤ} (h : scanWholeInt t = some n) : IsInt n := by
  unfold scanWholeInt at h
  split at h
  · rename_i m heq
    obtain rfl := Option.some.inj h
    exact isInt_sscanf [.conv (.d none)] t _ (by simp [heq])
  · simp at h

lemma isInt_cutInt {separator : UInt8} {t str : Text} {n : Option ℤ}
    (h : cutInt separator t = some (str, n)) : ∀ m ∈ n, IsInt m := by
  unfold cutInt at h
  dsimp only at h
  split at h
  · simp only [Option.some.injEq, Prod.mk.injEq] at h
    simp [← h.2]
  · simp only [Option.map_eq_some_iff, Prod.mk.injEq] at h
    obtain ⟨m, hm, -, rfl⟩ := h
    simpa using isInt_scanWholeInt hm

/-- The weight of a subnet is an `int`. -/
lemma isInt_str2net {t : Text} {s : Subnet} (h : str2net t = some s) : IsInt s.weight := by
  simp only [str2net, Option.bind_eq_bind, Option.bind_eq_some_iff] at h
  obtain ⟨⟨str, weight⟩, hcut, ⟨str', len⟩, -, h⟩ := h
  dsimp only at h
  split at h
  · simp at h
  · simp only [Option.bind_eq_some_iff, Option.some.injEq] at h
    obtain ⟨net, -, rfl⟩ := h
    cases weight with
    | none =>
        change IsInt 10
        exact ⟨by decide, by decide⟩
    | some n => exact isInt_cutInt hcut n rfl

/-- The weight of an edge is an `int`. -/
lemma isInt_parseAddEdge {request : Text} {r : AddEdge} (h : parseAddEdge request = some r) :
    IsInt r.weight := by
  unfold parseAddEdge at h
  dsimp only at h
  split at h
  · rename_i heq
    obtain rfl := Option.some.inj h
    exact isInt_sscanf _ request _ (by rw [heq]; simp)
  · rename_i heq
    obtain rfl := Option.some.inj h
    exact isInt_sscanf _ request _ (by rw [heq]; simp)
  · simp at h

/-- A subnet that `str2net` reads, of any owner or of none. -/
def Subnet.Admitted (s : Subnet) : Prop :=
  ∃ text t, str2net text = some t ∧ s.net = t.net ∧ s.weight = t.weight

/-- An edge that ADD_EDGE describes. -/
def Edge.Admitted (e : Edge) : Prop :=
  ∃ request r, parseAddEdge request = some r ∧ validEnds r.fromName r.toName ∧
    e.fromNode = r.fromName ∧ e.toNode = r.toName ∧ e.weight = r.weight

lemma Subnet.Admitted.isInt {s : Subnet} (h : s.Admitted) : IsInt s.weight := by
  obtain ⟨text, t, ht, -, hw⟩ := h
  rw [hw]
  exact isInt_str2net ht

lemma Edge.Admitted.isInt {e : Edge} (h : e.Admitted) : IsInt e.weight := by
  obtain ⟨request, r, hr, -, -, -, hw⟩ := h
  rw [hw]
  exact isInt_parseAddEdge hr

/-! ## `subnet_compare` taken apart -/

/-- The key of a network: its type, its prefix length, the longer first, and its address. -/
def netKey : Net → ℕ ×ₗ ℤ ×ₗ List ℕ
  | .mac address => toLex (0, toLex (0, textKey address))
  | .ipv4 address prefixlength => toLex (1, toLex (-prefixlength, textKey address))
  | .ipv6 address prefixlength => toLex (2, toLex (-prefixlength, textKey address))

lemma netKey_inj {m n : Net} : netKey m = netKey n ↔ m = n := by
  cases m <;> cases n <;> simp [netKey, textKey_inj, and_comm]

variable {a b : Subnet}

/-- On one network the weights decide, and then the owners. -/
lemma subnetCompare_same (h : a.net = b.net) : subnetCompare a b = compareWeightOwner a b := by
  unfold subnetCompare
  rw [h]
  cases b.net with
  | mac x => simp [strcmp_eq_zero.mpr]
  | ipv4 x m => simp [comparePrefix, strcmp_eq_zero.mpr]
  | ipv6 x m => simp [comparePrefix, strcmp_eq_zero.mpr]

lemma comparePrefix_ne {x y : Text} {m n : ℕ} (h : m = n → x ≠ y) (rest : ℤ) :
    comparePrefix x y m n rest ≠ 0 ∧
    (comparePrefix x y m n rest < 0 ↔ (-m : ℤ) < -n ∨ (-m : ℤ) = -n ∧ textKey x < textKey y) := by
  unfold comparePrefix
  by_cases hmn : m = n
  · have hne : strcmp x y ≠ 0 := fun h0 => h hmn (strcmp_eq_zero.mp h0)
    simp [hmn, hne, strcmp_neg]
  · have hne : (n : ℤ) - m ≠ 0 := by omega
    simp only [ne_eq, hne, not_false_eq_true, if_true, true_and]
    omega

/-- Different networks decide alone. -/
lemma subnetCompare_ne (h : a.net ≠ b.net) :
    subnetCompare a b ≠ 0 ∧ (subnetCompare a b < 0 ↔ netKey a.net < netKey b.net) := by
  unfold subnetCompare
  cases ha : a.net with
  | mac x =>
      cases hb : b.net with
      | mac y =>
          have hne : strcmp x y ≠ 0 := by
            intro h0
            rw [ha, hb, strcmp_eq_zero.mp h0] at h
            exact h rfl
          simp [hne, netKey, Prod.Lex.toLex_lt_toLex, strcmp_neg]
      | ipv4 y n => simp [netKey, Prod.Lex.toLex_lt_toLex]
      | ipv6 y n => simp [netKey, Prod.Lex.toLex_lt_toLex]
  | ipv4 x m =>
      cases hb : b.net with
      | mac y => simp [netKey, Prod.Lex.toLex_lt_toLex]
      | ipv4 y n =>
          have hne : m = n → x ≠ y := by
            rintro rfl rfl
            exact h (ha.trans hb.symm)
          simpa [netKey, Prod.Lex.toLex_lt_toLex] using comparePrefix_ne hne _
      | ipv6 y n => simp [netKey, Prod.Lex.toLex_lt_toLex]
  | ipv6 x m =>
      cases hb : b.net with
      | mac y => simp [netKey, Prod.Lex.toLex_lt_toLex]
      | ipv4 y n => simp [netKey, Prod.Lex.toLex_lt_toLex]
      | ipv6 y n =>
          have hne : m = n → x ≠ y := by
            rintro rfl rfl
            exact h (ha.trans hb.symm)
          simpa [netKey, Prod.Lex.toLex_lt_toLex] using comparePrefix_ne hne _

/-! ## When they are orders -/

/-- Equal in network, prefix length, weight and owner. -/
def Subnet.Same (a b : Subnet) : Prop := a.net = b.net ∧ a.weight = b.weight ∧ a.owner = b.owner

/-- Equal in weight and in both ends. -/
def Edge.Same (a b : Edge) : Prop :=
  a.weight = b.weight ∧ a.fromNode = b.fromNode ∧ a.toNode = b.toNode

/-- The weights that subnets of `s` have on one network. -/
def weightsOn (s : Set Subnet) (net : Net) : Set ℤ := {w | ∃ a ∈ s, a.net = net ∧ a.weight = w}

/-- A subnet without an owner has its network and weight for itself. -/
def OwnersApart (s : Set Subnet) : Prop :=
  ∀ a ∈ s, ∀ b ∈ s, a.net = b.net → a.weight = b.weight → (a.owner = none ↔ b.owner = none)

/-- The key of a subnet whose weight has its place in a line. -/
def subnetKey (place : Subnet → ℤ) (a : Subnet) : (ℕ ×ₗ ℤ ×ₗ List ℕ) ×ₗ ℤ ×ₗ List ℕ :=
  toLex (netKey a.net, toLex (place a, textKey (a.owner.getD [])))

/-- Two subnets are compared by key if the difference of their weights is that of their places,
unless one of them has no owner where the other has one. -/
lemma subnetCompare_spec {place : Subnet → ℤ}
    (hplace : a.net = b.net → toInt32 (a.weight - b.weight) = place a - place b)
    (ho : a.net = b.net → place a = place b → (a.owner = none ↔ b.owner = none)) :
    (subnetCompare a b = 0 ↔ subnetKey place a = subnetKey place b) ∧
    (subnetCompare a b < 0 ↔ subnetKey place a < subnetKey place b) := by
  unfold subnetKey
  simp only [Prod.Lex.toLex_lt_toLex, EmbeddingLike.apply_eq_iff_eq, Prod.mk.injEq]
  by_cases hnet : a.net = b.net
  · rw [subnetCompare_same hnet]
    simp only [hnet, lt_irrefl, true_and, false_or]
    unfold compareWeightOwner
    dsimp only
    rw [hplace hnet]
    by_cases hw : place a = place b
    · rw [if_neg (not_not.mpr (sub_eq_zero.mpr hw))]
      simp only [hw, lt_irrefl, true_and, false_or]
      have ho := ho hnet hw
      cases hao : a.owner with
      | none => simp [ho.mp hao]
      | some m =>
          cases hbo : b.owner with
          | none => simp [ho.mpr hbo] at hao
          | some n => simp [strcmp_eq_zero, strcmp_neg, textKey_inj]
    · have h0 : place a - place b ≠ 0 := sub_ne_zero.mpr hw
      rw [if_pos h0]
      simp [h0, hw]
  · obtain ⟨h0, hlt⟩ := subnetCompare_ne hnet
    have hkey : netKey a.net ≠ netKey b.net := netKey_inj.not.mpr hnet
    simp [h0, hlt, hkey]

lemma subnetKey_same {place : Subnet → ℤ}
    (hplace : a.net = b.net → place a = place b → a.weight = b.weight)
    (ho : a.net = b.net → place a = place b → (a.owner = none ↔ b.owner = none))
    (h : subnetKey place a = subnetKey place b) : a.Same b := by
  simp only [subnetKey, EmbeddingLike.apply_eq_iff_eq, Prod.mk.injEq, netKey_inj, textKey_inj] at h
  obtain ⟨hnet, hw, howner⟩ := h
  refine ⟨hnet, hplace hnet hw, ?_⟩
  have ho := ho hnet hw
  cases hao : a.owner with
  | none => rw [ho.mp hao]
  | some m =>
      cases hbo : b.owner with
      | none => simp [ho.mpr hbo] at hao
      | some n => simpa [hao, hbo] using howner

/-- On one network and with different weights, the wrapped difference decides. -/
lemma subnetCompare_weight (h : a.net = b.net) (hw : toInt32 (a.weight - b.weight) ≠ 0) :
    subnetCompare a b = toInt32 (a.weight - b.weight) := by
  rw [subnetCompare_same h]
  exact if_pos hw

/-- **`subnet_compare` is a strict total order on a set of subnets exactly if the weights of each
network lie in one half of the circle and ownerless subnets collide with no owned one.** -/
lemma strictTotalOn_subnetCompare {s : Set Subnet} (hint : ∀ a ∈ s, IsInt a.weight) :
    StrictTotalOn subnetCompare Subnet.Same s ↔
      (∀ net, HalfCircle (weightsOn s net)) ∧ OwnersApart s := by
  constructor
  · intro h
    refine ⟨fun net => HalfCircle.of_trans ?_ ?_, ?_⟩
    · rintro w ⟨a, ha, -, rfl⟩
      exact hint a ha
    · rintro u ⟨a, ha, hna, rfl⟩ v ⟨b, hb, hnb, rfl⟩ w ⟨c, hc, hnc, rfl⟩ hab hbc
      have hcab : subnetCompare a b < 0 := by
        rwa [subnetCompare_weight (hna.trans hnb.symm) hab.ne]
      have hcbc : subnetCompare b c < 0 := by
        rwa [subnetCompare_weight (hnb.trans hnc.symm) hbc.ne]
      by_cases hac : toInt32 (a.weight - c.weight) = 0
      · -- then `a` and `c` have one weight, and `b` is before and after it
        have hw := (toInt32_sub_eq_zero (hint a ha) (hint c hc)).mp hac
        rw [← hw] at hbc
        have hcba : subnetCompare b a < 0 := by
          rwa [subnetCompare_weight (hnb.trans hna.symm) hbc.ne]
        have hsign := h.antisymm a ha b hb
        rw [Int.sign_eq_neg_one_of_neg hcab, Int.sign_eq_neg_one_of_neg hcba] at hsign
        simp at hsign
      · rw [← subnetCompare_weight (hna.trans hnc.symm) hac]
        exact h.trans a ha b hb c hc hcab hcbc
    · -- an ownerless subnet compares equal to any other of its network and weight
      have hcollide : ∀ a ∈ s, ∀ b ∈ s, a.net = b.net → a.weight = b.weight →
          a.owner = none → b.owner = none := by
        intro a ha b hb hnet hw hao
        have h0 : subnetCompare a b = 0 := by
          rw [subnetCompare_same hnet, compareWeightOwner]
          simp [hw, toInt32, hao]
        rw [← (h.eq_of_zero a ha b hb h0).2.2]
        exact hao
      intro a ha b hb hnet hw
      exact ⟨hcollide a ha b hb hnet hw, hcollide b hb a ha hnet.symm hw.symm⟩
  · rintro ⟨hhalf, hapart⟩
    choose origin horigin using hhalf
    have hhalf : ∀ a ∈ s, (a.weight - origin a.net) % 2 ^ 32 < 2 ^ 31 :=
      fun a ha => horigin a.net a.weight ⟨a, ha, rfl, rfl⟩
    have hplace : ∀ a ∈ s, ∀ b ∈ s, a.net = b.net → toInt32 (a.weight - b.weight) =
        (a.weight - origin a.net) % 2 ^ 32 - (b.weight - origin b.net) % 2 ^ 32 := by
      intro a ha b hb hnet
      have hab := hhalf a ha
      rw [hnet] at hab ⊢
      exact toInt32_sub_eq hab (hhalf b hb)
    have hweight : ∀ a ∈ s, ∀ b ∈ s, a.net = b.net →
        (a.weight - origin a.net) % 2 ^ 32 = (b.weight - origin b.net) % 2 ^ 32 →
        a.weight = b.weight := by
      intro a ha b hb hnet h
      rw [hnet] at h
      exact eq_of_place (hint a ha) (hint b hb) h
    exact StrictTotalOn.of_key
      (fun a ha b hb => subnetCompare_spec (hplace a ha b hb)
        fun hnet h => hapart a ha b hb hnet (hweight a ha b hb hnet h))
      (fun a ha b hb => subnetKey_same (hweight a ha b hb)
        fun hnet h => hapart a ha b hb hnet (hweight a ha b hb hnet h))

/-! ## `edge_weight_compare` -/

/-- The key of an edge, if `origin` is where the weights begin. -/
def placeKey (origin : ℤ) (e : Edge) : ℤ ×ₗ List ℕ ×ₗ List ℕ :=
  weightKey { e with weight := (e.weight - origin) % 2 ^ 32 }

/-- Edges whose weights lie within one half are compared by key. -/
lemma edgeWeightCompare_place {x y : Edge} {origin : ℤ} (hx : (x.weight - origin) % 2 ^ 32 < 2 ^ 31)
    (hy : (y.weight - origin) % 2 ^ 32 < 2 ^ 31) :
    (edgeWeightCompare x y = 0 ↔ placeKey origin x = placeKey origin y) ∧
    (edgeWeightCompare x y < 0 ↔ placeKey origin x < placeKey origin y) := by
  have hnear : Near ((x.weight - origin) % 2 ^ 32) ((y.weight - origin) % 2 ^ 32) := by
    unfold Near
    omega
  have heq : edgeWeightCompare x y =
      edgeWeightCompare { x with weight := (x.weight - origin) % 2 ^ 32 }
        { y with weight := (y.weight - origin) % 2 ^ 32 } := by
    simp only [edgeWeightCompare, toInt32_sub_eq hx hy, toInt32_sub hnear]
  rw [heq]
  exact edgeWeightCompare_spec hnear

lemma edgeWeightCompare_weight {x y : Edge} (h : toInt32 (x.weight - y.weight) ≠ 0) :
    edgeWeightCompare x y = toInt32 (x.weight - y.weight) := if_pos h

/-- **`edge_weight_compare` is a strict total order on a set of edges exactly if their weights lie
in one half of the circle.** -/
lemma strictTotalOn_edgeWeightCompare {t : Set Edge} (hint : ∀ e ∈ t, IsInt e.weight) :
    StrictTotalOn edgeWeightCompare Edge.Same t ↔ HalfCircle (Edge.weight '' t) := by
  constructor
  · intro h
    refine HalfCircle.of_trans ?_ ?_
    · rintro w ⟨e, he, rfl⟩
      exact hint e he
    · rintro u ⟨x, hx, rfl⟩ v ⟨y, hy, rfl⟩ w ⟨z, hz, rfl⟩ hxy hyz
      have hcxy : edgeWeightCompare x y < 0 := by rwa [edgeWeightCompare_weight hxy.ne]
      have hcyz : edgeWeightCompare y z < 0 := by rwa [edgeWeightCompare_weight hyz.ne]
      by_cases hxz : toInt32 (x.weight - z.weight) = 0
      · have hw := (toInt32_sub_eq_zero (hint x hx) (hint z hz)).mp hxz
        rw [← hw] at hyz
        have hcyx : edgeWeightCompare y x < 0 := by rwa [edgeWeightCompare_weight hyz.ne]
        have hsign := h.antisymm x hx y hy
        rw [Int.sign_eq_neg_one_of_neg hcxy, Int.sign_eq_neg_one_of_neg hcyx] at hsign
        simp at hsign
      · rw [← edgeWeightCompare_weight hxz]
        exact h.trans x hx y hy z hz hcxy hcyz
  · rintro ⟨origin, horigin⟩
    have hplace : ∀ e ∈ t, (e.weight - origin) % 2 ^ 32 < 2 ^ 31 :=
      fun e he => horigin e.weight ⟨e, he, rfl⟩
    refine StrictTotalOn.of_key
      (fun x hx y hy => edgeWeightCompare_place (hplace x hx) (hplace y hy)) ?_
    intro x hx y hy h
    simp only [placeKey, weightKey, EmbeddingLike.apply_eq_iff_eq, Prod.mk.injEq, textKey_inj] at h
    exact ⟨eq_of_place (hint x hx) (hint y hy) h.1, h.2.1, h.2.2⟩

/-! ## The two indexes together -/

/-- Which sets of subnets and edges that peers can announce the indexes can hold in order. -/
theorem index_orders_iff (s : Set Subnet) (t : Set Edge) (hs : ∀ a ∈ s, a.Admitted)
    (ht : ∀ e ∈ t, e.Admitted) :
    (StrictTotalOn subnetCompare Subnet.Same s ∧ StrictTotalOn edgeWeightCompare Edge.Same t) ↔
      (∀ net, HalfCircle (weightsOn s net)) ∧ OwnersApart s ∧ HalfCircle (Edge.weight '' t) := by
  rw [strictTotalOn_subnetCompare fun a ha => (hs a ha).isInt,
    strictTotalOn_edgeWeightCompare fun e he => (ht e he).isInt, and_assoc]

/-- `10.0.0.0/8` with a weight -/
def tenNet (owner : Option Name) (weight : ℤ) : Subnet :=
  { owner := owner, net := .ipv4 [10, 0, 0, 0] 8, weight := weight, expires := 0 }

/-- An edge from `a` to `b`. -/
def lineEdge (weight : ℤ) : Edge :=
  { fromNode := ascii "a", toNode := ascii "b", address := .unspec, localAddress := .unspec,
    options := 0, weight := weight, connection := none, reverse := none }

lemma lineEdge_admitted : (lineEdge 7).Admitted := by
  have hparse : ((parseAddEdge (ascii "12 1 a b 10.0.0.1 655 0 7")).map fun r =>
      (r.fromName, r.toName, r.weight)) = some (ascii "a", ascii "b", 7) := by decide +kernel
  obtain ⟨r, hr, heq⟩ := Option.map_eq_some_iff.mp hparse
  simp only [Prod.mk.injEq] at heq
  obtain ⟨hfrom, hto, hw⟩ := heq
  refine ⟨_, r, hr, ?_, hfrom.symm, hto.symm, hw.symm⟩
  rw [hfrom, hto]
  decide

/-- Two owners of one network with the default weight and with weight 20, and one edge. -/
theorem index_orders_two_owners :
    StrictTotalOn subnetCompare Subnet.Same
        {tenNet (some (ascii "a")) 10, tenNet (some (ascii "b")) 20} ∧
      StrictTotalOn edgeWeightCompare Edge.Same {lineEdge 7} := by
  have hs : ∀ a ∈ ({tenNet (some (ascii "a")) 10, tenNet (some (ascii "b")) 20} : Set Subnet),
      a.Admitted := by
    rintro a (rfl | rfl)
    · exact ⟨ascii "10.0.0.0/8", tenNet none 10, by decide +kernel, rfl, rfl⟩
    · exact ⟨ascii "10.0.0.0/8#20", tenNet none 20, by decide +kernel, rfl, rfl⟩
  have ht : ∀ e ∈ ({lineEdge 7} : Set Edge), e.Admitted := by
    rintro e rfl
    exact lineEdge_admitted
  refine (index_orders_iff _ _ hs ht).mpr ⟨fun net => ⟨0, ?_⟩, ?_, ⟨0, ?_⟩⟩
  · rintro w ⟨a, rfl | rfl, -, rfl⟩ <;> decide
  · rintro a (rfl | rfl) b (rfl | rfl) <;> simp [tenNet]
  · rintro w ⟨e, rfl, rfl⟩
    decide

/-- The weights `INT_MIN` and 0 of one network are each before the other. -/
theorem index_orders_overflow :
    ¬ (StrictTotalOn subnetCompare Subnet.Same {a | a.Admitted} ∧
      StrictTotalOn edgeWeightCompare Edge.Same {e | e.Admitted}) := by
  rintro ⟨h, -⟩
  have ha : (tenNet (some (ascii "a")) (-2147483648)).Admitted :=
    ⟨ascii "10.0.0.0/8#-2147483648", tenNet none (-2147483648), by decide +kernel, rfl, rfl⟩
  have hb : (tenNet (some (ascii "b")) 0).Admitted :=
    ⟨ascii "10.0.0.0/8#0", tenNet none 0, by decide +kernel, rfl, rfl⟩
  have hsign := h.antisymm _ ha _ hb
  revert hsign
  decide

end Tinc
