import Mathlib.Algebra.BigOperators.Group.Finset.Basic
import Mathlib.Algebra.Order.Monoid.Defs
import Mathlib.Combinatorics.SimpleGraph.Acyclic

/-!
# Spanning trees of least weight

Sets of links between vertices `V`, with weights in an ordered monoid.

* `SpanningTree links verts T` says that `T` consists of links, is acyclic, and connects `verts`.
* `SpanningTree.leaf` adds a vertex to a tree, and `SpanningTree.exchange` puts one link in place of
  another that goes over the same border.
* **The cut property**: if a set of links is part of a spanning tree that is not heavier than `T₀`,
  it still is when the lightest link over a border is added that none of its links crosses,
  `Promising.add`.  A spanning tree that is promising whatever `T₀` is, is of least weight:
  `Promising.minimal`.
-/

namespace Spanning

universe u v

variable {V : Type u} [DecidableEq V] {T T' done links : Finset (Sym2 V)} {verts : Set V}
  {a b x y : V}

/-- The graph that a set of links is. -/
def asGraph (T : Finset (Sym2 V)) : SimpleGraph V := .fromEdgeSet T

omit [DecidableEq V] in
@[simp] lemma asGraph_adj : (asGraph T).Adj a b ↔ s(a, b) ∈ T ∧ a ≠ b := by
  simp [asGraph]

omit [DecidableEq V] in
lemma asGraph_mono (h : T ⊆ T') : asGraph T ≤ asGraph T' :=
  SimpleGraph.fromEdgeSet_mono (Finset.coe_subset.mpr h)

lemma asGraph_insert (T : Finset (Sym2 V)) (x y : V) :
    asGraph (insert s(x, y) T) = asGraph T ⊔ .edge x y := by
  ext a b
  simp only [asGraph_adj, Finset.mem_insert, SimpleGraph.sup_adj, SimpleGraph.edge_adj, Sym2.eq_iff]
  tauto

/-- A way either does without a link, or leads to one of its ends and on from the other. -/
lemma reachable_erase (u v : V) (h : (asGraph T).Reachable a b) :
    (asGraph (T.erase s(u, v))).Reachable a b ∨
    (asGraph (T.erase s(u, v))).Reachable a u ∧ (asGraph (T.erase s(u, v))).Reachable v b ∨
    (asGraph (T.erase s(u, v))).Reachable a v ∧ (asGraph (T.erase s(u, v))).Reachable u b := by
  obtain ⟨p⟩ := h
  induction p with
  | nil => exact .inl .rfl
  | @cons a c b hadj p ih =>
      obtain ⟨hmem, hne⟩ := asGraph_adj.mp hadj
      by_cases hlink : s(a, c) = s(u, v)
      · rcases Sym2.eq_iff.mp hlink with ⟨rfl, rfl⟩ | ⟨rfl, rfl⟩
        · rcases ih with hb | ⟨-, hb⟩ | ⟨-, hb⟩
          · exact .inr (.inl ⟨.rfl, hb⟩)
          · exact .inr (.inl ⟨.rfl, hb⟩)
          · exact .inl hb
        · rcases ih with hb | ⟨-, hb⟩ | ⟨-, hb⟩
          · exact .inr (.inr ⟨.rfl, hb⟩)
          · exact .inl hb
          · exact .inr (.inr ⟨.rfl, hb⟩)
      · have hstep : (asGraph (T.erase s(u, v))).Reachable a c := by
          refine SimpleGraph.Adj.reachable (asGraph_adj.mpr ⟨?_, hne⟩)
          exact Finset.mem_erase.mpr ⟨hlink, hmem⟩
        rcases ih with hb | ⟨hu, hb⟩ | ⟨hv, hb⟩
        · exact .inl (hstep.trans hb)
        · exact .inr (.inl ⟨hstep.trans hu, hb⟩)
        · exact .inr (.inr ⟨hstep.trans hv, hb⟩)

omit [DecidableEq V] in
/-- What can be reached from inside a border that no link crosses is inside. -/
lemma mem_of_reachable {S : Set V} (h : (asGraph T).Reachable a b) (ha : a ∈ S)
    (hT : ∀ u v, s(u, v) ∈ T → u ∈ S → v ∈ S) : b ∈ S := by
  obtain ⟨p⟩ := h
  by_contra hb
  obtain ⟨d, -, hu, hv⟩ := p.exists_boundary_dart S ha hb
  exact hv (hT _ _ (asGraph_adj.mp d.adj).1 hu)

/-- In an acyclic graph the way between two vertices crosses every border between them, and cannot
do without the link that it crosses it by. -/
lemma exists_crossing {S : Set V} (hT : (asGraph T).IsAcyclic) (h : (asGraph T).Reachable x y)
    (hx : x ∈ S) (hy : y ∉ S) :
    ∃ u v, s(u, v) ∈ T ∧ u ∈ S ∧ v ∉ S ∧ ¬ (asGraph (T.erase s(u, v))).Reachable x y := by
  obtain ⟨p, hp⟩ := h.exists_isPath
  obtain ⟨d, hd, hu, hv⟩ := p.exists_boundary_dart S hx hy
  refine ⟨d.fst, d.snd, (asGraph_adj.mp d.adj).1, hu, hv, fun hreach => ?_⟩
  obtain ⟨q, hq⟩ := hreach.exists_isPath
  have hle : asGraph (T.erase s(d.fst, d.snd)) ≤ asGraph T := asGraph_mono (Finset.erase_subset _ _)
  have hpaths := hT.subsingleton_path x y
  have hsame : p = q.mapLe hle := congrArg Subtype.val
    (hpaths.elim ⟨p, hp⟩ ⟨q.mapLe hle, (SimpleGraph.Walk.isPath_mapLe hle).mpr hq⟩)
  have hmem : d.edge ∈ (q.mapLe hle).edges := by
    rw [← hsame]
    exact List.mem_map_of_mem hd
  rw [SimpleGraph.Walk.edges_mapLe_eq_edges] at hmem
  have hedge : (asGraph (T.erase s(d.fst, d.snd))).Adj d.fst d.snd := q.adj_of_mem_edges hmem
  simp at hedge

/-! ## Spanning trees -/

/-- `T` is a spanning tree of the vertices `verts`. -/
structure SpanningTree (links : Finset (Sym2 V)) (verts : Set V) (T : Finset (Sym2 V)) : Prop where
  sub : T ⊆ links
  ends : ∀ a b, s(a, b) ∈ T → a ∈ verts ∧ b ∈ verts ∧ a ≠ b
  acyclic : (asGraph T).IsAcyclic
  connects : ∀ a ∈ verts, ∀ b ∈ verts, (asGraph T).Reachable a b

namespace SpanningTree

omit [DecidableEq V] in
/-- One vertex, or none. -/
lemma empty (h : verts.Subsingleton) : SpanningTree links verts ∅ := by
  refine ⟨Finset.empty_subset _, by simp, ?_, fun a ha b hb => ?_⟩
  · simp [asGraph]
  · rw [h ha hb]

/-- A link to a new vertex. -/
lemma leaf (h : SpanningTree links verts T) (hlink : s(x, y) ∈ links) (hx : x ∈ verts)
    (hy : y ∉ verts) : SpanningTree links (insert y verts) (insert s(x, y) T) := by
  have hne : x ≠ y := fun he => hy (he ▸ hx)
  have hnew : ¬ (asGraph T).Reachable x y := fun hreach =>
    hy (mem_of_reachable hreach hx fun u v hmem _ => (h.ends u v hmem).2.1)
  have hxy : (asGraph (insert s(x, y) T)).Reachable x y :=
    SimpleGraph.Adj.reachable (asGraph_adj.mpr ⟨Finset.mem_insert_self _ _, hne⟩)
  have hall : ∀ a ∈ insert y verts, (asGraph (insert s(x, y) T)).Reachable x a := by
    rintro a (rfl | ha)
    · exact hxy
    · exact (h.connects x hx a ha).mono (asGraph_mono (Finset.subset_insert _ _))
  refine ⟨Finset.insert_subset hlink h.sub, fun a b hmem => ?_, ?_, fun a ha b hb => ?_⟩
  · rcases Finset.mem_insert.mp hmem with he | hmem
    · rcases Sym2.eq_iff.mp he with ⟨rfl, rfl⟩ | ⟨rfl, rfl⟩
      · exact ⟨.inr hx, .inl rfl, hne⟩
      · exact ⟨.inl rfl, .inr hx, hne.symm⟩
    · obtain ⟨ha, hb, hab⟩ := h.ends a b hmem
      exact ⟨.inr ha, .inr hb, hab⟩
  · rw [asGraph_insert]
    exact h.acyclic.sup_edge_of_not_reachable hnew
  · exact (hall a ha).symm.trans (hall b hb)

/-- A link takes the place of another one over the same border. -/
lemma exchange (h : SpanningTree links verts T) {S : Set V} (hlink : s(x, y) ∈ links)
    (hx : x ∈ verts) (hy : y ∈ verts) (hxS : x ∈ S) (hyS : y ∉ S) :
    ∃ u v, s(u, v) ∈ T ∧ u ∈ S ∧ v ∉ S ∧
      SpanningTree links verts (insert s(x, y) (T.erase s(u, v))) := by
  have hne : x ≠ y := fun he => hyS (he ▸ hxS)
  have hway := h.connects x hx y hy
  obtain ⟨u, v, hmem, hu, hv, hcut⟩ := exists_crossing h.acyclic hway hxS hyS
  have hsub : T.erase s(u, v) ⊆ T := Finset.erase_subset _ _
  have hle : asGraph (T.erase s(u, v)) ≤ asGraph (insert s(x, y) (T.erase s(u, v))) :=
    asGraph_mono (Finset.subset_insert _ _)
  have hxy : (asGraph (insert s(x, y) (T.erase s(u, v)))).Reachable x y :=
    SimpleGraph.Adj.reachable (asGraph_adj.mpr ⟨Finset.mem_insert_self _ _, hne⟩)
  -- the new link is a way round the old one
  have huv : (asGraph (insert s(x, y) (T.erase s(u, v)))).Reachable u v := by
    rcases (reachable_erase u v hway).resolve_left hcut with ⟨hxu, hvy⟩ | ⟨hxv, huy⟩
    · exact ((hxu.mono hle).symm.trans hxy).trans (hvy.mono hle).symm
    · exact ((huy.mono hle).trans hxy.symm).trans (hxv.mono hle)
  refine ⟨u, v, hmem, hu, hv, Finset.insert_subset hlink (hsub.trans h.sub), fun a b hab => ?_, ?_,
    fun a ha b hb => ?_⟩
  · rcases Finset.mem_insert.mp hab with he | hab
    · rcases Sym2.eq_iff.mp he with ⟨rfl, rfl⟩ | ⟨rfl, rfl⟩
      · exact ⟨hx, hy, hne⟩
      · exact ⟨hy, hx, hne.symm⟩
    · exact h.ends a b (hsub hab)
  · rw [asGraph_insert]
    exact (h.acyclic.anti (asGraph_mono hsub)).sup_edge_of_not_reachable hcut
  · rcases reachable_erase u v (h.connects a ha b hb) with hab | ⟨hau, hvb⟩ | ⟨hav, hub⟩
    · exact hab.mono hle
    · exact ((hau.mono hle).trans huv).trans (hvb.mono hle)
    · exact ((hav.mono hle).trans huv.symm).trans (hub.mono hle)

/-- No spanning tree is part of another. -/
lemma eq_of_subset (h : SpanningTree links verts T) (h' : SpanningTree links verts T')
    (hsub : T ⊆ T') : T = T' := by
  refine Finset.Subset.antisymm hsub fun e he => ?_
  by_contra hnot
  induction e with
  | h a b =>
      obtain ⟨ha, hb, hne⟩ := h'.ends a b he
      have hle : asGraph T ≤ asGraph (T'.erase s(a, b)) := by
        refine asGraph_mono fun e hmem => Finset.mem_erase.mpr ⟨?_, hsub hmem⟩
        rintro rfl
        exact hnot hmem
      have hback : asGraph T' = asGraph (T'.erase s(a, b)) ⊔ .edge a b := by
        rw [← asGraph_insert, Finset.insert_erase he]
      have hacyclic := h'.acyclic
      rw [hback, SimpleGraph.isAcyclic_sup_fromEdgeSet_iff] at hacyclic
      rcases hacyclic.2 ((h.connects a ha b hb).mono hle) with hself | hadj
      · exact hne hself
      · simp at hadj

end SpanningTree

/-! ## The cut property -/

variable {W : Type v} [AddCommMonoid W] [PartialOrder W] [IsOrderedAddMonoid W] {w : Sym2 V → W}
  {T₀ : Finset (Sym2 V)}

/-- `done` is part of a spanning tree that is not heavier than `T₀`. -/
def Promising (links : Finset (Sym2 V)) (verts : Set V) (w : Sym2 V → W)
    (T₀ done : Finset (Sym2 V)) : Prop :=
  ∃ T, SpanningTree links verts T ∧ done ⊆ T ∧ ∑ e ∈ T, w e ≤ ∑ e ∈ T₀, w e

omit [DecidableEq V] [IsOrderedAddMonoid W] in
lemma Promising.start (h : SpanningTree links verts T₀) : Promising links verts w T₀ ∅ :=
  ⟨T₀, h, Finset.empty_subset _, le_rfl⟩

/-- **The lightest link over a border can be added.** -/
lemma Promising.add (h : Promising links verts w T₀ done) {S : Set V} (hlink : s(x, y) ∈ links)
    (hx : x ∈ verts) (hy : y ∈ verts) (hxS : x ∈ S) (hyS : y ∉ S)
    (hdone : ∀ a b, s(a, b) ∈ done → a ∈ S → b ∈ S)
    (hlightest : ∀ a b, s(a, b) ∈ links → a ∈ S → b ∉ S → w s(x, y) ≤ w s(a, b)) :
    Promising links verts w T₀ (insert s(x, y) done) := by
  obtain ⟨T, hT, hsub, hle⟩ := h
  by_cases hmem : s(x, y) ∈ T
  · exact ⟨T, hT, Finset.insert_subset hmem hsub, hle⟩
  · obtain ⟨u, v, huv, hu, hv, hT'⟩ := hT.exchange hlink hx hy hxS hyS
    refine ⟨_, hT', Finset.insert_subset_insert _ fun e he => ?_, ?_⟩
    · refine Finset.mem_erase.mpr ⟨?_, hsub he⟩
      rintro rfl
      exact hv (hdone u v he hu)
    · have hnot : s(x, y) ∉ T.erase s(u, v) := fun he => hmem (Finset.mem_of_mem_erase he)
      calc ∑ e ∈ insert s(x, y) (T.erase s(u, v)), w e
          = w s(x, y) + ∑ e ∈ T.erase s(u, v), w e := Finset.sum_insert hnot
        _ ≤ w s(u, v) + ∑ e ∈ T.erase s(u, v), w e :=
            add_le_add_left (hlightest u v (hT.sub huv) hu hv) _
        _ = ∑ e ∈ T, w e := Finset.add_sum_erase T w huv
        _ ≤ ∑ e ∈ T₀, w e := hle

omit [IsOrderedAddMonoid W] in
/-- A spanning tree that is promising is not heavier. -/
lemma Promising.minimal (h : Promising links verts w T₀ done)
    (hdone : SpanningTree links verts done) :
    ∑ e ∈ done, w e ≤ ∑ e ∈ T₀, w e := by
  obtain ⟨T, hT, hsub, hle⟩ := h
  rw [hdone.eq_of_subset hT hsub]
  exact hle

end Spanning
