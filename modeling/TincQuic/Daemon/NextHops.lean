import TincQuic.Daemon.Reachability

/-!
# Over whom the nodes are reached

For every node the search keeps a next hop, a flag that says whether an INDIRECT edge is on the way,
and the last node `via` that can be reached directly.

* `Demotes` is the step that puts an indirect way in place of a direct one, because its last edge is
  lighter.  **The flag and `via` are exact if and only if no node is left demoted**:
  `indirect_exact_iff`.  `NoLighterDetour.not_demoted` is a condition on the graph that excludes
  such steps.
* `Rehops` is the step that gives a node that was visited before another next hop.  It compares the
  distances that were noted, and these grow when a direct way is found that is longer.
  **If it is taken only over the last edges of shortest paths, the next hops are on shortest
  paths**: `nexthops_shortest`.
* `layered_rounds` says that the nodes are visited for the first time in the order of their
  distance, although nodes are put on the list again.
-/

namespace Tinc

open Bytes CText Function Hops

variable {d : Daemon} {n m x : Name} {i : EdgeId} {node node' : Name → Node} {s : Search}
  {e : Exam} {T : List Exam} {edges : List EdgeId} {list : List Name}

/-! ## Direct ways -/

/-- There are edges in both directions, and the one to `m` is not INDIRECT. -/
def DirectLink (d : Daemon) (n m : Name) : Prop :=
  (∃ i ∈ d.edgeTree n, (d.edge i).toNode = m ∧ indirectEdge d i = false) ∧
    ∃ j ∈ d.edgeTree m, (d.edge j).toNode = n

lemma DirectLink.linked (h : DirectLink d n m) : BothWays d n m := by
  obtain ⟨⟨i, hi, hto, -⟩, hback⟩ := h
  exact ⟨⟨i, hi, hto⟩, hback⟩

lemma linked_of_direct (h : Relation.ReflTransGen (DirectLink d) n m) :
    Relation.ReflTransGen (BothWays d) n m :=
  h.lift id fun _ _ hl => DirectLink.linked hl

/-- The INDIRECT flag and `via` of all visited nodes are exact. -/
def ExactFlags (d : Daemon) (node : Name → Node) : Prop :=
  ∀ n ∈ d.nodeTree, (node n).visited = true →
    ((node n).indirect = false ↔ Relation.ReflTransGen (DirectLink d) d.myself n) ∧
    ((node n).indirect = false → (node n).via = some n) ∧
    ((node n).indirect = true → ∃ v ∈ d.nodeTree, (node n).via = some v ∧
      (node v).indirect = false ∧ Relation.ReflTransGen (BothWays d) d.myself v ∧
      Relation.ReflTransGen (BothWays d) v n)

/-- An indirect way takes the place of a direct one: the edge leads to a node that was visited
directly, at the same distance, and is lighter. -/
structure Demotes (d : Daemon) (e : Exam) : Prop where
  reverse : (d.edge e.i).reverse ≠ none
  notMyself : (d.edge e.i).toNode ≠ d.myself
  visited : (e.node (d.edge e.i).toNode).visited = true
  direct : (e.node (d.edge e.i).toNode).indirect = false
  indirect : ((e.node e.n).indirect || indirectEdge d e.i) = true
  distance : (e.node (d.edge e.i).toNode).distance = (e.node e.n).distance + 1
  lighter : ∃ p, (e.node (d.edge e.i).toNode).prevedge = some p ∧
    (d.edge e.i).weight < (d.edge p).weight

/-- A direct edge of a node that is direct leads to `x`. -/
structure Offers (d : Daemon) (e : Exam) (x : Name) : Prop where
  reverse : (d.edge e.i).reverse ≠ none
  toNode : (d.edge e.i).toNode = x
  notMyself : x ≠ d.myself
  direct : (e.node e.n).indirect = false ∧ indirectEdge d e.i = false

/-- `x` was demoted, and no direct way to it was met since. -/
def LeftDemoted (d : Daemon) (T : List Exam) (x : Name) : Prop :=
  ∃ A e B, T = A ++ e :: B ∧ Demotes d e ∧ (d.edge e.i).toNode = x ∧ ∀ y ∈ B, ¬ Offers d y x

lemma not_leftDemoted_nil : ¬ LeftDemoted d [] x := by
  rintro ⟨A, e, B, hT, -⟩
  simp at hT

/-- What one step does to a demoted node. -/
lemma leftDemoted_snoc : LeftDemoted d (T ++ [e]) x ↔
    Demotes d e ∧ (d.edge e.i).toNode = x ∨ LeftDemoted d T x ∧ ¬ Offers d e x := by
  constructor
  · rintro ⟨A, y, B, hT, hdemotes, hto, hnot⟩
    rcases List.eq_nil_or_concat B with rfl | ⟨B, z, rfl⟩
    · obtain ⟨-, hy⟩ := List.append_inj' hT rfl
      obtain rfl := List.singleton_inj.mp hy
      exact .inl ⟨hdemotes, hto⟩
    · have hT' : T ++ [e] = (A ++ y :: B) ++ [z] := by simpa using hT
      obtain ⟨rfl, hz⟩ := List.append_inj' hT' rfl
      obtain rfl := List.singleton_inj.mp hz
      exact .inr ⟨⟨A, y, B, rfl, hdemotes, hto, fun w hw => hnot w (by simp [hw])⟩,
        hnot _ (by simp)⟩
  · rintro (⟨hdemotes, hto⟩ | ⟨⟨A, y, B, rfl, hdemotes, hto, hnot⟩, hoffers⟩)
    · exact ⟨T, e, [], rfl, hdemotes, hto, by simp⟩
    · refine ⟨A, y, B ++ [e], by simp, hdemotes, hto, fun w hw => ?_⟩
      rcases List.mem_append.mp hw with hw | hw
      · exact hnot w hw
      · obtain rfl := List.mem_singleton.mp hw
        exact hoffers

/-- A lighter edge at the same distance is taken. -/
lemma Demotes.not_passed (h : Demotes d ⟨node, n, i⟩) : ¬ Passed d node n i := by
  rintro (hnone | hself | hworse)
  · exact h.reverse hnone
  · exact h.notMyself hself
  · obtain ⟨p, hp, hlighter⟩ := h.lighter
    have hdistance := h.distance
    dsimp only at hp hlighter hdistance
    unfold noBetter at hworse
    simp only [hp, hdistance, Bool.and_eq_true, Bool.or_eq_true, decide_eq_true_eq, ne_eq,
      not_true_eq_false, false_or, Option.all_some] at hworse
    omega

/-- An edge does not lead to the node it comes from when it is taken. -/
lemma Relaxes.ne_self (ht : Relaxes d node n i node') (hv : (node n).visited = true) :
    (d.edge i).toNode ≠ n := by
  intro he
  have hself : noBetter d node n (d.edge i) = true := by
    unfold noBetter
    dsimp only
    rw [he, hv]
    cases (node n).indirect <;> simp
  rw [ht.better] at hself
  cases hself

/-- A node that was direct and is not any more was demoted. -/
lemma Relaxes.demotes (ht : Relaxes d node n i node')
    (hv : (node (d.edge i).toNode).visited = true)
    (hold : (node (d.edge i).toNode).indirect = false)
    (hnew : ((node n).indirect || indirectEdge d i) = true) : Demotes d ⟨node, n, i⟩ := by
  have hbetter := ht.better
  unfold noBetter at hbetter
  simp only [hv, hold, Bool.true_and, Bool.not_false, Bool.true_or, Bool.or_eq_false_iff,
    decide_eq_false_iff_not, not_not] at hbetter
  refine ⟨ht.reverse, ht.notMyself, hv, hold, hnew, hbetter.1, ?_⟩
  cases hp : (node (d.edge i).toNode).prevedge with
  | none => simp [hp] at hbetter
  | some p => exact ⟨p, rfl, by simpa [hp] using hbetter.2⟩

/-- What is known of the visited nodes. -/
structure Direct (d : Daemon) (node : Name → Node) : Prop where
  sound : ∀ n ∈ d.nodeTree, (node n).visited = true → (node n).indirect = false →
    Relation.ReflTransGen (DirectLink d) d.myself n
  self : ∀ n ∈ d.nodeTree, (node n).visited = true → (node n).indirect = false →
    (node n).via = some n
  via : ∀ n ∈ d.nodeTree, (node n).visited = true → (node n).indirect = true →
    ∃ v ∈ d.nodeTree, (node n).via = some v ∧
      Relation.ReflTransGen (DirectLink d) d.myself v ∧ Relation.ReflTransGen (BothWays d) v n

lemma Direct.init (d : Daemon) : Direct d (bfsStart d d.node) := by
  have hmyself : ∀ n ∈ d.nodeTree, (bfsStart d d.node n).visited = true → n = d.myself := by
    intro n hn hv
    by_contra hne
    rw [bfsStart_of_ne hn hne] at hv
    cases hv
  refine ⟨fun n hn hv _ => ?_, fun n hn hv _ => ?_, fun n hn hv hi => ?_⟩
  · rw [hmyself n hn hv]
  · rw [hmyself n hn hv]
    simp [bfsStart]
  · rw [hmyself n hn hv, (bfsStart_myself d).2.1] at hi
    cases hi

/-- An edge that is taken keeps it. -/
lemma Direct.relaxes (h : Direct d node) (hd : Enclosed d) (hn : n ∈ d.nodeTree)
    (hv : (node n).visited = true) (hi : i ∈ d.edgeTree n) (ht : Relaxes d node n i node') :
    Direct d node' := by
  have hlink := linked_of_reverse hd hi ht.reverse
  refine ⟨fun x hx hvx hdx => ?_, fun x hx hvx hdx => ?_, fun x hx hvx hix => ?_⟩
  · by_cases hto : x = (d.edge i).toNode
    · subst hto
      rw [ht.indirect, Bool.or_eq_false_iff] at hdx
      exact (h.sound n hn hv hdx.1).tail ⟨⟨i, hi, rfl, hdx.2⟩, hlink.2⟩
    · rw [ht.others x hto] at hvx hdx
      exact h.sound x hx hvx hdx
  · by_cases hto : x = (d.edge i).toNode
    · subst hto
      rw [ht.indirect] at hdx
      rw [ht.viaOf, hdx]
      rfl
    · rw [ht.others x hto] at hvx hdx ⊢
      exact h.self x hx hvx hdx
  · by_cases hto : x = (d.edge i).toNode
    · subst hto
      rw [ht.indirect] at hix
      rw [ht.viaOf, if_pos hix]
      cases hn' : (node n).indirect with
      | false => exact ⟨n, hn, h.self n hn hv hn', h.sound n hn hv hn', .single hlink⟩
      | true =>
          obtain ⟨v, hvk, hvia, hdirect, hway⟩ := h.via n hn hv hn'
          exact ⟨v, hvk, hvia, hdirect, hway.tail hlink⟩
    · rw [ht.others x hto] at hvx hix ⊢
      exact h.via x hx hvx hix

/-! ### What demotion leaves behind -/

/-- A node that is left demoted is marked as indirect, although there is a direct way to it. -/
def Misled (d : Daemon) (T : List Exam) (node : Name → Node) : Prop :=
  ∀ x, LeftDemoted d T x → x ∈ d.nodeTree ∧ (node x).visited = true ∧ (node x).indirect = true ∧
    Relation.ReflTransGen (DirectLink d) d.myself x

lemma Misled.passed (h : Misled d T node) (hpass : Passed d node n i) :
    Misled d (T ++ [⟨node, n, i⟩]) node := by
  intro x hx
  rcases leftDemoted_snoc.mp hx with ⟨hdemotes, -⟩ | ⟨hleft, -⟩
  · exact absurd hpass hdemotes.not_passed
  · exact h x hleft

lemma Misled.relaxes (h : Misled d T node) (hd : Enclosed d) (hdirect : Direct d node)
    (hi : i ∈ d.edgeTree n) (ht : Relaxes d node n i node') :
    Misled d (T ++ [⟨node, n, i⟩]) node' := by
  intro x hx
  rcases leftDemoted_snoc.mp hx with ⟨hdemotes, rfl⟩ | ⟨hleft, hoffers⟩
  · have hknown := (linked_of_reverse hd hi ht.reverse).known hd
    exact ⟨hknown, ht.visited, ht.indirect.trans hdemotes.indirect,
      hdirect.sound _ hknown hdemotes.visited hdemotes.direct⟩
  · obtain ⟨hknown, hv, hindirect, hway⟩ := h x hleft
    refine ⟨hknown, ht.visited_of hv, ?_, hway⟩
    by_cases hto : x = (d.edge i).toNode
    · subst hto
      rw [ht.indirect]
      by_contra hnew
      rw [Bool.not_eq_true, Bool.or_eq_false_iff] at hnew
      exact hoffers ⟨ht.reverse, rfl, ht.notMyself, hnew⟩
    · rw [ht.others x hto]
      exact hindirect

/-! ### How direct ways spread -/

/-- A direct way to `x` was met: it is direct, or was demoted since. -/
def Settled (d : Daemon) (T : List Exam) (node : Name → Node) (x : Name) : Prop :=
  (node x).visited = true ∧ ((node x).indirect = false ∨ LeftDemoted d T x)

lemma Settled.relaxes (h : Settled d T node x) (ht : Relaxes d node n i node') :
    Settled d (T ++ [⟨node, n, i⟩]) node' x := by
  refine ⟨ht.visited_of h.1, ?_⟩
  rw [leftDemoted_snoc]
  by_cases hto : x = (d.edge i).toNode
  · subst hto
    cases hnew : (node n).indirect || indirectEdge d i with
    | false => exact .inl (ht.indirect.trans hnew)
    | true =>
        refine .inr (h.2.imp (fun hold => ⟨ht.demotes h.1 hold hnew, rfl⟩) fun hleft => ?_)
        refine ⟨hleft, fun hoffers => ?_⟩
        obtain ⟨hn, hedge⟩ := hoffers.direct
        dsimp only at hn hedge
        rw [hn, hedge] at hnew
        cases hnew
  · rw [ht.others x hto]
    exact h.2.imp_right fun hleft => .inr ⟨hleft, fun hoffers => hto hoffers.toNode.symm⟩

/-- A direct edge of a direct node that is passed over leads to a direct node. -/
lemma Passed.direct (h : Passed d node n i) (hoffers : Offers d ⟨node, n, i⟩ x) :
    (node x).visited = true ∧ (node x).indirect = false := by
  obtain ⟨hreverse, rfl, hmyself, hn, hdirect⟩ := hoffers
  dsimp only at hreverse hmyself hn hdirect
  rcases h with hnone | hself | hworse
  · exact absurd hnone hreverse
  · exact absurd hself hmyself
  · unfold indirectEdge at hdirect
    unfold noBetter at hworse
    simp only [hn, hdirect, Bool.or_false, Bool.and_eq_true, Bool.not_eq_true'] at hworse
    exact ⟨hworse.1.1, hworse.1.2⟩

lemma Settled.passed (h : Settled d T node x) (hpass : Passed d node n i) :
    Settled d (T ++ [⟨node, n, i⟩]) node x := by
  refine ⟨h.1, ?_⟩
  rw [leftDemoted_snoc]
  by_cases hoffers : Offers d ⟨node, n, i⟩ x
  · exact .inl (hpass.direct hoffers).2
  · exact h.2.imp_right fun hleft => .inr ⟨hleft, hoffers⟩

/-- The direct edges of `n` among `edges` were met. -/
def Spread (d : Daemon) (T : List Exam) (node : Name → Node) (n : Name) (edges : List EdgeId) :
    Prop :=
  ∀ i ∈ edges, Usable d n i → indirectEdge d i = false → Settled d T node (d.edge i).toNode

lemma Spread.snoc (h : Spread d T node n edges)
    (hi : Usable d n i → indirectEdge d i = false → Settled d T node (d.edge i).toNode) :
    Spread d T node n (edges ++ [i]) := by
  intro j hj hu hdirect
  rcases List.mem_append.mp hj with hj | hj
  · exact h j hj hu hdirect
  · obtain rfl := List.mem_singleton.mp hj
    exact hi hu hdirect

/-- Direct ways are sound, and were met from every direct node that is not on the list. -/
structure Spreading (d : Daemon) (T : List Exam) (s : Search) : Prop where
  direct : Direct d s.2
  misled : Misled d T s.2
  spread : ∀ n ∈ d.nodeTree, (s.2 n).visited = true → (s.2 n).indirect = false →
    n ∈ s.1 ∨ Spread d T s.2 n (d.edgeTree n)

/-- While the edges of `n` are examined. -/
structure SpreadingFrom (d : Daemon) (n : Name) (edges : List EdgeId) (T : List Exam) (s : Search) :
    Prop where
  known : n ∈ d.nodeTree
  visited : (s.2 n).visited = true
  direct : Direct d s.2
  misled : Misled d T s.2
  spread : ∀ m ∈ d.nodeTree, (s.2 m).visited = true → (s.2 m).indirect = false →
    m ∈ s.1 ∨ m = n ∨ Spread d T s.2 m (d.edgeTree m)
  here : (s.2 n).indirect = false → Spread d T s.2 n edges

lemma SpreadingFrom.skip (h : SpreadingFrom d n edges T (list, node)) (hpass : Passed d node n i) :
    SpreadingFrom d n (edges ++ [i]) (T ++ [⟨node, n, i⟩]) (list, node) := by
  have hkeeps : ∀ {m edges}, Spread d T node m edges →
      Spread d (T ++ [⟨node, n, i⟩]) node m edges :=
    fun hspread j hj hu hdirect => (hspread j hj hu hdirect).passed hpass
  refine ⟨h.known, h.visited, h.direct, h.misled.passed hpass, fun m hm hv hdirect => ?_,
    fun hn => ?_⟩
  · exact (h.spread m hm hv hdirect).imp_right (Or.imp_right hkeeps)
  · refine (hkeeps (h.here hn)).snoc fun hu hdirect => ?_
    obtain ⟨hv, hold⟩ := hpass.direct ⟨hu.reverse, rfl, hu.notMyself, hn, hdirect⟩
    exact ⟨hv, .inl hold⟩

lemma SpreadingFrom.take (h : SpreadingFrom d n edges T (list, node)) (hd : Enclosed d)
    (hi : i ∈ d.edgeTree n) (ht : Relaxes d node n i node') :
    SpreadingFrom d n (edges ++ [i]) (T ++ [⟨node, n, i⟩])
      (list ++ [(d.edge i).toNode], node') := by
  have hself : node' n = node n := ht.others n (ht.ne_self h.visited).symm
  have hkeeps : ∀ {m edges}, Spread d T node m edges →
      Spread d (T ++ [⟨node, n, i⟩]) node' m edges :=
    fun hspread j hj hu hdirect => (hspread j hj hu hdirect).relaxes ht
  refine ⟨h.known, ht.visited_of h.visited, h.direct.relaxes hd h.known h.visited hi ht,
    h.misled.relaxes hd h.direct hi ht, fun m hm hv hdirect => ?_, fun hn => ?_⟩
  · by_cases hto : m = (d.edge i).toNode
    · left
      rw [hto]
      simp
    · dsimp only at hv hdirect
      rw [ht.others m hto] at hv hdirect
      exact (h.spread m hm hv hdirect).imp (List.mem_append_left _) (Or.imp_right hkeeps)
  · dsimp only at hn
    rw [hself] at hn
    refine (hkeeps (h.here hn)).snoc fun hu hdirect => ⟨ht.visited, .inl ?_⟩
    rw [ht.indirect, hn, hdirect]
    rfl

lemma Spreading.rounds (hd : Enclosed d) (k : ℕ) : Spreading d (bfsExams d k) (bfsRounds d k) := by
  refine rounds_invariant (I := Spreading d) (J := SpreadingFrom d) ?_ ?_ ?_ ?_ ?_ k
  · refine ⟨Direct.init d, fun x hx => absurd hx not_leftDemoted_nil, fun n hn hv _ => .inl ?_⟩
    by_contra hne
    rw [List.mem_singleton] at hne
    dsimp only at hv
    rw [bfsStart_of_ne hn hne] at hv
    cases hv
  · intro k n todo node hs h
    have htraced := Traced.rounds hd k
    rw [hs] at htraced
    obtain ⟨hn, hv⟩ := htraced.listed n List.mem_cons_self
    refine ⟨hn, hv, h.direct, h.misled, fun m hm hvm hdm => ?_,
      fun _ i hi => absurd hi List.not_mem_nil⟩
    rcases h.spread m hm hvm hdm with hmem | hspread
    · rcases List.mem_cons.mp hmem with rfl | hmem
      · exact .inr (.inl rfl)
      · exact .inl hmem
    · exact .inr (.inr hspread)
  · intro n front i T list node _ hpass h
    exact h.skip hpass
  · intro n front i T list node node' hi ht h
    exact h.take hd hi ht
  · intro n T list node h
    refine ⟨h.direct, h.misled, fun m hm hv hdirect => ?_⟩
    rcases h.spread m hm hv hdirect with hmem | rfl | hspread
    · exact .inl hmem
    · exact .inr (h.here hdirect)
    · exact .inr hspread

/-- When the list is empty and no node is left demoted, the direct ways have spread as far as they
can. -/
lemma direct_of_path {k : ℕ} (hd : Enclosed d) (hk : (bfsRounds d k).1 = [])
    (hno : ∀ x, ¬ LeftDemoted d (bfsExams d k) x)
    (h : Relation.ReflTransGen (DirectLink d) d.myself n) :
    n ∈ d.nodeTree ∧ ((bfsRounds d k).2 n).visited = true ∧
      ((bfsRounds d k).2 n).indirect = false := by
  have htraced := Traced.rounds hd k
  have hmyself : ((bfsRounds d k).2 d.myself).indirect = false := by
    rw [htraced.myself]
    exact (bfsStart_myself d).2.1
  induction h with
  | refl => exact ⟨hd.myself, htraced.visited_myself, hmyself⟩
  | @tail m c _ hlink ih =>
      obtain ⟨hm, hv, hdirect⟩ := ih
      refine ⟨hlink.linked.known hd, ?_⟩
      by_cases hc : c = d.myself
      · rw [hc]
        exact ⟨htraced.visited_myself, hmyself⟩
      · obtain ⟨⟨i, hi, rfl, hdi⟩, hback⟩ := hlink
        rcases (Spreading.rounds hd k).spread m hm hv hdirect with hmem | hspread
        · rw [hk] at hmem
          exact absurd hmem List.not_mem_nil
        · obtain ⟨hvc, hsettled⟩ := hspread i hi ⟨hi, (hd.reverse m i hi).mpr hback, hc⟩ hdi
          exact ⟨hvc, hsettled.resolve_right (hno _)⟩

/-- **The INDIRECT flag and `via` are exact if and only if no node is left demoted**: whenever an
indirect way took the place of a direct one, a direct way must be met again. -/
theorem indirect_exact_iff (d : Daemon) (hd : Enclosed d) (k : ℕ) (hk : (bfsRounds d k).1 = [])
    (hf : k < d.config.rounds) :
    ExactFlags d (ssspBfs d d.node) ↔ ∀ x, ¬ LeftDemoted d (bfsExams d k) x := by
  obtain ⟨hdirect, hmisled, -⟩ := Spreading.rounds hd k
  rw [ssspBfs_eq (Traced.bfsEnds hd hk) hk hf]
  constructor
  · intro hexact x hleft
    obtain ⟨hx, hv, hindirect, hway⟩ := hmisled x hleft
    rw [((hexact x hx hv).1.mpr hway)] at hindirect
    cases hindirect
  · intro hno n hn hv
    refine ⟨⟨hdirect.sound n hn hv, fun h => (direct_of_path hd hk hno h).2.2⟩,
      hdirect.self n hn hv, fun hi => ?_⟩
    obtain ⟨v, hvk, hvia, hway, hrest⟩ := hdirect.via n hn hv hi
    exact ⟨v, hvk, hvia, (direct_of_path hd hk hno hway).2.2, linked_of_direct hway, hrest⟩

/-- Without lighter detours no node is demoted at all. -/
lemma NoLighterDetour.not_demoted (hc : NoLighterDetour d) (hw : WellFormed d) (k : ℕ) :
    ¬ LeftDemoted d (bfsExams d k) x := by
  have hnone : Honest d (bfsRounds d k) ∧ ∀ e ∈ bfsExams d k, ¬ Demotes d e := by
    refine rounds_invariant (I := fun T s => Honest d s ∧ ∀ e ∈ T, ¬ Demotes d e)
      (J := fun n _ T s => (n ∈ d.nodeTree ∧ (s.2 n).visited = true) ∧ Honest d s ∧
        ∀ e ∈ T, ¬ Demotes d e) ?_ ?_ ?_ ?_ ?_ k
    · exact ⟨Honest.init hw, by simp⟩
    · rintro _ n todo node - ⟨h, hT⟩
      exact ⟨h.listed n List.mem_cons_self, ⟨h.myself, h.walked,
        fun m hm => h.listed m (List.mem_cons_of_mem n hm), h.bounded⟩, hT⟩
    · rintro n front i T list node - hpass ⟨hn, h, hT⟩
      refine ⟨hn, h, fun e he hdemotes => ?_⟩
      rcases List.mem_append.mp he with he | he
      · exact hT e he hdemotes
      · obtain rfl := List.mem_singleton.mp he
        exact hdemotes.not_passed hpass
    · rintro n front i T list node node' hi ht ⟨⟨hn, hv⟩, h, hT⟩
      rw [← List.append_nil list] at h
      refine ⟨⟨hn, ht.visited_of hv⟩, ht.honest h hw hc hn hv hi, fun e he hdemotes => ?_⟩
      rcases List.mem_append.mp he with he | he
      · exact hT e he hdemotes
      · obtain rfl := List.mem_singleton.mp he
        obtain ⟨p, hp, hlighter⟩ := hdemotes.lighter
        have hle := h.le_detour hc hn hv ⟨hi, ht.reverse, ht.notMyself⟩ (hw.toNode n hn i hi).1
          hdemotes.visited hdemotes.direct hdemotes.indirect hdemotes.distance hp
        exact absurd hlighter (by simpa using hle)
    · exact fun n T list node h => h.2
  rintro ⟨A, e, B, hT, hdemotes, -⟩
  exact hnone.2 e (by rw [hT]; simp) hdemotes

/-- Edges between `a` and `b`, and between `b` and `c` -/
def allDirect : Daemon :=
  graphOf [0, 1, 2] [(0, 1, 5, false), (1, 0, 5, false), (1, 2, 1, false), (2, 1, 1, false)]

/-- Three nodes with direct edges between them: the flags are exact. -/
theorem indirect_exact_iff_direct :
    (∀ x, ¬ LeftDemoted allDirect (bfsExams allDirect 4) x) ∧
      ExactFlags allDirect (ssspBfs allDirect allDirect.node) := by
  have hd : Enclosed allDirect := graphOf_enclosed (by decide) (by decide) (by decide)
  have hw : WellFormed allDirect := by
    refine ⟨?_, ?_, ?_, ?_, ?_⟩ <;> decide +kernel
  have hno : ∀ x, ¬ LeftDemoted allDirect (bfsExams allDirect 4) x := fun x =>
    (noLighterDetour_of_direct hw (by decide +kernel)).not_demoted hw 4
  exact ⟨hno, (indirect_exact_iff allDirect hd 4 (by decide +kernel) (by decide)).mpr hno⟩

/-- `d` can be reached over `b` directly, and over `c` with an INDIRECT edge that is lighter. -/
def lighterDetour : Daemon :=
  graphOf [0, 1, 2, 3] [(0, 1, 1, false), (1, 0, 1, false), (0, 2, 1, false), (2, 0, 1, false),
    (1, 3, 10, false), (3, 1, 10, false), (2, 3, 5, true), (3, 2, 5, false)]

/-- `d` is marked as indirect, although `b` can reach it directly. -/
theorem indirect_not_exact :
    Enclosed lighterDetour ∧ (bfsRounds lighterDetour 5).1 = [] ∧
      ¬ ExactFlags lighterDetour (ssspBfs lighterDetour lighterDetour.node) := by
  have hd : Enclosed lighterDetour := graphOf_enclosed (by decide) (by decide) (by decide)
  refine ⟨hd, by decide +kernel, fun hexact => ?_⟩
  have hflag : (ssspBfs lighterDetour lighterDetour.node [100]).indirect = true := by
    decide +kernel
  have hab : DirectLink lighterDetour lighterDetour.myself [98] := by
    refine ⟨⟨0, ?_⟩, 1, ?_⟩ <;> decide
  have hbd : DirectLink lighterDetour [98] [100] := by
    refine ⟨⟨4, ?_⟩, 5, ?_⟩ <;> decide
  have hexact' := (hexact [100] (by decide) (by decide +kernel)).1
  rw [hexact'.mpr (.tail (.single hab) hbd)] at hflag
  cases hflag

/-! ## Layers -/

/-- Everything that is put on the list while `n` is examined is linked with it. -/
lemma linked_of_new (hd : Enclosed d) (edges : List EdgeId) (hsub : ∀ i ∈ edges, i ∈ d.edgeTree n)
    (t : (Name → Node) × List Name) :
    ∀ m ∈ (edges.foldl (examineEdge d n) t).2, m ∈ t.2 ∨ BothWays d n m := by
  induction edges generalizing t with
  | nil => exact fun m hm => .inl hm
  | cons i edges ih =>
      intro m hm
      rw [List.foldl_cons] at hm
      rcases ih (fun j hj => hsub j (List.mem_cons_of_mem i hj)) _ m hm with hnew | hlink
      · obtain ⟨node, new⟩ := t
        rcases examineEdge_relaxes (d := d) n node new i with ⟨he, -⟩ | ⟨node', he, ht⟩
        · rw [he] at hnew
          exact .inl hnew
        · rw [he] at hnew
          rcases List.mem_append.mp hnew with hold | hnew
          · exact .inl hold
          · obtain rfl := List.mem_singleton.mp hnew
            exact .inr (linked_of_reverse hd (hsub i List.mem_cons_self) ht.reverse)
      · exact .inr hlink

/-- The nodes that were visited. -/
def visitedNodes (d : Daemon) (node : Name → Node) : Set Name :=
  {m | m ∈ d.nodeTree ∧ (node m).visited = true}

/-- The search goes through the layers one after the other. -/
def InLayers (d : Daemon) (s : Search) : Prop :=
  ∃ E L A B, s.1 = A ++ B ∧ Layered (BothWays d) d.myself E (visitedNodes d s.2) L A B

lemma visitedNodes_start (hd : Enclosed d) :
    visitedNodes d (bfsStart d d.node) = {d.myself} := by
  ext m
  constructor
  · rintro ⟨hm, hv⟩
    by_contra hne
    rw [bfsStart_of_ne hm hne] at hv
    cases hv
  · rintro rfl
    exact ⟨hd.myself, (bfsStart_myself d).1⟩

/-- The node that is examined next is taken to be in the layer at hand. -/
lemma InLayers.head {todo : List Name} (h : InLayers d (n :: todo, node)) :
    ∃ E L A B, todo = A ++ B ∧
      Layered (BothWays d) d.myself E (visitedNodes d node) L (n :: A) B := by
  obtain ⟨E, L, A, B, hlist, hlayers⟩ := h
  cases A with
  | nil =>
      obtain rfl : B = n :: todo := hlist.symm
      exact ⟨E, L + 1, todo, [], by simp, hlayers.advance⟩
  | cons m A =>
      obtain ⟨rfl, htodo⟩ := List.cons.inj hlist
      exact ⟨E, L, A, B, htodo, hlayers⟩

/-- **Nodes are visited for the first time in the order of their distance.** -/
lemma layered_rounds (hd : Enclosed d) (k : ℕ) : InLayers d (bfsRounds d k) := by
  induction k with
  | zero =>
      refine ⟨∅, 0, [d.myself], [], rfl, ?_⟩
      change Layered (BothWays d) d.myself ∅ (visitedNodes d (bfsStart d d.node)) 0 [d.myself] []
      rw [visitedNodes_start hd]
      exact .start d.myself
  | succ k ih =>
      have hlisted := (Traced.rounds hd (k + 1)).listed
      have hmyself := (Traced.rounds hd (k + 1)).visited_myself
      rw [bfsRounds_succ] at hlisted hmyself ⊢
      generalize bfsRounds d k = s at ih hlisted hmyself
      obtain ⟨list, node⟩ := s
      cases list with
      | nil => exact ih
      | cons n todo =>
          obtain ⟨E, L, A, B, rfl, hlayers⟩ := ih.head
          have hexamined := examined_foldl (d := d) n (d.edgeTree n) (node, [])
          have hlinked := linked_of_new hd (d.edgeTree n) (fun _ hi => hi) (node, [])
          refine ⟨insert n E, L, A, _, List.append_assoc _ _ _, hlayers.examine ?_ ?_ ?_ ?_⟩
          · exact fun m hm => ⟨hm.1, hexamined.kept m hm.2⟩
          · rintro m ⟨hm, hv⟩
            rcases hexamined.fresh m hv with hold | hnew
            · exact .inl ⟨hm, hold⟩
            · exact .inr ⟨(hlinked m hnew).resolve_left List.not_mem_nil, hnew⟩
          · exact fun m hm => hlisted m (List.mem_append_right _ hm)
          · intro m hlink
            refine ⟨hlink.known hd, ?_⟩
            by_cases hm : m = d.myself
            · rw [hm]
              exact hmyself
            · obtain ⟨i, hu, rfl⟩ := hlink.usable hd hm
              exact hexamined.targets i hu.mem hu

/-! ## Next hops -/

/-- `h` is a neighbour of `myself`, and one step nearer to `n`. -/
def ShortHop (d : Daemon) (h n : Name) : Prop :=
  BothWays d d.myself h ∧ ∃ k, Least (BothWays d) d.myself (k + 1) n ∧ Least (BothWays d) h k n

/-- The next hops of all visited nodes are on shortest paths, and a neighbour is its own. -/
def ShortHops (d : Daemon) (node : Name → Node) : Prop :=
  ∀ n ∈ d.nodeTree, (node n).visited = true → n ≠ d.myself →
    (∃ h, (node n).nexthop = some h ∧ ShortHop d h n) ∧
    (BothWays d d.myself n → (node n).nexthop = some n)

/-- A node that was visited before is given another next hop. -/
structure Rehops (d : Daemon) (e : Exam) : Prop where
  reverse : (d.edge e.i).reverse ≠ none
  notMyself : (d.edge e.i).toNode ≠ d.myself
  better : noBetter d e.node e.n (d.edge e.i) = false
  visited : (e.node (d.edge e.i).toNode).visited = true
  distance : (e.node (d.edge e.i).toNode).distance = (e.node e.n).distance + 1
  weight : (e.node (d.edge e.i).toNode).prevedge.all
    (fun p => (d.edge p).weight ≤ (d.edge e.i).weight) = true

/-- The edge is the last one of a shortest path. -/
def LastStep (d : Daemon) (n m : Name) : Prop :=
  ∃ k, Least (BothWays d) d.myself k n ∧ Least (BothWays d) d.myself (k + 1) m

/-- The next hop to a node on a shortest path is the next hop to the nodes behind it. -/
lemma ShortHop.step {h : Name} (hshort : ShortHop d h n) (hlink : BothWays d n m)
    (hlast : LastStep d n m) : ShortHop d h m := by
  obtain ⟨hh, k, hn, hhn⟩ := hshort
  obtain ⟨k', hn', hm⟩ := hlast
  obtain rfl : k' = k + 1 := hn'.unique hn
  refine ⟨hh, k + 1, hm, hhn.path.tail hlink, fun j hj => ?_⟩
  have hle := hm.le _ (hj.head hh)
  omega

lemma ShortHop.ne_myself {h : Name} (hshort : ShortHop d h n) : h ≠ d.myself := by
  rintro rfl
  obtain ⟨-, k, hn, hhn⟩ := hshort
  have := hn.unique hhn
  omega

/-- A neighbour is its own next hop. -/
lemma ShortHop.eq_of_linked {h : Name} (hshort : ShortHop d h n) (hlink : BothWays d d.myself n) :
    h = n := by
  obtain ⟨-, k, hn, hhn⟩ := hshort
  have hle := hn.le 1 (.single hlink)
  obtain rfl : k = 0 := by omega
  exact hhn.eq_of_zero.symm

lemma shortHop_self (hlink : BothWays d d.myself n) (hn : n ≠ d.myself) : ShortHop d n n := by
  refine ⟨hlink, 0, ⟨.single hlink, fun j hj => ?_⟩, .zero⟩
  cases hj with
  | nil => exact absurd rfl hn
  | tail => omega

/-- While the edges of `n` are examined: what is seen for the first time is one step further, and
the next hops are on shortest paths as long as other ones were given only at the end of such. -/
structure Hopping (d : Daemon) (n : Name) (T : List Exam) (s : Search) : Prop where
  known : n ∈ d.nodeTree
  visited : (s.2 n).visited = true
  myself : s.2 d.myself = bfsStart d d.node d.myself
  fresh : ∀ m, BothWays d n m → (s.2 m).visited = false → LastStep d n m
  hops : (∀ e ∈ T, Rehops d e → LastStep d e.n (d.edge e.i).toNode) →
    ∀ m ∈ d.nodeTree, (s.2 m).visited = true → m ≠ d.myself →
      ∃ h, (s.2 m).nexthop = some h ∧ ShortHop d h m

/-- The next hop that is handed on. -/
lemma Hopping.hand_on (h : Hopping d n T (list, node))
    (hT : ∀ e ∈ T, Rehops d e → LastStep d e.n (d.edge e.i).toNode) (hlink : BothWays d n m)
    (hlast : LastStep d n m) (hm : m ≠ d.myself) :
    ∃ h, (if (node n).nexthop = some d.myself then some m else (node n).nexthop) = some h ∧
      ShortHop d h m := by
  by_cases hn : n = d.myself
  · subst hn
    have hself : (node d.myself).nexthop = some d.myself := by
      rw [show node d.myself = _ from h.myself]
      simp [bfsStart]
    rw [if_pos hself]
    exact ⟨m, rfl, shortHop_self hlink hm⟩
  · obtain ⟨hop, hnext, hshort⟩ := h.hops hT n h.known h.visited hn
    dsimp only at hnext
    rw [hnext, if_neg fun he => hshort.ne_myself (Option.some_inj.mp he)]
    exact ⟨hop, rfl, hshort.step hlink hlast⟩

lemma Hopping.skip (h : Hopping d n T (list, node)) : Hopping d n (T ++ [e]) (list, node) :=
  ⟨h.known, h.visited, h.myself, h.fresh, fun hT =>
    h.hops fun y hy => hT y (List.mem_append_left _ hy)⟩

lemma Hopping.take {list' : List Name} (h : Hopping d n T (list, node)) (hd : Enclosed d)
    (hi : i ∈ d.edgeTree n) (ht : Relaxes d node n i node') :
    Hopping d n (T ++ [⟨node, n, i⟩]) (list', node') := by
  have hlink := linked_of_reverse hd hi ht.reverse
  refine ⟨h.known, ht.visited_of h.visited, ?_, fun m hm hv => h.fresh m hm ?_,
    fun hT m hm hv hne => ?_⟩
  · exact (ht.others d.myself ht.notMyself.symm).trans h.myself
  · by_contra hold
    rw [Bool.not_eq_false] at hold
    rw [ht.visited_of hold] at hv
    cases hv
  · have hT' : ∀ e ∈ T, Rehops d e → LastStep d e.n (d.edge e.i).toNode := fun y hy =>
      hT y (List.mem_append_left _ hy)
    dsimp only at hv ⊢
    by_cases hto : m = (d.edge i).toNode
    · subst hto
      rw [ht.hopOf]
      cases hold : (node (d.edge i).toNode).visited with
      | false =>
          rw [if_pos (.inl rfl)]
          exact h.hand_on hT' hlink (h.fresh _ hlink hold) hne
      | true =>
          split
          next hcond =>
            obtain ⟨hdistance, hweight⟩ := hcond.resolve_left (by simp)
            have hlast := hT ⟨node, n, i⟩ (by simp)
              ⟨ht.reverse, ht.notMyself, ht.better, hold, hdistance, hweight⟩
            exact h.hand_on hT' hlink hlast hne
          next => exact h.hops hT' _ hm hold hne
    · rw [ht.others m hto] at hv ⊢
      exact h.hops hT' m hm hv hne

lemma hops_rounds (hd : Enclosed d) (k : ℕ)
    (hT : ∀ e ∈ bfsExams d k, Rehops d e → LastStep d e.n (d.edge e.i).toNode) (hn : n ∈ d.nodeTree)
    (hv : ((bfsRounds d k).2 n).visited = true) (hne : n ≠ d.myself) :
    ∃ h, ((bfsRounds d k).2 n).nexthop = some h ∧ ShortHop d h n := by
  refine rounds_invariant
    (I := fun T s => (∀ e ∈ T, Rehops d e → LastStep d e.n (d.edge e.i).toNode) →
      ∀ m ∈ d.nodeTree, (s.2 m).visited = true → m ≠ d.myself →
        ∃ h, (s.2 m).nexthop = some h ∧ ShortHop d h m)
    (J := fun n _ T s => Hopping d n T s) ?_ ?_ ?_ ?_ ?_ k hT n hn hv hne
  · intro _ m hm hv hne
    dsimp only at hv
    rw [bfsStart_of_ne hm hne] at hv
    cases hv
  · intro k n todo node hs h
    have htraced := Traced.rounds hd k
    have hlayers := layered_rounds hd k
    rw [hs] at htraced hlayers
    obtain ⟨E, L, A, B, -, hlayered⟩ := hlayers.head
    obtain ⟨hn, hv⟩ := htraced.listed n List.mem_cons_self
    refine ⟨hn, hv, htraced.myself, fun m hm hvm => ⟨L, hlayered.unseen hm fun hmem => ?_⟩, h⟩
    dsimp only at hvm
    rw [hmem.2] at hvm
    cases hvm
  · exact fun n _ i T list node _ _ h => h.skip
  · exact fun n _ i T list node node' hi ht h => h.take hd hi ht
  · exact fun n T list node h => h.hops

/-- **Next hops are on shortest paths**, if a node that was visited before is given another next hop
only over the last edge of a shortest path. -/
theorem nexthops_shortest (d : Daemon) (hd : Enclosed d) (k : ℕ) (hk : (bfsRounds d k).1 = [])
    (hf : k < d.config.rounds)
    (hT : ∀ e ∈ bfsExams d k, Rehops d e → LastStep d e.n (d.edge e.i).toNode) :
    ShortHops d (ssspBfs d d.node) := by
  rw [ssspBfs_eq (Traced.bfsEnds hd hk) hk hf]
  intro n hn hv hne
  obtain ⟨h, hnext, hshort⟩ := hops_rounds hd k hT hn hv hne
  refine ⟨⟨h, hnext, hshort⟩, fun hlink => ?_⟩
  rw [hnext, hshort.eq_of_linked hlink]

/-- Three nodes with direct edges between them: no next hop is changed. -/
theorem nexthops_shortest_direct :
    (ssspBfs allDirect allDirect.node [99]).nexthop = some [98] ∧
      ShortHops allDirect (ssspBfs allDirect allDirect.node) := by
  have hd : Enclosed allDirect := graphOf_enclosed (by decide) (by decide) (by decide)
  have hvisited : (bfsExams allDirect 4).all (fun e =>
      !(e.node (allDirect.edge e.i).toNode).visited ||
        noBetter allDirect e.node e.n (allDirect.edge e.i)) = true := by decide +kernel
  refine ⟨by decide +kernel, nexthops_shortest allDirect hd 4 (by decide +kernel) (by decide) ?_⟩
  intro e he hrehops
  have h := List.all_eq_true.mp hvisited e he
  simp [hrehops.visited, hrehops.better] at h

/-- `e` is behind `c`, over an INDIRECT edge, and behind `d`; `c` can be reached directly over
`b`. -/
def longerDetour : Daemon :=
  graphOf [0, 1, 2, 3, 4] [(0, 1, 1, false), (1, 0, 1, false), (0, 2, 1, true), (2, 0, 1, true),
    (1, 2, 1, false), (2, 1, 1, false), (1, 3, 1, false), (3, 1, 1, false), (2, 4, 1, true),
    (4, 2, 1, true), (3, 4, 1, false), (4, 3, 1, false)]

/-- The next hop to `e` is `b`, from which it is two steps, like from `a`. -/
theorem nexthops_not_shortest :
    Enclosed longerDetour ∧ (bfsRounds longerDetour 9).1 = [] ∧
      ¬ ShortHops longerDetour (ssspBfs longerDetour longerDetour.node) := by
  have hd : Enclosed longerDetour := graphOf_enclosed (by decide) (by decide) (by decide)
  refine ⟨hd, by decide +kernel, fun hshort => ?_⟩
  have hb : (ssspBfs longerDetour longerDetour.node [101]).nexthop = some [98] := by decide +kernel
  obtain ⟨⟨h, hnext, -, k, ha, hh⟩, -⟩ := hshort [101] (by decide) (by decide +kernel) (by decide)
  obtain rfl : h = [98] := Option.some_inj.mp (hnext.symm.trans hb)
  have hac : BothWays longerDetour longerDetour.myself [99] := by
    refine ⟨⟨2, ?_⟩, 3, ?_⟩ <;> decide
  have hce : BothWays longerDetour [99] [101] := by
    refine ⟨⟨8, ?_⟩, 9, ?_⟩ <;> decide
  have hle := ha.le 2 ((Path.single hac).tail hce)
  have hbe : ¬ BothWays longerDetour [98] [101] := by
    rintro ⟨⟨i, hi, hto⟩, -⟩
    revert i
    decide
  -- `b` is neither `e` itself nor linked with it
  obtain rfl | rfl : k = 0 ∨ k = 1 := by omega
  · exact absurd hh.eq_of_zero (by decide)
  · obtain ⟨c, hlink, hc⟩ := hh.pred
    rw [hc.eq_of_zero] at hlink
    exact hbe hlink

end Tinc
