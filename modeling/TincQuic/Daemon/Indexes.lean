import TincQuic.Daemon.ConnIndex
import TincQuic.Lib.Run

/-!
# The indexes over whole runs

* `Indexed` is what one expects of the indexes of edges and connections.
* `Event.OnIndexes` are the events that touch them: connections come and go, and the requests ID,
  ACK, ADD_EDGE and DEL_EDGE are admitted.
* **The indexes are right in every state of a run in which nobody sends ACK twice**, as long as
  the weights can be compared: `indexes_consistent`.  A second ACK on an active connection is
  admitted, but the edge that `ack_h` makes for it does not get into the trees:
  `second_ack_loses_edge`.
-/

namespace Tinc

open Bytes CText Run

variable {d : Daemon}

/-- The indexes of edges and connections agree. -/
structure Indexed (d : Daemon) : Prop where
  /-- `edge_weight_tree` contains the edges of the `edge_tree`s, each once. -/
  weights : ∀ e, e ∈ d.edgeWeightTree ↔ ∃ n ∈ d.nodeTree, e ∈ d.edgeTree n
  weightsOnce : d.edgeWeightTree.Nodup
  treesOnce : ∀ n, (d.edgeTree n).Nodup
  filed : ∀ n, ∀ e ∈ d.edgeTree n, (d.edge e).fromNode = n
  /-- `e->reverse` is the edge from `e->to` to `e->from`, or NULL if there is none. -/
  reverse : ∀ e ∈ d.edgeWeightTree, ∀ r, (d.edge e).reverse = some r ↔
    r ∈ d.edgeWeightTree ∧ (d.edge r).fromNode = (d.edge e).toNode ∧
      (d.edge r).toNode = (d.edge e).fromNode
  symmetric : ∀ e ∈ d.edgeWeightTree, ∀ r, (d.edge e).reverse = some r →
    (d.edge r).reverse = some e
  /-- `c->edge` is in both trees, and belongs to `c`. -/
  connEdge : ∀ c ∈ d.connectionList, ∀ e, (d.conn c).edge = some e →
    e ∈ d.edgeTree (d.edge e).fromNode ∧ e ∈ d.edgeWeightTree ∧ (d.edge e).connection = some c
  node : ∀ c ∈ d.connectionList, ∀ n, d.nodeConnection n = some c ↔ (d.conn c).node = some n

lemma ConnIndex.indexed (h : ConnIndex d) : Indexed d where
  weights := by
    intro e
    rw [h.shelved.both]
    constructor
    · intro he
      refine ⟨_, ?_, he⟩
      by_contra hn
      rw [h.shelved.known _ hn] at he
      simp at he
    · rintro ⟨n, -, he⟩
      rwa [h.shelved.start n e he]
  weightsOnce := h.shelved.weightSorted.nodup
  treesOnce := fun n => (h.shelved.sorted n).nodup
  filed := h.shelved.start
  reverse := by
    intro e he r
    rw [h.reversed _ e ((h.shelved.both e).mp he), h.shelved.findEdge_eq_some, h.shelved.both]
    constructor
    · rintro ⟨hr, hto⟩
      have hfrom := h.shelved.start _ r hr
      exact ⟨by rwa [hfrom], hfrom, hto⟩
    · rintro ⟨hr, hfrom, hto⟩
      exact ⟨by rwa [hfrom] at hr, hto⟩
  symmetric := fun e he r => h.shelved.reverse_symm h.reversed ((h.shelved.both e).mp he)
  connEdge := by
    intro c hc e hce
    obtain ⟨hmem, hconn, -⟩ := h.connEdge c hc e hce
    have hfrom := h.shelved.start _ e hmem
    have htree : e ∈ d.edgeTree (d.edge e).fromNode := by rwa [hfrom]
    exact ⟨htree, (h.shelved.both e).mpr htree, hconn⟩
  node := h.node

/-! ## The events -/

/-- The events that touch the indexes.  A new connection is like `new_connection` makes it. -/
def Event.OnIndexes (d : Daemon) : Event → Prop
  | .connectionAdd c conn => c ∉ d.connectionList ∧ conn.node = none ∧ conn.edge = none ∧
      conn.allowRequest ≠ Request.ack.number ∧ conn.allowRequest ≠ allRequests
  | .receive c request => c ∈ d.connectionList ∧
      (d.gate c request = .admitted .id ∨ d.gate c request = .admitted .ack ∨
        d.gate c request = .admitted .addEdge ∨ d.gate c request = .admitted .delEdge)
  | .terminate c _ => c ∈ d.connectionList
  | _ => False

/-- No ACK comes on a connection that has an edge already, and every new weight can be compared
with the weights of the other edges. -/
def Event.Orderly (d : Daemon) : Event → Prop
  | .receive c request =>
      (d.gate c request = .admitted .ack → ∀ r ∈ parseAck request,
        (d.conn c).edge = none ∧ d.Fits d.myself (d.conn c).name (ackWeight (d.conn c) r)) ∧
      (d.gate c request = .admitted .addEdge → ∀ r ∈ parseAddEdge request,
        r.fromName ≠ d.myself → d.Fits r.fromName r.toName r.weight)
  | _ => True

/-- Every event keeps the invariant. -/
lemma ConnIndex.step (h : ConnIndex d) {e : Event} (he : e.OnIndexes d) (ho : e.Orderly d) :
    ConnIndex (d.step e) := by
  cases e with
  | connectionAdd c conn => exact h.connectionAdd he.1 he.2.1 he.2.2.1 he.2.2.2
  | receive c request =>
      obtain ⟨hc, hgate⟩ := he
      unfold Daemon.step Daemon.receive
      dsimp only
      rcases hgate with hg | hg | hg | hg <;> rw [hg]
      · exact h.idH hc request
      · by_cases hp : parseAck request = none
        · simpa [handler, Tinc.ackH, hp] using h
        · obtain ⟨r, hr⟩ := Option.ne_none_iff_exists'.mp hp
          refine h.ackH hc ?_ (ho.1 hg r hr).1 fun r hr => (ho.1 hg r hr).2
          rcases gate_admitted hg with ha | ha | ⟨-, ha⟩
          · exact .inr ha
          · exact .inl ha
          · cases ha
      · exact h.addEdgeH c request fun r hr => ho.2 hg r hr
      · exact h.delEdgeH c request
  | terminate c report => exact h.terminateConnection he report
  | subnetAdd => exact he.elim
  | subnetDel => exact he.elim
  | agePastRequests => exact he.elim
  | nodeDel => exact he.elim

lemma ConnIndex.init (config : Config) (rand : ℕ → ℕ) : ConnIndex (.init config rand) := by
  refine ⟨⟨.init config rand, ⟨?_, ?_, ?_, ?_, ?_, ?_, ?_⟩, ?_⟩, ?_, ?_, ?_, ?_, ?_, ?_⟩ <;>
    simp [Daemon.init, OrdList.Sorted, Reversed]

lemma ConnIndex.run {config : Config} {rand : ℕ → ℕ} {events : List Event}
    (he : Along Daemon.step Event.OnIndexes (.init config rand) events)
    (ho : Along Daemon.step Event.Orderly (.init config rand) events) :
    ConnIndex ((Daemon.init config rand).run events) :=
  Along.invariant (fun _ _ h ha => h.step ha.1 ha.2) (.init config rand) (he.and ho)

/-- For every sequence of events in which no ACK comes on a connection that has an edge, and in
which the weights can be compared, the indexes agree in the state that is reached. -/
theorem indexes_consistent (config : Config) (rand : ℕ → ℕ) (events : List Event)
    (he : Along Daemon.step Event.OnIndexes (.init config rand) events)
    (ho : Along Daemon.step Event.Orderly (.init config rand) events) :
    Indexed ((Daemon.init config rand).run events) :=
  (ConnIndex.run he ho).indexed

/-! ## Two runs -/

instance (fromNode toNode : Name) (weight : ℤ) : Decidable (d.Fits fromNode toNode weight) :=
  inferInstanceAs (Decidable (∀ i ∈ _, _ → _))

instance (e : Event) : Decidable (e.OnIndexes d) :=
  match e with
  | .connectionAdd _ _ => inferInstanceAs (Decidable (_ ∧ _))
  | .receive _ _ => inferInstanceAs (Decidable (_ ∧ _))
  | .terminate _ _ => inferInstanceAs (Decidable (_ ∈ _))
  | .subnetAdd _ _ => isFalse id
  | .subnetDel _ _ => isFalse id
  | .agePastRequests _ => isFalse id
  | .nodeDel _ => isFalse id

instance (e : Event) : Decidable (e.Orderly d) :=
  match e with
  | .receive _ _ => inferInstanceAs (Decidable (_ ∧ _))
  | .connectionAdd _ _ => isTrue trivial
  | .terminate _ _ => isTrue trivial
  | .subnetAdd _ _ => isTrue trivial
  | .subnetDel _ _ => isTrue trivial
  | .agePastRequests _ => isTrue trivial
  | .nodeDel _ => isTrue trivial

/-- Node `b` connects to `a`: it introduces itself, is activated, and announces an edge. -/
def peerJoins : List Event :=
  [.connectionAdd 0 { name := ascii "<unknown>" }, .receive 0 (ascii "0 b 17.7"),
    .receive 0 (ascii "4 655 10 c"), .receive 0 (ascii "12 1 b c unspec unspec c 7"),
    .receive 0 (ascii "12 2 b a unspec unspec c 10")]

theorem indexes_consistent_joined :
    ((Daemon.init (.plain (ascii "a")) id).run peerJoins).edgeWeightTree = [0, 1, 2] ∧
      Indexed ((Daemon.init (.plain (ascii "a")) id).run peerJoins) :=
  ⟨by decide +kernel, indexes_consistent _ _ peerJoins (by decide +kernel) (by decide +kernel)⟩

/-- The peer sends its ACK again. -/
def secondAck : List Event := peerJoins ++ [.receive 0 (ascii "4 655 10 c")]

/-- After the second ACK `c->edge` is an edge that is in no tree. -/
theorem second_ack_loses_edge : ¬ ∀ (config : Config) (rand : ℕ → ℕ) (events : List Event),
    Along Daemon.step Event.OnIndexes (.init config rand) events →
      Indexed ((Daemon.init config rand).run events) := by
  intro h
  have hd := h (.plain (ascii "a")) id secondAck (by decide +kernel)
  have hedge := hd.connEdge 0 (by decide +kernel) 3 (by decide +kernel)
  exact absurd hedge.2.1 (by decide +kernel)

end Tinc
