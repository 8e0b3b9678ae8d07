import TincQuic.Daemon.Links

/-!
# Who holds an outgoing connection

A connection that we opened points to the `outgoing_t` for which we opened it.  The handlers move
this pointer from one connection to another, or hand it to `do_outgoing_connection` when the
connection ends.

* `PointsTo` says that a connection in the list points to an `outgoing_t`.
* `Tidy` is what is required of the connections: no `outgoing_t` has two holders, and the connection
  that a node knows is in the list and knows the node.
* `Hands` says that **nothing is lost on the way**: what had a holder has one afterwards, apart from
  what is handed to `do_outgoing_connection`.
* The step that loses one is the ACK on an outgoing connection that replaces another one; `Gentle`
  excludes it.
-/

namespace Tinc

open Bytes CText Function

variable {d d' d'' : Daemon} {c : ConnId}

/-- Connection `c` is in the list and was opened for `o`. -/
def PointsTo (d : Daemon) (c : ConnId) (o : ℕ) : Prop :=
  c ∈ d.connectionList ∧ (d.conn c).outgoing = some o

/-- What is required of the connections. -/
structure Tidy (d : Daemon) : Prop where
  nodup : d.connectionList.Nodup
  once : ∀ {i j o}, PointsTo d i o → PointsTo d j o → i = j
  node : ∀ {n k}, d.nodeConnection n = some k → k ∈ d.connectionList ∧ (d.conn k).node = some n

/-- The holders in `d'` are those in `d`, or have taken over from them; `lost` was handed to
`do_outgoing_connection`. -/
structure Hands (d d' : Daemon) (lost : Option ℕ) : Prop where
  tidy : Tidy d'
  list : ∀ i ∈ d'.connectionList, i ∈ d.connectionList
  held : ∀ o, (∃ i, PointsTo d' i o) ↔ (∃ i, PointsTo d i o) ∧ lost ≠ some o
  was : ∀ o, lost = some o → ∃ i, PointsTo d i o
  retries : d'.retries = d.retries ++ lost.toList

namespace Hands

lemma trans {lost : Option ℕ} (h : Hands d d' none) (h' : Hands d' d'' lost) :
    Hands d d'' lost where
  tidy := h'.tidy
  list := fun i hi => h.list i (h'.list i hi)
  held := fun o => by rw [h'.held, h.held]; simp
  was := fun o ho => ((h.held o).mp (h'.was o ho)).1
  retries := by rw [h'.retries, h.retries]; simp

/-- The list and what the connections point to are the same. -/
lemma of_same (h : Tidy d) (hlist : d'.connectionList = d.connectionList)
    (hout : ∀ i, (d'.conn i).outgoing = (d.conn i).outgoing)
    (hnode : ∀ i, (d'.conn i).node = (d.conn i).node)
    (hconn : ∀ n k, d'.nodeConnection n = some k → d.nodeConnection n = some k)
    (hretries : d'.retries = d.retries) : Hands d d' none := by
  have hholds : ∀ i o, PointsTo d' i o ↔ PointsTo d i o := fun i o => by
    unfold PointsTo
    rw [hlist, hout]
  refine ⟨⟨hlist ▸ h.nodup, fun hi hj => h.once ((hholds _ _).mp hi) ((hholds _ _).mp hj), ?_⟩,
    fun i hi => hlist ▸ hi, fun o => by simp [hholds], by simp, by simp [hretries]⟩
  intro n k hk
  rw [hlist, hnode]
  exact h.node (hconn n k hk)

lemma of_table (h : Tidy d) (ht : SameTable d d') : Hands d d' none :=
  of_same h ht.list (fun i => by rw [ht.conn]) (fun i => by rw [ht.conn]) ht.nodeConnection
    ht.retries

lemma refl (h : Tidy d) : Hands d d none := of_table h (.refl d)

lemma graph (h : Tidy d) : Hands d (graph d) none := of_table h (.of_same (.graph d))

lemma idH (h : Tidy d) (c : ConnId) (request : Text) : Hands d (idH d c request).1 none := by
  obtain ⟨x, ⟨_, _, _, _, _, _, _, heq⟩, hout⟩ := idH_becomes d c request
  rw [heq]
  refine of_same h rfl (fun i => ?_) (fun i => ?_) (fun _ _ hk => hk) rfl
  · by_cases hi : i = c
    · subst hi
      simp [Daemon.setConn, hout.outgoing]
    · simp [Daemon.setConn, hi]
  · by_cases hi : i = c
    · subst hi
      simp [Daemon.setConn, hout.node]
    · simp [Daemon.setConn, hi]

end Hands

/-! ## The end of a connection -/

lemma removeEdge_outgoing (d : Daemon) (c : ConnId) (n : Name) (e : EdgeId) (report : Bool) :
    ((d.removeEdge c n e report).conn c).outgoing = (d.conn c).outgoing ∧
      (d.removeEdge c n e report).retries = d.retries := by
  obtain ⟨d', hs, heq⟩ := ConnIndex.removeEdge_eq d c n e report
  have hstart := SameTable.of_same hs
  have hdel : SameTable ((d'.edgeDel e).setConn c ({ · with edge := none }))
      (d.removeEdge c n e report) := by
    rw [heq]
    split
    · exact (SameTable.of_same (.graph _)).trans (.of_conns (.cleanUp _ n))
    · exact .of_same (.graph _)
  have hedge := SameTable.of_conns (.edgeDel d' e)
  constructor
  · rw [hdel.conn]
    simp [Daemon.setConn, hedge.conn, hstart.conn]
  · rw [hdel.retries]
    exact hedge.retries.trans hstart.retries

/-- What a connection was opened for is tried again when it ends. -/
lemma terminateConnection_retries (d : Daemon) (c : ConnId) (report : Bool) :
    (d.terminateConnection c report).retries = d.retries ++ (d.conn c).outgoing.toList := by
  have hdetach : ∀ n, (d.detach c n).retries = d.retries ∧ (d.detach c n).conn = d.conn := by
    intro n
    unfold Daemon.detach
    split <;> exact ⟨rfl, rfl⟩
  unfold Daemon.terminateConnection
  split
  · rfl
  · rename_i n _
    obtain ⟨hretries, hconn⟩ := hdetach n
    split
    · simp [Daemon.connectionDel, hretries, hconn]
    · rename_i e _
      obtain ⟨hout, hretries'⟩ := removeEdge_outgoing (d.detach c n) c n e report
      simp [Daemon.connectionDel, hretries', hout, hretries, hconn]

lemma Hands.terminateConnection (h : Tidy d) (hc : c ∈ d.connectionList) (report : Bool) :
    Hands d (d.terminateConnection c report) (d.conn c).outgoing := by
  have hclose := Closes.terminateConnection d c report
  have hmem : ∀ i, i ∈ (d.terminateConnection c report).connectionList ↔
      i ∈ d.connectionList ∧ i ≠ c := by
    intro i
    rw [hclose.list]
    simp
  have hholds : ∀ i o, PointsTo (d.terminateConnection c report) i o ↔ PointsTo d i o ∧ i ≠ c := by
    intro i o
    unfold PointsTo
    rw [hmem]
    constructor
    · rintro ⟨⟨hi, hne⟩, hout⟩
      exact ⟨⟨hi, hclose.conn i hne ▸ hout⟩, hne⟩
    · rintro ⟨⟨hi, hout⟩, hne⟩
      exact ⟨⟨hi, hne⟩, hclose.conn i hne ▸ hout⟩
  refine ⟨⟨?_, ?_, ?_⟩, fun i hi => ((hmem i).mp hi).1, fun o => ?_,
    fun o ho => ⟨c, hc, ho⟩, terminateConnection_retries d c report⟩
  · rw [hclose.list]
    exact h.nodup.filter _
  · intro i j o hi hj
    exact h.once ((hholds i o).mp hi).1 ((hholds j o).mp hj).1
  · intro n k hk
    rw [hclose.nodeConnection] at hk
    split at hk
    · cases hk
    · rename_i hgone
      obtain ⟨hlist, hnode⟩ := h.node hk
      have hne : k ≠ c := by
        rintro rfl
        exact hgone ⟨hnode, hk⟩
      exact ⟨(hmem k).mpr ⟨hlist, hne⟩, hclose.conn k hne ▸ hnode⟩
  · simp only [hholds]
    constructor
    · rintro ⟨i, hi, hne⟩
      exact ⟨⟨i, hi⟩, fun hlost => hne (h.once hi ⟨hc, hlost⟩)⟩
    · rintro ⟨⟨i, hi⟩, hlost⟩
      refine ⟨i, hi, ?_⟩
      rintro rfl
      exact hlost hi.2

/-! ## ACK -/

/-- A connection takes over from another one. -/
lemma Hands.moveOutgoing (h : Tidy d) {old : ConnId} (hc : c ∈ d.connectionList)
    (hold : old ∈ d.connectionList) (hne : old ≠ c) (hnone : (d.conn c).outgoing = none) :
    Hands d (d.moveOutgoing old c) none := by
  have hout : ∀ i, ((d.moveOutgoing old c).conn i).outgoing =
      if i = c then (d.conn old).outgoing else if i = old then none else (d.conn i).outgoing := by
    intro i
    by_cases hi : i = old
    · subst hi
      simp [Daemon.moveOutgoing, Daemon.setConn, hne]
    · by_cases hic : i = c
      · subst hic
        simp [Daemon.moveOutgoing, Daemon.setConn, hi]
      · simp [Daemon.moveOutgoing, Daemon.setConn, hi, hic]
  have hnode : ∀ i, ((d.moveOutgoing old c).conn i).node = (d.conn i).node := by
    intro i
    by_cases hi : i = old
    · subst hi
      simp [Daemon.moveOutgoing, Daemon.setConn, hne]
    · by_cases hic : i = c
      · subst hic
        simp [Daemon.moveOutgoing, Daemon.setConn, hi]
      · simp [Daemon.moveOutgoing, Daemon.setConn, hi, hic]
  -- `c` holds what `old` held, and the others what they held
  have hholds : ∀ i o, PointsTo (d.moveOutgoing old c) i o ↔
      (i = c ∧ PointsTo d old o) ∨ (i ≠ c ∧ i ≠ old ∧ PointsTo d i o) := by
    intro i o
    have hlist : (d.moveOutgoing old c).connectionList = d.connectionList := rfl
    unfold PointsTo
    rw [hout, hlist]
    by_cases hic : i = c
    · simp [hic, hc, hold]
    · by_cases hi : i = old
      · simp [hi, hne]
      · simp [hic, hi]
  refine ⟨⟨h.nodup, ?_, fun hk => ?_⟩, fun i hi => hi, fun o => ?_, by simp, by
    simp [Daemon.moveOutgoing, Daemon.setConn]⟩
  · intro i j o hi hj
    rw [hholds] at hi hj
    rcases hi with ⟨rfl, hi⟩ | ⟨hi, hi', hi''⟩
    · rcases hj with ⟨rfl, -⟩ | ⟨-, hj, hj'⟩
      · rfl
      · exact absurd (h.once hj' hi) hj
    · rcases hj with ⟨-, hj⟩ | ⟨-, -, hj⟩
      · exact absurd (h.once hi'' hj) hi'
      · exact h.once hi'' hj
  · rw [hnode]
    exact h.node hk
  · simp only [hholds]
    constructor
    · rintro ⟨i, ⟨-, hi⟩ | ⟨-, -, hi⟩⟩
      · exact ⟨⟨old, hi⟩, by simp⟩
      · exact ⟨⟨i, hi⟩, by simp⟩
    · rintro ⟨⟨i, hi⟩, -⟩
      by_cases hio : i = old
      · subst hio
        exact ⟨c, .inl ⟨rfl, hi⟩⟩
      · refine ⟨i, .inr ⟨?_, hio, hi⟩⟩
        rintro rfl
        rw [PointsTo, hnone] at hi
        cases hi.2

lemma activate_retries (d : Daemon) (c : ConnId) (n : Name) (r : AckRequest) :
    (d.activate c n r).retries = d.retries := by
  have hadd : ∀ d : Daemon, (d.addConnectionEdge c n r).retries = d.retries := by
    intro d
    have heq : d.addConnectionEdge c n r =
        (d.addNewEdge (d.connectionEdge c n r)).setConn c ({ · with edge := some d.newEdge }) :=
      ConnIndex.edgeAdd_setConn _ c _ _
    rw [heq]
    exact (SameTable.of_conns ((SameConns.allocEdge d (d.connectionEdge c n r)).trans
      (.edgeAdd _ d.newEdge))).retries
  unfold Daemon.activate
  rw [(SameTable.of_same (.graph _)).retries, (SameTable.of_same (.announceEdge _ c)).retries, hadd,
    (SameTable.of_same (.sendEverything _ c)).retries]
  rfl

/-- A connection is bound to a node; it was bound to none or to this one. -/
lemma Hands.activate (h : Tidy d) (hc : c ∈ d.connectionList) {n : Name}
    (hn : (d.conn c).node = none ∨ (d.conn c).node = some n) (r : AckRequest) :
    Hands d (d.activate c n r) none := by
  have hb := Binds.activate d c n r
  have hout : ∀ i, ((d.activate c n r).conn i).outgoing = (d.conn i).outgoing := by
    intro i
    by_cases hi : i = c
    · subst hi
      exact hb.outgoing
    · rw [hb.conn i hi]
  have hholds : ∀ i o, PointsTo (d.activate c n r) i o ↔ PointsTo d i o := fun i o => by
    unfold PointsTo
    rw [hb.list, hout]
  refine ⟨⟨hb.list ▸ h.nodup, fun hi hj => h.once ((hholds _ _).mp hi) ((hholds _ _).mp hj), ?_⟩,
    fun i hi => hb.list ▸ hi, fun o => by simp [hholds], by simp,
    by simp [activate_retries]⟩
  intro m k hk
  rw [hb.nodeConnection] at hk
  rw [hb.list]
  by_cases hm : m = n
  · subst hm
    rw [update_self] at hk
    obtain rfl := Option.some.inj hk
    exact ⟨hc, hb.node⟩
  · rw [update_of_ne hm] at hk
    obtain ⟨hlist, hnode⟩ := h.node hk
    have hne : k ≠ c := by
      rintro rfl
      rcases hn with hn | hn
      · rw [hn] at hnode
        cases hnode
      · exact hm (Option.some.inj (hnode.symm.trans hn))
    exact ⟨hlist, hb.conn k hne ▸ hnode⟩

/-- An ACK on connection `c` that does not drop what `c` was opened for: the connection is bound to
no node of another name, and if it was opened by us, it does not replace another connection. -/
structure Gentle (d : Daemon) (c : ConnId) : Prop where
  node : (d.conn c).node = none ∨ (d.conn c).node = some (d.conn c).name
  outgoing : ∀ old, d.nodeConnection (d.conn c).name = some old → old ≠ c →
    (d.conn c).outgoing ≠ none →
      (d.conn old).outgoing ≠ none ∧ ¬ strcmp (d.conn c).name d.myself < 0

/-- An old connection that is no longer needed gives way. -/
lemma Hands.giveWay {old : ConnId} {d₁ : Daemon} (h : Hands d d₁ none) (hold : old ∈ d₁.connectionList)
    (hout : (d₁.conn old).outgoing = none) (hc : c ∈ d₁.connectionList) (hne : old ≠ c) :
    Hands d (Tinc.graph (d₁.terminateConnection old false)) none ∧
      c ∈ (Tinc.graph (d₁.terminateConnection old false)).connectionList ∧
      ((Tinc.graph (d₁.terminateConnection old false)).conn c).node = (d₁.conn c).node := by
  have hclose := Closes.terminateConnection d₁ old false
  have hterminate := Hands.terminateConnection h.tidy hold false
  rw [hout] at hterminate
  have hgraph := SameTable.of_same (.graph (d₁.terminateConnection old false))
  refine ⟨(h.trans hterminate).trans (.graph hterminate.tidy), ?_, ?_⟩
  · rw [hgraph.list, hclose.list]
    exact List.mem_filter.mpr ⟨hc, by simpa using hne.symm⟩
  · rw [hgraph.conn, hclose.conn c hne.symm]

/-- The tie-breaker moves what the old connection was opened for to the new one, or tries again for
the new one. -/
lemma Hands.tieBreak (h : Tidy d) {old : ConnId} (hc : c ∈ d.connectionList)
    (hold : old ∈ d.connectionList) (hne : old ≠ c)
    (hgentle : (d.conn c).outgoing ≠ none →
      (d.conn old).outgoing ≠ none ∧ ¬ strcmp (d.conn c).name d.myself < 0) :
    Hands d (d.tieBreak c old).1 (if (d.tieBreak c old).2 then none else (d.conn c).outgoing) ∧
      ((d.tieBreak c old).2 = true → c ∈ (d.tieBreak c old).1.connectionList ∧
        ((d.tieBreak c old).1.conn c).node = (d.conn c).node) := by
  have hrefuse : Hands d (d.terminateConnection c false) (d.conn c).outgoing :=
    .terminateConnection h hc false
  have hmove : (d.conn c).outgoing = none → (d.moveOutgoing old c).connectionList =
      d.connectionList ∧ ((d.moveOutgoing old c).conn old).outgoing = none ∧
      ((d.moveOutgoing old c).conn c).node = (d.conn c).node := fun _ =>
    ⟨rfl, by simp [Daemon.moveOutgoing, Daemon.setConn],
      by simp [Daemon.moveOutgoing, Daemon.setConn, hne.symm]⟩
  unfold Daemon.tieBreak
  dsimp only
  by_cases hnew : (d.conn c).outgoing = none
  · have hmoved := Hands.moveOutgoing h hc hold hne hnew
    obtain ⟨hlist, hout, hnode⟩ := hmove hnew
    by_cases hincoming : (d.conn old).outgoing = none
    · by_cases hname : strcmp (d.conn c).name d.myself < 0
      · simp only [hnew, hincoming, hname, ne_eq, not_true_eq_false, and_self, if_true, if_false]
        exact ⟨((Hands.refl h).giveWay hold hincoming hc hne).1,
          fun _ => ((Hands.refl h).giveWay hold hincoming hc hne).2⟩
      · simp only [hnew, hincoming, hname, ne_eq, not_true_eq_false, and_self, if_false]
        rw [hnew] at hrefuse
        exact ⟨by simpa using hrefuse, by simp⟩
    · by_cases hname : strcmp (d.conn c).name d.myself < 0
      · simp only [hnew, hincoming, hname, ne_eq, not_true_eq_false, not_false_eq_true, and_self,
          and_false, false_and, or_self, if_true, if_false]
        obtain ⟨hhands, hmem, hnode'⟩ := hmoved.giveWay (hlist ▸ hold) hout (hlist ▸ hc) hne
        exact ⟨hhands, fun _ => ⟨hmem, hnode'.trans hnode⟩⟩
      · simp only [hnew, hincoming, hname, ne_eq, not_true_eq_false, not_false_eq_true, and_self,
          and_false, false_and, or_self, if_true, if_false]
        rw [hnew] at hrefuse
        exact ⟨by simpa using hrefuse, by simp⟩
  · -- an outgoing connection does not replace another one, it is refused
    obtain ⟨hincoming, hname⟩ := hgentle hnew
    simp only [hnew, hincoming, hname, ne_eq, not_false_eq_true, not_true_eq_false, and_self,
      true_or, if_true, if_false]
    exact ⟨by simpa using hrefuse, by simp⟩

/-- An ACK keeps every outgoing connection, except for one that is tried again. -/
lemma Hands.ackH (h : Tidy d) (hc : c ∈ d.connectionList) (hg : Gentle d c) (request : Text) :
    ∃ lost, Hands d (ackH d c request).1 lost := by
  unfold Tinc.ackH
  split
  · exact ⟨none, .refl h⟩
  · rename_i r _
    have ht := SameTable.ensureNode d (d.conn c).name
    have hnode := Hands.of_table h ht
    have hc' : c ∈ (d.ensureNode (d.conn c).name).connectionList := ht.list ▸ hc
    have hconn : (d.ensureNode (d.conn c).name).conn = d.conn := ht.conn
    dsimp only
    have hactivate := hnode.trans (Hands.activate hnode.tidy hc'
      (by rw [hconn]; exact hg.node) r)
    split
    · exact ⟨none, hactivate⟩
    · rename_i old hold
      split
      · exact ⟨none, hactivate⟩
      · rename_i hne
        have hgentle : ((d.ensureNode (d.conn c).name).conn c).outgoing ≠ none →
            ((d.ensureNode (d.conn c).name).conn old).outgoing ≠ none ∧
              ¬ strcmp ((d.ensureNode (d.conn c).name).conn c).name
                (d.ensureNode (d.conn c).name).myself < 0 := by
          rw [hconn, Daemon.myself, EdgeIndex.ensureNode_config]
          exact hg.outgoing old (ht.nodeConnection _ _ hold) hne
        obtain ⟨htie, hgoes⟩ := Hands.tieBreak hnode.tidy hc' (hnode.tidy.node hold).1 hne hgentle
        split
        · rename_i hresult
          obtain ⟨hmem, hnode'⟩ := hgoes hresult
          rw [if_pos hresult] at htie
          refine ⟨none, (hnode.trans htie).trans (.activate htie.tidy hmem ?_ r)⟩
          rw [hnode', hconn]
          exact hg.node
        · rename_i hresult
          rw [if_neg hresult] at htie
          exact ⟨_, hnode.trans htie⟩

/-- A request keeps every outgoing connection, if an ACK is gentle. -/
lemma Hands.receive (h : Tidy d) (hc : c ∈ d.connectionList) {request : Text}
    (hg : d.gate c request = .admitted .ack → parseAck request ≠ none → Gentle d c) :
    ∃ lost, Hands d (d.receive c request).1 lost := by
  unfold Daemon.receive
  cases hgate : d.gate c request with
  | skipped => exact ⟨none, .refl h⟩
  | refused => exact ⟨none, .refl h⟩
  | admitted r =>
      by_cases hack : r = .ack
      · subst hack
        by_cases hparse : parseAck request = none
        · refine ⟨none, ?_⟩
          simp only [handler, Tinc.ackH, hparse]
          exact .refl h
        · exact Hands.ackH h hc (hg hgate hparse) request
      · by_cases hid : r = .id
        · subst hid
          exact ⟨none, .idH h c request⟩
        · exact ⟨none, .of_table h (.handler d hid hack c request)⟩

end Tinc
