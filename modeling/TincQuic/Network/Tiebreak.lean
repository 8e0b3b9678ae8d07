import TincQuic.Daemon.Links
import TincQuic.Lib.Run

/-!
# Two daemons that connect to each other at the same time

Two daemons have two connections with each other, each opened by one of them.  On both connections
both ends are going to process an ACK, in any order, and the tie-breaker of `ack_h` is to leave them
with one connection, the same at both ends.

* `Pair` is the state of the two, and `Delivery` is what may happen next: an ACK is processed, or
  one end learns that the other has closed a connection.
* `Favours` is the invariant of one end: the connection that the daemon with the smaller name
  opened is not closed.
* **Both keep the connection that the daemon with the smaller name opened**, if the other one does
  not process the ACK of its own connection while it has that one already: `same_connection_kept`.
  If it does, each daemon may close the connection that the other one keeps:
  `both_connections_closed`.
-/

namespace Tinc

open Bytes CText Function Run

variable {d d' : Daemon}

/-! ## One end -/

/-- The view of a daemon that has the connections `k` and `o` with node `n`, of which `k` was
opened by the one with the smaller name.  It says what is left after the ACKs on `k` and on `o`
have been processed or not. -/
structure Favours (d : Daemon) (n : Name) (k o : ConnId) (kAcked oAcked : Bool) : Prop where
  sorted : OrdList.Sorted textKey d.nodeTree
  ne : k ≠ o
  listed : k ∈ d.connectionList
  name : (d.conn k).name = n
  known : d.nodeConnection n ≠ none → n ∈ d.nodeTree
  kept : kAcked = true → d.nodeConnection n = some k
  gone : kAcked = true → oAcked = true → o ∉ d.connectionList
  waiting : kAcked = false →
    d.nodeConnection n = if oAcked = true ∧ o ∈ d.connectionList then some o else none
  other : o ∈ d.connectionList → (d.conn o).name = n ∧
    (oAcked = true → (d.conn o).node = some n) ∧
    ((d.conn k).outgoing ≠ none ↔ ¬ strcmp n d.myself < 0) ∧
    ((d.conn o).outgoing = none ↔ ¬ strcmp n d.myself < 0)

namespace Favours

variable {n : Name} {k o : ConnId} {kAcked oAcked : Bool}

/-- The other connection is closed, and then nothing depends on its ACK any more. -/
lemma close (h : Favours d n k o kAcked oAcked) (report : Bool) (ho : o ∈ d.connectionList)
    (acked : Bool) : Favours (d.terminateConnection o report) n k o kAcked acked := by
  have hc := Closes.terminateConnection d o report
  have hmem : ∀ i, i ∈ (d.terminateConnection o report).connectionList ↔
      i ∈ d.connectionList ∧ i ≠ o := by
    intro i
    rw [hc.list]
    simp
  have hnot : o ∉ (d.terminateConnection o report).connectionList := by simp [hmem]
  refine ⟨by rw [hc.nodes]; exact h.sorted, h.ne, (hmem k).mpr ⟨h.listed, h.ne⟩,
    by rw [hc.conn k h.ne]; exact h.name, ?_, fun hk => ?_, fun _ _ => hnot, fun hk => ?_,
    fun ho' => absurd ho' hnot⟩
  · rw [hc.nodes, hc.nodeConnection]
    intro hn
    refine h.known fun hnone => hn ?_
    simp [hnone]
  · rw [hc.nodeConnection, if_neg, h.kept hk]
    rintro ⟨-, heq⟩
    rw [h.kept hk] at heq
    exact h.ne (Option.some.inj heq)
  · rw [if_neg (fun h => hnot h.2), hc.nodeConnection, h.waiting hk]
    by_cases hoa : oAcked = true
    · simp [hoa, ho, (h.other ho).2.1 hoa]
    · simp [hoa]

lemma ensureNode (h : Favours d n k o kAcked oAcked) :
    Favours (d.ensureNode n) n k o kAcked oAcked ∧ n ∈ (d.ensureNode n).nodeTree ∧
      (d.ensureNode n).connectionList = d.connectionList ∧
      (d.ensureNode n).config = d.config := by
  obtain ⟨_, _, _, _, nc, heq, hmem, hsorted, hnc⟩ := ensureNode_links h.sorted h.known
  rw [heq]
  refine ⟨⟨hsorted, h.ne, h.listed, h.name, fun _ => hmem, fun hk => ?_, h.gone, fun hk => ?_,
    h.other⟩, hmem, rfl, rfl⟩
  · exact hnc.trans (h.kept hk)
  · exact hnc.trans (h.waiting hk)

/-- The ACK on the favoured connection is processed. -/
lemma ackKept (h : Favours d n k o false oAcked) {request : Text}
    (hr : parseAck request ≠ none) : Favours (ackH d k request).1 n k o true oAcked := by
  obtain ⟨r, hr⟩ := Option.ne_none_iff_exists'.mp hr
  unfold ackH
  rw [hr]
  dsimp only
  rw [h.name]
  obtain ⟨h, hmem, -⟩ := h.ensureNode
  generalize d.ensureNode n = d at h hmem ⊢
  split
  · -- the first connection with this node
    rename_i hfree
    have hb := Binds.activate d k n r
    have hgone : oAcked = true → o ∉ d.connectionList := by
      intro hoa ho
      rw [h.waiting rfl, if_pos ⟨hoa, ho⟩] at hfree
      cases hfree
    refine ⟨by rw [hb.nodes]; exact h.sorted, h.ne, by rw [hb.list]; exact h.listed,
      hb.name.trans h.name, fun _ => by rwa [hb.nodes], fun _ => ?_, fun _ hoa => ?_,
      fun h => absurd h.symm Bool.false_ne_true, fun ho => ?_⟩
    · rw [hb.nodeConnection, update_self]
    · rw [hb.list]
      exact hgone hoa
    · rw [hb.list] at ho
      rw [hb.conn o h.ne.symm, hb.outgoing, Daemon.myself, hb.config]
      exact h.other ho
  · -- there is the other connection, which gives way
    rename_i old hold
    have hwait := h.waiting rfl
    rw [hold] at hwait
    split at hwait
    · rename_i hoa
      obtain rfl := Option.some.inj hwait
      obtain ⟨-, -, hkout, hoout⟩ := h.other hoa.2
      rw [if_neg h.ne.symm]
      have hdiff : (d.conn old).outgoing = none ↔ (d.conn k).outgoing ≠ none :=
        hoout.trans hkout.symm
      obtain ⟨conn, hbreak, hconn⟩ := tieBreak_replaces hdiff
        (by rw [h.name, hoout]; exact (em _).symm)
      rw [hbreak, if_pos rfl]
      have hc := Closes.terminateConnection { d with conn := conn } old false
      generalize ({ d with conn := conn }.terminateConnection old false) = d₁ at hc ⊢
      have hb := Binds.activate (graph d₁) k n r
      have hgone : old ∉ ((graph d₁).activate k n r).connectionList := by
        rw [hb.list]
        change old ∉ d₁.connectionList
        simp [hc.list]
      refine ⟨by rw [hb.nodes]; exact hc.nodes ▸ h.sorted, h.ne, ?_, ?_, fun _ => ?_, fun _ => ?_,
        fun _ _ => hgone, fun h => absurd h.symm Bool.false_ne_true,
        fun ho => absurd ho hgone⟩
      · rw [hb.list]
        change k ∈ d₁.connectionList
        rw [hc.list]
        exact List.mem_filter.mpr ⟨h.listed, by simpa using h.ne⟩
      · rw [hb.name]
        change (d₁.conn k).name = n
        rw [hc.conn k h.ne]
        exact (hconn k).2.trans h.name
      · rw [hb.nodes]
        exact hc.nodes ▸ hmem
      · rw [hb.nodeConnection, update_self]
    · cases hwait

/-- The ACK on the other connection is processed. -/
lemma ackOther (h : Favours d n k o kAcked false) {request : Text} (hr : parseAck request ≠ none)
    (ho : o ∈ d.connectionList)
    (hlate : strcmp n d.myself < 0 → d.nodeConnection n ≠ some k) :
    Favours (ackH d o request).1 n k o kAcked true := by
  obtain ⟨r, hr⟩ := Option.ne_none_iff_exists'.mp hr
  unfold ackH
  rw [hr]
  dsimp only
  rw [(h.other ho).1]
  have hsmall : kAcked = true → ¬ strcmp n d.myself < 0 := fun hk hlt => hlate hlt (h.kept hk)
  obtain ⟨h, hmem, hlist, hconf⟩ := h.ensureNode
  rw [Daemon.myself, ← hconf] at hsmall
  rw [← hlist] at ho
  generalize d.ensureNode n = d at h hmem ho hsmall ⊢
  obtain ⟨hname, -, hkout, hoout⟩ := h.other ho
  cases kAcked with
  | true =>
      -- the favoured connection is there, and we have the smaller name
      rw [h.kept rfl]
      dsimp only
      rw [if_neg h.ne, tieBreak_refuses (hkout.mpr (hsmall rfl)) (hoout.mpr (hsmall rfl))
        (by rw [hname]; exact hsmall rfl), if_neg Bool.false_ne_true]
      exact h.close false ho true
  | false =>
      rw [h.waiting rfl, if_neg (fun h => Bool.false_ne_true h.1)]
      dsimp only
      have hb := Binds.activate d o n r
      refine ⟨by rw [hb.nodes]; exact h.sorted, h.ne, by rw [hb.list]; exact h.listed,
        by rw [hb.conn k h.ne]; exact h.name, fun _ => by rwa [hb.nodes],
        fun h => absurd h Bool.false_ne_true, fun h => absurd h Bool.false_ne_true,
        fun _ => ?_, fun _ => ⟨hb.name.trans hname, fun _ => hb.node, ?_, ?_⟩⟩
      · rw [hb.nodeConnection, update_self, hb.list, if_pos ⟨rfl, ho⟩]
      · rw [hb.conn k h.ne, Daemon.myself, hb.config]
        exact hkout
      · rw [hb.outgoing, Daemon.myself, hb.config]
        exact hoout

end Favours

/-! ## Both ends -/

/-- Two daemons that have opened a connection to each other, and the ACKs they have processed.
The daemons are `false` and `true`, and a connection has the name of the daemon that opened it. -/
structure Pair where
  daemon : Bool → Daemon
  /-- at an end, the number of the connection that was opened by an end -/
  cid : Bool → Bool → ConnId
  /-- at an end, whether the ACK on that connection has been processed -/
  acked : Bool → Bool → Bool

namespace Pair

/-- The name of the other one. -/
def peer (p : Pair) (s : Bool) : Name := (p.daemon !s).myself

/-- At end `s`, the connection that `o` opened is open. -/
def Listed (p : Pair) (s o : Bool) : Prop := p.cid s o ∈ (p.daemon s).connectionList

/-- Both have authenticated both connections, and wait for the ACKs. -/
structure Opening (p : Pair) : Prop where
  names : (p.daemon true).myself ≠ (p.daemon false).myself
  sorted : ∀ s, OrdList.Sorted textKey (p.daemon s).nodeTree
  cid : ∀ s, p.cid s true ≠ p.cid s false
  listed : ∀ s o, p.Listed s o
  name : ∀ s o, ((p.daemon s).conn (p.cid s o)).name = p.peer s
  outgoing : ∀ s o, ((p.daemon s).conn (p.cid s o)).outgoing ≠ none ↔ o = s
  allow : ∀ s o, ((p.daemon s).conn (p.cid s o)).allowRequest = Request.ack.number
  free : ∀ s, (p.daemon s).nodeConnection (p.peer s) = none
  acked : ∀ s o, p.acked s o = false

end Pair

/-- What happens next at end `s` on the connection that `o` opened. -/
inductive Delivery where
  /-- The ACK of the other one arrives. -/
  | ack (s o : Bool) (request : Text)
  /-- The end of the connection is noticed, because the other one has closed it. -/
  | close (s o : Bool) (report : Bool)

/-- Something happens at end `s`. -/
def Pair.set (p : Pair) (s : Bool) (d : Daemon) (acked : Bool → Bool) : Pair :=
  { p with daemon := update p.daemon s d, acked := update p.acked s acked }

def Pair.step (p : Pair) : Delivery → Pair
  | .ack s o request =>
      p.set s ((p.daemon s).receive (p.cid s o) request).1 (update (p.acked s) o true)
  | .close s o report =>
      p.set s ((p.daemon s).terminateConnection (p.cid s o) report) (p.acked s)

/-- An ACK is processed once, on an open connection, and only what the other one closed is closed
for that reason. -/
def Delivery.Possible (p : Pair) : Delivery → Prop
  | .ack s o request => p.Listed s o ∧ p.acked s o = false ∧
      (p.daemon s).gate (p.cid s o) request = .admitted .ack ∧ parseAck request ≠ none
  | .close s o _ => p.Listed s o ∧ ¬ p.Listed (!s) o

/-- The daemon with the larger name does not process the ACK on the connection that it opened
itself while the other connection is active. -/
def Delivery.Timely (p : Pair) : Delivery → Prop
  | .ack s o _ => o = s → strcmp (p.peer s) (p.daemon s).myself < 0 →
      (p.daemon s).nodeConnection (p.peer s) ≠ some (p.cid s !s)
  | .close _ _ _ => True

/-- Nothing is left to happen. -/
def Pair.Settled (p : Pair) : Prop :=
  ∀ s o, p.Listed s o → p.acked s o = true ∧ p.Listed (!s) o

/-- No end has closed the connection that the other keeps, and in the end the same connection is
the only one at both ends. -/
structure Pair.Agrees (p : Pair) : Prop where
  common : ∃ o, ∀ s, p.Listed s o
  same : p.Settled → ∃ o, ∀ s, (p.daemon s).nodeConnection (p.peer s) = some (p.cid s o) ∧
    p.Listed s o ∧ ¬ p.Listed s !o

/-- Both ends favour the connection that `k` opened. -/
structure Pair.Favoured (p : Pair) (k : Bool) : Prop where
  smaller : ∀ s, ¬ strcmp (p.peer s) (p.daemon s).myself < 0 ↔ s = k
  favours : ∀ s, Favours (p.daemon s) (p.peer s) (p.cid s k) (p.cid s !k) (p.acked s k)
    (p.acked s !k)

namespace Pair

variable {p : Pair}

lemma Opening.favoured (h : p.Opening) : ∃ k, p.Favoured k := by
  have hkey : textKey (p.daemon true).myself ≠ textKey (p.daemon false).myself :=
    fun heq => h.names (textKey_inj.mp heq)
  -- the one with the smaller name
  have hk : ∃ k, ∀ s, ¬ strcmp (p.peer s) (p.daemon s).myself < 0 ↔ s = k := by
    simp only [strcmp_neg, Pair.peer, not_lt]
    rcases lt_or_gt_of_ne hkey with hlt | hlt
    · exact ⟨true, by simp [hlt.le, hlt]⟩
    · exact ⟨false, by simp [hlt.le, hlt]⟩
  obtain ⟨k, hk⟩ := hk
  refine ⟨k, hk, fun s => ⟨h.sorted s, ?_, h.listed s k, h.name s k, fun hn => absurd (h.free s) hn,
    fun ha => ?_, fun ha => ?_, fun _ => ?_, fun _ => ⟨h.name s _, fun ha => ?_, ?_, ?_⟩⟩⟩
  · cases k
    · exact (h.cid s).symm
    · exact h.cid s
  · rw [h.acked] at ha
    cases ha
  · rw [h.acked] at ha
    cases ha
  · rw [h.acked, h.free]
    simp
  · rw [h.acked] at ha
    cases ha
  · rw [h.outgoing, hk]
    exact eq_comm
  · rw [← not_iff_not, not_not, ← ne_eq, h.outgoing, ← not_iff_not, hk]
    cases s <;> cases k <;> simp

lemma set_peer {s : Bool} {d' : Daemon} {acked : Bool → Bool}
    (hconf : d'.config = (p.daemon s).config) (t : Bool) :
    ((p.set s d' acked).daemon t).myself = (p.daemon t).myself ∧
      (p.set s d' acked).peer t = p.peer t := by
  have hname : ∀ t, (update p.daemon s d' t).myself = (p.daemon t).myself := by
    intro t
    by_cases ht : t = s
    · subst ht
      rw [update_self, Daemon.myself, hconf]
    · rw [update_of_ne ht]
  exact ⟨hname t, hname !t⟩

/-- At one end a daemon with the same name takes over, which favours the same connection. -/
lemma Favoured.set {k : Bool} (h : p.Favoured k) (s : Bool) {d' : Daemon} {acked : Bool → Bool}
    (hconf : d'.config = (p.daemon s).config)
    (hf : Favours d' (p.peer s) (p.cid s k) (p.cid s !k) (acked k) (acked !k)) :
    (p.set s d' acked).Favoured k := by
  refine ⟨fun t => ?_, fun t => ?_⟩
  · rw [(set_peer hconf t).1, (set_peer hconf t).2]
    exact h.smaller t
  · rw [(set_peer hconf t).2]
    by_cases ht : t = s
    · subst ht
      simpa [Pair.set] using hf
    · simpa [Pair.set, ht] using h.favours t

lemma Favoured.step {k : Bool} (h : p.Favoured k) {e : Delivery} (he : e.Possible p)
    (ht : e.Timely p) : (p.step e).Favoured k := by
  have hother : ∀ {i : Bool}, i ≠ k → i = !k := by
    intro i
    cases i <;> cases k <;> simp
  cases e with
  | ack s o request =>
      obtain ⟨hlist, hacked, hgate, hparse⟩ := he
      have hrec : ((p.daemon s).receive (p.cid s o) request).1 =
          (ackH (p.daemon s) (p.cid s o) request).1 := by
        rw [Daemon.receive, hgate]
        rfl
      have hf := h.favours s
      refine h.set s (by rw [hrec, ackH_config]) ?_
      rw [hrec]
      by_cases hok : o = k
      · subst hok
        rw [hacked] at hf
        rw [update_self, update_of_ne (by simp)]
        exact hf.ackKept hparse
      · obtain rfl := hother hok
        rw [hacked] at hf
        rw [update_self, update_of_ne (by simp)]
        refine hf.ackOther hparse hlist fun hlt => ?_
        -- then our name is the larger one, and the connection is our own
        obtain rfl := hother fun heq => (h.smaller s).mpr heq hlt
        simpa using ht rfl hlt
  | close s o report =>
      obtain ⟨hlist, hclosed⟩ := he
      -- the favoured connection is closed at neither end
      have hok : o ≠ k := by
        rintro rfl
        exact hclosed (h.favours _).listed
      obtain rfl := hother hok
      exact h.set s (Closes.terminateConnection _ _ report).config
        ((h.favours s).close report hlist _)

lemma Favoured.agrees {k : Bool} (h : p.Favoured k) : p.Agrees where
  common := ⟨k, fun s => (h.favours s).listed⟩
  same := by
    intro hset
    refine ⟨k, fun s => ?_⟩
    have hacked := (hset s k (h.favours s).listed).1
    refine ⟨(h.favours s).kept hacked, (h.favours s).listed, fun hlist => ?_⟩
    exact (h.favours s).gone hacked (hset s _ hlist).1 hlist

end Pair

/-- Two daemons connect to each other at the same time.  For every order in which the ACKs are
processed and closed connections are noticed: if the daemon with the larger name does not process
the ACK on its own connection while the other one is active, no end closes the connection that the
other keeps, and once nothing is left to happen both have the same one. -/
theorem same_connection_kept (p : Pair) (h : p.Opening) (deliveries : List Delivery)
    (hp : Along Pair.step Delivery.Possible p deliveries)
    (ht : Along Pair.step Delivery.Timely p deliveries) :
    (deliveries.foldl Pair.step p).Agrees := by
  obtain ⟨k, hk⟩ := h.favoured
  have hrun : (deliveries.foldl Pair.step p).Favoured k :=
    Along.invariant (I := fun p => p.Favoured k) (fun _ _ hf ha => hf.step ha.1 ha.2) hk
      (hp.and ht)
  exact hrun.agrees

/-! ## Two runs -/

instance Pair.decidableListed (p : Pair) (s o : Bool) : Decidable (p.Listed s o) :=
  inferInstanceAs (Decidable (_ ∈ _))

instance Pair.decidableSettled (p : Pair) : Decidable p.Settled :=
  inferInstanceAs (Decidable (∀ _ _, _ → _))

instance Delivery.decidablePossible (p : Pair) (e : Delivery) : Decidable (e.Possible p) :=
  match e with
  | .ack _ _ _ => inferInstanceAs (Decidable (_ ∧ _))
  | .close _ _ _ => inferInstanceAs (Decidable (_ ∧ _))

instance Delivery.decidableTimely (p : Pair) (e : Delivery) : Decidable (e.Timely p) :=
  match e with
  | .ack _ _ _ => inferInstanceAs (Decidable (_ → _))
  | .close _ _ _ => isTrue trivial

/-- A connection between the daemons `a` and `b` that waits for its ACK. -/
def awaitingAck (peer : Name) (outgoing : Option ℕ) : Conn :=
  { name := peer, outgoing := outgoing, allowRequest := Request.ack.number }

/-- The daemons `a` and `b` have just opened a connection to each other. -/
def meeting : Pair where
  daemon
    | false => (Daemon.init (.plain (ascii "a")) id).run
        [.connectionAdd 0 (awaitingAck (ascii "b") (some 0)),
          .connectionAdd 1 (awaitingAck (ascii "b") none)]
    | true => (Daemon.init (.plain (ascii "b")) id).run
        [.connectionAdd 0 (awaitingAck (ascii "a") none),
          .connectionAdd 1 (awaitingAck (ascii "a") (some 0))]
  cid _ o := if o then 1 else 0
  acked _ _ := false

lemma meeting_opening : meeting.Opening where
  names := by decide
  sorted := by
    intro s
    cases s <;> exact List.pairwise_singleton _ _
  cid := by decide
  listed := by decide
  name := by decide
  outgoing := by decide
  allow := by decide
  free := by decide
  acked := by decide

/-- The daemon `b` is done with its own connection before it gets the ACK on the other one. -/
def timelyAcks : List Delivery :=
  [.ack true true (ascii "4 655 10 c"), .ack false false (ascii "4 655 10 c"),
    .ack true false (ascii "4 655 10 c"), .close false true false]

theorem same_connection_kept_meeting :
    (timelyAcks.foldl Pair.step meeting).Settled ∧
      (timelyAcks.foldl Pair.step meeting).Agrees :=
  ⟨by decide +kernel, same_connection_kept meeting meeting_opening timelyAcks (by decide +kernel)
    (by decide +kernel)⟩

/-- Both get the ACK on the connection of `a` first. -/
def crossingAcks : List Delivery :=
  [.ack false false (ascii "4 655 10 c"), .ack true false (ascii "4 655 10 c"),
    .ack false true (ascii "4 655 10 c"), .ack true true (ascii "4 655 10 c")]

/-- The daemon `a` closes the connection that `b` keeps, and `b` closes the one that `a` keeps. -/
theorem both_connections_closed : ¬ ∀ (p : Pair) (deliveries : List Delivery), p.Opening →
    Along Pair.step Delivery.Possible p deliveries → (deliveries.foldl Pair.step p).Agrees := by
  intro h
  obtain ⟨o, ho⟩ := (h meeting crossingAcks meeting_opening (by decide +kernel)).common
  have hclosed : ¬ (crossingAcks.foldl Pair.step meeting).Listed false true ∧
      ¬ (crossingAcks.foldl Pair.step meeting).Listed true false := by decide +kernel
  cases o with
  | false => exact hclosed.2 (ho true)
  | true => exact hclosed.1 (ho false)

end Tinc
