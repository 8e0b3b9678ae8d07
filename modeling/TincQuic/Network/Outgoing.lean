import TincQuic.Daemon.Holders
import TincQuic.Lib.Run

/-!
# Outgoing connections: `net_socket.c`

For each `ConnectTo` of the configuration there is an `outgoing_t` in `outgoing_list`.  As long as it
is there, a connection points to it, or its timer will start another attempt.

* `Dialer` is a daemon with its outgoing connections.
* `setupOutgoingConnection`, `doOutgoingConnection` and `tryOutgoingConnections` are the functions
  of that name.  How far an attempt gets is up to the network: `dial` lists the addresses that one
  call of `do_outgoing_connection` goes through, and whether a connection could be started.
* `Attached` is the property: **each `outgoing_t` is held by one connection or by its timer, never by
  both**, and no connection points to one that is not in the list.
* **It holds in every state of every run whose ACKs are gentle**: `outgoing_attached`.
-/

namespace Tinc

open Bytes CText Function Run

/-- `outgoing_t`, where `armed` says that its timer `ev` is set. -/
structure Outgoing where
  node : Name
  timeout : ℤ
  armed : Bool
  deriving DecidableEq, Repr

/-- A daemon with its outgoing connections. -/
structure Dialer where
  daemon : Daemon
  outgoingList : List ℕ
  outgoing : ℕ → Outgoing
  newOutgoing : ℕ
  newConn : ConnId
  maxtimeout : ℤ
  /-- the addresses that the calls of `do_outgoing_connection` go through, and how many calls were
  made -/
  dial : ℕ → List (SockAddr × Bool)
  dialed : ℕ

variable (s : Dialer)

/-- Changes the outgoing connection `o`. -/
def Dialer.setOutgoing (o : ℕ) (f : Outgoing → Outgoing) : Dialer :=
  { s with outgoing := update s.outgoing o (f (s.outgoing o)) }

/-- `connection_add` -/
def Dialer.connectionAdd (conn : Conn) : Dialer :=
  { s with
    daemon := s.daemon.step (.connectionAdd s.newConn conn)
    newConn := s.newConn + 1 }

/-- `retry_outgoing` -/
def Dialer.retryOutgoing (o : ℕ) : Dialer :=
  s.setOutgoing o fun outgoing =>
    { outgoing with timeout := min (outgoing.timeout + 5) s.maxtimeout, armed := true }

/-- The loop of `do_outgoing_connection`. -/
def Dialer.tryAddresses (o : ℕ) : List (SockAddr × Bool) → Dialer
  | [] => s.retryOutgoing o
  | (address, true) :: _ =>
      s.connectionAdd
        { name := (s.outgoing o).node, address := address, outgoing := some o }
  | (_, false) :: addresses => Dialer.tryAddresses o addresses

/-- `do_outgoing_connection` -/
def Dialer.doOutgoingConnection (o : ℕ) : Dialer :=
  { s with dialed := s.dialed + 1 }.tryAddresses o (s.dial s.dialed)

/-- `setup_outgoing_connection` -/
def Dialer.setupOutgoingConnection (o : ℕ) : Dialer :=
  let s := s.setOutgoing o ({ · with armed := false })
  match s.daemon.nodeConnection (s.outgoing o).node with
  | none => s.doOutgoingConnection o
  | some c =>
      if (s.daemon.conn c).outgoing = none then
        { s with daemon := s.daemon.setConn c ({ · with outgoing := some o }) }
      else { s with outgoingList := s.outgoingList.filter (· ≠ o) }

/-- What `terminate_connection` does at its end, for every connection that was ended. -/
def Dialer.redial : Dialer :=
  s.daemon.retries.foldl Dialer.doOutgoingConnection
    { s with daemon := { s.daemon with retries := [] } }

/-- `terminate_connection` -/
def Dialer.terminateConnection (c : ConnId) (report : Bool) : Dialer :=
  { s with daemon := s.daemon.terminateConnection c report }.redial

/-! ## `try_outgoing_connections` -/

/-- All outgoing connections are marked as deleted. -/
def Dialer.mark : Dialer :=
  s.outgoingList.foldl (fun s o => s.setOutgoing o ({ · with timeout := -1 })) s

/-- There is one outgoing connection for this `ConnectTo`. -/
def Dialer.ensureOutgoing (name : Name) : Dialer :=
  if ¬ checkId name ∨ name = s.daemon.myself then s
  else
    match s.outgoingList.find? (fun o => (s.outgoing o).node = name) with
    | some o => s.setOutgoing o ({ · with timeout := 0 })
    | none =>
        let o := s.newOutgoing
        Dialer.setupOutgoingConnection
          { s with
            daemon := s.daemon.ensureNode name
            outgoingList := s.outgoingList ++ [o]
            outgoing := update s.outgoing o ⟨name, 0, false⟩
            newOutgoing := o + 1 } o

/-- A connection for a deleted outgoing connection is terminated. -/
def Dialer.closeStale (c : ConnId) : Dialer :=
  match (s.daemon.conn c).outgoing with
  | none => s
  | some o =>
      if (s.outgoing o).timeout = -1 then
        let s := { s with daemon := s.daemon.setConn c ({ · with outgoing := none }) }
        s.terminateConnection c ((s.daemon.conn c).edge ≠ none)
      else s

/-- `try_outgoing_connections`, with the names of the `ConnectTo` variables. -/
def Dialer.tryOutgoingConnections (connectTo : List Name) : Dialer :=
  let s := connectTo.foldl Dialer.ensureOutgoing s.mark
  let s := s.daemon.connectionList.foldl Dialer.closeStale s
  { s with outgoingList := s.outgoingList.filter fun o => (s.outgoing o).timeout ≠ -1 }

/-! ## Runs -/

/-- What happens to a daemon with outgoing connections. -/
inductive Dialing where
  /-- A connection is accepted. -/
  | accept (conn : Conn)
  | receive (c : ConnId) (request : Text)
  | terminate (c : ConnId) (report : Bool)
  /-- the configuration is read, at the start or again -/
  | tryOutgoing (connectTo : List Name)
  /-- the timer of an outgoing connection expires -/
  | expire (o : ℕ)
  | retry

/-- One event. -/
def Dialer.happen : Dialing → Dialer
  | .accept conn => s.connectionAdd conn
  | .receive c request => { s with daemon := (s.daemon.receive c request).1 }.redial
  | .terminate c report => s.terminateConnection c report
  | .tryOutgoing connectTo => s.tryOutgoingConnections connectTo
  | .expire o => s.setupOutgoingConnection o
  | .retry => s.outgoingList.foldl (fun s o => s.setOutgoing o ({ · with timeout := 0 })) s

/-- What the event loop can do: requests come on connections that there are, and only timers that
are set expire. -/
def Dialing.Possible : Dialing → Prop
  | .accept conn => conn.outgoing = none
  | .receive c _ => c ∈ s.daemon.connectionList
  | .terminate c _ => c ∈ s.daemon.connectionList
  | .tryOutgoing _ => True
  | .expire o => o ∈ s.outgoingList ∧ (s.outgoing o).armed = true
  | .retry => True

instance Dialing.decidablePossible : ∀ e : Dialing, Decidable (e.Possible s)
  | .accept conn => inferInstanceAs (Decidable (conn.outgoing = none))
  | .receive c _ => inferInstanceAs (Decidable (c ∈ s.daemon.connectionList))
  | .terminate c _ => inferInstanceAs (Decidable (c ∈ s.daemon.connectionList))
  | .tryOutgoing _ => inferInstanceAs (Decidable True)
  | .expire o => inferInstanceAs (Decidable (o ∈ s.outgoingList ∧ (s.outgoing o).armed = true))
  | .retry => inferInstanceAs (Decidable True)

/-- An ACK does not drop what its connection was opened for. -/
def Dialing.Gentle : Dialing → Prop
  | .receive c request =>
      s.daemon.gate c request = .admitted .ack → parseAck request ≠ none → Tinc.Gentle s.daemon c
  | _ => True

/-- Before the configuration was read. -/
def Dialer.init (config : Config) (rand : ℕ → ℕ) (maxtimeout : ℤ)
    (dial : ℕ → List (SockAddr × Bool)) : Dialer where
  daemon := .init config rand
  outgoingList := []
  outgoing := fun _ => ⟨[], 0, false⟩
  newOutgoing := 0
  newConn := 0
  maxtimeout := maxtimeout
  dial := dial
  dialed := 0

/-- Every outgoing connection is held by one connection, or by its timer, and every connection that
we opened is for one of them. -/
structure Attached : Prop where
  held : ∀ o ∈ s.outgoingList, Xor
    (∃! c, c ∈ s.daemon.connectionList ∧ (s.daemon.conn c).outgoing = some o)
    ((s.outgoing o).armed = true)
  listed : ∀ c ∈ s.daemon.connectionList, ∀ o, (s.daemon.conn c).outgoing = some o →
    o ∈ s.outgoingList

variable {s} {loose : Set ℕ} {o : ℕ}

/-- The property, and what keeps it, with the exception of the outgoing connections in `loose`. -/
structure AttachedBut (loose : Set ℕ) (s : Dialer) : Prop where
  tidy : Tidy s.daemon
  retries : s.daemon.retries = []
  newConn : ∀ c ∈ s.daemon.connectionList, c < s.newConn
  newOutgoing : ∀ o ∈ s.outgoingList, o < s.newOutgoing
  listed : ∀ {c o}, PointsTo s.daemon c o → o ∈ s.outgoingList
  timer : ∀ o ∈ s.outgoingList, o ∉ loose →
    ((s.outgoing o).armed = true ↔ ∀ c, ¬ PointsTo s.daemon c o)

/-- Neither a connection nor the timer holds it. -/
structure Loose (s : Dialer) (o : ℕ) : Prop where
  armed : (s.outgoing o).armed = false
  held : ∀ c, ¬ PointsTo s.daemon c o

lemma AttachedBut.attached (h : AttachedBut ∅ s) : Attached s := by
  refine ⟨fun o ho => ?_, fun c hc o hout => h.listed ⟨hc, hout⟩⟩
  have htimer := h.timer o ho (Set.notMem_empty o)
  by_cases harmed : (s.outgoing o).armed = true
  · refine .inr ⟨harmed, ?_⟩
    rintro ⟨c, hc, -⟩
    exact htimer.mp harmed c hc
  · rw [htimer, not_forall_not] at harmed
    obtain ⟨c, hc⟩ := harmed
    refine .inl ⟨⟨c, hc, fun c' hc' => h.tidy.once hc' hc⟩, fun harmed => ?_⟩
    exact htimer.mp harmed c hc

lemma AttachedBut.mono {loose' : Set ℕ} (h : AttachedBut loose s) (hsub : loose ⊆ loose') :
    AttachedBut loose' s :=
  { h with timer := fun o ho hnot => h.timer o ho fun hmem => hnot (hsub hmem) }

/-- One outgoing connection changes. -/
lemma AttachedBut.setOutgoing {next : Set ℕ} (h : AttachedBut loose s) (f : Outgoing → Outgoing)
    (hsub : ∀ i ∈ loose, i ≠ o → i ∈ next)
    (ho : o ∈ s.outgoingList → o ∉ next →
      ((f (s.outgoing o)).armed = true ↔ ∀ c, ¬ PointsTo s.daemon c o)) :
    AttachedBut next (s.setOutgoing o f) := by
  refine { h with timer := fun i hi hnot => ?_ }
  by_cases hio : i = o
  · subst hio
    simpa [Dialer.setOutgoing] using ho hi hnot
  · have htimer := h.timer i hi fun hmem => hnot (hsub i hmem hio)
    simpa [Dialer.setOutgoing, hio] using htimer

lemma AttachedBut.setTimeout (h : AttachedBut ∅ s) (o : ℕ) (timeout : ℤ) :
    AttachedBut ∅ (s.setOutgoing o ({ · with timeout := timeout })) :=
  h.setOutgoing _ (fun _ hi => absurd hi (Set.notMem_empty _))
    fun ho => h.timer o ho

/-! ## Attempts -/

/-- The timer holds it again. -/
lemma AttachedBut.retryOutgoing (h : AttachedBut {o} s) (hl : Loose s o) :
    AttachedBut ∅ (s.retryOutgoing o) :=
  h.setOutgoing _ (fun _ hi hne => absurd hi hne) fun _ _ => by simpa using hl.held

/-- A new connection holds what it is opened for. -/
lemma AttachedBut.holds_connectionAdd (h : AttachedBut loose s) (conn : Conn) (c : ConnId)
    (i : ℕ) : PointsTo (s.connectionAdd conn).daemon c i ↔
      PointsTo s.daemon c i ∨ c = s.newConn ∧ conn.outgoing = some i := by
  have hnew : s.newConn ∉ s.daemon.connectionList := fun hmem => lt_irrefl _ (h.newConn _ hmem)
  unfold PointsTo
  by_cases hc : c = s.newConn
  · subst hc
    simp [Dialer.connectionAdd, Daemon.step, Daemon.setConn, hnew]
  · simp [Dialer.connectionAdd, Daemon.step, Daemon.setConn, hc]

/-- A connection is opened for one that nobody holds, or for none. -/
lemma AttachedBut.connectionAdd {conn : Conn} {next : Set ℕ} (h : AttachedBut loose s)
    (hout : ∀ i, conn.outgoing = some i → i ∈ s.outgoingList ∧ ∀ c, ¬ PointsTo s.daemon c i)
    (hnext : ∀ i ∈ s.outgoingList, i ∉ next →
      ((s.outgoing i).armed = true ↔ (∀ c, ¬ PointsTo s.daemon c i) ∧ conn.outgoing ≠ some i)) :
    AttachedBut next (s.connectionAdd conn) := by
  have hholds := h.holds_connectionAdd conn
  have hnew : s.newConn ∉ s.daemon.connectionList := fun hmem => lt_irrefl _ (h.newConn _ hmem)
  have hmem : ∀ c, c ∈ (s.connectionAdd conn).daemon.connectionList ↔
      c ∈ s.daemon.connectionList ∨ c = s.newConn := fun c => by
    simp [Dialer.connectionAdd, Daemon.step, Daemon.setConn]
  refine ⟨⟨?_, ?_, ?_⟩, h.retries, ?_, h.newOutgoing, ?_, ?_⟩
  · have hnodup : (s.daemon.connectionList ++ [s.newConn]).Nodup :=
      List.nodup_append.mpr ⟨h.tidy.nodup, List.nodup_singleton _, fun a ha b hb hab => by
        rw [List.mem_singleton] at hb
        exact hnew (hb ▸ hab ▸ ha)⟩
    exact hnodup
  · intro i j o hi hj
    rw [hholds] at hi hj
    rcases hi with hi | ⟨rfl, hi⟩
    · rcases hj with hj | ⟨-, hj⟩
      · exact h.tidy.once hi hj
      · exact absurd hi ((hout o hj).2 i)
    · rcases hj with hj | ⟨rfl, -⟩
      · exact absurd hj ((hout o hi).2 j)
      · rfl
  · intro n k hk
    obtain ⟨hlist, hk⟩ := h.tidy.node hk
    have hne : k ≠ s.newConn := by
      rintro rfl
      exact hnew hlist
    refine ⟨(hmem k).mpr (.inl hlist), ?_⟩
    simpa [Dialer.connectionAdd, Daemon.step, Daemon.setConn, hne] using hk
  · intro c hc
    rcases (hmem c).mp hc with hc | rfl
    · exact Nat.lt_succ_of_lt (h.newConn c hc)
    · exact Nat.lt_succ_self _
  · intro c i hi
    rcases (hholds c i).mp hi with hi | ⟨-, hi⟩
    · exact h.listed hi
    · exact (hout i hi).1
  · intro i hi hnot
    have harmed : ((s.connectionAdd conn).outgoing i).armed = (s.outgoing i).armed := rfl
    rw [harmed, hnext i hi hnot]
    simp only [hholds]
    constructor
    · rintro ⟨hno, hne⟩ c (hc | ⟨-, hc⟩)
      · exact hno c hc
      · exact hne hc
    · intro hno
      exact ⟨fun c hc => hno c (.inl hc), fun hout => hno _ (.inr ⟨rfl, hout⟩)⟩

lemma AttachedBut.tryAddresses (addresses : List (SockAddr × Bool)) (h : AttachedBut {o} s)
    (ho : o ∈ s.outgoingList) (hl : Loose s o) : AttachedBut ∅ (s.tryAddresses o addresses) := by
  induction addresses with
  | nil => exact h.retryOutgoing hl
  | cons a addresses ih =>
      obtain ⟨address, started⟩ := a
      cases started with
      | false => exact ih
      | true =>
          refine h.connectionAdd ?_ ?_
          · rintro i hi
            obtain rfl := Option.some.inj hi
            exact ⟨ho, hl.held⟩
          · intro i hi _
            by_cases hio : i = o
            · subst hio
              simp [hl.armed]
            · rw [h.timer i hi hio]
              simp [Ne.symm hio]

/-- **An attempt ends with a connection or with the timer.** -/
lemma AttachedBut.doOutgoingConnection (h : AttachedBut {o} s) (ho : o ∈ s.outgoingList)
    (hl : Loose s o) : AttachedBut ∅ (s.doOutgoingConnection o) :=
  AttachedBut.tryAddresses (s.dial s.dialed) { h with } ho ⟨hl.armed, hl.held⟩

/-- A connection that nobody opened for anything is adopted. -/
lemma AttachedBut.adopt (h : AttachedBut {o} s) (ho : o ∈ s.outgoingList) (hl : Loose s o)
    {c : ConnId} (hc : c ∈ s.daemon.connectionList) (hnone : (s.daemon.conn c).outgoing = none) :
    AttachedBut ∅ { s with daemon := s.daemon.setConn c ({ · with outgoing := some o }) } := by
  have hholds : ∀ k i, PointsTo (s.daemon.setConn c ({ · with outgoing := some o })) k i ↔
      PointsTo s.daemon k i ∨ k = c ∧ i = o := by
    intro k i
    unfold PointsTo
    by_cases hk : k = c
    · subst hk
      simp [Daemon.setConn, hc, hnone, eq_comm]
    · simp [Daemon.setConn, hk]
  refine { h with tidy := ⟨h.tidy.nodup, ?_, ?_⟩, listed := ?_, timer := ?_ }
  · intro i j p hi hj
    rw [hholds] at hi hj
    rcases hi with hi | ⟨rfl, rfl⟩
    · rcases hj with hj | ⟨-, rfl⟩
      · exact h.tidy.once hi hj
      · exact absurd hi (hl.held i)
    · rcases hj with hj | ⟨rfl, -⟩
      · exact absurd hj (hl.held j)
      · rfl
  · intro n k hk
    obtain ⟨hlist, hnode⟩ := h.tidy.node hk
    refine ⟨hlist, ?_⟩
    by_cases hkc : k = c
    · subst hkc
      simpa [Daemon.setConn] using hnode
    · simpa [Daemon.setConn, hkc] using hnode
  · intro k i hi
    rcases (hholds k i).mp hi with hi | ⟨-, rfl⟩
    · exact h.listed hi
    · exact ho
  · intro i hi _
    simp only [hholds]
    by_cases hio : i = o
    · subst hio
      exact iff_of_false (by simp [hl.armed]) fun hno => hno c (.inr ⟨rfl, rfl⟩)
    · rw [h.timer i hi hio]
      simp [hio]

/-- An outgoing connection is set up, whatever held it before was its timer. -/
lemma AttachedBut.setupOutgoingConnection (h : AttachedBut {o} s) (ho : o ∈ s.outgoingList)
    (hl : ∀ c, ¬ PointsTo s.daemon c o) : AttachedBut ∅ (s.setupOutgoingConnection o) := by
  have hd : AttachedBut {o} (s.setOutgoing o ({ · with armed := false })) :=
    h.setOutgoing _ (fun _ hi _ => hi) fun _ hnot => absurd rfl hnot
  have hloose : Loose (s.setOutgoing o ({ · with armed := false })) o :=
    ⟨by simp [Dialer.setOutgoing], hl⟩
  unfold Dialer.setupOutgoingConnection
  dsimp only
  split
  · exact hd.doOutgoingConnection ho hloose
  · rename_i c hc
    split
    · rename_i hnone
      exact hd.adopt ho hloose (hd.tidy.node hc).1 hnone
    · refine { hd with newOutgoing := ?_, listed := ?_, timer := ?_ }
      · exact fun i hi => hd.newOutgoing i (List.mem_filter.mp hi).1
      · intro k i hk
        refine List.mem_filter.mpr ⟨hd.listed hk, ?_⟩
        have hne : i ≠ o := by
          rintro rfl
          exact hloose.held k hk
        simpa using hne
      · intro i hi _
        obtain ⟨hi, hne⟩ := List.mem_filter.mp hi
        exact hd.timer i hi (by simpa using hne)

/-! ## What the daemon does -/

/-- The daemon hands over what its connections were opened for, or it becomes loose. -/
lemma AttachedBut.hands {d : Daemon} {lost : Option ℕ} (h : AttachedBut ∅ s)
    (hd : Hands s.daemon d lost) :
    AttachedBut {i | lost = some i} { s with daemon := { d with retries := [] } } ∧
      ∀ i, lost = some i → i ∈ s.outgoingList ∧
        Loose { s with daemon := { d with retries := [] } } i := by
  refine ⟨⟨{ hd.tidy with }, rfl, fun c hc => h.newConn c (hd.list c hc), h.newOutgoing, ?_, ?_⟩,
    fun i hi => ?_⟩
  · intro c i hi
    obtain ⟨k, hk⟩ := ((hd.held i).mp ⟨c, hi⟩).1
    exact h.listed hk
  · intro i hi hnot
    refine (h.timer i hi (Set.notMem_empty i)).trans ?_
    have hheld : (∃ k, PointsTo d k i) ↔ ∃ k, PointsTo s.daemon k i :=
      (hd.held i).trans (and_iff_left hnot)
    exact (not_exists.symm.trans (not_congr hheld.symm)).trans not_exists
  · obtain ⟨k, hk⟩ := hd.was i hi
    refine ⟨h.listed hk, ?_, fun c hc => ((hd.held i).mp ⟨c, hc⟩).2 hi⟩
    have htimer := h.timer i (h.listed hk) (Set.notMem_empty i)
    rw [Bool.eq_false_iff]
    exact fun harmed => htimer.mp harmed k hk

/-- What was handed to `do_outgoing_connection` gets a connection or its timer. -/
lemma AttachedBut.redial {d : Daemon} {lost : Option ℕ} (h : AttachedBut ∅ s)
    (hd : Hands s.daemon d lost) : AttachedBut ∅ { s with daemon := d }.redial := by
  obtain ⟨hbut, hloose⟩ := h.hands hd
  have hretries : d.retries = lost.toList := by rw [hd.retries, h.retries, List.nil_append]
  unfold Dialer.redial
  rw [hretries]
  cases lost with
  | none => exact hbut.mono fun i hi => nomatch hi
  | some o =>
      obtain ⟨ho, hl⟩ := hloose o rfl
      exact (hbut.mono fun i hi => (Option.some.inj hi).symm).doOutgoingConnection ho hl

lemma AttachedBut.terminateConnection (h : AttachedBut ∅ s) {c : ConnId}
    (hc : c ∈ s.daemon.connectionList) (report : Bool) :
    AttachedBut ∅ (s.terminateConnection c report) :=
  h.redial (.terminateConnection h.tidy hc report)

/-! ## The configuration -/

lemma AttachedBut.foldl {β : Type} {f : Dialer → β → Dialer}
    (hf : ∀ s b, AttachedBut ∅ s → AttachedBut ∅ (f s b)) (l : List β) (h : AttachedBut ∅ s) :
    AttachedBut ∅ (l.foldl f s) := by
  induction l generalizing s with
  | nil => exact h
  | cons b l ih => exact ih (hf s b h)

lemma AttachedBut.ensureOutgoing (h : AttachedBut ∅ s) (name : Name) :
    AttachedBut ∅ (s.ensureOutgoing name) := by
  unfold Dialer.ensureOutgoing
  split
  · exact h
  · split
    · exact h.setTimeout _ 0
    · have ht := SameTable.ensureNode s.daemon name
      have hnew : s.newOutgoing ∉ s.outgoingList := fun hmem => lt_irrefl _ (h.newOutgoing _ hmem)
      have hholds : ∀ c i, PointsTo (s.daemon.ensureNode name) c i ↔ PointsTo s.daemon c i :=
        fun c i => by
          unfold PointsTo
          rw [ht.list, ht.conn]
      refine AttachedBut.setupOutgoingConnection ⟨(Hands.of_table h.tidy ht).tidy,
        ht.retries.trans h.retries, fun c hc => h.newConn c (ht.list ▸ hc), ?_, ?_, ?_⟩ ?_ ?_
      · intro i hi
        rcases List.mem_append.mp hi with hi | hi
        · exact Nat.lt_succ_of_lt (h.newOutgoing i hi)
        · rw [List.mem_singleton.mp hi]
          exact Nat.lt_succ_self _
      · intro c i hi
        exact List.mem_append_left _ (h.listed ((hholds c i).mp hi))
      · intro i hi hnot
        have hne : i ≠ s.newOutgoing := hnot
        have hi : i ∈ s.outgoingList := by simpa [hne] using hi
        have htimer := h.timer i hi (Set.notMem_empty i)
        simpa [hholds, hne] using htimer
      · simp
      · intro c hc
        exact hnew (h.listed ((hholds c _).mp hc))

/-- The outgoing connections that are to be deleted. -/
def Dialer.stale (s : Dialer) : Set ℕ := {i | (s.outgoing i).timeout = -1}

/-- What closing one stale connection does. -/
structure Closed (s : Dialer) (c : ConnId) (s' : Dialer) : Prop where
  attached : AttachedBut s.stale s'
  outgoing : s'.outgoing = s.outgoing
  outgoingList : s'.outgoingList = s.outgoingList
  kept : ∀ k ∈ s.daemon.connectionList, k ≠ c → k ∈ s'.daemon.connectionList
  holds : ∀ k i, PointsTo s'.daemon k i → PointsTo s.daemon k i ∧ (k = c → i ∉ s.stale)

/-- The connection no longer points to what it was opened for, and is ended. -/
lemma Closed.terminate (h : AttachedBut s.stale s) {c : ConnId}
    (hc : c ∈ s.daemon.connectionList) (ho : (s.daemon.conn c).outgoing = some o)
    (hstale : o ∈ s.stale) (report : Bool) :
    Closed s c (Dialer.terminateConnection
      { s with daemon := s.daemon.setConn c ({ · with outgoing := none }) } c report) := by
  set d₁ := s.daemon.setConn c ({ · with outgoing := none }) with hd₁
  have hclose := Closes.terminateConnection d₁ c report
  have hretries : (d₁.terminateConnection c report).retries = [] := by
    rw [terminateConnection_retries]
    simp [hd₁, Daemon.setConn, h.retries]
  have hconn : ∀ k, k ≠ c → (d₁.terminateConnection c report).conn k = s.daemon.conn k := by
    intro k hk
    rw [hclose.conn k hk]
    simp [hd₁, Daemon.setConn, hk]
  have hmem : ∀ k, k ∈ (d₁.terminateConnection c report).connectionList ↔
      k ∈ s.daemon.connectionList ∧ k ≠ c := by
    intro k
    rw [hclose.list]
    simp [hd₁, Daemon.setConn]
  have hholds : ∀ k i, PointsTo (d₁.terminateConnection c report) k i ↔
      PointsTo s.daemon k i ∧ k ≠ c := by
    intro k i
    unfold PointsTo
    rw [hmem]
    constructor
    · rintro ⟨⟨hk, hne⟩, hout⟩
      exact ⟨⟨hk, hconn k hne ▸ hout⟩, hne⟩
    · rintro ⟨⟨hk, hout⟩, hne⟩
      exact ⟨⟨hk, hne⟩, hconn k hne ▸ hout⟩
  unfold Dialer.terminateConnection Dialer.redial
  rw [hretries]
  refine ⟨⟨⟨?_, ?_, ?_⟩, rfl, ?_, h.newOutgoing, ?_, ?_⟩, rfl, rfl, ?_, ?_⟩
  · exact hclose.list ▸ h.tidy.nodup.filter _
  · exact fun hi hj => h.tidy.once ((hholds _ _).mp hi).1 ((hholds _ _).mp hj).1
  · intro n k hk
    have hk : (d₁.terminateConnection c report).nodeConnection n = some k := hk
    rw [hclose.nodeConnection] at hk
    split at hk
    · cases hk
    · rename_i hgone
      obtain ⟨hlist, hnode⟩ := h.tidy.node hk
      have hne : k ≠ c := by
        rintro rfl
        exact hgone ⟨by simpa [hd₁, Daemon.setConn] using hnode, hk⟩
      exact ⟨(hmem k).mpr ⟨hlist, hne⟩, (congrArg Conn.node (hconn k hne)).trans hnode⟩
  · exact fun k hk => h.newConn k ((hmem k).mp hk).1
  · exact fun hk => h.listed ((hholds _ _).mp hk).1
  · intro i hi hnot
    refine (h.timer i hi hnot).trans ⟨fun hno k hk => hno k ((hholds k i).mp hk).1, ?_⟩
    intro hno k hk
    refine hno k ((hholds k i).mpr ⟨hk, ?_⟩)
    rintro rfl
    exact hnot (Option.some.inj (ho.symm.trans hk.2) ▸ hstale)
  · exact fun k hk hne => (hmem k).mpr ⟨hk, hne⟩
  · intro k i hi
    obtain ⟨hk, hne⟩ := (hholds k i).mp hi
    exact ⟨hk, fun heq => absurd heq hne⟩

lemma Closed.closeStale (h : AttachedBut s.stale s) {c : ConnId}
    (hc : c ∈ s.daemon.connectionList) : Closed s c (s.closeStale c) := by
  unfold Dialer.closeStale
  split
  · rename_i hnone
    refine ⟨h, rfl, rfl, fun k hk _ => hk, fun k i hi => ⟨hi, ?_⟩⟩
    rintro rfl
    rw [PointsTo, hnone] at hi
    cases hi.2
  · rename_i o ho
    split
    · rename_i hstale
      dsimp only
      exact .terminate h hc ho hstale _
    · rename_i hstale
      refine ⟨h, rfl, rfl, fun k hk _ => hk, fun k i hi => ⟨hi, ?_⟩⟩
      rintro rfl
      obtain rfl := Option.some.inj (ho.symm.trans hi.2)
      exact hstale

/-- After the loop no connection holds a stale one. -/
lemma foldl_closeStale (l : List ConnId) (hl : l.Nodup) (h : AttachedBut s.stale s)
    (hc : ∀ c ∈ l, c ∈ s.daemon.connectionList) :
    AttachedBut s.stale (l.foldl Dialer.closeStale s) ∧
      (l.foldl Dialer.closeStale s).outgoing = s.outgoing ∧
      ∀ k i, PointsTo (l.foldl Dialer.closeStale s).daemon k i →
        PointsTo s.daemon k i ∧ (k ∈ l → i ∉ s.stale) := by
  induction l generalizing s with
  | nil => exact ⟨h, rfl, fun k i hi => ⟨hi, nofun⟩⟩
  | cons c l ih =>
      have hclosed := Closed.closeStale h (hc c List.mem_cons_self)
      have hstale : (s.closeStale c).stale = s.stale := by
        unfold Dialer.stale
        rw [hclosed.outgoing]
      rw [List.nodup_cons] at hl
      obtain ⟨hrest, hout, hholds⟩ := ih hl.2 (hstale ▸ hclosed.attached) fun k hk =>
        hclosed.kept k (hc k (List.mem_cons_of_mem _ hk)) fun heq => hl.1 (heq ▸ hk)
      rw [hstale] at hrest hholds
      refine ⟨hrest, hout.trans hclosed.outgoing, fun k i hi => ?_⟩
      obtain ⟨hi, hl⟩ := hholds k i hi
      obtain ⟨hi, hk⟩ := hclosed.holds k i hi
      refine ⟨hi, fun hmem => ?_⟩
      rcases List.mem_cons.mp hmem with heq | hmem
      · exact hk heq
      · exact hl hmem

/-- **Reading the configuration again loses nothing.** -/
lemma AttachedBut.tryOutgoingConnections (h : AttachedBut ∅ s) (connectTo : List Name) :
    AttachedBut ∅ (s.tryOutgoingConnections connectTo) := by
  have hmark : AttachedBut ∅ s.mark :=
    AttachedBut.foldl (fun s o hs => hs.setTimeout o (-1)) s.outgoingList h
  have hensure := AttachedBut.foldl (fun s name hs => hs.ensureOutgoing name) connectTo hmark
  unfold Dialer.tryOutgoingConnections
  dsimp only
  generalize connectTo.foldl Dialer.ensureOutgoing s.mark = s₁ at hensure ⊢
  obtain ⟨hclosed, hout, hholds⟩ := foldl_closeStale s₁.daemon.connectionList hensure.tidy.nodup
    (hensure.mono (Set.empty_subset _)) fun c hc => hc
  generalize s₁.daemon.connectionList.foldl Dialer.closeStale s₁ = s₂ at hclosed hout hholds ⊢
  refine { hclosed with newOutgoing := ?_, listed := ?_, timer := ?_ }
  · exact fun i hi => hclosed.newOutgoing i (List.mem_filter.mp hi).1
  · intro k i hk
    obtain ⟨hk', hstale⟩ := hholds k i hk
    refine List.mem_filter.mpr ⟨hclosed.listed hk, ?_⟩
    rw [hout]
    simpa [Dialer.stale] using hstale hk'.1
  · intro i hi _
    obtain ⟨hi, hne⟩ := List.mem_filter.mp hi
    refine hclosed.timer i hi ?_
    rw [hout] at hne
    simpa [Dialer.stale] using hne

/-! ## Every run -/

lemma AttachedBut.happen (h : AttachedBut ∅ s) {e : Dialing} (he : e.Possible s)
    (hg : e.Gentle s) : AttachedBut ∅ (s.happen e) := by
  cases e with
  | accept conn =>
      have he : conn.outgoing = none := he
      refine h.connectionAdd (fun i hi => ?_) fun i hi _ => ?_
      · rw [he] at hi
        cases hi
      · rw [h.timer i hi (Set.notMem_empty i), he]
        simp
  | receive c request =>
      obtain ⟨lost, hhands⟩ := Hands.receive h.tidy he hg
      exact h.redial hhands
  | terminate c report => exact h.terminateConnection he report
  | tryOutgoing connectTo => exact h.tryOutgoingConnections connectTo
  | expire o =>
      obtain ⟨ho, harmed⟩ := he
      exact (h.mono (Set.empty_subset _)).setupOutgoingConnection ho
        ((h.timer o ho (Set.notMem_empty o)).mp harmed)
  | retry => exact AttachedBut.foldl (fun s o hs => hs.setTimeout o 0) s.outgoingList h

lemma AttachedBut.init (config : Config) (rand : ℕ → ℕ) (maxtimeout : ℤ)
    (dial : ℕ → List (SockAddr × Bool)) : AttachedBut ∅ (.init config rand maxtimeout dial) where
  tidy := ⟨List.nodup_nil, fun h => absurd h.1 (List.not_mem_nil), nofun⟩
  retries := rfl
  newConn := nofun
  newOutgoing := nofun
  listed := fun h => absurd h.1 (List.not_mem_nil)
  timer := nofun

/-- **No outgoing connection is forgotten** in any run whose ACKs are gentle: each of them is held by
exactly one connection, or by its timer. -/
theorem outgoing_attached (config : Config) (rand : ℕ → ℕ) (maxtimeout : ℤ)
    (dial : ℕ → List (SockAddr × Bool)) (events : List Dialing)
    (hp : Along Dialer.happen Dialing.Possible (.init config rand maxtimeout dial) events)
    (hg : Along Dialer.happen Dialing.Gentle (.init config rand maxtimeout dial) events) :
    Attached (events.foldl Dialer.happen (.init config rand maxtimeout dial)) :=
  AttachedBut.attached (Along.invariant (I := AttachedBut ∅) (fun _ _ h hs => h.happen hs.1 hs.2)
    (.init config rand maxtimeout dial) (hp.and hg))

/-- `a` is to connect to `b`.  The first attempt starts a connection, the others fail. -/
def connectToB : Dialer :=
  .init (.plain (ascii "a")) id 900 fun n => if n = 0 then [(.unspec, true)] else []

/-- The connection is made, and later it ends: the timer is set. -/
def connectedAndLost : List Dialing :=
  [.tryOutgoing [ascii "b"], .receive 0 (ascii "0 b 17.7"), .receive 0 (ascii "4 655 10 c"),
    .terminate 0 true]

/-- Nobody else is connected to `b` when its ACK comes. -/
lemma gentle_connected : Dialing.Gentle
    ((connectToB.happen (.tryOutgoing [ascii "b"])).happen (.receive 0 (ascii "0 b 17.7")))
    (.receive 0 (ascii "4 655 10 c")) := by
  generalize hs : (connectToB.happen (.tryOutgoing [ascii "b"])).happen
    (.receive 0 (ascii "0 b 17.7")) = s
  have hnone : s.daemon.nodeConnection (s.daemon.conn 0).name = none := by
    rw [← hs]
    decide +kernel
  intro _ _
  refine ⟨.inl ?_, fun old hold => ?_⟩
  · rw [← hs]
    decide +kernel
  · cases hold.symm.trans hnone

theorem outgoing_attached_lost :
    (connectedAndLost.foldl Dialer.happen connectToB).outgoingList = [0] ∧
      ((connectedAndLost.foldl Dialer.happen connectToB).outgoing 0).armed = true ∧
      Attached (connectedAndLost.foldl Dialer.happen connectToB) := by
  refine ⟨by decide +kernel, by decide +kernel, outgoing_attached _ _ _ _ _ (by decide +kernel) ?_⟩
  refine ⟨trivial, fun h => ?_, gentle_connected, trivial, trivial⟩
  exact absurd h (by decide +kernel)

/-- `b` connects to us while our own connection to it is still being made. -/
def simultaneous : List Dialing :=
  [.tryOutgoing [ascii "b"], .accept { name := ascii "<unknown>" },
    .receive 1 (ascii "0 b 17.7"), .receive 1 (ascii "4 655 10 c"),
    .receive 0 (ascii "0 b 17.7"), .receive 0 (ascii "4 655 10 c")]

/-- Our connection replaces the other one, and takes over what that was opened for, which is
nothing: no connection and no timer is left for `b`. -/
theorem outgoing_forgotten : ¬ ∀ (config : Config) (rand : ℕ → ℕ) (maxtimeout : ℤ)
    (dial : ℕ → List (SockAddr × Bool)) (events : List Dialing),
    Along Dialer.happen Dialing.Possible (.init config rand maxtimeout dial) events →
    Attached (events.foldl Dialer.happen (.init config rand maxtimeout dial)) := by
  intro h
  have hattached : Attached (simultaneous.foldl Dialer.happen connectToB) :=
    h _ _ _ _ simultaneous (by decide +kernel)
  have hnone : ∀ c ∈ (simultaneous.foldl Dialer.happen connectToB).daemon.connectionList,
      ((simultaneous.foldl Dialer.happen connectToB).daemon.conn c).outgoing ≠ some 0 := by
    decide +kernel
  rcases hattached.held 0 (by decide +kernel) with ⟨⟨c, ⟨hc, hout⟩, -⟩, -⟩ | ⟨harmed, -⟩
  · exact hnone c hc hout
  · exact absurd harmed (by decide +kernel)

end Tinc
