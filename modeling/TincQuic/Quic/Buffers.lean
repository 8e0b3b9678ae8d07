import Mathlib.Data.Nat.Notation
import Mathlib.Logic.Function.Basic
import TincQuic.Lib.Run

/-!
# The buffers of datagrams: `quic.c`

A datagram is built in a buffer of a pool, or of the heap when the pool is exhausted.  The buffer
belongs to `quic_send_packet` until `DatagramSend` accepts it, and then to MsQuic until the last
event about it, on which `quic_connection_callback` releases it.

* `Ledger` is the state: the pool, the connections, and for every call of `quic_send_packet` the
  buffer, the stage it is in and how often the buffer was released.
* `Ledger.step` is what happens to it.  A send and the closing of a connection are two steps each,
  so that events can come in between.
* `Accounted` is the invariant.  **Every buffer is released exactly once, as long as the last
  events come in a state in which the callback acts on them**: `buffers_accounted`.
-/

namespace Tinc.Quic

open Function Run

/-! ## The state -/

/-- An entry of `buffer_pool`, or a block from `xmalloc` -/
inductive Buffer where
  | pool (i : ℕ)
  | heap (address : ℕ)
  deriving DecidableEq, Repr

/-- `QUIC_DATAGRAM_SEND_STATE` -/
inductive SendState where
  | unknown
  | sent
  | lostSuspect
  | lostDiscarded
  | acknowledged
  | acknowledgedSpurious
  | canceled
  deriving DecidableEq, Repr

/-- MsQuic sends no event about the datagram after this one. -/
def SendState.isFinal : SendState → Bool
  | .lostDiscarded | .acknowledged | .acknowledgedSpurious | .canceled => true
  | .unknown | .sent | .lostSuspect => false

/-- The states on which the callback releases the buffer -/
def SendState.releases (state : SendState) : Bool :=
  state = .lostDiscarded ∨ state = .acknowledged ∨ state = .canceled

/-- What the functions here read of `quic_connection_t`; `attached` means that `tinc_connection`
and the `quic_context` that points back are set. -/
structure Qc where
  closing : Bool
  attached : Bool
  /-- `connection` is set. -/
  handle : Bool
  connected : Bool
  deriving DecidableEq, Repr

/-- Who has the buffer of a datagram. -/
inductive Stage where
  /-- `quic_send_packet` -/
  | building
  /-- MsQuic -/
  | accepted
  /-- nobody: it was not sent -/
  | failed
  /-- nobody: the last event has come -/
  | finished
  deriving DecidableEq, Repr

/-- One call of `quic_send_packet`. -/
structure Datagram where
  connection : ℕ
  buffer : Buffer
  stage : Stage
  /-- how often the buffer was released -/
  releases : ℕ
  deriving DecidableEq, Repr

structure Ledger where
  /-- `buffer_pool[i].in_use` -/
  inUse : ℕ → Bool
  /-- the blocks that are allocated -/
  heap : List ℕ
  qc : ℕ → Option Qc
  datagram : ℕ → Option Datagram

namespace Ledger

variable (s : Ledger)

/-! ## The pool -/

/-- `BUFFER_POOL_SIZE` -/
@[irreducible]
def poolSize : ℕ := 2048

/-- `acquire_buffer`; `address` is what `xmalloc` would return. -/
def acquireBuffer (address : ℕ) : Buffer × Ledger :=
  match (List.range poolSize).find? fun i => !s.inUse i with
  | some i => (.pool i, { s with inUse := update s.inUse i true })
  | none => (.heap address, { s with heap := address :: s.heap })

/-- `release_buffer`, while the pool is initialised -/
def releaseBuffer : Buffer → Ledger
  | .pool i => { s with inUse := update s.inUse i false }
  | .heap address => { s with heap := s.heap.erase address }

/-! ## Sending -/

/-- Notes what became of a datagram. -/
def note (id : ℕ) (g : Datagram) : Ledger := { s with datagram := update s.datagram id (some g) }

/-- `quic_send_packet` up to the datagram in its buffer; `tooLarge` is the test of the size. -/
def sendBegin (k id : ℕ) (tooLarge : Bool) (address : ℕ) : Ledger :=
  match s.qc k with
  | none => s
  | some qc =>
      if !qc.attached ∨ qc.closing ∨ !qc.connected ∨ tooLarge then s
      else
        let (buffer, s) := s.acquireBuffer address
        s.note id { connection := k, buffer := buffer, stage := .building, releases := 0 }

/-- Releases the buffer of a datagram, which is then in `stage`. -/
def release (id : ℕ) (g : Datagram) (stage : Stage) : Ledger :=
  (s.releaseBuffer g.buffer).note id { g with stage := stage, releases := g.releases + 1 }

/-- The rest of `quic_send_packet`; `ok` is the result of `DatagramSend`. -/
def sendEnd (id : ℕ) (ok : Bool) : Ledger :=
  match s.datagram id with
  | none => s
  | some g =>
      if (s.qc g.connection).all fun qc => !qc.handle then s.release id g .failed
      else if ok then s.note id { g with stage := .accepted }
      else s.release id g .failed

/-- `quic_connection_callback` acts on the event: the connection is not closing, or it is
detached already. -/
def listens (k : ℕ) : Bool :=
  (s.qc k).any fun qc => if !qc.attached && qc.closing then true else !qc.closing

/-- `DATAGRAM_SEND_STATE_CHANGED` in `quic_connection_callback` -/
def stateChanged (id : ℕ) (state : SendState) : Ledger :=
  match s.datagram id with
  | none => s
  | some g =>
      let stage := if state.isFinal then .finished else g.stage
      if s.listens g.connection ∧ state.releases then s.release id g stage
      else s.note id { g with stage := stage }

/-! ## Connections -/

/-- Changes a connection. -/
def setQc (k : ℕ) (f : Qc → Qc) : Ledger := { s with qc := update s.qc k ((s.qc k).map f) }

end Ledger

/-- What happens to the buffers and the connections. -/
inductive BufferEvent where
  /-- A connection is accepted or opened. -/
  | opened (k : ℕ)
  | connected (k : ℕ)
  | sendBegin (k id : ℕ) (tooLarge : Bool) (address : ℕ)
  | sendEnd (id : ℕ) (ok : Bool)
  | stateChanged (id : ℕ) (state : SendState)
  /-- `quic_connection_close` sets `closing` ... -/
  | setClosing (k : ℕ)
  /-- ... and later detaches the connection. -/
  | detach (k : ℕ)
  | shutdownComplete (k : ℕ)

/-- One event. -/
def Ledger.step (s : Ledger) : BufferEvent → Ledger
  | .opened k =>
      { s with qc := update s.qc k (some
        { closing := false, attached := true, handle := true, connected := false }) }
  | .connected k => s.setQc k fun qc => { qc with connected := true }
  | .sendBegin k id tooLarge address => s.sendBegin k id tooLarge address
  | .sendEnd id ok => s.sendEnd id ok
  | .stateChanged id state => s.stateChanged id state
  | .setClosing k => s.setQc k fun qc => { qc with closing := true }
  | .detach k => s.setQc k fun qc => { qc with attached := false, connected := false }
  | .shutdownComplete k => s.setQc k fun qc => { qc with handle := false }

/-- After `init_buffer_pool`. -/
def Ledger.init : Ledger where
  inUse := fun _ => false
  heap := []
  qc := fun _ => none
  datagram := fun _ => none

/-- How the events come: a connection is opened once, every call of `quic_send_packet` has its own
number, `xmalloc` returns a block that is free, and MsQuic sends events about datagrams that it has
accepted, up to the last one. -/
def BufferEvent.Valid (s : Ledger) : BufferEvent → Prop
  | .opened k => s.qc k = none
  | .sendBegin _ id _ address => s.datagram id = none ∧ address ∉ s.heap
  | .sendEnd id _ => (s.datagram id).any (·.stage = .building)
  | .stateChanged id _ => (s.datagram id).any (·.stage = .accepted)
  | _ => True

/-- `quic_connection_close` has set `closing`, but has not detached the connection yet. -/
def Ledger.midClose (s : Ledger) (k : ℕ) : Bool :=
  (s.qc k).any fun qc => qc.closing && qc.attached

/-- The callback acts on the last event: its state is one of those that it knows, and it does not
come between the two steps of `quic_connection_close`. -/
def BufferEvent.Heard (s : Ledger) : BufferEvent → Prop
  | .stateChanged id state => state.isFinal = true →
      state ≠ .acknowledgedSpurious ∧ (s.datagram id).all fun g => !s.midClose g.connection
  | _ => True

/-! ## The invariant -/

variable {s : Ledger} {id : ℕ} {g : Datagram}

/-- `quic_send_packet` or MsQuic has the buffer. -/
def Datagram.live (g : Datagram) : Prop := g.stage = .building ∨ g.stage = .accepted

/-- The buffer is not free. -/
def Ledger.holds (s : Ledger) : Buffer → Prop
  | .pool i => s.inUse i = true
  | .heap address => address ∈ s.heap

/-- Of the datagrams in `ids`, the buffers in use are held, by one datagram each, and the others
were released once. -/
structure Accounted (ids : ℕ → Prop) (s : Ledger) : Prop where
  known : ∀ id g, ids id → s.datagram id = some g → s.qc g.connection ≠ none
  held : ∀ id g, ids id → s.datagram id = some g → g.live → s.holds g.buffer
  unused : ∀ id g, ids id → s.datagram id = some g → g.live → g.releases = 0
  unique : ∀ id g, ids id → s.datagram id = some g → g.live →
    ∀ id' g', ids id' → s.datagram id' = some g' → g'.live → g'.buffer = g.buffer → id' = id
  once : ∀ id g, ids id → s.datagram id = some g → ¬ g.live → g.releases = 1

/-- All datagrams -/
abbrev everyId : ℕ → Prop := fun _ => True

/-- What one datagram needs, when it is noted beside the others. -/
structure Fits (s : Ledger) (id : ℕ) (g : Datagram) : Prop where
  known : s.qc g.connection ≠ none
  held : g.live → s.holds g.buffer
  unused : g.live → g.releases = 0
  unique : g.live → ∀ id' g', id' ≠ id → s.datagram id' = some g' → g'.live →
    g'.buffer ≠ g.buffer
  once : ¬ g.live → g.releases = 1

/-- What `acquire_buffer` returns was free. -/
lemma acquireBuffer_fresh {address : ℕ} (h : address ∉ s.heap) :
    ¬ s.holds (s.acquireBuffer address).1 := by
  unfold Ledger.acquireBuffer
  split
  · rename_i i hi
    have hfree := List.find?_some hi
    simpa [Ledger.holds] using hfree
  · exact h

/-- It is held from then on, and so is what was held before. -/
lemma acquireBuffer_holds (s : Ledger) (address : ℕ) :
    (s.acquireBuffer address).2.holds (s.acquireBuffer address).1 ∧
      ∀ b, s.holds b → (s.acquireBuffer address).2.holds b := by
  unfold Ledger.acquireBuffer
  split
  · rename_i i hi
    refine ⟨by simp [Ledger.holds], ?_⟩
    intro b hb
    cases b with
    | pool j =>
        change update s.inUse i true j = true
        by_cases hj : j = i
        · rw [hj, update_self]
        · rw [update_of_ne hj]
          exact hb
    | heap a => exact hb
  · refine ⟨by simp [Ledger.holds], ?_⟩
    intro b hb
    cases b with
    | pool j => exact hb
    | heap a => exact List.mem_cons_of_mem address hb

lemma acquireBuffer_same (s : Ledger) (address : ℕ) :
    (s.acquireBuffer address).2.datagram = s.datagram ∧
      (s.acquireBuffer address).2.qc = s.qc := by
  unfold Ledger.acquireBuffer
  split <;> exact ⟨rfl, rfl⟩

lemma releaseBuffer_holds {b b' : Buffer} (hne : b' ≠ b) (h : s.holds b') :
    (s.releaseBuffer b).holds b' := by
  cases b with
  | pool i =>
      cases b' with
      | pool j =>
          have hj : j ≠ i := fun he => hne (by rw [he])
          change update s.inUse i false j = true
          rw [update_of_ne hj]
          exact h
      | heap a => exact h
  | heap address =>
      cases b' with
      | pool j => exact h
      | heap a =>
          have ha : a ≠ address := fun he => hne (by rw [he])
          exact (List.mem_erase_of_ne ha).mpr h

lemma releaseBuffer_same (s : Ledger) (b : Buffer) :
    (s.releaseBuffer b).datagram = s.datagram ∧ (s.releaseBuffer b).qc = s.qc := by
  cases b <;> exact ⟨rfl, rfl⟩

namespace Accounted

lemma others (h : Accounted everyId s) (id : ℕ) : Accounted (· ≠ id) s where
  known id' g _ := h.known id' g trivial
  held id' g _ := h.held id' g trivial
  unused id' g _ := h.unused id' g trivial
  unique id' g _ hg hl id'' g' _ := h.unique id' g trivial hg hl id'' g' trivial
  once id' g _ := h.once id' g trivial

lemma fits (h : Accounted everyId s) (hg : s.datagram id = some g) : Fits s id g where
  known := h.known id g trivial hg
  held := h.held id g trivial hg
  unused := h.unused id g trivial hg
  unique hl id' g' hne hg' hl' he :=
    hne (h.unique id g trivial hg hl id' g' trivial hg' hl' he)
  once := h.once id g trivial hg

/-- A datagram is noted beside the others. -/
lemma note (h : Accounted (· ≠ id) s) (hf : Fits s id g) : Accounted everyId (s.note id g) := by
  have cases_id : ∀ id' g', (s.note id g).datagram id' = some g' →
      id' = id ∧ g' = g ∨ id' ≠ id ∧ s.datagram id' = some g' := by
    intro id' g' hg'
    change update s.datagram id (some g) id' = some g' at hg'
    by_cases hid : id' = id
    · subst hid
      rw [update_self] at hg'
      exact .inl ⟨rfl, (Option.some.inj hg').symm⟩
    · rw [update_of_ne hid] at hg'
      exact .inr ⟨hid, hg'⟩
  refine ⟨?_, ?_, ?_, ?_, ?_⟩
  · intro id' g' _ hg'
    rcases cases_id id' g' hg' with ⟨rfl, rfl⟩ | ⟨hne, hg'⟩
    · exact hf.known
    · exact h.known id' g' hne hg'
  · intro id' g' _ hg' hl
    rcases cases_id id' g' hg' with ⟨rfl, rfl⟩ | ⟨hne, hg'⟩
    · exact hf.held hl
    · exact h.held id' g' hne hg' hl
  · intro id' g' _ hg' hl
    rcases cases_id id' g' hg' with ⟨rfl, rfl⟩ | ⟨hne, hg'⟩
    · exact hf.unused hl
    · exact h.unused id' g' hne hg' hl
  · intro id₁ g₁ _ hg₁ hl₁ id₂ g₂ _ hg₂ hl₂ he
    rcases cases_id id₁ g₁ hg₁ with ⟨rfl, rfl⟩ | ⟨hne₁, hold₁⟩
    · rcases cases_id id₂ g₂ hg₂ with ⟨rfl, rfl⟩ | ⟨hne₂, hold₂⟩
      · rfl
      · exact absurd he (hf.unique hl₁ id₂ g₂ hne₂ hold₂ hl₂)
    · rcases cases_id id₂ g₂ hg₂ with ⟨rfl, rfl⟩ | ⟨hne₂, hold₂⟩
      · exact absurd he.symm (hf.unique hl₂ id₁ g₁ hne₁ hold₁ hl₁)
      · exact h.unique id₁ g₁ hne₁ hold₁ hl₁ id₂ g₂ hne₂ hold₂ hl₂ he
  · intro id' g' _ hg' hl
    rcases cases_id id' g' hg' with ⟨rfl, rfl⟩ | ⟨hne, hg'⟩
    · exact hf.once hl
    · exact h.once id' g' hne hg' hl

/-- Connections come and change. -/
lemma of_qc (h : Accounted everyId s) {qc : ℕ → Option Qc}
    (hq : ∀ k, s.qc k ≠ none → qc k ≠ none) : Accounted everyId { s with qc := qc } :=
  ⟨fun id g hi hg => hq _ (h.known id g hi hg), h.held, h.unused, h.unique, h.once⟩

/-- The pool changes, and the buffers in use are still held. -/
lemma of_pool {ids : ℕ → Prop} {s' : Ledger} (h : Accounted ids s)
    (hsame : s'.datagram = s.datagram ∧ s'.qc = s.qc)
    (hholds : ∀ id g, ids id → s.datagram id = some g → g.live → s'.holds g.buffer) :
    Accounted ids s' := by
  obtain ⟨hdatagram, hqc⟩ := hsame
  refine ⟨?_, ?_, ?_, ?_, ?_⟩
  · rw [hdatagram, hqc]
    exact h.known
  · rw [hdatagram]
    exact hholds
  · rw [hdatagram]
    exact h.unused
  · rw [hdatagram]
    exact h.unique
  · rw [hdatagram]
    exact h.once

lemma sendBegin (h : Accounted everyId s) {k address : ℕ} {tooLarge : Bool}
    (ha : address ∉ s.heap) : Accounted everyId (s.sendBegin k id tooLarge address) := by
  unfold Ledger.sendBegin
  split
  · exact h
  · rename_i qc hk
    split
    · exact h
    · obtain ⟨hnew, hold⟩ := acquireBuffer_holds s address
      have hsame := acquireBuffer_same s address
      have hfresh := acquireBuffer_fresh ha
      have hpool : Accounted everyId (s.acquireBuffer address).2 :=
        h.of_pool hsame fun id g hi hg hl => hold _ (h.held id g hi hg hl)
      refine (hpool.others id).note ⟨?_, fun _ => hnew, fun _ => rfl, ?_, ?_⟩
      · rw [hsame.2, hk]
        exact Option.some_ne_none qc
      · intro _ id' g' _ hg' hl' he
        rw [hsame.1] at hg'
        have hheld : s.holds g'.buffer := h.held id' g' trivial hg' hl'
        rw [he] at hheld
        exact hfresh hheld
      · exact fun hdead => absurd (.inl rfl) hdead

lemma release (h : Accounted everyId s) (hg : s.datagram id = some g) (hl : g.live)
    {stage : Stage} (hstage : stage = .failed ∨ stage = .finished) :
    Accounted everyId (s.release id g stage) := by
  have hf := h.fits hg
  have hsame := releaseBuffer_same s g.buffer
  have hothers : Accounted (· ≠ id) (s.releaseBuffer g.buffer) := by
    refine (h.others id).of_pool hsame fun id' g' hne hg' hl' => ?_
    exact releaseBuffer_holds (hf.unique hl id' g' hne hg' hl') (h.held id' g' trivial hg' hl')
  have hdead : ¬ Datagram.live { g with stage := stage, releases := g.releases + 1 } := by
    rintro (he | he) <;> rcases hstage with rfl | rfl <;> cases he
  refine hothers.note ⟨?_, fun hl' => absurd hl' hdead, fun hl' => absurd hl' hdead,
    fun hl' => absurd hl' hdead, fun _ => ?_⟩
  · rw [hsame.2]
    exact hf.known
  · change g.releases + 1 = 1
    rw [hf.unused hl]

/-- The buffer stays with `quic_send_packet` or goes to MsQuic. -/
lemma keep (h : Accounted everyId s) (hg : s.datagram id = some g) (hl : g.live)
    {stage : Stage} (hstage : stage = .building ∨ stage = .accepted) :
    Accounted everyId (s.note id { g with stage := stage }) := by
  have hf := h.fits hg
  exact (h.others id).note ⟨hf.known, fun _ => hf.held hl, fun _ => hf.unused hl,
    fun _ => hf.unique hl, fun hdead => absurd hstage hdead⟩

end Accounted

/-! ## Runs -/

lemma SendState.isFinal_of_releases {state : SendState} (h : state.releases = true) :
    state.isFinal = true := by
  cases state <;> first | rfl | cases h

/-- The callback acts on a last event that is heard. -/
lemma listens_of_heard (h : Accounted everyId s) (hg : s.datagram id = some g) {state : SendState}
    (hheard : BufferEvent.Heard s (.stateChanged id state)) (hfinal : state.isFinal = true) :
    s.listens g.connection = true ∧ state.releases = true := by
  obtain ⟨hstate, hopen⟩ := hheard hfinal
  constructor
  · obtain ⟨qc, hqc⟩ := Option.ne_none_iff_exists'.mp (h.known id g trivial hg)
    have hnot : s.midClose g.connection = false := by simpa [hg] using hopen
    unfold Ledger.midClose at hnot
    unfold Ledger.listens
    rw [hqc] at hnot ⊢
    cases hc : qc.closing <;> cases ha : qc.attached <;> simp_all
  · cases state with
    | acknowledgedSpurious => exact absurd rfl hstate
    | unknown | sent | lostSuspect => cases hfinal
    | lostDiscarded | acknowledged | canceled => rfl

lemma Accounted.step (h : Accounted everyId s) {e : BufferEvent} (hv : e.Valid s)
    (hheard : e.Heard s) : Accounted everyId (s.step e) := by
  have hset : ∀ k f, Accounted everyId (s.setQc k f) := by
    intro k f
    refine h.of_qc fun k' hk' => ?_
    by_cases hk : k' = k
    · subst hk
      rw [update_self]
      simpa using hk'
    · rw [update_of_ne hk]
      exact hk'
  cases e with
  | opened k =>
      refine h.of_qc fun k' hk' => ?_
      by_cases hk : k' = k
      · subst hk
        rw [update_self]
        exact Option.some_ne_none _
      · rw [update_of_ne hk]
        exact hk'
  | connected k => exact hset k _
  | sendBegin k id tooLarge address => exact h.sendBegin hv.2
  | sendEnd id ok =>
      obtain ⟨g, hg, hstage⟩ := (Option.any_eq_true _ _).mp hv
      have hl : g.live := .inl (by simpa using hstage)
      rw [Ledger.step, Ledger.sendEnd, hg]
      dsimp only
      split
      · exact h.release hg hl (.inl rfl)
      · split
        · exact h.keep hg hl (.inr rfl)
        · exact h.release hg hl (.inl rfl)
  | stateChanged id state =>
      obtain ⟨g, hg, hstage⟩ := (Option.any_eq_true _ _).mp hv
      have hstage : g.stage = .accepted := by simpa using hstage
      have hl : g.live := .inr hstage
      rw [Ledger.step, Ledger.stateChanged, hg]
      dsimp only
      split
      · rename_i hacts
        rw [if_pos (SendState.isFinal_of_releases hacts.2)]
        exact h.release hg hl (.inr rfl)
      · rename_i hidle
        by_cases hfinal : state.isFinal = true
        · exact absurd (listens_of_heard h hg hheard hfinal) hidle
        · rw [if_neg hfinal]
          exact h.keep hg hl (.inr hstage)
  | setClosing k => exact hset k _
  | detach k => exact hset k _
  | shutdownComplete k => exact hset k _

/-- What is expected of the buffers. -/
structure BuffersKept (s : Ledger) : Prop where
  /-- MsQuic uses the buffer: it was not released -/
  accepted : ∀ id g, s.datagram id = some g → g.stage = .accepted → g.releases = 0
  /-- the last event has come -/
  finished : ∀ id g, s.datagram id = some g → g.stage = .finished → g.releases = 1
  /-- the datagram was not sent -/
  failed : ∀ id g, s.datagram id = some g → g.stage = .failed → g.releases = 1
  /-- `acquire_buffer` hands out no buffer that is in use -/
  exclusive : ∀ id g, s.datagram id = some g → g.live → ∀ address ∉ s.heap,
    (s.acquireBuffer address).1 ≠ g.buffer

/-- In every run in which the callback acts on the last events, every buffer is released exactly
once, and none is handed out while it is in use. -/
theorem buffers_accounted (events : List BufferEvent)
    (hv : Along Ledger.step BufferEvent.Valid .init events)
    (hheard : Along Ledger.step BufferEvent.Heard .init events) :
    BuffersKept (events.foldl Ledger.step .init) := by
  have hinit : Accounted everyId Ledger.init := by
    refine ⟨?_, ?_, ?_, ?_, ?_⟩ <;>
      · intro id g _ hg
        cases hg
  have h : Accounted everyId (events.foldl Ledger.step .init) :=
    Along.invariant (I := Accounted everyId) (fun _ _ h hs => h.step hs.1 hs.2) hinit
      (hv.and hheard)
  refine ⟨?_, ?_, ?_, ?_⟩
  · exact fun id g hg hstage => h.unused id g trivial hg (.inr hstage)
  · intro id g hg hstage
    refine h.once id g trivial hg ?_
    rintro (hs | hs) <;> rw [hstage] at hs <;> cases hs
  · intro id g hg hstage
    refine h.once id g trivial hg ?_
    rintro (hs | hs) <;> rw [hstage] at hs <;> cases hs
  · intro id g hg hl address ha he
    exact acquireBuffer_fresh ha (he ▸ h.held id g trivial hg hl)

/-! ## Two runs -/

/-- A packet is sent, and then the connection begins to be closed. -/
def sentAndClosing : List BufferEvent :=
  [.opened 0, .connected 0, .sendBegin 0 0 false 0, .sendEnd 0 true, .setClosing 0]

lemma valid_sentAndClosing {rest : List BufferEvent}
    (h : Along Ledger.step BufferEvent.Valid (sentAndClosing.foldl Ledger.step .init) rest) :
    Along Ledger.step BufferEvent.Valid .init (sentAndClosing ++ rest) := by
  refine ⟨rfl, trivial, ⟨rfl, List.not_mem_nil⟩, ?_, trivial, h⟩
  change Option.any _ _ = true
  decide +kernel

/-- The packet is cancelled after the connection was detached. -/
theorem buffers_accounted_canceled :
    let events := sentAndClosing ++ [BufferEvent.detach 0, .stateChanged 0 .canceled]
    let s := events.foldl Ledger.step .init
    s.datagram 0 =
        some { connection := 0, buffer := .pool 0, stage := .finished, releases := 1 } ∧
      BuffersKept s := by
  have hv : Along Ledger.step BufferEvent.Valid .init
      (sentAndClosing ++ [.detach 0, .stateChanged 0 .canceled]) := by
    refine valid_sentAndClosing ⟨trivial, ?_, trivial⟩
    change Option.any _ _ = true
    decide +kernel
  have hheard : Along Ledger.step BufferEvent.Heard .init
      (sentAndClosing ++ [.detach 0, .stateChanged 0 .canceled]) := by
    refine ⟨trivial, trivial, trivial, trivial, trivial, trivial, fun _ => ⟨by decide, ?_⟩, trivial⟩
    decide +kernel
  exact ⟨by decide +kernel, buffers_accounted _ hv hheard⟩

/-- The acknowledgement comes before the connection is detached: the buffer is lost. -/
theorem buffer_lost : ¬ ∀ events : List BufferEvent,
    Along Ledger.step BufferEvent.Valid .init events →
      BuffersKept (events.foldl Ledger.step .init) := by
  intro h
  have hv : Along Ledger.step BufferEvent.Valid .init
      (sentAndClosing ++ [.stateChanged 0 .acknowledged]) := by
    refine valid_sentAndClosing ⟨?_, trivial⟩
    change Option.any _ _ = true
    decide +kernel
  have hkept := (h _ hv).finished 0
    { connection := 0, buffer := .pool 0, stage := .finished, releases := 0 }
    (by decide +kernel) rfl
  exact absurd hkept (by decide)

end Tinc.Quic
