import Mathlib.Data.Int.Notation
import Mathlib.Data.Nat.Notation
import Mathlib.Logic.Function.Basic
import TincQuic.Lib.Run

/-!
# The reference count of `quic_connection_t`

The context of a QUIC connection is shared by the `connection_t` and by MsQuic, which hold one
reference each; a callback or a send holds another one while it runs.  The last release frees it.

* `Context` is the object, with what points to it and with what happened to it: how often it was
  freed, and how often it was read or written after that.
* The steps are the functions of `quic.c`.  A callback or a send is entered and left, and
  `quic_connection_close` begins and ends, so that the others can come in between.
* `Counted` is the invariant: **the count is the number of holders, and the object is freed when
  there are none left**.
* **A context is freed once and not touched again, unless `ConnectionSetConfiguration` fails for a
  connection that is being accepted**: `contexts_counted`.
-/

namespace Tinc.Quic

open Function Run

/-! ## The object -/

/-- `quic_connection_t`, as far as its lifetime is concerned -/
structure Context where
  refcount : ℤ
  closing : Bool
  /-- `tinc_connection` is set. -/
  tincConnection : Bool
  /-- The handle `connection` is set. -/
  connection : Bool
  /-- `c->quic_context` points to the object. -/
  quicContext : Bool
  /-- MsQuic has yet to deliver `SHUTDOWN_COMPLETE`. -/
  msquic : Bool
  /-- the callbacks and sends that have acquired a reference -/
  inside : ℕ
  /-- A `quic_connection_close` is under way. -/
  closer : Bool
  frees : ℕ
  /-- the accesses after the object was freed -/
  faults : ℕ
  deriving DecidableEq, Repr

namespace Context

variable (x : Context)

/-- `xzalloc` and the initialisation; `connection` says whether there is a handle. -/
def new (connection : Bool) : Context where
  refcount := 2
  closing := false
  tincConnection := true
  connection := connection
  quicContext := true
  msquic := connection
  inside := 0
  closer := false
  frees := 0
  faults := 0

/-- A field is read or written. -/
def touch : Context := if x.frees = 0 then x else { x with faults := x.faults + 1 }

/-- `free` -/
def free : Context := { x with frees := x.frees + 1 }

/-- `qc_addref` -/
def qcAddref : Context := { x.touch with refcount := x.refcount + 1 }

/-- `qc_release` -/
def qcRelease : Context :=
  let x' := { x.touch with refcount := x.refcount - 1 }
  if x.refcount = 1 then x'.free else x'

/-- `qc_try_acquire`, after which a callback or a send runs, or returns at once.  If the flag is set
before the second test, the reference is released again, as when the callback or send is over. -/
def qcTryAcquire : Context :=
  if x.touch.closing then x.touch else { x.touch.qcAddref with inside := x.inside + 1 }

/-- `quic_connection_callback`, for events other than `SHUTDOWN_COMPLETE` -/
def connectionCallback : Context :=
  if !x.tincConnection && x.closing then x.touch else x.touch.qcTryAcquire

/-- `quic_stream_callback` -/
def streamCallback : Context :=
  if !x.tincConnection then x.touch else x.touch.qcTryAcquire

/-- `quic_send_meta`, `quic_send_packet` and `quic_send_keepalive` -/
def send : Context := if !x.quicContext then x else x.qcTryAcquire

/-- A callback or a send is over. -/
def leave : Context := { x with inside := x.inside - 1 }.qcRelease

/-- `quic_connection_close` up to the flag -/
def closeBegin : Context :=
  if !x.quicContext then x
  else if x.touch.closing then x.touch
  else { x.touch with closing := true, closer := true }

/-- The rest of `quic_connection_close` -/
def closeEnd : Context :=
  { x.touch with quicContext := false, tincConnection := false, closer := false }.qcRelease

/-- `quic_connection_close` without a break -/
def quicConnectionClose : Context :=
  if !x.closer && x.closeBegin.closer then x.closeBegin.closeEnd else x.closeBegin

/-- `SHUTDOWN_COMPLETE` -/
def shutdownComplete : Context :=
  { x.touch with connection := false, msquic := false }.qcRelease

/-- `quic_listener_callback`; `ok` is the result of `ConnectionSetConfiguration`.  The object is
freed, and then `free_connection` closes it. -/
def accept (ok : Bool) : Context :=
  if ok then new true else (new true).free.quicConnectionClose

/-- `quic_connection_open`; `ok` is the result of `ConnectionOpen`. -/
def connectionOpen (ok : Bool) : Context :=
  if ok then new true else { (new false).free with quicContext := false }

/-- `quic_connection_start`; where it fails, its callers close the connection. -/
def connectionStart (ok : Bool) : Context :=
  if !x.quicContext then x
  else if ok then x.touch else x.touch.quicConnectionClose

end Context

/-! ## Steps -/

/-- What happens to a context. -/
inductive ContextEvent where
  | accept (ok : Bool)
  | connectionOpen (ok : Bool)
  | connectionStart (ok : Bool)
  | connectionCallback
  | streamCallback
  | send
  | leave
  | closeBegin
  | closeEnd
  | shutdownComplete
  deriving DecidableEq, Repr

/-- One event of one context, if it is there. -/
def Context.step (x : Option Context) : ContextEvent → Option Context
  | .accept ok => some (accept ok)
  | .connectionOpen ok => some (connectionOpen ok)
  | .connectionStart ok => x.map (·.connectionStart ok)
  | .connectionCallback => x.map connectionCallback
  | .streamCallback => x.map streamCallback
  | .send => x.map send
  | .leave => x.map leave
  | .closeBegin => x.map closeBegin
  | .closeEnd => x.map closeEnd
  | .shutdownComplete => x.map shutdownComplete

/-- How the events come: MsQuic calls back until `SHUTDOWN_COMPLETE`, which comes once, and what
ends has begun. -/
def ContextEvent.Valid (x : Option Context) : ContextEvent → Prop
  | .accept _ | .connectionOpen _ => x = none
  | .connectionStart _ | .send | .closeBegin => True
  | .connectionCallback | .streamCallback | .shutdownComplete => x.any (·.msquic)
  | .leave => x.any (0 < ·.inside)
  | .closeEnd => x.any (·.closer)

/-- The contexts of all connections -/
abbrev Contexts := ℕ → Option Context

/-- One event of the context of connection `k`. -/
def Contexts.step (s : Contexts) (e : ℕ × ContextEvent) : Contexts :=
  update s e.1 (Context.step (s e.1) e.2)

def Contexts.init : Contexts := fun _ => none

/-! ## The invariant -/

variable {x : Context}

/-- The references that are held -/
def Context.holders (x : Context) : ℕ := x.quicContext.toNat + x.msquic.toNat + x.inside

lemma holders_of_quicContext {x : Context} (h : x.quicContext = true) : 0 < x.holders := by
  unfold Context.holders
  rw [h, Bool.toNat_true]
  omega

lemma holders_of_msquic {x : Context} (h : x.msquic = true) : 0 < x.holders := by
  unfold Context.holders
  rw [h, Bool.toNat_true]
  omega

/-- The count is the number of holders, of which there is one until the object is freed. -/
structure Counted (x : Context) : Prop where
  live : x.frees = 0 → x.refcount = x.holders ∧ 0 < x.holders
  freed : x.frees ≠ 0 → x.frees = 1 ∧ x.holders = 0
  nonneg : 0 ≤ x.refcount
  faults : x.faults = 0
  closer : x.closer = true → x.quicContext = true

lemma touch_eq (h : x.frees = 0) : x.touch = x := if_pos h

/-- A holder lets go. -/
lemma Counted.release (hf : x.frees = 0) (hr : x.refcount = x.holders + 1) (hfaults : x.faults = 0)
    (hcloser : x.closer = true → x.quicContext = true) : Counted x.qcRelease := by
  unfold Context.qcRelease
  rw [touch_eq hf]
  dsimp only
  split
  · rename_i hone
    have hzero : x.holders = 0 := by omega
    refine ⟨fun h => ?_, fun _ => ⟨?_, hzero⟩, ?_, hfaults, hcloser⟩
    · cases h
    · exact congrArg (· + 1) hf
    · change 0 ≤ x.refcount - 1
      omega
  · rename_i hmore
    refine ⟨fun _ => ?_, fun h => absurd hf h, ?_, hfaults, hcloser⟩
    · change x.refcount - 1 = (x.holders : ℤ) ∧ 0 < x.holders
      omega
    · change 0 ≤ x.refcount - 1
      omega

namespace Counted

lemma frees_eq (h : Counted x) (hpos : 0 < x.holders) : x.frees = 0 := by
  by_contra hne
  have hzero := (h.freed hne).2
  omega

/-- `qc_try_acquire` by somebody who knows that the object is there. -/
lemma qcTryAcquire (h : Counted x) (hf : x.frees = 0) : Counted x.qcTryAcquire := by
  unfold Context.qcTryAcquire Context.qcAddref
  rw [touch_eq hf, touch_eq hf]
  split
  · exact h
  · obtain ⟨hcount, hpos⟩ := h.live hf
    unfold Context.holders at hcount hpos
    refine ⟨fun _ => ⟨?_, ?_⟩, fun hne => absurd hf hne, ?_, h.faults, h.closer⟩
    · change x.refcount + 1 = ((x.quicContext.toNat + x.msquic.toNat + (x.inside + 1) : ℕ) : ℤ)
      omega
    · change 0 < x.quicContext.toNat + x.msquic.toNat + (x.inside + 1)
      omega
    · have hn := h.nonneg
      change 0 ≤ x.refcount + 1
      omega

lemma closeBegin (h : Counted x) : Counted x.closeBegin := by
  unfold Context.closeBegin
  split
  · exact h
  · rename_i hq
    have hq : x.quicContext = true := by simpa using hq
    have hf : x.frees = 0 := h.frees_eq (holders_of_quicContext hq)
    rw [touch_eq hf]
    split
    · exact h
    · exact ⟨h.live, h.freed, h.nonneg, h.faults, fun _ => hq⟩

lemma closeEnd (h : Counted x) (hc : x.closer = true) : Counted x.closeEnd := by
  have hq := h.closer hc
  have hf : x.frees = 0 := h.frees_eq (holders_of_quicContext hq)
  have hcount := (h.live hf).1
  unfold Context.closeEnd
  rw [touch_eq hf]
  refine Counted.release hf ?_ h.faults (fun hcl => by cases hcl)
  unfold Context.holders at hcount ⊢
  rw [hq] at hcount
  simp only [Bool.toNat_true, Bool.toNat_false] at hcount ⊢
  omega

lemma quicConnectionClose (h : Counted x) : Counted x.quicConnectionClose := by
  unfold Context.quicConnectionClose
  split
  · rename_i hc
    refine h.closeBegin.closeEnd ?_
    simp only [Bool.and_eq_true] at hc
    exact hc.2
  · exact h.closeBegin

lemma shutdownComplete (h : Counted x) (hm : x.msquic = true) : Counted x.shutdownComplete := by
  have hf : x.frees = 0 := h.frees_eq (holders_of_msquic hm)
  have hcount := (h.live hf).1
  unfold Context.shutdownComplete
  rw [touch_eq hf]
  refine Counted.release hf ?_ h.faults h.closer
  unfold Context.holders at hcount ⊢
  rw [hm] at hcount
  simp only [Bool.toNat_true, Bool.toNat_false] at hcount ⊢
  omega

lemma leave (h : Counted x) (hi : 0 < x.inside) : Counted x.leave := by
  have hf : x.frees = 0 := h.frees_eq (by unfold Context.holders; omega)
  have hcount := (h.live hf).1
  unfold Context.leave
  refine Counted.release hf ?_ h.faults h.closer
  unfold Context.holders at hcount ⊢
  dsimp only
  omega

end Counted

/-! ## Runs -/

/-- `ConnectionSetConfiguration` does not fail for a connection that is being accepted. -/
def ContextEvent.Configured : ContextEvent → Prop
  | .accept ok => ok = true
  | _ => True

lemma Counted.new : Counted (.new true) := by
  refine ⟨fun _ => ⟨rfl, by decide⟩, fun h => absurd rfl h, by decide, rfl, fun h => ?_⟩
  cases h

/-- Every event keeps the invariant. -/
lemma Counted.step {x : Option Context} (h : ∀ y ∈ x, Counted y) {e : ContextEvent}
    (hv : e.Valid x) (hc : e.Configured) : ∀ y ∈ Context.step x e, Counted y := by
  -- what an event does to a context that is there
  have hmap : ∀ {f : Context → Context}, (∀ y, x = some y → Counted y → Counted (f y)) →
      ∀ y ∈ x.map f, Counted y := by
    intro f hf y hy
    obtain ⟨z, hz, rfl⟩ := Option.map_eq_some_iff.mp hy
    exact hf z hz (h z hz)
  cases e with
  | accept ok =>
      rintro y ⟨rfl⟩
      obtain rfl : ok = true := hc
      exact .new
  | connectionOpen ok =>
      rintro y ⟨rfl⟩
      cases ok with
      | true => exact .new
      | false =>
          refine ⟨fun hf => ?_, fun _ => ⟨rfl, rfl⟩, by decide, rfl, fun hcl => ?_⟩
          · cases hf
          · cases hcl
  | connectionStart ok =>
      refine hmap fun y _ hy => ?_
      unfold Context.connectionStart
      split
      · exact hy
      · rename_i hq
        have hq : y.quicContext = true := by simpa using hq
        rw [touch_eq (hy.frees_eq (holders_of_quicContext hq))]
        split
        · exact hy
        · exact hy.quicConnectionClose
  | connectionCallback =>
      refine hmap fun y hx hy => ?_
      have hm : y.msquic = true := by simpa [ContextEvent.Valid, hx] using hv
      have hf : y.frees = 0 := hy.frees_eq (holders_of_msquic hm)
      unfold Context.connectionCallback
      rw [touch_eq hf]
      split
      · exact hy
      · exact hy.qcTryAcquire hf
  | streamCallback =>
      refine hmap fun y hx hy => ?_
      have hm : y.msquic = true := by simpa [ContextEvent.Valid, hx] using hv
      have hf : y.frees = 0 := hy.frees_eq (holders_of_msquic hm)
      unfold Context.streamCallback
      rw [touch_eq hf]
      split
      · exact hy
      · exact hy.qcTryAcquire hf
  | send =>
      refine hmap fun y _ hy => ?_
      unfold Context.send
      split
      · exact hy
      · rename_i hq
        have hq : y.quicContext = true := by simpa using hq
        exact hy.qcTryAcquire (hy.frees_eq (holders_of_quicContext hq))
  | leave =>
      refine hmap fun y hx hy => hy.leave ?_
      simpa [ContextEvent.Valid, hx] using hv
  | closeBegin => exact hmap fun y _ hy => hy.closeBegin
  | closeEnd =>
      refine hmap fun y hx hy => hy.closeEnd ?_
      simpa [ContextEvent.Valid, hx] using hv
  | shutdownComplete =>
      refine hmap fun y hx hy => hy.shutdownComplete ?_
      simpa [ContextEvent.Valid, hx] using hv

/-- What is expected of a context: it was not touched after it was freed, its count is not
negative, and it is freed once, namely when nobody holds it any more. -/
structure Context.Kept (x : Context) : Prop where
  untouched : x.faults = 0
  nonneg : 0 ≤ x.refcount
  atMostOnce : x.frees ≤ 1
  freed : x.quicContext = false → x.msquic = false → x.inside = 0 → x.frees = 1

lemma Counted.kept (h : Counted x) : x.Kept where
  untouched := h.faults
  nonneg := h.nonneg
  atMostOnce := by
    by_cases hf : x.frees = 0
    · omega
    · have hone := (h.freed hf).1
      omega
  freed := by
    intro hq hm hi
    by_contra hne
    have hzero : x.holders = 0 := by simp [Context.holders, hq, hm, hi]
    by_cases hf : x.frees = 0
    · have hpos := (h.live hf).2
      omega
    · exact hne (h.freed hf).1

/-- In every run in which `ConnectionSetConfiguration` does not fail for an accepted connection,
every context is kept. -/
theorem contexts_counted (events : List (ℕ × ContextEvent))
    (hv : Along Contexts.step (fun s e => e.2.Valid (s e.1)) .init events)
    (hc : Along Contexts.step (fun _ e => e.2.Configured) .init events) :
    ∀ k, ∀ x ∈ events.foldl Contexts.step .init k, x.Kept := by
  have hinit : ∀ k, ∀ x ∈ Contexts.init k, Counted x := by
    intro k x hx
    cases hx
  have h : ∀ k, ∀ x ∈ events.foldl Contexts.step .init k, Counted x := by
    refine Along.invariant (I := fun s : Contexts => ∀ k, ∀ x ∈ s k, Counted x) ?_ hinit
      (hv.and hc)
    rintro s ⟨k, e⟩ hs ⟨hve, hce⟩ k' x hx
    change x ∈ update s k (Context.step (s k) e) k' at hx
    by_cases hk : k' = k
    · subst hk
      rw [update_self] at hx
      exact Counted.step (hs k') hve hce x hx
    · rw [update_of_ne hk] at hx
      exact hs k' x hx
  exact fun k x hx => (h k x hx).kept

/-- A connection is accepted, a packet is being sent while the connection is closed and shut down,
and the send holds the last reference. -/
theorem contexts_counted_last_send :
    let events : List (ℕ × ContextEvent) :=
      [(0, .accept true), (0, .send), (0, .closeBegin), (0, .connectionCallback), (0, .closeEnd),
        (0, .shutdownComplete), (0, .leave)]
    ∃ x, events.foldl Contexts.step .init 0 = some x ∧ x.frees = 1 ∧ x.Kept := by
  intro events
  have hv : Along Contexts.step (fun s e => e.2.Valid (s e.1)) .init events :=
    ⟨rfl, trivial, trivial, rfl, rfl, rfl, rfl, trivial⟩
  have hc : Along Contexts.step (fun _ e => e.2.Configured) .init events :=
    ⟨rfl, trivial, trivial, trivial, trivial, trivial, trivial, trivial⟩
  exact ⟨_, rfl, rfl, contexts_counted events hv hc 0 _ rfl⟩

/-- The configuration of an accepted connection fails: `free_connection` closes what was freed. -/
theorem context_used_after_free : ¬ ∀ events : List (ℕ × ContextEvent),
    Along Contexts.step (fun s e => e.2.Valid (s e.1)) .init events →
      ∀ k, ∀ x ∈ events.foldl Contexts.step .init k, x.Kept := by
  intro h
  have hx := h [(0, .accept false)] ⟨rfl, trivial⟩ 0 (.accept false) rfl
  exact absurd hx.untouched (by decide)

end Tinc.Quic
