import TincQuic.Daemon.Run

/-!
# What a rejected connection still executes

`receive_meta` stops at the first line that `receive_request` returns false for.  On the control
socket the caller then terminates the connection.  `quic_stream_callback` does not: it logs the
result, and the next RECEIVE event goes on where this one stopped.

* `Quiet` is the property one would want: behind the first rejection no line gets to a handler.
* `scan` looks ahead in a buffer, with the gate only, for the line that would get to a handler.
* **The property holds exactly if** no later event brings such a line: `quiet_iff`.  It fails on
  a connection whose second event is an ordinary ID: `rejected_then_handled`.
-/

namespace Tinc

open Bytes CText

variable {σ : Type} (d : Dispatcher σ)

/-- Behind a line for which `receive_request` returned false, no line gets to a handler. -/
def Quiet (trace : List Obs) : Prop :=
  ∀ before obs after, trace = before ++ obs :: after → obs.ok = false →
    ∀ o ∈ after, o.handler = none

/-- The lines of a buffer as the gate sees them in the state `s`: whether one of them would get
to a handler before the first refusal, and what is left behind the refusal. -/
def scan (s : σ) (line : List UInt8) : List UInt8 → Bool × List UInt8
  | [] => (false, line)
  | b :: rest =>
      if b = 10 then
        match d.gate s (cstr line) with
        | .skipped => scan s [] rest
        | .refused => (false, rest)
        | .admitted _ => (true, rest)
      else scan s (line ++ [b]) rest

/-- None of the events brings a line that the gate admits in the state of the connection. -/
def AllRefused : Link σ → List (List Http3.Buffer) → Prop
  | _, [] => True
  | l, event :: events =>
      let inbuf := unwrapEvent d l.state l.inbuf event
      (scan d l.state [] inbuf).1 = false ∧
        AllRefused ⟨l.state, (scan d l.state [] inbuf).2⟩ events

/-- From the event on in which a line is rejected, the gate refuses what arrives. -/
def RefusedAfterRejection : Link σ → List (List Http3.Buffer) → Prop
  | _, [] => True
  | l, event :: events =>
      if (quicReceive d l event).ok then
        RefusedAfterRejection (quicReceive d l event).link events
      else AllRefused d (quicReceive d l event).link events

/-! ## One event -/

variable {d}

/-- A rejection is the last thing that happens in an event. -/
lemma metaLoop_trace (s : σ) (line bytes : List UInt8) :
    ((metaLoop d s line bytes).ok = true ∧ ∀ o ∈ (metaLoop d s line bytes).trace, o.ok = true) ∨
    ((metaLoop d s line bytes).ok = false ∧
      ∃ init o, (metaLoop d s line bytes).trace = init ++ [o] ∧ o.ok = false ∧
        ∀ o' ∈ init, o'.ok = true) := by
  induction bytes generalizing s line with
  | nil => exact .inl ⟨rfl, by simp [metaLoop]⟩
  | cons b rest ih =>
      rw [metaLoop]
      split
      · cases hr : receiveRequest d s (cstr line) with
        | mk s' obs =>
            cases hok : obs.ok with
            | false => exact .inr ⟨by simp [hok], [], obs, by simp [hok], hok, by simp⟩
            | true =>
                simp only [hok, if_true]
                rcases ih s' [] with ⟨h1, h2⟩ | ⟨h1, init, o, h2, h3, h4⟩
                · exact .inl ⟨h1, by simpa [hok] using h2⟩
                · exact .inr ⟨h1, obs :: init, o, by simp [h2], h3, by simpa [hok] using h4⟩
      · exact ih s (line ++ [b])

/-- `scan` tells whether a handler is called in an event, and if none is, what the event
leaves. -/
lemma metaLoop_scan (s : σ) (line bytes : List UInt8) :
    ((scan d s line bytes).1 = false ∧ (∀ o ∈ (metaLoop d s line bytes).trace, o.handler = none) ∧
      (metaLoop d s line bytes).link = ⟨s, (scan d s line bytes).2⟩) ∨
    ((scan d s line bytes).1 = true ∧
      ∃ o ∈ (metaLoop d s line bytes).trace, o.handler ≠ none) := by
  induction bytes generalizing line with
  | nil => exact .inl ⟨rfl, by simp [metaLoop], rfl⟩
  | cons b rest ih =>
      rw [metaLoop, scan]
      split
      · cases hg : d.gate s (cstr line) with
        | skipped =>
            simp only [receiveRequest, hg, if_true]
            rcases ih [] with ⟨h1, h2, h3⟩ | ⟨h1, o, h2, h3⟩
            · exact .inl ⟨h1, by simpa using h2, h3⟩
            · exact .inr ⟨h1, o, by simp [h2], h3⟩
        | refused => exact .inl ⟨rfl, by simp [receiveRequest, hg], by simp [receiveRequest, hg]⟩
        | admitted r =>
            refine .inr ⟨rfl, ?_⟩
            simp only [receiveRequest, hg]
            split
            · exact ⟨_, List.mem_cons_self, by simp⟩
            · exact ⟨_, List.mem_cons_self, by simp⟩
      · exact ih (line ++ [b])

/-! ## All events -/

lemma quiet_append_of_ok {a b : List Obs} (h : ∀ o ∈ a, o.ok = true) :
    Quiet (a ++ b) ↔ Quiet b := by
  constructor
  · intro hq before obs after he hok
    exact hq (a ++ before) obs after (by rw [he, List.append_assoc]) hok
  · intro hq before obs after he hok
    -- the rejected line is not in `a`, so the split is inside `b`
    rcases List.append_eq_append_iff.mp he with ⟨c, hb, hc⟩ | ⟨c, ha, hc⟩
    · exact hq c obs after hc hok
    · cases c with
      | nil => exact hq [] obs after (by simpa using hc.symm) hok
      | cons x c =>
          obtain ⟨rfl, -⟩ : obs = x ∧ _ := by simpa using hc
          have := h obs (by simp [ha])
          simp [this] at hok

lemma quiet_append_of_rejection {init b : List Obs} {o : Obs} (ho : o.ok = false)
    (h : ∀ o' ∈ init, o'.ok = true) : Quiet (init ++ [o] ++ b) ↔ ∀ o' ∈ b, o'.handler = none := by
  rw [List.append_assoc, quiet_append_of_ok h]
  constructor
  · intro hq
    exact hq [] o b rfl ho
  · intro hb before obs after he _ o' ho'
    cases before with
    | nil =>
        obtain ⟨-, rfl⟩ : o = obs ∧ b = after := by simpa using he
        exact hb o' ho'
    | cons x before =>
        obtain ⟨-, rfl⟩ : o = x ∧ b = before ++ obs :: after := by simpa using he
        exact hb o' (by simp [ho'])

lemma allRefused_iff (l : Link σ) (events : List (List Http3.Buffer)) :
    AllRefused d l events ↔ ∀ o ∈ quicTrace d l events, o.handler = none := by
  induction events generalizing l with
  | nil => simp [AllRefused, quicTrace]
  | cons event events ih =>
      rw [AllRefused, quicTrace, quicReceive, receiveMeta]
      rcases metaLoop_scan l.state [] (unwrapEvent d l.state l.inbuf event) with
        ⟨h1, h2, h3⟩ | ⟨h1, o, h2, h3⟩
      · rw [h3, ih]
        simp only [h1, true_and, List.mem_append]
        constructor
        · rintro h o (ho | ho)
          · exact h2 o ho
          · exact h o ho
        · exact fun h o ho => h o (.inr ho)
      · simp only [h1, Bool.true_eq_false, false_and, false_iff]
        exact fun h => h3 (h o (by simp [h2]))

/-- For every connection, whatever the handlers do, and every sequence of RECEIVE events: behind
the first rejection no line gets to a handler if and only if the gate refuses, in the state that
the rejection left, the lines that later events bring. -/
theorem quiet_iff (l : Link σ) (events : List (List Http3.Buffer)) :
    Quiet (quicTrace d l events) ↔ RefusedAfterRejection d l events := by
  induction events generalizing l with
  | nil => simp [RefusedAfterRejection, quicTrace, Quiet]
  | cons event events ih =>
      rw [RefusedAfterRejection, quicTrace]
      rcases metaLoop_trace (d := d) l.state [] (unwrapEvent d l.state l.inbuf event) with
        ⟨h1, h2⟩ | ⟨h1, init, o, h2, h3, h4⟩
      · have h1 : (quicReceive d l event).ok = true := h1
        have h2 : ∀ o ∈ (quicReceive d l event).trace, o.ok = true := h2
        rw [if_pos h1, quiet_append_of_ok h2, ih]
      · have h1 : (quicReceive d l event).ok = false := h1
        have h2 : (quicReceive d l event).trace = init ++ [o] := h2
        rw [if_neg (by simp [h1]), h2, quiet_append_of_rejection h3 h4, allRefused_iff]

/-! ## The daemon's connections -/

/-- How connection `c` of a daemon is dispatched. -/
def Daemon.dispatcher (config : Config) (masquerading : Bool) (c : ConnId) : Dispatcher Daemon where
  proxyHttp := config.proxyHttp
  masquerading := masquerading
  outgoing := fun d => (d.conn c).outgoing ≠ none
  allowRequest := fun d => (d.conn c).allowRequest
  invitation := fun d => (d.conn c).invitation
  handle := fun r d request => handler r d c request

/-- A daemon `a` with a connection that was just accepted. -/
def acceptedLink : Link Daemon :=
  ⟨(Daemon.init (.plain (ascii "a")) id).step (.connectionAdd 0 { name := ascii "<unknown>" }), []⟩

/-- Two events: a request that does not exist, and then an ID. -/
def unknownThenId : List (List Http3.Buffer) :=
  [[⟨ascii "99\n", by decide⟩], [⟨ascii "0 b 17.7\n", by decide⟩]]

/-- `receive_request` rejects the first line, and `id_h` gets the second. -/
theorem rejected_then_handled :
    ¬ Quiet (quicTrace (Daemon.dispatcher (.plain (ascii "a")) false 0) acceptedLink
      unknownThenId) := by
  have ht : (quicTrace (Daemon.dispatcher (.plain (ascii "a")) false 0) acceptedLink
      unknownThenId).map (fun o => (o.handler, o.ok)) = [(none, false), (some .id, true)] := by
    decide +kernel
  obtain ⟨o₁, t, htrace, ho₁, ht⟩ := List.map_eq_cons_iff.mp ht
  obtain ⟨o₂, t, rfl, ho₂, -⟩ := List.map_eq_cons_iff.mp ht
  intro hq
  have h := hq [] o₁ (o₂ :: t) htrace (congrArg Prod.snd ho₁) o₂ (by simp)
  rw [show o₂.handler = some .id from congrArg Prod.fst ho₂] at h
  simp at h

end Tinc
