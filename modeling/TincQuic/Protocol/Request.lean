import TincQuic.Http3.Stream
import TincQuic.Lib.CText

/-!
# `protocol.c` and `meta.c`: from bytes to request handlers

The bytes of a connection are cut into lines, every line is a request, and a request goes through
a gate, the test of its number against `c->allow_request`, before its handler sees it.

* `gate` is the part of `receive_request` before the handler is called.  It is a pure function.
* `Dispatcher` is everything else the code needs to know of a connection; the handlers are a
  field of it, so that what is shown here holds whatever they do.
* `receiveMeta` is the loop of `receive_meta` over the lines of the input buffer, and
  `quicReceive` a RECEIVE event of `quic_stream_callback`.
-/

namespace Tinc

open Bytes CText

/-- The requests that have a handler in `request_handlers`. -/
inductive Request where
  | id | ack | termreq | ping | pong | addSubnet | delSubnet | addEdge | delEdge | control
  | udpInfo | mtuInfo | inviteJoin | inviteData | inviteCsr | inviteCert
  deriving DecidableEq, Repr

/-- `request_t` -/
def Request.number : Request → ℤ
  | id => 0
  | ack => 4
  | termreq => 7
  | ping => 8
  | pong => 9
  | addSubnet => 10
  | delSubnet => 11
  | addEdge => 12
  | delEdge => 13
  | control => 18
  | udpInfo => 21
  | mtuInfo => 22
  | inviteJoin => 23
  | inviteData => 24
  | inviteCsr => 25
  | inviteCert => 26

/-- `ALL`, the value of `allow_request` that admits every request. -/
def allRequests : ℤ := -1

/-- `request_handlers[reqno]`: the entries that are not null. -/
def requestHandlers : ℤ → Option Request
  | 0 => some .id
  | 4 => some .ack
  | 7 => some .termreq
  | 8 => some .ping
  | 9 => some .pong
  | 10 => some .addSubnet
  | 11 => some .delSubnet
  | 12 => some .addEdge
  | 13 => some .delEdge
  | 18 => some .control
  | 21 => some .udpInfo
  | 22 => some .mtuInfo
  | 23 => some .inviteJoin
  | 24 => some .inviteData
  | 25 => some .inviteCsr
  | 26 => some .inviteCert
  | _ => none

lemma requestHandlers_number (r : Request) : requestHandlers r.number = some r := by
  cases r <;> rfl

lemma number_of_requestHandlers {n : ℤ} {r : Request} (h : requestHandlers n = some r) :
    r.number = n := by
  unfold requestHandlers at h
  split at h <;> first | (obtain rfl := Option.some.inj h; rfl) | simp at h

/-! ## The gate -/

/-- How `receive_request` decides about a line before any handler is called. -/
inductive Verdict where
  /-- a reply of the proxy, which is swallowed -/
  | skipped
  | refused
  | admitted (r : Request)
  deriving DecidableEq, Repr

/-- The reply of an HTTP proxy: `some true` grants the request, `some false` rejects it. -/
def proxyReply (request : Text) : Option Bool :=
  if request.head? = none ∨ request.head? = some 13 then some true
  else if (request.take 9).map toLower = ascii "http/1.1 " then
    some (((request.drop 9).take 3) = ascii "200")
  else none

/-- The test of the request number. -/
def checkRequest (allow : ℤ) (request : Text) : Verdict :=
  let reqno := atoi request
  if reqno ≠ 0 ∨ request.head? = some 48 then
    match requestHandlers reqno with
    | none => .refused
    | some r =>
        if allow ≠ allRequests ∧ allow ≠ reqno ∧
            ¬ (allow = Request.id.number ∧ reqno = Request.inviteJoin.number) then .refused
        else .admitted r
  else .refused

/-- `receive_request` up to the call of the handler. -/
def gate (proxyHttp outgoing : Bool) (allow : ℤ) (request : Text) : Verdict :=
  if outgoing ∧ proxyHttp ∧ allow = Request.id.number then
    match proxyReply request with
    | some true => .skipped
    | some false => .refused
    | none => checkRequest allow request
  else checkRequest allow request

/-- A request is admitted if its number or every number is, and INVITE_JOIN also instead of ID. -/
lemma gate_admitted {proxyHttp outgoing : Bool} {allow : ℤ} {request : Text} {r : Request}
    (h : gate proxyHttp outgoing allow request = .admitted r) :
    allow = allRequests ∨ allow = r.number ∨ (allow = Request.id.number ∧ r = .inviteJoin) := by
  have hcheck : checkRequest allow request = .admitted r := by
    unfold gate at h
    split at h
    · split at h
      · cases h
      · cases h
      · exact h
    · exact h
  unfold checkRequest at hcheck
  dsimp only at hcheck
  split at hcheck
  · split at hcheck
    · cases hcheck
    · rename_i r' hr'
      split at hcheck
      · cases hcheck
      · rename_i hallow
        obtain rfl := Verdict.admitted.inj hcheck
        have hnum := number_of_requestHandlers hr'
        by_contra hne
        rw [not_or, not_or, hnum] at hne
        refine hallow ⟨hne.1, hne.2.1, fun hid => hne.2.2 ⟨hid.1, ?_⟩⟩
        rw [← hnum] at hid
        exact Option.some.inj ((requestHandlers_number r').symm.trans (by rw [hid.2]; rfl))
  · cases hcheck

/-! ## The dispatcher -/

/-- The view that the dispatching code has of a connection with state `σ`. -/
structure Dispatcher (σ : Type) where
  proxyHttp : Bool
  masquerading : Bool
  outgoing : σ → Bool
  allowRequest : σ → ℤ
  invitation : σ → Bool
  handle : Request → σ → Text → σ × Bool

/-- What happened to a line: the handler that got it, if any, and the result of
`receive_request`. -/
structure Obs where
  request : Text
  handler : Option Request
  ok : Bool

/-- A connection with the bytes of its input buffer. -/
structure Link (σ : Type) where
  state : σ
  inbuf : List UInt8

variable {σ : Type} (d : Dispatcher σ)

/-- The gate in a state. -/
def Dispatcher.gate (s : σ) (request : Text) : Verdict :=
  Tinc.gate d.proxyHttp (d.outgoing s) (d.allowRequest s) request

/-- `receive_request` -/
def receiveRequest (s : σ) (request : Text) : σ × Obs :=
  match d.gate s request with
  | .skipped => (s, ⟨request, none, true⟩)
  | .refused => (s, ⟨request, none, false⟩)
  | .admitted r =>
      let (s', ok) := d.handle r s request
      (s', ⟨request, some r, ok⟩)

/-- What `receive_meta` leaves: the connection, its result, and what happened to the lines. -/
structure Received (σ : Type) where
  link : Link σ
  ok : Bool
  trace : List Obs

/-- The loop of `receive_meta`.  `line` is what `buffer_readline` has passed on its way to the next
newline; a line that is not complete stays in the buffer. -/
def metaLoop (s : σ) (line : List UInt8) : List UInt8 → Received σ
  | [] => ⟨⟨s, line⟩, true, []⟩
  | b :: rest =>
      if b = 10 then
        let (s', obs) := receiveRequest d s (cstr line)
        if obs.ok then
          let r := metaLoop s' [] rest
          { r with trace := obs :: r.trace }
        else ⟨⟨s', rest⟩, false, [obs]⟩
      else metaLoop s (line ++ [b]) rest

/-- `receive_meta` on a QUIC connection. -/
def receiveMeta (l : Link σ) : Received σ := metaLoop d l.state [] l.inbuf

/-- The input buffer after the frames of a RECEIVE event were unwrapped into it. -/
def unwrapEvent (s : σ) (inbuf : List UInt8) (event : List Http3.Buffer) : List UInt8 :=
  (Http3.receiveEvent d.masquerading (d.invitation s) inbuf event).getD inbuf

/-- `QUIC_STREAM_EVENT_RECEIVE`: the result of `receive_meta` is logged and dropped. -/
def quicReceive (l : Link σ) (event : List Http3.Buffer) : Received σ :=
  receiveMeta d ⟨l.state, unwrapEvent d l.state l.inbuf event⟩

/-- What happens to the lines of a connection over a sequence of RECEIVE events. -/
def quicTrace : Link σ → List (List Http3.Buffer) → List Obs
  | _, [] => []
  | l, event :: events =>
      (quicReceive d l event).trace ++ quicTrace (quicReceive d l event).link events

end Tinc
