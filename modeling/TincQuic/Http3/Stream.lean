import TincQuic.Http3.Frames

/-!
# The control stream: wrapping and unwrapping meta data

`quic_send_meta` wraps a meta message in a DATA frame and hands it to the stream; HEADERS frames
are interleaved as decoys.  The stream delivers the bytes in order, in RECEIVE events whose
number, and whose buffers' number and size, the sender does not control.  The RECEIVE branch of
`quic_stream_callback` unwraps each buffer on its own.

* `Item` is what the sender puts on the stream, `wire` the bytes, `Item.message` the meta data.
* `unwrapLoop` is the loop over the frames of one buffer, and `receive` the bytes a sequence of
  events adds to the input buffer.
* **Whole frames are unwrapped exactly**: `receive_of_whole_frames`.
* **A frame that is cut is not**: `receive_split_frame`.  Nothing is carried over from one buffer
  to the next, so the two halves are taken for raw data.
-/

namespace Tinc.Http3

open Bytes

/-! ## The sender -/

/-- What goes over the control stream of one connection. -/
inductive Item where
  | data (message : List UInt8)
  | headers (config : Config) (rand : ℕ) (method : HttpMethod) (path authority : List UInt8)

/-- `send_buffer->Length = n`: the field of `QUIC_BUFFER` is a `uint32_t`. -/
def bufferLength (n : ℕ) : ℕ := n % 2 ^ 32

/-- The bytes of `quic_send_meta`, with masquerading and outside of an invitation.  Nothing is
sent if the frame cannot be made. -/
def quicSendMeta (message : List UInt8) : List UInt8 :=
  match createDataFrame message (message.length + 32) with
  | none => []
  | some frame => frame.take (bufferLength frame.length)

/-- The bytes an item puts on the stream. -/
def Item.wire : Item → List UInt8
  | .data message => quicSendMeta message
  | .headers config rand method path authority =>
      match createHeadersFrame config rand method path authority maxHeaderSize with
      | none => []
      | some frame => frame.take (bufferLength frame.length)

/-- The meta data an item carries. -/
def Item.message : Item → List UInt8
  | .data message => message
  | .headers .. => []

/-- The byte stream. -/
def wire (items : List Item) : List UInt8 := (items.map Item.wire).flatten

/-- The meta data in order. -/
def messages (items : List Item) : List UInt8 := (items.map Item.message).flatten

/-! ## The receiver -/

/-- A `QUIC_BUFFER` of a RECEIVE event; its length is a `uint32_t`. -/
structure Buffer where
  bytes : List UInt8
  length_lt : bytes.length < 2 ^ 32

/-- The `while(offset < len)` loop over the frames of one buffer, with the bytes added to
`c->inbuf` so far.  The offset stays below the length of the buffer and does not wrap. -/
def unwrapLoop (data : List UInt8) : ℕ → ℕ → List UInt8 → Option (List UInt8)
  | 0, _, _ => none
  | fuel + 1, offset, inbuf =>
      if offset < data.length then
        let frame := data.drop offset
        match parseDataFrame frame with
        | some (payload, headerLen) =>
            unwrapLoop data fuel (offset + (headerLen + payload.length)) (inbuf ++ payload)
        | none =>
            let headersFrameSize := parseHeadersFrame frame
            if headersFrameSize > 0 then unwrapLoop data fuel (offset + headersFrameSize) inbuf
            else if offset = 0 then some (inbuf ++ data)
            else some inbuf
      else some inbuf

/-- One buffer of a RECEIVE event. -/
def receiveBuffer (masquerading invitation : Bool) (inbuf : List UInt8) (b : Buffer) :
    Option (List UInt8) :=
  if masquerading ∧ b.bytes.length > 0 ∧ ¬ invitation then
    unwrapLoop b.bytes (b.bytes.length + 1) 0 inbuf
  else some (inbuf ++ b.bytes)

/-- A RECEIVE event. -/
def receiveEvent (masquerading invitation : Bool) (inbuf : List UInt8) (event : List Buffer) :
    Option (List UInt8) :=
  event.foldlM (receiveBuffer masquerading invitation) inbuf

/-- What a sequence of RECEIVE events adds to the input buffer of a connection that masquerades
and is not an invitation. -/
def receive (events : List (List Buffer)) : Option (List UInt8) :=
  events.foldlM (receiveEvent true false) []

lemma receive_eq_foldlM (events : List (List Buffer)) :
    receive events = events.flatten.foldlM (receiveBuffer true false) [] := by
  have h : ∀ inbuf, events.foldlM (receiveEvent true false) inbuf =
      events.flatten.foldlM (receiveBuffer true false) inbuf := by
    induction events with
    | nil => simp
    | cons event events ih =>
        intro inbuf
        simp only [List.foldlM_cons, List.flatten_cons, List.foldlM_append, receiveEvent, ih]
  exact h []

/-- The loop ends on any buffer, as every frame it takes has a header. -/
lemma unwrapLoop_isSome (data : List UInt8) (fuel offset : ℕ) (inbuf : List UInt8)
    (hpos : 0 < fuel) (hfuel : data.length < offset + fuel) :
    (unwrapLoop data fuel offset inbuf).isSome := by
  induction fuel generalizing offset inbuf with
  | zero => omega
  | succ fuel ih =>
      rw [unwrapLoop]
      split
      · dsimp only
        split
        · rename_i payload headerLen h
          have := parseDataFrame_pos h
          exact ih _ _ (by omega) (by omega)
        · split_ifs
          · exact ih _ _ (by omega) (by omega)
          · rfl
          · rfl
      · rfl

/-- Every sequence of events is processed to its end. -/
theorem receive_isSome (events : List (List Buffer)) : (receive events).isSome := by
  rw [receive_eq_foldlM]
  generalize events.flatten = buffers
  suffices ∀ inbuf, (buffers.foldlM (receiveBuffer true false) inbuf).isSome from this []
  induction buffers with
  | nil => simp
  | cons b buffers ih =>
      intro inbuf
      obtain ⟨inbuf', h⟩ : ∃ inbuf', receiveBuffer true false inbuf b = some inbuf' := by
        rw [receiveBuffer]
        split
        · exact Option.isSome_iff_exists.mp
            (unwrapLoop_isSome b.bytes _ 0 inbuf (by omega) (by omega))
        · exact ⟨_, rfl⟩
      simpa [h] using ih inbuf'

/-! ## Whole frames -/

/-- The frame of an item is on the wire as it was made: its length was not cut to 32 bits. -/
def Item.Fits : Item → Prop
  | .data message => message.length + 9 < 2 ^ 32
  | .headers .. => True

/-- What the parsers make of an item at the front of a buffer: the message of a DATA frame, or a
HEADERS frame to skip. -/
lemma parse_item {item : Item} (hf : item.Fits) (rest : List UInt8) :
    (item.wire = [] ∧ item.message = []) ∨
    (∃ headerLen, parseDataFrame (item.wire ++ rest) = some (item.message, headerLen) ∧
      item.wire.length = headerLen + item.message.length ∧ 2 ≤ headerLen) ∨
    (parseDataFrame (item.wire ++ rest) = none ∧
      parseHeadersFrame (item.wire ++ rest) = item.wire.length ∧ 2 ≤ item.wire.length ∧
      item.message = []) := by
  cases item with
  | data message =>
      by_cases hm : message = []
      · exact .inl ⟨by simp [Item.wire, quicSendMeta, createDataFrame, hm], hm⟩
      · obtain ⟨frame, hframe⟩ := createDataFrame_isSome hm
        have hle := length_createDataFrame hframe
        have hf : message.length + 9 < 2 ^ 32 := hf
        have hwire : Item.wire (.data message) = frame := by
          simp only [Item.wire, quicSendMeta, hframe, bufferLength]
          rw [Nat.mod_eq_of_lt (by omega), List.take_length]
        rw [hwire]
        exact .inr (.inl (parseDataFrame_createDataFrame hframe (by omega) rest))
  | headers config rand method path authority =>
      cases hframe : createHeadersFrame config rand method path authority maxHeaderSize with
      | none => exact .inl ⟨by simp [Item.wire, hframe], rfl⟩
      | some frame =>
          obtain ⟨h1, h2, h3, h4⟩ := parseHeadersFrame_createHeadersFrame hframe rest
          have hwire : Item.wire (.headers config rand method path authority) = frame := by
            simp only [Item.wire, hframe, bufferLength]
            rw [Nat.mod_eq_of_lt h4, List.take_length]
          rw [hwire]
          exact .inr (.inr ⟨h1, h2, h3, rfl⟩)

/-- Every iteration of the loop is over one item. -/
lemma unwrapLoop_items {data pre : List UInt8} {items : List Item} (hf : ∀ i ∈ items, i.Fits)
    (hd : data = pre ++ wire items) (fuel : ℕ) (hfuel : (wire items).length < fuel)
    (inbuf : List UInt8) :
    unwrapLoop data fuel pre.length inbuf = some (inbuf ++ messages items) := by
  induction items generalizing pre fuel inbuf with
  | nil =>
      obtain ⟨fuel, rfl⟩ : ∃ k, fuel = k + 1 := ⟨fuel - 1, by omega⟩
      simp [unwrapLoop, hd, wire, messages]
  | cons item items ih =>
      have hw : wire (item :: items) = item.wire ++ wire items := rfl
      have hm : messages (item :: items) = item.message ++ messages items := rfl
      have hd' : data = (pre ++ item.wire) ++ wire items := by rw [hd, hw, List.append_assoc]
      have hdrop : data.drop pre.length = item.wire ++ wire items := by rw [hd, hw]; simp
      have hlen : data.length = pre.length + (item.wire.length + (wire items).length) := by
        rw [hd, hw]
        simp
      rw [hw, List.length_append] at hfuel
      have ih := fun fuel hfuel => ih (fun i hi => hf i (by simp [hi])) hd' fuel hfuel
      obtain ⟨fuel, rfl⟩ : ∃ k, fuel = k + 1 := ⟨fuel - 1, by omega⟩
      rcases parse_item (hf item (by simp)) (wire items) with
        ⟨h1, h2⟩ | ⟨headerLen, h1, h2, h3⟩ | ⟨h1, h2, h3, h4⟩
      · have := ih (fuel + 1) (by omega) inbuf
        rw [hm, h2]
        simpa [h1] using this
      · have := ih fuel (by omega) (inbuf ++ item.message)
        rw [unwrapLoop, if_pos (by omega), hdrop]
        simp only [h1]
        rw [← h2, ← List.length_append, this, hm, List.append_assoc]
      · have := ih fuel (by omega) inbuf
        rw [unwrapLoop, if_pos (by omega), hdrop]
        simp only [h1, h2]
        rw [if_pos (by omega), ← List.length_append, this, hm, h4, List.nil_append]

/-- A buffer of whole frames adds their messages. -/
lemma receiveBuffer_items {b : Buffer} {items : List Item} (hf : ∀ i ∈ items, i.Fits)
    (hb : b.bytes = wire items) (inbuf : List UInt8) :
    receiveBuffer true false inbuf b = some (inbuf ++ messages items) := by
  have hloop := unwrapLoop_items hf (show b.bytes = [] ++ wire items from hb)
    (b.bytes.length + 1) (by rw [hb]; omega) inbuf
  by_cases hlen : b.bytes.length > 0
  · rw [receiveBuffer, if_pos ⟨rfl, hlen, by simp⟩]
    exact hloop
  · have hnil : b.bytes = [] := List.length_eq_zero_iff.mp (by omega)
    rw [receiveBuffer, if_neg (fun h => hlen h.2.1), ← hloop]
    simp [hnil, unwrapLoop]

lemma foldlM_items {buffers : List Buffer} {groups : List (List Item)}
    (hf : ∀ i ∈ groups.flatten, i.Fits) (hb : buffers.map Buffer.bytes = groups.map wire)
    (inbuf : List UInt8) :
    buffers.foldlM (receiveBuffer true false) inbuf =
      some (inbuf ++ messages groups.flatten) := by
  induction buffers generalizing groups inbuf with
  | nil =>
      obtain rfl : groups = [] := by simpa using hb.symm
      simp [messages]
  | cons b buffers ih =>
      obtain ⟨group, groups, rfl⟩ : ∃ g gs, groups = g :: gs := by
        cases groups with
        | nil => simp at hb
        | cons g gs => exact ⟨g, gs, rfl⟩
      simp only [List.map_cons, List.cons.injEq] at hb
      rw [List.foldlM_cons, receiveBuffer_items (fun i hi => hf i (by simp [hi])) hb.1]
      simp only [Option.bind_eq_bind, Option.bind_some]
      rw [ih (fun i hi => hf i (by
        rw [List.flatten_cons]
        exact List.mem_append_right _ hi)) hb.2]
      simp [messages]

lemma wire_flatten (groups : List (List Item)) :
    wire groups.flatten = (groups.map wire).flatten := by
  induction groups with
  | nil => rfl
  | cons group groups ih =>
      rw [List.flatten_cons, List.map_cons, List.flatten_cons, ← ih]
      simp only [wire, List.map_append, List.flatten_append]

/-- The buffers of the events, put one after the other, are the stream. -/
def Cut (items : List Item) (events : List (List Buffer)) : Prop :=
  (events.flatten.map Buffer.bytes).flatten = wire items

/-- No cut is inside a frame: every buffer holds whole frames. -/
def WholeFrames (items : List Item) (events : List (List Buffer)) : Prop :=
  ∃ groups : List (List Item), groups.flatten = items ∧
    events.flatten.map Buffer.bytes = groups.map wire

/-- If every buffer holds whole frames, and no frame is too long for a `QUIC_BUFFER`, the meta
data arrives exactly: after every event, what has been added to the input buffer is the
concatenation of the messages that have arrived by then. -/
theorem receive_of_whole_frames (items : List Item) (events : List (List Buffer))
    (hw : WholeFrames items events) (hf : ∀ i ∈ items, i.Fits) :
    receive events = some (messages items) ∧
    ∀ k, ∃ arrived, arrived <+: items ∧ Cut arrived (events.take k) ∧
      receive (events.take k) = some (messages arrived) := by
  obtain ⟨groups, rfl, hb⟩ := hw
  refine ⟨by rw [receive_eq_foldlM, foldlM_items hf hb, List.nil_append], fun k => ?_⟩
  -- the buffers of the first `k` events carry a prefix of the groups
  let n := (events.take k).flatten.length
  have hsplit : events.flatten = (events.take k).flatten ++ (events.drop k).flatten := by
    rw [← List.flatten_append, List.take_append_drop]
  have hbuf : (events.take k).flatten.map Buffer.bytes = (groups.take n).map wire := by
    rw [List.map_take, ← hb, hsplit, List.map_append]
    exact (List.take_left' (List.length_map _)).symm
  have hpre : (groups.take n).flatten <+: groups.flatten := by
    refine ⟨(groups.drop n).flatten, ?_⟩
    rw [← List.flatten_append, List.take_append_drop]
  refine ⟨(groups.take n).flatten, hpre, ?_, ?_⟩
  · rw [Cut, hbuf, wire_flatten]
  · rw [receive_eq_foldlM, foldlM_items (fun i hi => hf i (hpre.subset hi)) hbuf, List.nil_append]

/-- Two messages in one buffer, and an empty event. -/
theorem receive_two_frames :
    receive [[⟨[0x00, 0x01, 0x41, 0x00, 0x01, 0x42], by decide⟩], []] =
      some (messages [.data [0x41], .data [0x42]]) :=
  (receive_of_whole_frames [.data [0x41], .data [0x42]] _
    ⟨[[.data [0x41], .data [0x42]]], rfl, by decide⟩ (by simp [Item.Fits])).1

/-- A frame that is cut behind its type byte: the one-byte message arrives with its frame header
in front of it. -/
theorem receive_split_frame :
    Cut [.data [0x41]] [[⟨[0x00], by decide⟩], [⟨[0x01, 0x41], by decide⟩]] ∧
    receive [[⟨[0x00], by decide⟩], [⟨[0x01, 0x41], by decide⟩]] = some [0x00, 0x01, 0x41] ∧
    messages [.data [0x41]] = [0x41] := by
  refine ⟨?_, ?_, rfl⟩
  · unfold Cut
    decide
  · decide

end Tinc.Http3
