import Mathlib.Order.Bounds.Defs
import TincQuic.Http3.Stream
import TincQuic.Lib.Varint

/-!
# What the frame parsers accept

The parsers of `http3_frames.c` against the format of variable-length integers, for every buffer a
peer may send.

* **What is encoded comes back, except above 62 bits**: `varint_codec_iff`.  The encoder has no
  branch for a value that no encoding can hold.
* `IsFrame` is a frame of any type.  **A buffer is parsed as it is written, except behind a type
  above 255**: `frames_exact_iff`.  The type is stored in one byte.
* `frameLoop` is the loop of `quic_stream_callback` in its own 32-bit arithmetic, with the places it
  takes payloads from.  **It ends, and takes them in order from inside the buffer**:
  `frameLoop_total`.
-/

namespace Tinc.Http3

open Bytes Varint

/-! ## Integers -/

variable {buffer bs rest : List UInt8} {v n : ℕ}

/-- The two top bits of a byte, and the others. -/
lemma tag_eq (b : UInt8) : (b >>> 6).toNat = b.toNat / 64 := by
  rw [UInt8.toNat_shiftRight]
  exact Nat.shiftRight_eq_div_pow b.toNat 6

lemma mask_eq (b : UInt8) : (b &&& 0x3F).toNat = b.toNat % 64 := by
  rw [UInt8.toNat_and]
  exact Nat.and_two_pow_sub_one_eq_mod b.toNat 6

/-- The decoder computes the value of an integer of any length. -/
lemma decodeVarint_append (h : Encodes bs v) (rest : List UInt8) :
    decodeVarint (bs ++ rest) = some (v, bs.length) := by
  match bs with
  | [] => exact absurd h id
  | b :: bs =>
      obtain ⟨hlength, rfl⟩ := h
      have hlt : b.toNat / 64 < 4 := by
        have := b.toNat_lt
        omega
      unfold decodeVarint
      simp only [List.cons_append, mask_eq, tag_eq]
      generalize b.toNat % 64 = x at *
      generalize b.toNat / 64 = tag at *
      have hcases : tag = 0 ∨ tag = 1 ∨ tag = 2 ∨ tag = 3 := by omega
      rcases hcases with rfl | rfl | rfl | rfl
      · match bs, hlength with
        | [], _ => rfl
      · match bs, hlength with
        | [b1], _ => simp [shift_cons]
      · match bs, hlength with
        | [b1, b2, b3], _ => simp [shift_four]
      · match bs, hlength with
        | [b1, b2, b3, b4, b5, b6, b7], _ => simp [shift_eight]

/-- A buffer that ends before the integer does. -/
lemma decodeVarint_short {b : UInt8} {t : List UInt8} (h : ¬ 2 ^ (b.toNat / 64) ≤ t.length + 1) :
    decodeVarint (b :: t) = none := by
  have hlt : b.toNat / 64 < 4 := by
    have := b.toNat_lt
    omega
  unfold decodeVarint
  simp only [tag_eq]
  generalize b.toNat / 64 = tag at *
  have hcases : tag = 0 ∨ tag = 1 ∨ tag = 2 ∨ tag = 3 := by omega
  rcases hcases with rfl | rfl | rfl | rfl
  · simp at h
  · match t with
    | [] => rfl
    | _ :: _ => simp at h
  · match t with
    | [] | [_] | [_, _] => rfl
    | _ :: _ :: _ :: _ => simp at h
  · match t with
    | [] | [_] | [_, _] | [_, _, _] | [_, _, _, _] | [_, _, _, _, _] | [_, _, _, _, _, _] => rfl
    | _ :: _ :: _ :: _ :: _ :: _ :: _ :: _ => simp at h

/-- What the decoder accepts is an integer. -/
lemma decodeVarint_sound (h : decodeVarint buffer = some (v, n)) :
    ∃ bs rest, buffer = bs ++ rest ∧ bs.length = n ∧ Encodes bs v := by
  match buffer with
  | [] => simp [decodeVarint] at h
  | b :: t =>
      -- as many bytes as the first byte announces, if the decoder accepts the buffer
      have hlong : 2 ^ (b.toNat / 64) ≤ t.length + 1 := by
        by_contra hshort
        have hnone : decodeVarint (b :: t) = none := decodeVarint_short hshort
        rw [hnone] at h
        cases h
      have hpos := Nat.two_pow_pos (b.toNat / 64)
      have hsplit : b :: t = (b :: t.take (2 ^ (b.toNat / 64) - 1)) ++
          t.drop (2 ^ (b.toNat / 64) - 1) := by
        rw [List.cons_append, List.take_append_drop]
      have henc : Encodes (b :: t.take (2 ^ (b.toNat / 64) - 1))
          (extend (b.toNat % 64) (t.take (2 ^ (b.toNat / 64) - 1))) := by
        refine ⟨?_, rfl⟩
        rw [List.length_take]
        omega
      have hdec := decodeVarint_append henc (t.drop (2 ^ (b.toNat / 64) - 1))
      rw [← hsplit, h] at hdec
      obtain ⟨rfl, rfl⟩ := Prod.mk.inj (Option.some.inj hdec)
      exact ⟨_, _, hsplit, rfl, henc⟩

/-- **Decoding is exact.** -/
lemma decodeVarint_eq_some_iff : decodeVarint buffer = some (v, n) ↔
    ∃ bs rest, buffer = bs ++ rest ∧ bs.length = n ∧ Encodes bs v := by
  constructor
  · exact decodeVarint_sound
  · rintro ⟨bs, rest, rfl, rfl, h⟩
    exact decodeVarint_append h rest

/-- The codec is right for a value and a buffer of this size: what is written is the shortest
encoding and is read back, and what has no encoding is refused. -/
def CodecRight (value bufferSize : ℕ) : Prop :=
  (∀ enc, encodeVarint value bufferSize = some enc →
    (∀ rest, decodeVarint (enc ++ rest) = some (value, enc.length)) ∧
      IsLeast {n | CanHold n value} enc.length) ∧
  ((∀ n, ¬ CanHold n value) → encodeVarint value bufferSize = none)

/-- The encoder takes the first length that can hold the value. -/
lemma isLeast_length {value bufferSize : ℕ} {enc : List UInt8} (hv : value < 2 ^ 62)
    (h : encodeVarint value bufferSize = some enc) : IsLeast {n | CanHold n value} enc.length := by
  have hlength : enc.length = 1 ∧ value < 2 ^ 6 ∨ enc.length = 2 ∧ value < 2 ^ 14 ∧ 2 ^ 6 ≤ value ∨
      enc.length = 4 ∧ value < 2 ^ 30 ∧ 2 ^ 14 ≤ value ∨ enc.length = 8 ∧ 2 ^ 30 ≤ value := by
    unfold encodeVarint at h
    split_ifs at h <;> obtain rfl := Option.some.inj h <;> simp <;> omega
  constructor
  · rw [Set.mem_ofPred_eq, canHold_iff]
    omega
  · intro k hk
    rw [Set.mem_ofPred_eq, canHold_iff] at hk
    omega

/-- **The codec is right exactly below 62 bits**, or if the buffer has no room for the longest
encoding. -/
theorem varint_codec_iff (value : UInt64) (bufferSize : ℕ) :
    CodecRight value.toNat bufferSize ↔ value.toNat < 2 ^ 62 ∨ bufferSize < 8 := by
  constructor
  · intro h
    by_contra hlarge
    have hnone := h.2 fun n hn => by
      rw [canHold_iff] at hn
      omega
    obtain ⟨enc, henc⟩ : ∃ enc, encodeVarint value.toNat bufferSize = some enc :=
      encodeVarint_isSome (by omega)
    rw [henc] at hnone
    cases hnone
  · intro h
    refine ⟨fun enc henc => ?_, fun hnone => ?_⟩
    · have hv : value.toNat < 2 ^ 62 := by
        rcases h with h | h
        · exact h
        · -- eight bytes are needed from `2 ^ 30` on
          unfold encodeVarint at henc
          split_ifs at henc <;> omega
      exact ⟨fun rest => decodeVarint_encodeVarint henc hv rest, isLeast_length hv henc⟩
    · have hlarge : ¬ value.toNat < 2 ^ 62 := fun hv =>
        hnone 8 (canHold_iff.mpr (.inr (.inr (.inr ⟨rfl, hv⟩))))
      have hsize := h.resolve_left hlarge
      unfold encodeVarint
      split_ifs <;> first | rfl | omega

/-- `2 ^ 62` has no encoding, and eight bytes are written for it. -/
theorem varint_codec_overflow : ¬ CodecRight (4611686018427387904 : UInt64).toNat 8 := by
  intro h
  have hnone := h.2 fun n hn => by
    rw [canHold_iff] at hn
    have hvalue : (4611686018427387904 : UInt64).toNat = 2 ^ 62 := by decide
    omega
  exact absurd hnone (by decide)

/-! ## Frames -/

/-- The frame of this type with this payload, in any encoding of its type and its length. -/
def IsFrame (type : ℕ) (payload frame : List UInt8) : Prop :=
  ∃ t l, frame = t ++ l ++ payload ∧ Encodes t type ∧ Encodes l payload.length

variable {type type' size : ℕ} {payload payload' frame frame' rest' : List UInt8}

/-- At most one frame is at the beginning of a buffer. -/
lemma IsFrame.unique (h : IsFrame type payload frame) (h' : IsFrame type' payload' frame')
    (happend : frame ++ rest = frame' ++ rest') :
    type = type' ∧ payload = payload' ∧ frame = frame' := by
  obtain ⟨t, l, rfl, ht, hl⟩ := h
  obtain ⟨t', l', rfl, ht', hl'⟩ := h'
  simp only [List.append_assoc] at happend
  obtain ⟨rfl, rfl, htail⟩ := ht.unique ht' happend
  obtain ⟨rfl, hlength, htail⟩ := hl.unique hl' htail
  obtain ⟨rfl, -⟩ := List.append_inj htail hlength
  exact ⟨rfl, rfl, rfl⟩

/-- The header of a frame and what it announces. -/
lemma decodeFrameHeader_eq_some_iff {header : FrameHeader} :
    decodeFrameHeader buffer = some (header, n) ↔
      ∃ t l rest type, buffer = t ++ l ++ rest ∧ Encodes t type ∧ Encodes l header.length ∧
        header.type = UInt8.ofNat type ∧ n = t.length + l.length := by
  constructor
  · intro h
    simp only [decodeFrameHeader] at h
    split at h
    · cases h
    · simp only [Option.bind_eq_bind, Option.bind_eq_some_iff, Option.some.injEq, Prod.mk.injEq,
        Prod.exists] at h
      obtain ⟨type, k, hk, length, m, hm, rfl, rfl⟩ := h
      obtain ⟨t, rest, rfl, rfl, ht⟩ := decodeVarint_sound hk
      rw [List.drop_left] at hm
      obtain ⟨l, rest, rfl, rfl, hl⟩ := decodeVarint_sound hm
      exact ⟨t, l, rest, type, (List.append_assoc ..).symm, ht, hl, rfl, rfl⟩
  · rintro ⟨t, l, rest, type, rfl, ht, hl, htype, rfl⟩
    have h1 := ht.pos
    have h2 := hl.pos
    have hdec := decodeVarint_append ht (l ++ rest)
    have hdec' := decodeVarint_append hl rest
    rw [decodeFrameHeader, if_neg (by simp only [List.length_append]; omega), List.append_assoc,
      hdec]
    simp only [Option.bind_eq_bind, Option.bind_some, List.drop_left, hdec', ← htype]

lemma ofNat_eq_iff (type : ℕ) (b : UInt8) : UInt8.ofNat type = b ↔ type % 256 = b.toNat := by
  rw [← UInt8.toNat_inj, UInt8.toNat_ofNat']

/-- What a parser accepts for a type that is stored as `b`. -/
lemma decodeFrameHeader_frame_iff {b : UInt8} : (∃ header, decodeFrameHeader buffer =
      some (header, n) ∧ header.type = b ∧ n + header.length ≤ buffer.length ∧
      (buffer.drop n).take header.length = payload) ↔
    ∃ type frame rest, buffer = frame ++ rest ∧ IsFrame type payload frame ∧
      type % 256 = b.toNat ∧ frame.length = n + payload.length := by
  constructor
  · rintro ⟨header, hheader, htype, hfits, rfl⟩
    obtain ⟨t, l, rest, type, rfl, ht, hl, hbyte, rfl⟩ := decodeFrameHeader_eq_some_iff.mp hheader
    simp only [List.length_append] at hfits
    rw [← List.length_append, List.drop_left]
    have hlength : (rest.take header.length).length = header.length := by
      rw [List.length_take]
      omega
    refine ⟨type, t ++ l ++ rest.take header.length, rest.drop header.length, ?_,
      ⟨t, l, rfl, ht, hlength.symm ▸ hl⟩, ?_, ?_⟩
    · rw [List.append_assoc (t ++ l), List.take_append_drop]
    · rw [← ofNat_eq_iff, ← hbyte, htype]
    · rw [List.length_append, List.length_append]
  · rintro ⟨type, frame, rest, rfl, ⟨t, l, rfl, ht, hl⟩, htype, hlength⟩
    obtain rfl : n = (t ++ l).length := by
      simp only [List.length_append] at hlength ⊢
      omega
    refine ⟨⟨b, payload.length⟩, ?_, rfl, ?_, ?_⟩
    · refine decodeFrameHeader_eq_some_iff.mpr ⟨t, l, payload ++ rest, type, ?_, ht, hl, ?_, ?_⟩
      · rw [List.append_assoc (t ++ l)]
      · exact ((ofNat_eq_iff type b).mpr htype).symm
      · exact List.length_append
    · simp only [List.length_append]
      omega
    · rw [List.append_assoc (t ++ l), List.drop_left, List.take_left]

/-- What is accepted as a DATA frame is a frame whose type ends in a zero byte. -/
lemma parseDataFrame_eq_some_iff : parseDataFrame buffer = some (payload, n) ↔
    ∃ type frame rest, buffer = frame ++ rest ∧ IsFrame type payload frame ∧ type % 256 = 0 ∧
      frame.length = n + payload.length := by
  refine Iff.trans ?_ (decodeFrameHeader_frame_iff (b := frameData))
  constructor
  · intro h
    simp only [parseDataFrame] at h
    split at h
    · cases h
    · simp only [Option.bind_eq_bind, Option.bind_eq_some_iff, Prod.exists] at h
      obtain ⟨header, k, hheader, h⟩ := h
      split_ifs at h with htype hfits
      obtain ⟨rfl, rfl⟩ := Prod.mk.inj (Option.some.inj h)
      exact ⟨header, hheader, not_not.mp htype, not_lt.mp hfits, rfl⟩
  · rintro ⟨header, hheader, htype, hfits, rfl⟩
    have hpos := decodeFrameHeader_pos hheader
    rw [parseDataFrame, if_neg (by omega), hheader]
    simp only [Option.bind_eq_bind, Option.bind_some, htype, ne_eq, not_true_eq_false, if_false]
    rw [if_neg (not_lt.mpr hfits)]

/-- What is accepted as a HEADERS frame is a frame whose type ends in a byte 1. -/
lemma parseHeadersFrame_eq_iff : parseHeadersFrame buffer = size ∧ size ≠ 0 ↔
    ∃ type payload frame rest, buffer = frame ++ rest ∧ IsFrame type payload frame ∧
      type % 256 = 1 ∧ size = frame.length := by
  have hframe := fun n payload => @decodeFrameHeader_frame_iff buffer n payload frameHeaders
  constructor
  · rintro ⟨h, hsize⟩
    unfold parseHeadersFrame at h
    split at h
    · omega
    · split at h
      · omega
      · rename_i header n hheader
        split_ifs at h with htype hfits
        · omega
        · omega
        · obtain ⟨type, frame, rest, hbuffer, hf, hmod, hlength⟩ :=
            (hframe n _).mp ⟨header, hheader, not_not.mp htype, not_lt.mp hfits, rfl⟩
          refine ⟨type, _, frame, rest, hbuffer, hf, hmod, ?_⟩
          rw [hlength, List.length_take, List.length_drop]
          omega
  · rintro ⟨type, payload, frame, rest, hbuffer, hf, hmod, rfl⟩
    have hlong : payload.length ≤ frame.length := by
      obtain ⟨t, l, rfl, -⟩ := hf
      simp only [List.length_append]
      omega
    obtain ⟨header, hheader, htype, hfits, hpayload⟩ := (hframe (frame.length - payload.length)
      payload).mpr ⟨type, frame, rest, hbuffer, hf, hmod, by omega⟩
    have hpos := decodeFrameHeader_pos hheader
    have hlength : header.length = payload.length := by
      rw [← hpayload, List.length_take, List.length_drop]
      omega
    rw [parseHeadersFrame, if_neg (by omega), hheader]
    dsimp only
    rw [if_neg (not_not.mpr htype), if_neg (not_lt.mpr hfits)]
    omega

/-- Both parsers take the buffer for what stands at its beginning, and neither can be cheated by a
length that wraps. -/
def FramesExact (buffer : List UInt8) : Prop :=
  (∀ payload n, parseDataFrame buffer = some (payload, n) ↔
    ∃ frame rest, buffer = frame ++ rest ∧ IsFrame 0 payload frame ∧
      frame.length = n + payload.length) ∧
  (∀ size, parseHeadersFrame buffer = size ∧ size ≠ 0 ↔
    ∃ payload frame rest, buffer = frame ++ rest ∧ IsFrame 1 payload frame ∧
      size = frame.length) ∧
  ∀ header n, decodeFrameHeader buffer = some (header, n) → n + header.length < 2 ^ 64

/-- A frame of an unknown type whose last byte is that of a DATA or a HEADERS frame. -/
def Disguised (buffer : List UInt8) : Prop :=
  ∃ type payload frame rest, buffer = frame ++ rest ∧ IsFrame type payload frame ∧ 256 ≤ type ∧
    (type % 256 = 0 ∨ type % 256 = 1)

/-- No length that can be written lets the sum wrap. -/
lemma decodeFrameHeader_lt {header : FrameHeader}
    (h : decodeFrameHeader buffer = some (header, n)) : n + header.length < 2 ^ 64 := by
  obtain ⟨t, l, rest, type, -, ht, hl, -, rfl⟩ := decodeFrameHeader_eq_some_iff.mp h
  have h1 := ht.le
  have h2 := hl.le
  have h3 := hl.lt_top
  omega

/-- **Parsing is exact unless the buffer begins with a frame in disguise.**  The type is stored in
one byte before it is compared. -/
theorem frames_exact_iff (buffer : List UInt8) : FramesExact buffer ↔ ¬ Disguised buffer := by
  constructor
  · rintro ⟨hdata, hheaders, -⟩ ⟨type, payload, frame, rest, hbuffer, hf, hlarge, hmod⟩
    rcases hmod with hmod | hmod
    · obtain ⟨n, hn⟩ : ∃ n, frame.length = n + payload.length := by
        obtain ⟨t, l, rfl, -⟩ := hf
        exact ⟨(t ++ l).length, List.length_append⟩
      obtain ⟨frame', rest', hbuffer', hf', -⟩ := (hdata payload n).mp
        (parseDataFrame_eq_some_iff.mpr ⟨type, frame, rest, hbuffer, hf, hmod, hn⟩)
      have htype := (hf.unique hf' (hbuffer.symm.trans hbuffer')).1
      omega
    · obtain ⟨payload', frame', rest', hbuffer', hf', -⟩ := (hheaders frame.length).mp
        (parseHeadersFrame_eq_iff.mpr ⟨type, payload, frame, rest, hbuffer, hf, hmod, rfl⟩)
      have htype := (hf.unique hf' (hbuffer.symm.trans hbuffer')).1
      omega
  · intro hplain
    -- what ends in the byte of a known type is of that type
    have hsmall : ∀ type payload frame rest, buffer = frame ++ rest → IsFrame type payload frame →
        type % 256 = 0 ∨ type % 256 = 1 → type < 256 := by
      intro type payload frame rest hbuffer hf hmod
      by_contra hlarge
      exact hplain ⟨type, payload, frame, rest, hbuffer, hf, not_lt.mp hlarge, hmod⟩
    refine ⟨fun payload n => ?_, fun size => ?_, fun header n => decodeFrameHeader_lt⟩
    · rw [parseDataFrame_eq_some_iff]
      constructor
      · rintro ⟨type, frame, rest, hbuffer, hf, hmod, hn⟩
        have hlt := hsmall type payload frame rest hbuffer hf (.inl hmod)
        obtain rfl : type = 0 := by omega
        exact ⟨frame, rest, hbuffer, hf, hn⟩
      · rintro ⟨frame, rest, hbuffer, hf, hn⟩
        exact ⟨0, frame, rest, hbuffer, hf, rfl, hn⟩
    · rw [parseHeadersFrame_eq_iff]
      constructor
      · rintro ⟨type, payload, frame, rest, hbuffer, hf, hmod, hn⟩
        have hlt := hsmall type payload frame rest hbuffer hf (.inr hmod)
        obtain rfl : type = 1 := by omega
        exact ⟨payload, frame, rest, hbuffer, hf, hn⟩
      · rintro ⟨payload, frame, rest, hbuffer, hf, hn⟩
        exact ⟨1, payload, frame, rest, hbuffer, hf, rfl, hn⟩

/-- An empty frame of type 256 is taken for a DATA frame. -/
theorem frame_disguised_as_data : ¬ FramesExact [0x41, 0x00, 0x00] := by
  rintro ⟨hdata, -⟩
  have hparse : parseDataFrame [0x41, 0x00, 0x00] = some ([], 3) := by decide
  obtain ⟨frame, rest, hbuffer, ⟨t, l, rfl, ht, hl⟩, -⟩ := (hdata [] 3).mp hparse
  have htype : Encodes [0x41, 0x00] 256 := ⟨by decide, by decide⟩
  have happend : t ++ (l ++ [] ++ rest) = [0x41, 0x00] ++ [0x00] := by
    rw [← List.append_assoc, ← List.append_assoc]
    exact hbuffer.symm
  exact absurd (ht.unique htype happend).2.1 (by decide)

/-! ## The loop over the frames -/

/-- A frame that the loop takes: where it begins, what is added to the offset, and, if it is a DATA
frame, where its payload begins and how long that is. -/
structure Taken where
  offset : ℕ
  size : ℕ
  payload : Option (ℕ × ℕ)

/-- The `while(offset < len)` loop of `quic_stream_callback` with its `uint32_t` offset: the frames
it takes, and the offset where it stops.  Where no round is left there is no result. -/
def frameLoop (data : List UInt8) : ℕ → ℕ → Option (List Taken × ℕ)
  | 0, _ => none
  | fuel + 1, offset =>
      if offset < data.length then
        let frame := data.drop offset
        match parseDataFrame frame with
        | some (payload, headerLen) =>
            let frameSize := headerLen + payload.length
            (frameLoop data fuel ((offset + frameSize) % 2 ^ 32)).map fun r =>
              (⟨offset, frameSize, some (offset + headerLen, payload.length)⟩ :: r.1, r.2)
        | none =>
            let headersFrameSize := parseHeadersFrame frame
            if headersFrameSize > 0 then
              (frameLoop data fuel ((offset + headersFrameSize) % 2 ^ 32)).map fun r =>
                (⟨offset, headersFrameSize, none⟩ :: r.1, r.2)
            else some ([], offset)
      else some ([], offset)

/-- Where the payloads are, in the order they are added in. -/
def places (frames : List Taken) : List (ℕ × ℕ) := frames.filterMap Taken.payload

/-- The part of a buffer at this place. -/
def slice (data : List UInt8) (place : ℕ × ℕ) : List UInt8 := (data.drop place.1).take place.2

/-- What is added to the input buffer: the payloads, or everything if there is no frame. -/
def addedBytes (data : List UInt8) (frames : List Taken) : List UInt8 :=
  if frames = [] then data else ((places frames).map (slice data)).flatten

/-- From `offset` on, frame follows upon frame up to `last`, and none of them ends outside of the
buffer. -/
inductive Follow (len : ℕ) : ℕ → List Taken → ℕ → Prop
  | nil {offset : ℕ} : offset ≤ len → Follow len offset [] offset
  | cons {t : Taken} {frames : List Taken} {last : ℕ} : 0 < t.size → t.offset + t.size ≤ len →
      (∀ p ∈ t.payload, t.offset < p.1 ∧ p.1 + p.2 ≤ t.offset + t.size) →
      Follow len (t.offset + t.size) frames last → Follow len t.offset (t :: frames) last

variable {len offset last : ℕ} {frames : List Taken}

/-- What follows is behind `offset`, and inside the buffer. -/
lemma Follow.inside (h : Follow len offset frames last) : offset ≤ last ∧ last ≤ len ∧
    (∀ t ∈ frames, offset ≤ t.offset ∧ 0 < t.size ∧ t.offset + t.size ≤ len) ∧
    ∀ p ∈ places frames, offset < p.1 ∧ p.1 + p.2 ≤ len := by
  induction h with
  | nil hle => exact ⟨le_rfl, hle, by simp, by simp [places]⟩
  | @cons t frames last hpos hle hpayload _ ih =>
      obtain ⟨h1, h2, h3, h4⟩ := ih
      refine ⟨by omega, h2, fun t' ht' => ?_, fun p hp => ?_⟩
      · rcases List.mem_cons.mp ht' with rfl | ht'
        · exact ⟨le_rfl, hpos, hle⟩
        · have := h3 t' ht'
          omega
      · obtain ⟨t', ht', hp'⟩ := List.mem_filterMap.mp hp
        rcases List.mem_cons.mp ht' with rfl | ht'
        · have := hpayload p hp'
          omega
        · have := h4 p (List.mem_filterMap.mpr ⟨t', ht', hp'⟩)
          omega

/-- The frames do not overlap, and neither do the payloads. -/
lemma Follow.disjoint (h : Follow len offset frames last) :
    frames.Pairwise (fun t t' => t.offset + t.size ≤ t'.offset) ∧
      (places frames).Pairwise fun p q => p.1 + p.2 < q.1 := by
  induction h with
  | nil => exact ⟨.nil, .nil⟩
  | @cons t frames last _ _ hpayload h ih =>
      obtain ⟨-, -, hframes, hplaces⟩ := h.inside
      refine ⟨List.pairwise_cons.mpr ⟨fun t' ht' => (hframes t' ht').1, ih.1⟩, ?_⟩
      unfold places
      rw [List.filterMap_cons]
      split
      · exact ih.2
      · rename_i p hp
        refine List.pairwise_cons.mpr ⟨fun q hq => ?_, ih.2⟩
        have h1 := hpayload p hp
        have h2 := hplaces q hq
        omega

/-- The loop ends, frame follows upon frame, and the bytes added are those of `unwrapLoop`, whose
offset is not reduced. -/
lemma frameLoop_spec (data : List UInt8) (hlen : data.length < 2 ^ 32) (fuel offset : ℕ)
    (hle : offset ≤ data.length) (hfuel : data.length < offset + fuel) :
    ∃ frames last, frameLoop data fuel offset = some (frames, last) ∧
      Follow data.length offset frames last ∧
      ∀ inbuf, unwrapLoop data fuel offset inbuf = some (inbuf ++
        if offset = 0 then addedBytes data frames
        else ((places frames).map (slice data)).flatten) := by
  induction fuel generalizing offset with
  | zero => omega
  | succ fuel ih =>
      unfold frameLoop unwrapLoop
      by_cases hlt : offset < data.length
      · simp only [hlt, if_true]
        cases hdata : parseDataFrame (data.drop offset) with
        | some r =>
            obtain ⟨payload, headerLen⟩ := r
            obtain ⟨type, frame, rest, hframe, hf, -, hsize⟩ := parseDataFrame_eq_some_iff.mp hdata
            have hpos := parseDataFrame_pos hdata
            have hfits : offset + (headerLen + payload.length) ≤ data.length := by
              have := congrArg List.length hframe
              rw [List.length_drop, List.length_append] at this
              omega
            obtain ⟨frames, last, hloop, hfollow, hadded⟩ :=
              ih (offset + (headerLen + payload.length)) hfits (by omega)
            have hslice : slice data (offset + headerLen, payload.length) = payload := by
              obtain ⟨t, l, rfl, -⟩ := hf
              obtain rfl : headerLen = (t ++ l).length := by
                simp only [List.length_append] at hsize ⊢
                omega
              rw [slice, ← List.drop_drop, hframe, List.append_assoc (t ++ l), List.drop_left,
                List.take_left]
            dsimp only
            rw [Nat.mod_eq_of_lt (by omega), hloop]
            refine ⟨_, _, rfl, .cons (t := ⟨offset, _, _⟩) (by dsimp only; omega) hfits ?_ hfollow,
              fun inbuf => ?_⟩
            · rintro p ⟨⟩
              dsimp only
              omega
            · rw [hadded, if_neg (by omega), List.append_assoc]
              simp [addedBytes, places, hslice]
        | none =>
            dsimp only
            by_cases hheaders : parseHeadersFrame (data.drop offset) > 0
            · obtain ⟨type, payload, frame, rest, hframe, -, -, hsize⟩ :=
                parseHeadersFrame_eq_iff.mp ⟨rfl, hheaders.ne'⟩
              rw [if_pos hheaders, hsize]
              rw [hsize] at hheaders
              have hfits : offset + frame.length ≤ data.length := by
                have := congrArg List.length hframe
                rw [List.length_drop, List.length_append] at this
                omega
              obtain ⟨frames, last, hloop, hfollow, hadded⟩ :=
                ih (offset + frame.length) hfits (by omega)
              rw [Nat.mod_eq_of_lt (by omega), hloop]
              refine ⟨_, _, rfl, .cons (t := ⟨offset, _, _⟩) hheaders hfits (by simp) hfollow,
                fun inbuf => ?_⟩
              rw [if_pos (by omega), hadded, if_neg (by omega)]
              simp [addedBytes, places]
            · rw [if_neg hheaders]
              refine ⟨_, _, rfl, .nil hle, fun inbuf => ?_⟩
              rw [if_neg hheaders]
              by_cases hzero : offset = 0
              · simp [hzero, addedBytes]
              · simp [hzero, places]
      · simp only [hlt, if_false]
        refine ⟨_, _, rfl, .nil hle, fun inbuf => ?_⟩
        obtain rfl : offset = data.length := by omega
        simp [addedBytes, places]

/-- **The loop is total.**  On every buffer it ends; the offset only grows, up to the length of the
buffer, so that its 32 bits are enough; and the payloads it adds are in the buffer, one behind the
other. -/
theorem frameLoop_total (b : Buffer) :
    ∃ frames last, frameLoop b.bytes (b.bytes.length + 1) 0 = some (frames, last) ∧
      last ≤ b.bytes.length ∧
      (∀ t ∈ frames, 0 < t.size ∧ t.offset + t.size ≤ b.bytes.length) ∧
      frames.Pairwise (fun t t' => t.offset + t.size ≤ t'.offset) ∧
      (∀ p ∈ places frames, p.1 + p.2 ≤ b.bytes.length) ∧
      (places frames).Pairwise (fun p q => p.1 + p.2 < q.1) ∧
      ∀ inbuf, unwrapLoop b.bytes (b.bytes.length + 1) 0 inbuf =
        some (inbuf ++ addedBytes b.bytes frames) := by
  obtain ⟨frames, last, hloop, hfollow, hadded⟩ :=
    frameLoop_spec b.bytes b.length_lt (b.bytes.length + 1) 0 (Nat.zero_le _) (by omega)
  obtain ⟨-, hlast, hframes, hplaces⟩ := hfollow.inside
  obtain ⟨hapart, hbehind⟩ := hfollow.disjoint
  exact ⟨frames, last, hloop, hlast, fun t ht => (hframes t ht).2, hapart,
    fun p hp => (hplaces p hp).2, hbehind, hadded⟩

end Tinc.Http3
