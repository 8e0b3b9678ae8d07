import TincQuic.Lib.Bytes

/-!
# `http3_frames.c`: HTTP/3 frames for masquerading

A frame is a type and a length, both QUIC variable-length integers, and a payload.  The daemon
wraps meta messages in DATA frames and sends HEADERS frames as decoys.

* The encoders return what they write, and `none` where the source returns 0.
* **Round trips**: `decodeVarint_encodeVarint`, `decodeFrameHeader_encodeFrameHeader`,
  `parseDataFrame_createDataFrame`, `parseHeadersFrame_createHeadersFrame`, each with arbitrary
  bytes behind the frame.
-/

namespace Tinc.Http3

open Bytes

/-! ## Variable-length integers -/

/-- `http3_encode_varint`, into a buffer of `bufferSize` bytes. -/
def encodeVarint (value bufferSize : ℕ) : Option (List UInt8) :=
  if bufferSize = 0 then none
  else if value < 64 then some [UInt8.ofNat value]
  else if value < 16384 then
    if bufferSize < 2 then none
    else some [(0x40 : UInt8) ||| UInt8.ofNat (value >>> 8), UInt8.ofNat value]
  else if value < 1073741824 then
    if bufferSize < 4 then none
    else some [(0x80 : UInt8) ||| UInt8.ofNat (value >>> 24), UInt8.ofNat (value >>> 16),
      UInt8.ofNat (value >>> 8), UInt8.ofNat value]
  else
    if bufferSize < 8 then none
    else some [(0xC0 : UInt8) ||| UInt8.ofNat (value >>> 56), UInt8.ofNat (value >>> 48),
      UInt8.ofNat (value >>> 40), UInt8.ofNat (value >>> 32), UInt8.ofNat (value >>> 24),
      UInt8.ofNat (value >>> 16), UInt8.ofNat (value >>> 8), UInt8.ofNat value]

/-- `http3_decode_varint`: the value and the number of bytes consumed. -/
def decodeVarint (buffer : List UInt8) : Option (ℕ × ℕ) :=
  match buffer with
  | [] => none
  | b0 :: rest =>
      let x := (b0 &&& 0x3F).toNat
      match (b0 >>> 6).toNat, rest with
      | 0, _ => some (x, 1)
      | 1, b1 :: _ => some (x <<< 8 ||| b1.toNat, 2)
      | 2, b1 :: b2 :: b3 :: _ =>
          some (x <<< 24 ||| b1.toNat <<< 16 ||| b2.toNat <<< 8 ||| b3.toNat, 4)
      | 3, b1 :: b2 :: b3 :: b4 :: b5 :: b6 :: b7 :: _ =>
          some (x <<< 56 ||| b1.toNat <<< 48 ||| b2.toNat <<< 40 ||| b3.toNat <<< 32 |||
            b4.toNat <<< 24 ||| b5.toNat <<< 16 ||| b6.toNat <<< 8 ||| b7.toNat, 8)
      | _, _ => none

/-- The four length classes carry their class in the two top bits of the first byte, and the rest
of that byte survives the mask. -/
lemma tag_byte (n : ℕ) (hn : n < 64) :
    ((UInt8.ofNat n) >>> 6).toNat = 0 ∧ ((UInt8.ofNat n) &&& 0x3F).toNat = n ∧
    ((0x40 ||| UInt8.ofNat n) >>> 6).toNat = 1 ∧ ((0x40 ||| UInt8.ofNat n) &&& 0x3F).toNat = n ∧
    ((0x80 ||| UInt8.ofNat n) >>> 6).toNat = 2 ∧ ((0x80 ||| UInt8.ofNat n) &&& 0x3F).toNat = n ∧
    ((0xC0 ||| UInt8.ofNat n) >>> 6).toNat = 3 ∧
      ((0xC0 ||| UInt8.ofNat n) &&& 0x3F).toNat = n := by
  revert n
  decide

/-- Shifting the bytes into place one after the other. -/
lemma shift_cons (x : ℕ) (b : UInt8) : x <<< 8 ||| b.toNat = x * 256 + b.toNat :=
  shiftLeft_or_eq x b.toNat_lt

lemma shift_four (x : ℕ) (b1 b2 b3 : UInt8) :
    x <<< 24 ||| b1.toNat <<< 16 ||| b2.toNat <<< 8 ||| b3.toNat =
      ((x * 256 + b1.toNat) * 256 + b2.toNat) * 256 + b3.toNat := by
  rw [← shift_cons, ← shift_cons, ← shift_cons]
  simp only [Nat.shiftLeft_or_distrib, ← Nat.shiftLeft_add]

lemma shift_eight (x : ℕ) (b1 b2 b3 b4 b5 b6 b7 : UInt8) :
    x <<< 56 ||| b1.toNat <<< 48 ||| b2.toNat <<< 40 ||| b3.toNat <<< 32 ||| b4.toNat <<< 24 |||
        b5.toNat <<< 16 ||| b6.toNat <<< 8 ||| b7.toNat =
      ((((((x * 256 + b1.toNat) * 256 + b2.toNat) * 256 + b3.toNat) * 256 + b4.toNat) * 256 +
        b5.toNat) * 256 + b6.toNat) * 256 + b7.toNat := by
  simp only [← shift_cons]
  simp only [Nat.shiftLeft_or_distrib, ← Nat.shiftLeft_add]

/-- Decoding reads back any value below `2 ^ 62`, whatever follows. -/
theorem decodeVarint_encodeVarint {value bufferSize : ℕ} {enc : List UInt8}
    (h : encodeVarint value bufferSize = some enc) (hv : value < 2 ^ 62) (rest : List UInt8) :
    decodeVarint (enc ++ rest) = some (value, enc.length) := by
  unfold encodeVarint at h
  split at h
  · simp at h
  split at h
  · rename_i h1
    obtain rfl := Option.some.inj h
    obtain ⟨t0, t1, -⟩ := tag_byte value h1
    simp [decodeVarint, t0, t1]
  split at h
  · rename_i h1 h2
    split at h
    · simp at h
    obtain rfl := Option.some.inj h
    obtain ⟨-, -, t0, t1, -⟩ := tag_byte (value >>> 8)
      (by rw [Nat.shiftRight_eq_div_pow]; omega)
    simp only [decodeVarint, List.cons_append, t0, t1, shift_cons]
    simp [Nat.shiftRight_eq_div_pow]
    omega
  split at h
  · rename_i h1 h2 h3
    split at h
    · simp at h
    obtain rfl := Option.some.inj h
    obtain ⟨-, -, -, -, t0, t1, -⟩ := tag_byte (value >>> 24)
      (by rw [Nat.shiftRight_eq_div_pow]; omega)
    simp only [decodeVarint, List.cons_append, t0, t1, shift_four]
    simp [Nat.shiftRight_eq_div_pow]
    omega
  · split at h
    · simp at h
    obtain rfl := Option.some.inj h
    obtain ⟨-, -, -, -, -, -, t0, t1⟩ := tag_byte (value >>> 56)
      (by rw [Nat.shiftRight_eq_div_pow]; omega)
    simp only [decodeVarint, List.cons_append, t0, t1, shift_eight]
    simp [Nat.shiftRight_eq_div_pow]
    omega

/-- An encoding has one byte at least, and eight at most. -/
lemma length_encodeVarint {value bufferSize : ℕ} {enc : List UInt8}
    (h : encodeVarint value bufferSize = some enc) : 1 ≤ enc.length ∧ enc.length ≤ 8 := by
  unfold encodeVarint at h
  split_ifs at h <;> obtain rfl := Option.some.inj h <;> simp

lemma encodeVarint_isSome {value bufferSize : ℕ} (hb : 8 ≤ bufferSize) :
    ∃ enc, encodeVarint value bufferSize = some enc := by
  unfold encodeVarint
  split_ifs <;> first | exact ⟨_, rfl⟩ | omega

/-- Decoding consumes something. -/
lemma decodeVarint_pos {buffer : List UInt8} {value n : ℕ}
    (h : decodeVarint buffer = some (value, n)) : 1 ≤ n := by
  unfold decodeVarint at h
  split at h
  · simp at h
  · dsimp only at h
    split at h <;> simp only [reduceCtorEq, Option.some.injEq, Prod.mk.injEq] at h <;> omega

/-! ## Frame headers -/

/-- `http3_frame_header_t` -/
structure FrameHeader where
  type : UInt8
  length : ℕ
  deriving DecidableEq, Repr

/-- `HTTP3_FRAME_DATA` -/
def frameData : UInt8 := 0x00

/-- `HTTP3_FRAME_HEADERS` -/
def frameHeaders : UInt8 := 0x01

/-- `http3_encode_frame_header` -/
def encodeFrameHeader (type : UInt8) (length bufferSize : ℕ) : Option (List UInt8) :=
  if bufferSize < 2 then none
  else do
    let t ← encodeVarint type.toNat bufferSize
    let l ← encodeVarint length (bufferSize - t.length)
    some (t ++ l)

/-- `http3_decode_frame_header`: the header and its length. -/
def decodeFrameHeader (buffer : List UInt8) : Option (FrameHeader × ℕ) :=
  if buffer.length < 2 then none
  else do
    let (type, typeLen) ← decodeVarint buffer
    let (length, lengthLen) ← decodeVarint (buffer.drop typeLen)
    some (⟨UInt8.ofNat type, length⟩, typeLen + lengthLen)

lemma length_encodeFrameHeader {type : UInt8} {length bufferSize : ℕ} {hdr : List UInt8}
    (h : encodeFrameHeader type length bufferSize = some hdr) : 2 ≤ hdr.length := by
  simp only [encodeFrameHeader] at h
  split at h
  · simp at h
  simp only [Option.bind_eq_bind, Option.bind_eq_some_iff, Option.some.injEq] at h
  obtain ⟨t, ht, l, hl, rfl⟩ := h
  have h1 := length_encodeVarint ht
  have h2 := length_encodeVarint hl
  rw [List.length_append]
  omega

/-- A frame header is read back, whatever follows. -/
theorem decodeFrameHeader_encodeFrameHeader {type : UInt8} {length bufferSize : ℕ}
    {hdr : List UInt8} (h : encodeFrameHeader type length bufferSize = some hdr)
    (hl : length < 2 ^ 62) (rest : List UInt8) :
    decodeFrameHeader (hdr ++ rest) = some (⟨type, length⟩, hdr.length) := by
  have hlen := length_encodeFrameHeader h
  simp only [encodeFrameHeader] at h
  split at h
  · simp at h
  simp only [Option.bind_eq_bind, Option.bind_eq_some_iff, Option.some.injEq] at h
  obtain ⟨t, ht, l, hl', rfl⟩ := h
  have htype : type.toNat < 2 ^ 62 := by
    have := type.toNat_lt
    omega
  have h1 := decodeVarint_encodeVarint ht htype (l ++ rest)
  have h2 := decodeVarint_encodeVarint hl' hl rest
  rw [decodeFrameHeader, if_neg (by simp at hlen ⊢; omega), List.append_assoc, h1]
  simp [h2]

lemma decodeFrameHeader_pos {buffer : List UInt8} {header : FrameHeader} {n : ℕ}
    (h : decodeFrameHeader buffer = some (header, n)) : 2 ≤ n := by
  simp only [decodeFrameHeader] at h
  split at h
  · simp at h
  simp only [Option.bind_eq_bind, Option.bind_eq_some_iff, Option.some.injEq,
    Prod.mk.injEq, Prod.exists] at h
  obtain ⟨_, t, ht, _, l, hl, -, rfl⟩ := h
  have h1 := decodeVarint_pos ht
  have h2 := decodeVarint_pos hl
  omega

/-! ## DATA frames -/

/-- `http3_create_data_frame` -/
def createDataFrame (data : List UInt8) (frameSize : ℕ) : Option (List UInt8) :=
  if data.length = 0 ∨ frameSize < data.length + 16 then none
  else do
    let header ← encodeFrameHeader frameData data.length frameSize
    some (header ++ data)

/-- `http3_parse_data_frame`: the payload, and the length of the header before it. -/
def parseDataFrame (frame : List UInt8) : Option (List UInt8 × ℕ) :=
  if frame.length < 2 then none
  else do
    let (header, headerLen) ← decodeFrameHeader frame
    if header.type ≠ frameData then none
    else if headerLen + header.length > frame.length then none
    else some ((frame.drop headerLen).take header.length, headerLen)

lemma parseDataFrame_pos {frame payload : List UInt8} {headerLen : ℕ}
    (h : parseDataFrame frame = some (payload, headerLen)) : 2 ≤ headerLen := by
  simp only [parseDataFrame] at h
  split at h
  · simp at h
  simp only [Option.bind_eq_bind, Option.bind_eq_some_iff, Prod.exists] at h
  obtain ⟨header, n, hd, h⟩ := h
  split_ifs at h
  obtain ⟨-, rfl⟩ := Prod.mk.inj (Option.some.inj h)
  exact decodeFrameHeader_pos hd

/-- A DATA frame is read back, whatever follows. -/
theorem parseDataFrame_createDataFrame {data frame : List UInt8} {frameSize : ℕ}
    (h : createDataFrame data frameSize = some frame) (hd : data.length < 2 ^ 62)
    (rest : List UInt8) : ∃ headerLen, parseDataFrame (frame ++ rest) = some (data, headerLen) ∧
      frame.length = headerLen + data.length ∧ 2 ≤ headerLen := by
  simp only [createDataFrame] at h
  split at h
  · simp at h
  simp only [Option.bind_eq_bind, Option.bind_eq_some_iff, Option.some.injEq] at h
  obtain ⟨hdr, hh, rfl⟩ := h
  have hlen := length_encodeFrameHeader hh
  have hdec := decodeFrameHeader_encodeFrameHeader hh hd (data ++ rest)
  refine ⟨hdr.length, ?_, by simp, hlen⟩
  rw [parseDataFrame, if_neg (by simp; omega), List.append_assoc, hdec]
  simp

/-- A non-empty message always fits into the buffer `quic_send_meta` allocates. -/
lemma createDataFrame_isSome {data : List UInt8} (hd : data ≠ []) :
    ∃ frame, createDataFrame data (data.length + 32) = some frame := by
  have hpos : 0 < data.length := List.length_pos_iff.mpr hd
  have htype : encodeVarint frameData.toNat (data.length + 32) = some [0] := by
    rw [encodeVarint, if_neg (by omega), if_pos (by decide)]
    rfl
  obtain ⟨l, hl⟩ : ∃ l, encodeVarint data.length (data.length + 32 - 1) = some l :=
    encodeVarint_isSome (by omega)
  refine ⟨[0] ++ l ++ data, ?_⟩
  rw [createDataFrame, if_neg (by omega), encodeFrameHeader, if_neg (by omega), htype]
  simp only [Option.bind_eq_bind, Option.bind_some, List.length_singleton, hl]

/-- What `quic_send_meta` sends is at most nine bytes longer than the message. -/
lemma length_createDataFrame {data frame : List UInt8} {frameSize : ℕ}
    (h : createDataFrame data frameSize = some frame) : frame.length ≤ data.length + 9 := by
  simp only [createDataFrame] at h
  split at h
  · simp at h
  rename_i hsize
  simp only [encodeFrameHeader, Option.bind_eq_bind, Option.bind_eq_some_iff,
    Option.some.injEq] at h
  obtain ⟨hdr, hh, rfl⟩ := h
  rw [if_neg (by omega)] at hh
  simp only [Option.bind_eq_some_iff, Option.some.injEq] at hh
  obtain ⟨t, ht, l, hl, rfl⟩ := hh
  have hl8 := length_encodeVarint hl
  rw [encodeVarint, if_neg (by omega), if_pos (by decide)] at ht
  obtain rfl := Option.some.inj ht
  simp
  omega

/-! ## HEADERS frames -/

/-- `HTTP3_MAX_HEADER_SIZE` -/
def maxHeaderSize : ℕ := 2048

/-- `user_agent_type_t` -/
inductive UserAgentType where
  | chrome | firefox | safari | edge | random
  deriving DecidableEq, Repr

/-- `http_method_t` -/
inductive HttpMethod where
  | get | post
  deriving DecidableEq, Repr

/-- The part of `http3_config_t` that a HEADERS frame depends on. -/
structure Config where
  userAgent : UserAgentType
  customUserAgent : Option (List UInt8)

/-- `user_agent_strings`, by the index `http3_get_user_agent` computes. -/
def userAgentStrings : ℕ → List UInt8
  | 0 => ascii ("Mozilla/5.0 (Windows NT 10.0; Win64; x64) AppleWebKit/537.36 " ++
      "(KHTML, like Gecko) Chrome/120.0.0.0 Safari/537.36")
  | 1 => ascii "Mozilla/5.0 (Windows NT 10.0; Win64; x64; rv:121.0) Gecko/20100101 Firefox/121.0"
  | 2 => ascii ("Mozilla/5.0 (Macintosh; Intel Mac OS X 14_1) AppleWebKit/605.1.15 " ++
      "(KHTML, like Gecko) Version/17.1 Safari/605.1.15")
  | _ => ascii ("Mozilla/5.0 (Windows NT 10.0; Win64; x64) AppleWebKit/537.36 " ++
      "(KHTML, like Gecko) Chrome/120.0.0.0 Safari/537.36 Edg/120.0.0.0")

/-- `http3_get_user_agent`; `rand` is the value of `rand()`. -/
def getUserAgent (config : Config) (type : UserAgentType) (rand : ℕ) : List UInt8 :=
  match config.customUserAgent with
  | some ua => ua
  | none =>
      match type with
      | .chrome => userAgentStrings 0
      | .firefox => userAgentStrings 1
      | .safari => userAgentStrings 2
      | .edge => userAgentStrings 3
      | .random => userAgentStrings (rand % 4)

/-- `snprintf` behind the text that is already in `headers`, with the check that follows it. -/
def appendHeader (headers text : List UInt8) : Option (List UInt8) :=
  if text.length ≥ maxHeaderSize - headers.length then none else some (headers ++ text)

/-- `if(method == HTTP_POST) { ... }` -/
def addContentType (method : HttpMethod) (headers : List UInt8) : Option (List UInt8) :=
  if method = .post then
    appendHeader headers (ascii "content-type: application/octet-stream\r\n")
  else some headers

/-- `http3_create_headers_frame`.  The path and the authority are C strings. -/
def createHeadersFrame (config : Config) (rand : ℕ) (method : HttpMethod)
    (path authority : List UInt8) (frameSize : ℕ) : Option (List UInt8) :=
  if frameSize < maxHeaderSize then none
  else do
    let methodStr := if method = .get then ascii "GET" else ascii "POST"
    let headers ← appendHeader [] (ascii ":method: " ++ methodStr ++ ascii "\r\n" ++
      ascii ":scheme: https\r\n" ++ ascii ":authority: " ++ authority ++ ascii "\r\n" ++
      ascii ":path: " ++ path ++ ascii "\r\n")
    let userAgent := getUserAgent config config.userAgent rand
    let headers ← appendHeader headers (ascii "user-agent: " ++ userAgent ++ ascii "\r\n" ++
      ascii "accept: text/html,application/json,*/*\r\n" ++
      ascii "accept-language: en-US,en;q=0.9\r\n" ++
      ascii "accept-encoding: gzip, deflate, br\r\n" ++
      ascii "cache-control: no-cache\r\n" ++
      ascii "sec-fetch-dest: empty\r\n" ++
      ascii "sec-fetch-mode: cors\r\n" ++
      ascii "sec-fetch-site: same-origin\r\n")
    let headers ← addContentType method headers
    let headers ← appendHeader headers (ascii "\r\n")
    let frameHeader ← encodeFrameHeader frameHeaders headers.length frameSize
    some (frameHeader ++ headers)

/-- `http3_parse_headers_frame`: the size of the frame, or 0. -/
def parseHeadersFrame (frame : List UInt8) : ℕ :=
  if frame.length < 2 then 0
  else
    match decodeFrameHeader frame with
    | none => 0
    | some (header, headerLen) =>
        if header.type ≠ frameHeaders then 0
        else if headerLen + header.length > frame.length then 0
        else headerLen + header.length

lemma length_appendHeader {headers text out : List UInt8}
    (h : appendHeader headers text = some out) : out.length < maxHeaderSize := by
  simp only [appendHeader] at h
  split at h
  · simp at h
  · obtain rfl := Option.some.inj h
    rw [List.length_append]
    omega

/-- A HEADERS frame is recognised, whatever follows, and is not taken for a DATA frame. -/
theorem parseHeadersFrame_createHeadersFrame {config : Config} {rand : ℕ} {method : HttpMethod}
    {path authority frame : List UInt8} {frameSize : ℕ}
    (h : createHeadersFrame config rand method path authority frameSize = some frame)
    (rest : List UInt8) : parseDataFrame (frame ++ rest) = none ∧
      parseHeadersFrame (frame ++ rest) = frame.length ∧ 2 ≤ frame.length ∧
      frame.length < 2 ^ 32 := by
  simp only [createHeadersFrame] at h
  split at h
  · simp at h
  simp only [Option.bind_eq_bind, Option.bind_eq_some_iff, Option.some.injEq] at h
  obtain ⟨_, -, _, -, _, -, text, htext, hdr, hh, rfl⟩ := h
  have hshort := length_appendHeader htext
  simp only [maxHeaderSize] at hshort
  have hlen := length_encodeFrameHeader hh
  have hdec := decodeFrameHeader_encodeFrameHeader hh (by omega) (text ++ rest)
  have hlong : hdr.length ≤ 16 := by
    simp only [encodeFrameHeader] at hh
    split at hh
    · simp at hh
    simp only [Option.bind_eq_bind, Option.bind_eq_some_iff, Option.some.injEq] at hh
    obtain ⟨t, ht, l, hl, rfl⟩ := hh
    have h1 := length_encodeVarint ht
    have h2 := length_encodeVarint hl
    rw [List.length_append]
    omega
  refine ⟨?_, ?_, by simp; omega, by simp; omega⟩
  · rw [parseDataFrame, if_neg (by simp; omega), List.append_assoc, hdec]
    simp [frameHeaders, frameData]
  · rw [parseHeadersFrame, if_neg (by simp; omega), List.append_assoc, hdec]
    simp

end Tinc.Http3
