import TincQuic.Http3.Frames

/-!
# VPN packets in datagrams: `quic.c` and `padding.c`

`quic_send_packet` builds a datagram out of two optional layers, an HTTP/3 DATA frame around it
and a header with zeros behind the packet for padding.  The receiver takes off what it recognises.

* `quicSendPacket` and `datagramReceived` are the two sides.
* `Marked` are the packets that are sent without padding but look as if they had some.  **All
  others come through unchanged**: `datagram_round_trip_iff`.
* **A padded packet near the `MTU` is too long for the receiver**: `datagram_fits_iff`.
* **A raw datagram is understood by a receiver that expects frames iff it does not look like a
  frame**: `raw_datagram_iff`.
-/

namespace Tinc.Quic

open Bytes Http3

/-! ## Sizes -/

/-- `MTU`, with or without `ENABLE_JUMBOGRAMS` -/
def mtu (jumbograms : Bool) : ℕ := if jumbograms then 9018 else 1518

/-- `MAXSIZE` -/
def maxSize (jumbograms : Bool) : ℕ := mtu jumbograms + 4 + 6 + 6 + mtu jumbograms / 64 + 20

/-- `BUFFER_SIZE - sizeof(QUIC_BUFFER)` -/
def bufferSpace : ℕ := 2200

/-- `MAX_PADDING_SIZE` -/
def maxPaddingSize : ℕ := 512

/-- `PADDING_MAGIC` -/
def paddingMagic : UInt8 := 0xFD

/-- `padding_mode_t` -/
inductive PaddingMode where
  | off
  | random
  | buckets
  deriving DecidableEq, Repr

/-- `target_size`; buckets are `(len + 127) & ~127`. -/
def targetSize : PaddingMode → ℕ → ℕ
  | .off, len => len
  | .random, len => min (len + 64) (maxPaddingSize + len)
  | .buckets, len => (len + 127) / 128 * 128

/-- `padding_len` -/
def paddingLen (mode : PaddingMode) (len : ℕ) : ℕ := targetSize mode len - len

/-- `http3_header_len` -/
def http3HeaderLen (dataLen : ℕ) : ℕ :=
  if dataLen < 64 then 2
  else if dataLen < 16384 then 3
  else if dataLen < 1073741824 then 5
  else 9

/-! ## The sender -/

/-- The HTTP/3 header that is written; a length that does not fit is an error. -/
def http3Header (dataLen : ℕ) : Option (List UInt8) :=
  if dataLen < 64 then some [0x00, UInt8.ofNat dataLen]
  else if dataLen < 16384 then
    some [0x00, UInt8.ofNat (dataLen >>> 8) ||| 0x40, UInt8.ofNat dataLen]
  else if dataLen < 1073741824 then
    some [0x00, UInt8.ofNat (dataLen >>> 24) ||| 0x80, UInt8.ofNat (dataLen >>> 16),
      UInt8.ofNat (dataLen >>> 8), UInt8.ofNat dataLen]
  else none

/-- The padding header. -/
def paddingHeader (mode : PaddingMode) (len : ℕ) : List UInt8 :=
  if 0 < paddingLen mode len then
    [paddingMagic, UInt8.ofNat (len >>> 8), UInt8.ofNat len]
  else []

/-- What is written behind the HTTP/3 header. -/
def padded (mode : PaddingMode) (packet : List UInt8) : List UInt8 :=
  paddingHeader mode packet.length ++ packet ++
    List.replicate (paddingLen mode packet.length) 0

/-- `quic_send_packet`: the datagram, of the length that was computed beforehand. -/
def quicSendPacket (masquerading : Bool) (mode : PaddingMode) (packet : List UInt8) :
    Option (List UInt8) :=
  let headerLen :=
    if masquerading then http3HeaderLen (packet.length + paddingLen mode packet.length) else 0
  let paddingHeaderLen := if 0 < paddingLen mode packet.length then 3 else 0
  let total := headerLen + paddingHeaderLen + packet.length + paddingLen mode packet.length
  if bufferSpace < total then none
  else
    let header :=
      if masquerading then
        http3Header (paddingHeaderLen + packet.length + paddingLen mode packet.length)
      else some []
    header.map fun h => (h ++ padded mode packet).take total

/-! ## The receiver -/

/-- `padding_remove` -/
def paddingRemove : List UInt8 → Option (List UInt8)
  | [] => none
  | b0 :: b1 :: b2 :: rest =>
      if b0 ≠ paddingMagic then some (b0 :: b1 :: b2 :: rest)
      else
        let originalLen := b1.toNat <<< 8 ||| b2.toNat
        if originalLen = 0 ∨ originalLen + 3 > rest.length + 3 then none
        else some (rest.take originalLen)
  | data => some data

/-- Bytes 12 and 13 are zero: a UDP probe, which is not routed. -/
def isProbe (packet : List UInt8) : Bool :=
  14 ≤ packet.length ∧ packet.getD 12 0 = 0 ∧ packet.getD 13 0 = 0

/-- The payload of a DATA frame, or the datagram itself. -/
def unwrapped (data : List UInt8) : List UInt8 :=
  match parseDataFrame data with
  | some (payload, _) => payload
  | none => data

/-- The branch for `DATAGRAM_RECEIVED` of `quic_connection_callback`: what is given to
`receive_packet`. -/
def datagramReceived (jumbograms masquerading : Bool) (data : List UInt8) :
    Option (List UInt8) :=
  if data.length = 0 ∨ maxSize jumbograms < data.length then none
  else do
    let payload ← paddingRemove (if masquerading then unwrapped data else data)
    if maxSize jumbograms < payload.length ∨ isProbe payload then none else some payload

/-! ## What is sent -/

variable {jumbograms masquerading : Bool} {mode : PaddingMode} {packet data : List UInt8}

/-- Packets are padded unless padding is off, or they fill a bucket. -/
lemma paddingLen_eq_zero_iff {len : ℕ} :
    paddingLen mode len = 0 ↔ mode = .off ∨ mode = .buckets ∧ 128 ∣ len := by
  unfold paddingLen
  cases mode with
  | off => simp [targetSize]
  | random =>
      simp only [targetSize, maxPaddingSize, reduceCtorEq, false_and, or_false, iff_false]
      omega
  | buckets =>
      simp only [targetSize, reduceCtorEq, true_and, false_or]
      omega

/-- The padding reaches over a frame of the small size. -/
lemma padded_large {len : ℕ} (hp : 0 < paddingLen mode len) :
    64 ≤ len + paddingLen mode len := by
  unfold paddingLen at hp ⊢
  cases mode with
  | off => simp [targetSize] at hp
  | random =>
      simp only [targetSize, maxPaddingSize] at hp ⊢
      omega
  | buckets =>
      simp only [targetSize] at hp ⊢
      omega

lemma length_padded :
    (padded mode packet).length =
      (if 0 < paddingLen mode packet.length then 3 else 0) + packet.length +
        paddingLen mode packet.length := by
  unfold padded paddingHeader
  split <;> simp
  omega

/-- The header is that of `http3_encode_frame_header`. -/
lemma http3Header_eq {dataLen : ℕ} (h : dataLen < 1073741824) :
    http3Header dataLen = encodeFrameHeader frameData dataLen 16 := by
  have htype : encodeVarint frameData.toNat 16 = some [0] := by decide
  unfold http3Header encodeFrameHeader
  rw [htype]
  simp only [encodeVarint]
  split
  · simp [*]
  · split
    · simp [*, UInt8.or_comm]
    · simp [*, UInt8.or_comm]

lemma length_http3Header {dataLen : ℕ} {header : List UInt8}
    (h : http3Header dataLen = some header) : header.length = http3HeaderLen dataLen := by
  unfold http3Header at h
  unfold http3HeaderLen
  split_ifs at h ⊢ <;> simp_all [← Option.some.inj h]

/-- The length was computed without the padding header, which makes no difference. -/
lemma http3HeaderLen_eq (hs : (padded mode packet).length ≤ bufferSpace) :
    http3HeaderLen (padded mode packet).length =
      http3HeaderLen (packet.length + paddingLen mode packet.length) := by
  have hlarge : 0 < paddingLen mode packet.length →
      64 ≤ packet.length + paddingLen mode packet.length := padded_large
  rw [length_padded] at hs ⊢
  unfold bufferSpace at hs
  unfold http3HeaderLen
  split_ifs at hs ⊢ <;> omega

/-- A datagram is a frame header, if there is one, and the padded packet. -/
structure Sent (masquerading : Bool) (mode : PaddingMode) (packet header : List UInt8) : Prop where
  masked : masquerading = true →
    encodeFrameHeader frameData (padded mode packet).length 16 = some header ∧
      header.length = http3HeaderLen (padded mode packet).length
  plain : masquerading = false → header = []
  fits : (header ++ padded mode packet).length ≤ bufferSpace

lemma quicSendPacket_spec (h : quicSendPacket masquerading mode packet = some data) :
    ∃ header, data = header ++ padded mode packet ∧ Sent masquerading mode packet header := by
  unfold quicSendPacket at h
  dsimp only at h
  rw [add_assoc, add_assoc, ← add_assoc _ packet.length, ← length_padded] at h
  cases masquerading with
  | false =>
      simp only [Bool.false_eq_true, if_false, Option.map_some, zero_add, List.nil_append,
        List.take_length] at h
      split at h
      · cases h
      · rename_i hfit
        refine ⟨[], (Option.some.inj h).symm, by simp, fun _ => rfl, ?_⟩
        simpa using hfit
  | true =>
      simp only [if_true] at h
      split at h
      · cases h
      · rename_i hfit
        have hs : (padded mode packet).length ≤ bufferSpace := by omega
        obtain ⟨header, hheader, rfl⟩ := Option.map_eq_some_iff.mp h
        have hlen := length_http3Header hheader
        rw [← http3HeaderLen_eq hs, ← hlen] at hfit ⊢
        rw [http3Header_eq (by unfold bufferSpace at hs; omega)] at hheader
        refine ⟨header, ?_, fun _ => ⟨hheader, hlen⟩, by simp, ?_⟩
        · rw [List.take_of_length_le]
          simp
        · rw [List.length_append]
          omega

/-! ## What is understood -/

/-- A payload with a DATA frame around it is unwrapped. -/
lemma unwrapped_frame {header payload : List UInt8} (hl : payload.length < 2 ^ 62)
    (h : encodeFrameHeader frameData payload.length 16 = some header) :
    unwrapped (header ++ payload) = payload := by
  have hlen := length_encodeFrameHeader h
  have hdec := decodeFrameHeader_encodeFrameHeader h hl payload
  unfold unwrapped parseDataFrame
  rw [if_neg (by rw [List.length_append]; omega), hdec]
  simp

/-- The two bytes of a length. -/
lemma length_bytes {n : ℕ} (h : n < 65536) :
    (UInt8.ofNat (n >>> 8)).toNat <<< 8 ||| (UInt8.ofNat n).toNat = n := by
  rw [shift_cons]
  simp [Nat.shiftRight_eq_div_pow]
  omega

/-- A packet starts like a padded one, although it is not. -/
def Marked (mode : PaddingMode) (packet : List UInt8) : Prop :=
  (mode = .off ∨ mode = .buckets ∧ 128 ∣ packet.length) ∧ 3 ≤ packet.length ∧
    packet.head? = some paddingMagic

/-- What is left without padding is shorter than the datagram. -/
lemma paddingRemove_eq_self_iff :
    paddingRemove data = some data ↔
      data ≠ [] ∧ ¬ (3 ≤ data.length ∧ data.head? = some paddingMagic) := by
  match data with
  | [] => simp [paddingRemove]
  | [_] => simp [paddingRemove]
  | [_, _] => simp [paddingRemove]
  | b0 :: b1 :: b2 :: rest =>
      simp only [paddingRemove]
      by_cases hb : b0 = paddingMagic
      · subst hb
        have hne : ∀ n, rest.take n ≠ paddingMagic :: b1 :: b2 :: rest := by
          intro n he
          have hlen := congrArg List.length he
          simp only [List.length_take, List.length_cons] at hlen
          omega
        simp [hne]
      · simp [hb]

lemma paddingRemove_padded (hs : (padded mode packet).length ≤ bufferSpace) :
    paddingRemove (padded mode packet) = some packet ↔ packet ≠ [] ∧ ¬ Marked mode packet := by
  unfold Marked
  rw [← paddingLen_eq_zero_iff]
  rw [length_padded] at hs
  unfold bufferSpace at hs
  unfold padded paddingHeader
  by_cases hp : 0 < paddingLen mode packet.length
  · have hlen : packet.length < 65536 := by omega
    rw [if_pos hp]
    simp only [List.cons_append, List.nil_append, paddingRemove, ne_eq, not_true, if_false,
      length_bytes hlen]
    by_cases hnil : packet = []
    · simp [hnil]
    · have hpos : 0 < packet.length := List.length_pos_iff.mpr hnil
      rw [if_neg (by rw [List.length_append]; omega), List.take_left]
      simp [hnil, hp.ne']
  · have hz : paddingLen mode packet.length = 0 := by omega
    simp [hz, paddingRemove_eq_self_iff]

/-- The receiver that has the same setting finds the padded packet. -/
lemma unwrapped_sent (h : quicSendPacket masquerading mode packet = some data) :
    (if masquerading then unwrapped data else data) = padded mode packet := by
  obtain ⟨header, rfl, hsent⟩ := quicSendPacket_spec h
  cases masquerading with
  | false => simp [hsent.plain rfl]
  | true =>
      have hfits := hsent.fits
      unfold bufferSpace at hfits
      rw [List.length_append] at hfits
      exact unwrapped_frame (by omega) (hsent.masked rfl).1

lemma length_le_sent (h : quicSendPacket masquerading mode packet = some data) :
    packet.length ≤ (padded mode packet).length ∧ (padded mode packet).length ≤ data.length ∧
      data.length ≤ bufferSpace := by
  obtain ⟨header, rfl, hsent⟩ := quicSendPacket_spec h
  refine ⟨?_, ?_, hsent.fits⟩
  · rw [length_padded]
    omega
  · rw [List.length_append]
    omega

/-- What the receiver does with a datagram that is not too long. -/
lemma datagramReceived_eq_some_iff {payload : List UInt8} (hpos : data ≠ [])
    (hsize : data.length ≤ maxSize jumbograms) :
    datagramReceived jumbograms masquerading data = some payload ↔
      paddingRemove (if masquerading then unwrapped data else data) = some payload ∧
        payload.length ≤ maxSize jumbograms ∧ isProbe payload = false := by
  have hlen : 0 < data.length := List.length_pos_iff.mpr hpos
  unfold datagramReceived
  rw [if_neg (by omega)]
  simp only [Option.bind_eq_bind, Option.bind_eq_some_iff]
  constructor
  · rintro ⟨p, hp, h⟩
    split at h
    · cases h
    · rename_i hok
      obtain rfl := Option.some.inj h
      refine ⟨hp, by omega, ?_⟩
      simpa using fun hb => hok (.inr hb)
  · rintro ⟨hp, hl, hb⟩
    refine ⟨payload, hp, ?_⟩
    rw [if_neg (by simp [hb, hl])]

/-- A packet that is no probe and whose datagram is short enough comes through iff it is not
empty and not taken for a padded one. -/
theorem datagram_round_trip_iff (jumbograms : Bool)
    (h : quicSendPacket masquerading mode packet = some data)
    (hsize : data.length ≤ maxSize jumbograms) (hprobe : isProbe packet = false) :
    datagramReceived jumbograms masquerading data = some packet ↔
      packet ≠ [] ∧ ¬ Marked mode packet := by
  obtain ⟨hpacket, hpadded, hfits⟩ := length_le_sent h
  by_cases hdata : data = []
  · subst hdata
    have hnil : packet = [] := by
      rw [List.length_nil] at hpadded
      exact List.length_eq_zero_iff.mp (by omega)
    simp [datagramReceived, hnil]
  · rw [datagramReceived_eq_some_iff hdata hsize, unwrapped_sent h,
      paddingRemove_padded (by omega)]
    constructor
    · exact fun hall => hall.1
    · exact fun hall => ⟨hall, by omega, hprobe⟩

/-- An Ethernet frame to a station whose address begins with the magic byte. -/
def magicFrame : List UInt8 := [0xFD, 0x00, 0x01] ++ List.replicate 9 7 ++ [0x08, 0x00, 0x45]

/-- Padded to a bucket, and inside a DATA frame, it comes through. -/
theorem datagram_round_trip_bucket :
    ∃ data, quicSendPacket true .buckets magicFrame = some data ∧ data.length = 134 ∧
      datagramReceived false true data = some magicFrame := by
  have h : quicSendPacket true .buckets magicFrame =
      some ((quicSendPacket true .buckets magicFrame).getD []) := by
    decide +kernel
  refine ⟨_, h, by decide +kernel, ?_⟩
  refine (datagram_round_trip_iff false h (by decide +kernel) (by decide)).mpr ⟨by decide, ?_⟩
  rintro ⟨hmode | ⟨-, hdvd⟩, -⟩
  · cases hmode
  · exact absurd hdvd (by decide)

/-- Without padding it is mangled. -/
theorem datagram_mangled : ¬ ∀ (jumbograms masquerading : Bool) (mode : PaddingMode)
    (packet data : List UInt8), quicSendPacket masquerading mode packet = some data →
      data.length ≤ maxSize jumbograms → isProbe packet = false →
        datagramReceived jumbograms masquerading data = some packet := by
  intro h
  have hd := h false false .off magicFrame magicFrame (by decide) (by decide) (by decide)
  exact absurd hd (by decide)

/-! ## Too long -/

/-- The longest packet that `PADDING_RANDOM` leaves short enough. -/
def longestRandom (masquerading : Bool) : ℕ := if masquerading then 1507 else 1510

/-- The length of a datagram. -/
lemma length_sent (h : quicSendPacket masquerading mode packet = some data) :
    data.length = (if masquerading then http3HeaderLen (padded mode packet).length else 0) +
      (padded mode packet).length := by
  obtain ⟨header, rfl, hsent⟩ := quicSendPacket_spec h
  rw [List.length_append]
  cases masquerading with
  | false => simp [hsent.plain rfl]
  | true => simp [(hsent.masked rfl).2]

lemma http3HeaderLen_le {n : ℕ} (h : n < 16384) : http3HeaderLen n ≤ 3 := by
  unfold http3HeaderLen
  split_ifs <;> omega

lemma http3HeaderLen_mid {n : ℕ} (h : 64 ≤ n) (h' : n < 16384) : http3HeaderLen n = 3 := by
  unfold http3HeaderLen
  split_ifs <;> omega

/-- A header of three bytes and a bucket fit. -/
lemma length_padded_le (hmode : mode ≠ .random) (hlen : packet.length ≤ 1518) :
    (padded mode packet).length ≤ 1539 := by
  have hbucket : packet.length + paddingLen mode packet.length ≤ 1536 := by
    unfold paddingLen
    cases mode with
    | off =>
        simp only [targetSize]
        omega
    | random => exact absurd rfl hmode
    | buckets =>
        simp only [targetSize]
        omega
  rw [length_padded]
  split <;> omega

lemma length_padded_random : (padded .random packet).length = packet.length + 67 := by
  have hp : paddingLen .random packet.length = 64 := by
    simp only [paddingLen, targetSize, maxPaddingSize]
    omega
  rw [length_padded, hp, if_pos (by decide)]
  omega

/-- The datagram of a packet of a length up to the `MTU` is not too long for the receiver, unless
jumbograms are off and the fixed padding is added to a packet near that length. -/
theorem datagram_fits_iff (jumbograms : Bool)
    (h : quicSendPacket masquerading mode packet = some data)
    (hlen : packet.length ≤ mtu jumbograms) :
    data.length ≤ maxSize jumbograms ↔
      ¬ (jumbograms = false ∧ mode = .random ∧ longestRandom masquerading < packet.length) := by
  have hfits := (length_le_sent h).2.2
  unfold bufferSpace at hfits
  cases jumbograms with
  | true =>
      simp only [maxSize, mtu, if_true]
      simp only [Bool.true_eq_false, false_and, not_false_eq_true, iff_true]
      omega
  | false =>
      rw [length_sent h] at hfits ⊢
      simp only [maxSize, mtu, Bool.false_eq_true, if_false] at hlen ⊢
      by_cases hmode : mode = .random
      · subst hmode
        rw [length_padded_random] at hfits ⊢
        have hheader : http3HeaderLen (packet.length + 67) = 3 :=
          http3HeaderLen_mid (by omega) (by omega)
        rw [hheader]
        simp only [longestRandom, true_and]
        split <;> omega
      · have hpadded := length_padded_le hmode hlen
        have hheader : http3HeaderLen (padded mode packet).length ≤ 3 :=
          http3HeaderLen_le (by omega)
        simp only [hmode, false_and, and_false, not_false_eq_true, iff_true]
        split <;> omega

/-- A packet of 1507 bytes, which is just not too long. -/
theorem datagram_fits_longest :
    ∃ data, quicSendPacket true .random (List.replicate 1507 1) = some data ∧
      data.length ≤ maxSize false := by
  have h : quicSendPacket true .random (List.replicate 1507 1) =
      some ((quicSendPacket true .random (List.replicate 1507 1)).getD []) := by
    decide +kernel
  refine ⟨_, h, (datagram_fits_iff false h (by decide +kernel)).mpr ?_⟩
  rintro ⟨-, -, hlong⟩
  rw [List.length_replicate] at hlong
  exact absurd hlong (by decide)

/-- A packet of the full `MTU` is padded beyond what the receiver accepts. -/
theorem datagram_too_long : ¬ ∀ (jumbograms masquerading : Bool) (mode : PaddingMode)
    (packet data : List UInt8), quicSendPacket masquerading mode packet = some data →
      packet.length ≤ mtu jumbograms → data.length ≤ maxSize jumbograms := by
  intro h
  have hd : quicSendPacket false .random (List.replicate 1518 1) =
      some ((quicSendPacket false .random (List.replicate 1518 1)).getD []) := by
    decide +kernel
  exact absurd (h false false .random _ _ hd (by decide +kernel)) (by decide +kernel)

/-! ## Frames where none are expected -/

/-- What `padding_remove` returns is a part of a datagram that is not empty. -/
lemma paddingRemove_part {payload : List UInt8} (h : paddingRemove data = some payload) :
    data ≠ [] ∧ ∃ j, payload = (data.drop j).take payload.length := by
  match data with
  | [] => cases h
  | [_] =>
      obtain rfl := Option.some.inj h
      exact ⟨by simp, 0, by simp⟩
  | [_, _] =>
      obtain rfl := Option.some.inj h
      exact ⟨by simp, 0, by simp⟩
  | b0 :: b1 :: b2 :: rest =>
      simp only [paddingRemove] at h
      refine ⟨by simp, ?_⟩
      split at h
      · obtain rfl := Option.some.inj h
        exact ⟨0, by simp⟩
      · split at h
        · cases h
        · obtain rfl := Option.some.inj h
          exact ⟨3, by simp⟩

/-- The payload of a frame is a part of it, behind the header. -/
lemma parseDataFrame_part {payload : List UInt8} {headerLen : ℕ}
    (h : parseDataFrame data = some (payload, headerLen)) :
    ∃ length, payload = (data.drop headerLen).take length ∧ headerLen + length ≤ data.length ∧
      ∃ type typeLen lengthLen, headerLen = typeLen + lengthLen ∧
        decodeVarint data = some (type, typeLen) ∧
          decodeVarint (data.drop typeLen) = some (length, lengthLen) := by
  unfold parseDataFrame decodeFrameHeader at h
  simp only [Option.bind_eq_bind] at h
  split at h
  · cases h
  · simp only [Option.bind_eq_some_iff, Prod.exists, Option.some.injEq, Prod.mk.injEq] at h
    obtain ⟨header, n, ⟨type, typeLen, htype, length, lengthLen, hlength, rfl, rfl⟩, h⟩ := h
    dsimp only at h
    split_ifs at h
    obtain ⟨rfl, rfl⟩ := Prod.mk.inj (Option.some.inj h)
    exact ⟨length, rfl, by omega, type, typeLen, lengthLen, rfl, htype, hlength⟩

/-- A packet that is found again behind its beginning, among zeros, is zero. -/
lemma getElem?_of_shift {m j : ℕ} (hj : 0 < j)
    (h : packet = ((packet ++ List.replicate m 0).drop j).take packet.length) (i : ℕ) :
    ∀ b ∈ (packet ++ List.replicate m 0)[i]?, b = 0 := by
  by_cases hi : i < packet.length
  · have hshift : (packet ++ List.replicate m 0)[i]? = (packet ++ List.replicate m 0)[j + i]? := by
      calc (packet ++ List.replicate m 0)[i]?
          = packet[i]? := List.getElem?_append_left hi
        _ = (((packet ++ List.replicate m 0).drop j).take packet.length)[i]? := by rw [← h]
        _ = (packet ++ List.replicate m 0)[j + i]? := by
            rw [List.getElem?_take_of_lt hi, List.getElem?_drop]
    rw [hshift]
    exact getElem?_of_shift hj h (j + i)
  · intro b hb
    rw [List.getElem?_append_right (by omega)] at hb
    exact List.eq_of_mem_replicate (List.mem_of_getElem? hb)
termination_by packet.length - i

/-- A length that is read from zeros is zero. -/
lemma decodeVarint_zeros {length n : ℕ} (hz : ∀ b ∈ data[0]?, b = 0)
    (h : decodeVarint data = some (length, n)) : length = 0 := by
  match data with
  | [] => cases h
  | b :: rest =>
      obtain rfl : b = 0 := hz b rfl
      have hv : decodeVarint (0 :: rest) = some (0, 1) := rfl
      rw [hv] at h
      exact ((Prod.mk.inj (Option.some.inj h)).1).symm

/-- The magic byte begins a number of eight bytes. -/
lemma decodeVarint_magic {type n : ℕ} {rest : List UInt8}
    (h : decodeVarint (paddingMagic :: rest) = some (type, n)) : n = 8 := by
  have hclass : (paddingMagic >>> 6).toNat = 3 := rfl
  simp only [decodeVarint, hclass] at h
  split at h
  all_goals simp_all

/-- A part of a part. -/
lemma part_of_part {l part : List UInt8} {a n j : ℕ}
    (h : part = (((l.drop a).take n).drop j).take part.length) :
    (((l.drop a).take n).drop j).take part.length = (l.drop (a + j)).take part.length := by
  have hlen := congrArg List.length h
  rw [List.drop_take, List.take_take, List.drop_drop] at h hlen ⊢
  rw [List.length_take] at hlen
  rw [min_eq_left (by omega)]

/-- A padded packet that looks like a frame is not found in it. -/
lemma frame_hides_padded {payload : List UInt8} {headerLen : ℕ}
    (hp : 0 < paddingLen mode packet.length)
    (h : parseDataFrame (padded mode packet) = some (payload, headerLen)) :
    paddingRemove payload ≠ some packet := by
  intro hr
  obtain ⟨hne, j, hpacket⟩ := paddingRemove_part hr
  obtain ⟨length, rfl, -, type, typeLen, lengthLen, rfl, htype, hlength⟩ := parseDataFrame_part h
  unfold padded paddingHeader at htype hlength hpacket hne
  rw [if_pos hp] at htype hlength hpacket hne
  obtain rfl : typeLen = 8 := decodeVarint_magic htype
  rw [show 8 + lengthLen = 5 + lengthLen + 3 by omega] at hpacket
  simp only [List.cons_append, List.nil_append, List.drop_succ_cons] at hlength hpacket
  rw [part_of_part hpacket] at hpacket
  have hz : ∀ b ∈ ((packet ++ List.replicate (paddingLen mode packet.length) 0).drop 5)[0]?,
      b = 0 := by
    rw [List.getElem?_drop]
    exact getElem?_of_shift (by omega) hpacket 5
  obtain rfl := decodeVarint_zeros hz hlength
  exact hne (by simp)

/-- A packet that looks like a frame is not found in it. -/
lemma frame_hides (h : quicSendPacket false mode packet = some data) {payload : List UInt8}
    {headerLen : ℕ} (hparse : parseDataFrame data = some (payload, headerLen)) :
    paddingRemove payload ≠ some packet := by
  obtain ⟨header, rfl, hsent⟩ := quicSendPacket_spec h
  rw [hsent.plain rfl, List.nil_append] at hparse
  by_cases hp : 0 < paddingLen mode packet.length
  · exact frame_hides_padded hp hparse
  · -- without padding, the packet is longer than what is in the frame
    intro hr
    obtain ⟨-, j, hpacket⟩ := paddingRemove_part hr
    obtain ⟨length, rfl, hlen, -⟩ := parseDataFrame_part hparse
    have hheader := parseDataFrame_pos hparse
    have hle := congrArg List.length hpacket
    rw [length_padded, if_neg hp] at hlen
    simp only [List.length_take, List.length_drop] at hle
    omega

/-- What is sent without frames and understood by a receiver without frames is understood by one
with frames as well, if it does not look like a frame; and only then, if it was understood as it
was meant. -/
theorem raw_datagram_iff {jumbograms : Bool} {payload : List UInt8}
    (h : quicSendPacket false mode packet = some data)
    (hoff : datagramReceived jumbograms false data = some payload) :
    (parseDataFrame data = none → datagramReceived jumbograms true data = some payload) ∧
      (payload = packet →
        (datagramReceived jumbograms true data = some payload ↔ parseDataFrame data = none)) := by
  have hraw : parseDataFrame data = none → unwrapped data = data := by
    intro hnone
    unfold unwrapped
    rw [hnone]
  have hsize : data ≠ [] ∧ data.length ≤ maxSize jumbograms := by
    unfold datagramReceived at hoff
    split at hoff
    · cases hoff
    · rename_i hl
      exact ⟨fun he => hl (.inl (by simp [he])), by omega⟩
  have heq : datagramReceived jumbograms true data = some payload ↔ _ :=
    datagramReceived_eq_some_iff hsize.1 hsize.2
  have hplain := (datagramReceived_eq_some_iff hsize.1 hsize.2).mp hoff
  have hon : parseDataFrame data = none → datagramReceived jumbograms true data = some payload := by
    intro hnone
    rw [heq, if_pos rfl, hraw hnone]
    exact hplain
  refine ⟨hon, fun hpay => ⟨fun hsame => ?_, hon⟩⟩
  subst hpay
  by_contra hsome
  obtain ⟨⟨inner, headerLen⟩, hparse⟩ := Option.ne_none_iff_exists'.mp hsome
  have hinner : unwrapped data = inner := by
    unfold unwrapped
    rw [hparse]
  have hr := (heq.mp hsame).1
  rw [if_pos rfl, hinner] at hr
  exact frame_hides h hparse hr

/-- An Ethernet frame, which does not look like a DATA frame. -/
theorem raw_datagram_ethernet :
    let packet : List UInt8 := List.replicate 12 1 ++ [0x08, 0x00, 0x45]
    datagramReceived false true packet = some packet := by
  intro packet
  have h : quicSendPacket false .off packet = some packet := by decide
  have hoff : datagramReceived false false packet = some packet := by decide
  exact (raw_datagram_iff h hoff).1 (by decide)

/-- The header that `read_packet` fills with zeros looks like an empty DATA frame. -/
theorem raw_datagram_tun : ¬ ∀ (jumbograms : Bool) (mode : PaddingMode)
    (packet data payload : List UInt8), quicSendPacket false mode packet = some data →
      datagramReceived jumbograms false data = some payload →
        datagramReceived jumbograms true data = some payload := by
  intro h
  have hd := h false .off (List.replicate 12 0 ++ [0x08, 0x00, 0x45])
    (List.replicate 12 0 ++ [0x08, 0x00, 0x45]) (List.replicate 12 0 ++ [0x08, 0x00, 0x45])
    (by decide) (by decide)
  exact absurd hd (by decide)

end Tinc.Quic
