import TincQuic.Quic.Padding

/-!
# Sizes of padded packets

`quic_send_packet` computes the size of a datagram before it writes one, and `padding_add` the size
of the padding before it adds any.

* **What is written is as long as computed**: `datagram_consistent`.  The size is computed without
  the padding header, but no packet is so long that this makes a difference.
* `paddingAdd` is the function that follows the policy.  What it adds is taken off again:
  `paddingRemove_paddingAdd`.
* `FillsBucket` says that a packet is filled up to the smallest bucket.  **It is not if it fits
  exactly**, as no padding stands for no bucket: `padding_right_iff`.
-/

namespace Tinc.Quic

open Bytes Http3

variable {config : PaddingConfig} {masquerading : Bool} {mode : PaddingMode}
variable {packet : List UInt8} {rand len outputSize : ℕ} {noise : ℕ → ℕ}

/-! ## The datagram -/

/-- What `quic_send_packet` writes in front of the padded packet; there is nothing if the length is
too large. -/
def datagramHeader (masquerading : Bool) (mode : PaddingMode) (len : ℕ) : Option (List UInt8) :=
  if masquerading then
    http3Header ((if 0 < paddingLen mode len then 3 else 0) + len + paddingLen mode len)
  else some []

/-- A length below `2 ^ 30` can be written. -/
lemma http3Header_isSome {dataLen : ℕ} (h : dataLen < 1073741824) :
    ∃ header, http3Header dataLen = some header := by
  unfold http3Header
  split_ifs <;> exact ⟨_, rfl⟩

/-- The header that is written is as long as it was said to be. -/
lemma length_datagramHeader (h : sentLen masquerading mode packet.length ≤ bufferSpace) :
    ∃ header, datagramHeader masquerading mode packet.length = some header ∧
      header.length = if masquerading then
        http3HeaderLen (packet.length + paddingLen mode packet.length) else 0 := by
  unfold datagramHeader
  cases masquerading with
  | false => exact ⟨[], rfl, rfl⟩
  | true =>
      simp only [if_true]
      rw [← length_padded]
      have hfits : (padded mode packet).length ≤ bufferSpace := by
        rw [length_padded]
        unfold sentLen at h
        omega
      have hsmall : (padded mode packet).length < 1073741824 := by
        unfold bufferSpace at hfits
        omega
      obtain ⟨header, hheader⟩ := http3Header_isSome hsmall
      exact ⟨header, hheader, (length_http3Header hheader).trans (http3HeaderLen_eq hfits)⟩

/-- **A datagram is what its size says.**  If a packet passes the test of its size, its header can
be written and is as long as computed, header and packet fill the computed size, the DATA frame
announces what follows it, and nothing is cut off. -/
theorem datagram_consistent (masquerading : Bool) (mode : PaddingMode) (packet : List UInt8)
    (h : sentLen masquerading mode packet.length ≤ bufferSpace) :
    ∃ header, datagramHeader masquerading mode packet.length = some header ∧
      (header ++ padded mode packet).length = sentLen masquerading mode packet.length ∧
      sentLen masquerading mode packet.length ≤ 2200 ∧
      header.length = (if masquerading then
        http3HeaderLen (packet.length + paddingLen mode packet.length) else 0) ∧
      (masquerading = true → decodeFrameHeader (header ++ padded mode packet) =
        some (⟨frameData, (padded mode packet).length⟩, header.length)) ∧
      quicSendPacket masquerading mode packet = some (header ++ padded mode packet) := by
  obtain ⟨header, hheader, hlength⟩ := length_datagramHeader h
  have htotal : (header ++ padded mode packet).length =
      sentLen masquerading mode packet.length := by
    rw [List.length_append, hlength, length_padded]
    unfold sentLen
    omega
  refine ⟨header, hheader, htotal, h, hlength, ?_, ?_⟩
  · rintro rfl
    unfold datagramHeader at hheader
    have hsmall : (padded mode packet).length < 1073741824 := by
      rw [List.length_append] at htotal
      unfold bufferSpace at h
      omega
    rw [if_pos rfl, ← length_padded, http3Header_eq hsmall] at hheader
    exact decodeFrameHeader_encodeFrameHeader hheader (by omega) _
  · unfold quicSendPacket
    dsimp only
    rw [← sentLen, if_neg (not_lt.mpr h), ← datagramHeader, hheader, Option.map_some, ← htotal,
      List.take_length]

/-- The longest packet that is sent as an HTTP/3 frame with fixed padding. -/
theorem datagram_consistent_longest :
    sentLen true .random (List.replicate 2130 (1 : UInt8)).length = 2200 ∧
      ∃ header, header.length = 3 ∧ quicSendPacket true .random (List.replicate 2130 1) =
        some (header ++ padded .random (List.replicate 2130 1)) := by
  have hsize : sentLen true .random (List.replicate 2130 (1 : UInt8)).length = 2200 := by
    rw [List.length_replicate]
    decide
  obtain ⟨header, -, -, -, hlength, -, hsent⟩ :=
    datagram_consistent true .random (List.replicate 2130 1) (by rw [hsize]; exact le_rfl)
  refine ⟨hsize, header, ?_, hsent⟩
  rw [hlength, List.length_replicate]
  decide

/-! ## Padding by the policy -/

/-- `padding_add`, where `rand` is the result of `rand()` that `padding_calculate_size` may ask for,
and `noise` are those behind it.  There is nothing where it returns 0. -/
def paddingAdd (config : PaddingConfig) (rand : ℕ) (noise : ℕ → ℕ) (data : List UInt8)
    (outputSize : ℕ) : Option (List UInt8) :=
  if data.length = 0 then none
  else do
    let paddingSize ← paddingCalculateSize config rand data.length
    if paddingSize = 0 then none
    else if outputSize < 1 + 2 + data.length + paddingSize then none
    else some ([paddingMagic, UInt8.ofNat (data.length >>> 8), UInt8.ofNat data.length] ++ data ++
      (List.range paddingSize).map fun i => UInt8.ofNat (noise i))

/-- What is behind a padding header is found, whatever follows. -/
lemma paddingRemove_append (hpos : packet ≠ []) (hlen : packet.length ≤ 65535)
    (rest : List UInt8) :
    paddingRemove ([paddingMagic, UInt8.ofNat (packet.length >>> 8), UInt8.ofNat packet.length] ++
      packet ++ rest) = some packet := by
  have hpos' : 0 < packet.length := List.length_pos_iff.mpr hpos
  simp only [List.cons_append, List.nil_append, paddingRemove, ne_eq, not_true, if_false,
    length_bytes (show packet.length < 65536 by omega)]
  rw [if_neg (by rw [List.length_append]; omega), List.take_left]

/-- Padding can be removed. -/
lemma paddingRemove_paddingAdd {out : List UInt8} (hlen : packet.length ≤ 65535)
    (h : paddingAdd config rand noise packet outputSize = some out) :
    paddingRemove out = some packet := by
  unfold paddingAdd at h
  split at h
  · cases h
  · rename_i hpos
    simp only [Option.bind_eq_bind, Option.bind_eq_some_iff] at h
    obtain ⟨paddingSize, -, h⟩ := h
    split_ifs at h
    obtain rfl := Option.some.inj h
    exact paddingRemove_append (fun hnil => hpos (by rw [hnil]; rfl)) hlen _

/-! ## Buckets -/

/-- The smallest bucket for a packet of this length and its padding header. -/
def SmallestBucket (buckets : List Int32) (len : ℕ) (b : Int32) : Prop :=
  b ∈ buckets ∧ (len + 3 : ℤ) ≤ b.toInt ∧
    ∀ b' ∈ buckets, (len + 3 : ℤ) ≤ b'.toInt → b.toInt ≤ b'.toInt

/-- The policy has to fill a packet of this length up to this bucket. -/
structure Bucketed (config : PaddingConfig) (len : ℕ) (b : Int32) : Prop where
  mode : config.mode = .buckets
  all : config.smallPacketsOnly = false
  ascending : config.buckets.Pairwise fun x y => x.toInt ≤ y.toInt
  short : len ≤ 1150
  smallest : SmallestBucket config.buckets len b
  near : b.toInt - (len + 3) ≤ maxPaddingSize

/-- The packet is filled up to the bucket. -/
def FillsBucket (config : PaddingConfig) (rand len : ℕ) (b : Int32) : Prop :=
  ∃ size, paddingCalculateSize config rand len = some size ∧ (len + 3 + size : ℤ) = b.toInt

/-- The code fills the packet up to this bucket: there is no negative bucket, and the packet does
not fit exactly or gets no random padding; or there is one, and it needs all of
`MAX_PADDING_SIZE`. -/
def Fillable (config : PaddingConfig) (rand len : ℕ) (b : Int32) : Prop :=
  if ∃ b' ∈ config.buckets, b'.toInt < 0 then b.toInt = len + 3 + maxPaddingSize
  else b.toInt = len + 3 → rand % 64 = 0

/-- Among buckets none of which is negative, the first that is large enough is the smallest. -/
lemma find?_smallest {buckets : List Int32} {b : Int32}
    (hasc : buckets.Pairwise fun x y => x.toInt ≤ y.toInt) (hplain : ∀ b' ∈ buckets, 0 ≤ b'.toInt)
    (h : SmallestBucket buckets len b) :
    ∃ b', buckets.find? (len + 3 ≤ sizeT ·.toInt) = some b' ∧ (sizeT b'.toInt : ℤ) = b.toInt := by
  obtain ⟨hb, hfits, hleast⟩ := h
  have hsize : ∀ b' ∈ buckets, (sizeT b'.toInt : ℤ) = b'.toInt := fun b' hb' =>
    sizeT_of_nonneg (hplain b' hb') (by have := b'.toInt_lt; omega)
  have hsome : (buckets.find? (len + 3 ≤ sizeT ·.toInt)).isSome := by
    rw [List.find?_isSome]
    refine ⟨b, hb, ?_⟩
    have := hsize b hb
    simp only [decide_eq_true_eq]
    omega
  obtain ⟨b', hfind⟩ := Option.isSome_iff_exists.mp hsome
  obtain ⟨hlarge, before, behind, hbuckets, hsmall⟩ := List.find?_eq_some_iff_append.mp hfind
  have hb' : b' ∈ buckets := List.mem_of_find?_eq_some hfind
  refine ⟨b', hfind, ?_⟩
  rw [hsize b' hb']
  rw [decide_eq_true_eq] at hlarge
  have hle : b.toInt ≤ b'.toInt := hleast b' hb' (by have := hsize b' hb'; omega)
  -- nothing before it is large enough, so the smallest is it or stands behind it
  have hge : b'.toInt ≤ b.toInt := by
    rw [hbuckets] at hb hasc
    rcases List.mem_append.mp hb with hb | hb
    · have hnot := hsmall b hb
      have := hsize b (hbuckets ▸ List.mem_append_left _ hb)
      simp only [Bool.not_eq_eq_eq_not, Bool.not_true, decide_eq_false_iff_not] at hnot
      omega
    · rcases List.mem_cons.mp hb with rfl | hb
      · omega
      · exact (List.pairwise_cons.mp (List.pairwise_append.mp hasc).2.1).1 b hb
  omega

/-- A negative bucket is first, and larger than everything as a `size_t`. -/
lemma find?_negative {buckets : List Int32} (hlen : len ≤ 1150)
    (hasc : buckets.Pairwise fun x y => x.toInt ≤ y.toInt)
    (hneg : ∃ b' ∈ buckets, b'.toInt < 0) :
    ∃ b', buckets.find? (len + 3 ≤ sizeT ·.toInt) = some b' ∧
      len + 3 + maxPaddingSize ≤ sizeT b'.toInt := by
  obtain ⟨b', hb', hneg⟩ := hneg
  match buckets with
  | [] => cases hb'
  | first :: rest =>
      have hfirst : first.toInt < 0 := by
        rcases List.mem_cons.mp hb' with rfl | hb'
        · exact hneg
        · have := (List.pairwise_cons.mp hasc).1 b' hb'
          omega
      have hlarge : len + 3 + maxPaddingSize ≤ sizeT first.toInt := by
        have := first.le_toInt
        unfold sizeT maxPaddingSize
        omega
      refine ⟨first, ?_, hlarge⟩
      rw [List.find?_cons_of_pos]
      simp only [decide_eq_true_eq]
      omega

/-- What the policy answers in bucket mode. -/
lemma paddingCalculateSize_buckets {b : Int32} (h : Bucketed config len b) {b' : Int32}
    (hfind : config.buckets.find? (len + 3 ≤ sizeT ·.toInt) = some b') :
    paddingCalculateSize config rand len = some (min
      (if sizeT b'.toInt - (len + 3) = 0 then rand % 64 else sizeT b'.toInt - (len + 3))
      maxPaddingSize) := by
  have hne : config.buckets ≠ [] := List.ne_nil_of_mem h.smallest.1
  unfold paddingCalculateSize
  simp only [h.mode, h.all, reduceCtorEq, if_false, Bool.false_eq_true, false_and, hne, hfind]
  rw [if_neg (by have := h.short; omega)]

/-- When a packet is filled up to its bucket. -/
lemma fillsBucket_iff {b : Int32} (h : Bucketed config len b) :
    FillsBucket config rand len b ↔ Fillable config rand len b := by
  have hfits := h.smallest.2.1
  have hnear := h.near
  unfold Fillable FillsBucket
  split
  · rename_i hneg
    obtain ⟨b', hfind, hlarge⟩ := find?_negative h.short h.ascending hneg
    rw [paddingCalculateSize_buckets h hfind]
    unfold maxPaddingSize at hlarge ⊢
    simp only [Option.some.injEq, exists_eq_left']
    rw [if_neg (by omega), min_eq_right (by omega)]
    omega
  · rename_i hplain
    obtain ⟨b', hfind, hsize⟩ := find?_smallest h.ascending
      (fun b' hb' => Int.not_lt.mp fun hneg => hplain ⟨b', hb', hneg⟩) h.smallest
    rw [paddingCalculateSize_buckets h hfind]
    unfold maxPaddingSize at hnear ⊢
    simp only [Option.some.injEq, exists_eq_left']
    split
    · rw [min_eq_left (by omega)]
      omega
    · rw [min_eq_left (by omega)]
      omega

/-- Padding does what it is for: what is added is taken off again, and a packet is filled up to its
bucket. -/
def PaddingRight (config : PaddingConfig) (rand : ℕ) (noise : ℕ → ℕ) (packet : List UInt8)
    (outputSize : ℕ) : Prop :=
  (packet ≠ [] → packet.length ≤ 65535 →
    ∀ out, paddingAdd config rand noise packet outputSize = some out →
      paddingRemove out = some packet) ∧
  ∀ b, Bucketed config packet.length b → FillsBucket config rand packet.length b

/-- **When padding does what it is for.** -/
theorem padding_right_iff (config : PaddingConfig) (rand : ℕ) (noise : ℕ → ℕ)
    (packet : List UInt8) (outputSize : ℕ) :
    PaddingRight config rand noise packet outputSize ↔
      ∀ b, Bucketed config packet.length b → Fillable config rand packet.length b := by
  unfold PaddingRight
  constructor
  · rintro ⟨-, h⟩ b hb
    exact (fillsBucket_iff hb).mp (h b hb)
  · intro h
    refine ⟨fun _ hlen out hout => paddingRemove_paddingAdd hlen hout, fun b hb => ?_⟩
    exact (fillsBucket_iff hb).mpr (h b hb)

/-- A packet of 509 bytes fits into the bucket of 512 bytes, and gets a byte more. -/
theorem bucket_overfilled : ¬ PaddingRight { mode := .buckets, buckets := [512] } 1 (fun _ => 0)
    (List.replicate 509 1) 2048 := by
  rintro ⟨-, h⟩
  have hbucket : Bucketed { mode := .buckets, buckets := [512] } 509 512 := by
    refine ⟨rfl, rfl, by simp, by decide, ⟨by simp, by decide, ?_⟩, by decide⟩
    intro b' hb' _
    exact Int.le_of_eq (congrArg Int32.toInt (List.mem_singleton.mp hb')).symm
  obtain ⟨size, hsize, hfill⟩ := h 512 (by rwa [List.length_replicate])
  rw [List.length_replicate] at hsize hfill
  have hcalculated :
      paddingCalculateSize { mode := .buckets, buckets := [512] } 1 509 = some 1 := by
    decide
  rw [hcalculated] at hsize
  obtain rfl := Option.some.inj hsize
  exact absurd hfill (by decide)

end Tinc.Quic
