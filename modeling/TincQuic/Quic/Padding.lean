import TincQuic.Quic.Datagram
import TincQuic.Lib.CText

/-!
# The padding policy: `padding.c` and `net_setup.c`

How much padding a packet gets is configured: a mode, the bounds of random padding, buckets, and
whether large packets are spared.  `padding_calculate_size` decides by that configuration, but
`quic_send_packet` does not call it and decides by the mode alone.

* `setupPadding` is the configuration that the options give; `paddingCalculateSize` the policy.
* `Calculates` says that the policy can answer with this size, for some result of `rand`.
* **The padding of a sent packet is one of the policy's** in few cases, which `Agrees` lists:
  `padding_respected_iff`.
-/

namespace Tinc.Quic

open Bytes CText

/-! ## The configuration -/

/-- `padding_config_t`; no buckets stand for `NULL`. -/
structure PaddingConfig where
  mode : PaddingMode := .off
  minSize : Int32 := 0
  maxSize : Int32 := 128
  buckets : List Int32 := []
  smallPacketsOnly : Bool := false
  threshold : Int32 := 512
  deriving DecidableEq, Repr

/-- The options of `tinc.conf`, as far as they are given and can be read. -/
structure PaddingOptions where
  /-- `QUICPaddingMode` -/
  mode : Option Text := none
  /-- `QUICPaddingMin` -/
  min : Option Int32 := none
  /-- `QUICPaddingMax` -/
  max : Option Int32 := none
  /-- `QUICPaddingSmallPacketsOnly` -/
  smallPacketsOnly : Option Bool := none
  /-- `QUICPaddingThreshold` -/
  threshold : Option Int32 := none
  deriving DecidableEq, Repr

/-- `default_buckets` -/
def defaultBuckets : List Int32 := [512, 1024, 1500]

/-- `padding_init` -/
def paddingInit (config : PaddingConfig) : PaddingConfig :=
  if config.buckets = [] ∧ config.mode = .buckets then { config with buckets := defaultBuckets }
  else config

def setupMode (option : Option Text) (config : PaddingConfig) : PaddingConfig :=
  match option with
  | none => config
  | some mode =>
      if sameIgnoringCase mode (ascii "off") then { config with mode := .off }
      else if sameIgnoringCase mode (ascii "random") then { config with mode := .random }
      else if sameIgnoringCase mode (ascii "buckets") then { config with mode := .buckets }
      else { config with mode := .off }

def setupMin (option : Option Int32) (config : PaddingConfig) : PaddingConfig :=
  match option with
  | none => config
  | some size => { config with minSize := if size < 0 then 0 else size }

/-- A maximum below the minimum changes places with it. -/
def setupMax (option : Option Int32) (config : PaddingConfig) : PaddingConfig :=
  match option with
  | none => config
  | some size =>
      let size := if 512 < size then 512 else size
      if size < config.minSize then { config with maxSize := config.minSize, minSize := size }
      else { config with maxSize := size }

def setupSmallPacketsOnly (option : Option Bool) (config : PaddingConfig) : PaddingConfig :=
  match option with
  | none => config
  | some flag => { config with smallPacketsOnly := flag }

def setupThreshold (option : Option Int32) (config : PaddingConfig) : PaddingConfig :=
  match option with
  | none => config
  | some threshold =>
      { config with threshold := if threshold < 0 then 512 else threshold }

/-- The part of `setup_myself` on padding: the options in the order in which they are read. -/
def setupPadding (options : PaddingOptions) : PaddingConfig :=
  paddingInit <| setupThreshold options.threshold <|
    setupSmallPacketsOnly options.smallPacketsOnly <| setupMax options.max <|
      setupMin options.min <| setupMode options.mode {}

/-! ## The policy -/

/-- An `int` as a `size_t`. -/
def sizeT (n : ℤ) : ℕ := (n % 2 ^ 64).toNat

/-- `RAND_MAX` -/
def randMax : ℕ := 2 ^ 31 - 1

/-- `padding_calculate_size`, where `rand` is the result of `rand()`.  There is none if the
difference of the bounds overflows. -/
def paddingCalculateSize (config : PaddingConfig) (rand len : ℕ) : Option ℕ :=
  if config.mode = .off then some 0
  else if config.smallPacketsOnly ∧ sizeT config.threshold.toInt ≤ len then some 0
  else if 1150 < len then some 0
  else
    match config.mode with
    | .off => some 0
    | .random =>
        if config.minSize < config.maxSize then
          let span := config.maxSize.toInt - config.minSize.toInt + 1
          if 2 ^ 31 ≤ span then none
          else some (min (sizeT (config.minSize.toInt + rand % span)) maxPaddingSize)
        else some (min (sizeT config.minSize.toInt) maxPaddingSize)
    | .buckets =>
        if config.buckets = [] then some 0
        else
          let totalSize := len + 3
          let size :=
            match config.buckets.find? (totalSize ≤ sizeT ·.toInt) with
            | some bucket => sizeT bucket.toInt - totalSize
            | none => 0
          some (min (if size = 0 then rand % 64 else size) maxPaddingSize)

/-- The policy can answer with this size. -/
def Calculates (config : PaddingConfig) (len size : ℕ) : Prop :=
  ∃ rand ≤ randMax, paddingCalculateSize config rand len = some size

/-- The policy spares a packet of this length. -/
def Spared (config : PaddingConfig) (len : ℕ) : Prop :=
  config.smallPacketsOnly = true ∧ config.threshold.toInt ≤ len ∨ 1150 < len

/-- The configurations and lengths for which the padding of `quic_send_packet` is one of the
policy's: 64 bytes in random mode, up to the next multiple of 128 in bucket mode. -/
def Agrees (config : PaddingConfig) (len : ℕ) : Prop :=
  match config.mode with
  | .off => True
  | .random =>
      ¬ Spared config len ∧
        (config.minSize.toInt ≤ 64 ∧ 64 ≤ config.maxSize.toInt ∧
            config.maxSize.toInt - config.minSize.toInt < 2 ^ 31 - 1 ∨
          config.minSize.toInt = 64 ∧ config.maxSize.toInt ≤ 64)
  | .buckets =>
      Spared config len ∧ 128 ∣ len ∨ ¬ Spared config len ∧ (len = 509 ∨ len = 1021)

/-! ## The lengths -/

variable {config : PaddingConfig} {masquerading : Bool} {mode : PaddingMode} {len size : ℕ}

/-- The length of a datagram for a packet of this length. -/
def sentLen (masquerading : Bool) (mode : PaddingMode) (len : ℕ) : ℕ :=
  (if masquerading then http3HeaderLen (len + paddingLen mode len) else 0) +
    (if 0 < paddingLen mode len then 3 else 0) + len + paddingLen mode len

/-- A packet is not sent exactly if it does not fit into the buffer. -/
lemma quicSendPacket_eq_none_iff {packet : List UInt8} :
    quicSendPacket masquerading mode packet = none ↔
      bufferSpace < sentLen masquerading mode packet.length := by
  unfold quicSendPacket
  dsimp only
  rw [← sentLen]
  by_cases hlarge : bufferSpace < sentLen masquerading mode packet.length
  · simp [hlarge]
  · rw [if_neg hlarge]
    simp only [Option.map_eq_none_iff, hlarge, iff_false]
    unfold bufferSpace sentLen at hlarge
    unfold http3Header
    split_ifs at hlarge ⊢ <;> first | omega | simp

lemma paddingLen_random : paddingLen .random len = 64 := by
  simp only [paddingLen, targetSize, maxPaddingSize]
  omega

/-- What setup guarantees of a configuration. -/
structure PaddingConfig.Ready (config : PaddingConfig) : Prop where
  threshold : 0 ≤ config.threshold.toInt
  buckets : config.mode = .buckets → config.buckets = defaultBuckets

lemma setupThreshold_nonneg (option : Option Int32) (h : 0 ≤ config.threshold.toInt) :
    0 ≤ (setupThreshold option config).threshold.toInt := by
  cases option with
  | none => exact h
  | some threshold =>
      simp only [setupThreshold]
      split
      · decide
      · rename_i hneg
        rw [Int32.lt_iff_toInt_lt] at hneg
        exact Int.not_lt.mp hneg

@[simp]
lemma setupMode_frame (option : Option Text) :
    (setupMode option config).buckets = config.buckets ∧
      (setupMode option config).threshold = config.threshold := by
  unfold setupMode
  split
  · exact ⟨rfl, rfl⟩
  · split_ifs <;> exact ⟨rfl, rfl⟩

@[simp]
lemma setupMin_frame (option : Option Int32) :
    (setupMin option config).buckets = config.buckets ∧
      (setupMin option config).threshold = config.threshold := by
  cases option <;> exact ⟨rfl, rfl⟩

@[simp]
lemma setupMax_frame (option : Option Int32) :
    (setupMax option config).buckets = config.buckets ∧
      (setupMax option config).threshold = config.threshold := by
  unfold setupMax
  split
  · exact ⟨rfl, rfl⟩
  · dsimp only
    split_ifs <;> exact ⟨rfl, rfl⟩

@[simp]
lemma setupSmallPacketsOnly_frame (option : Option Bool) :
    (setupSmallPacketsOnly option config).buckets = config.buckets ∧
      (setupSmallPacketsOnly option config).threshold = config.threshold := by
  cases option <;> exact ⟨rfl, rfl⟩

lemma setupThreshold_buckets (option : Option Int32) :
    (setupThreshold option config).buckets = config.buckets := by
  cases option <;> rfl

lemma paddingInit_ready (hthreshold : 0 ≤ config.threshold.toInt) (hbuckets : config.buckets = []) :
    (paddingInit config).Ready := by
  unfold paddingInit
  split
  · exact ⟨hthreshold, fun _ => rfl⟩
  · rename_i hmode
    exact ⟨hthreshold, fun h => absurd ⟨hbuckets, h⟩ hmode⟩

lemma setupPadding_ready (options : PaddingOptions) : (setupPadding options).Ready := by
  refine paddingInit_ready (setupThreshold_nonneg _ ?_) ?_
  · simp [(by decide : (512 : Int32).toInt = 512)]
  · rw [setupThreshold_buckets]
    simp

lemma sizeT_of_nonneg {n : ℤ} (h : 0 ≤ n) (h' : n < 2 ^ 64) : (sizeT n : ℤ) = n := by
  unfold sizeT
  omega

lemma sizeT_threshold_le_iff (h : config.Ready) :
    sizeT config.threshold.toInt ≤ len ↔ config.threshold.toInt ≤ len := by
  have hlt := config.threshold.toInt_lt
  have hsize := sizeT_of_nonneg h.threshold (by omega)
  omega

/-- The policy answers with 0 for packets that it spares. -/
lemma calculates_of_spared (h : config.Ready) (hspared : Spared config len) :
    Calculates config len size ↔ size = 0 := by
  have hzero : ∀ rand, paddingCalculateSize config rand len = some 0 := by
    intro rand
    unfold paddingCalculateSize
    rcases hspared with ⟨hsmall, hthreshold⟩ | hlarge
    · simp [hsmall, (sizeT_threshold_le_iff h).mpr hthreshold]
    · simp [hlarge]
  constructor
  · rintro ⟨rand, -, hrand⟩
    rw [hzero] at hrand
    exact (Option.some.inj hrand).symm
  · rintro rfl
    exact ⟨0, by simp, hzero 0⟩

lemma min_sizeT_eq_iff {n : ℤ} (h : -2 ^ 31 ≤ n) (h' : n < 2 ^ 31) :
    min (sizeT n) maxPaddingSize = 64 ↔ n = 64 := by
  unfold sizeT maxPaddingSize
  omega

/-- A packet that is not spared gets 64 bytes of random padding if the bounds allow it. -/
lemma calculates_random_iff (h : config.Ready) (hmode : config.mode = .random)
    (hspared : ¬ Spared config len) :
    Calculates config len 64 ↔
      config.minSize.toInt ≤ 64 ∧ 64 ≤ config.maxSize.toInt ∧
          config.maxSize.toInt - config.minSize.toInt < 2 ^ 31 - 1 ∨
        config.minSize.toInt = 64 ∧ config.maxSize.toInt ≤ 64 := by
  have hmin := config.minSize.le_toInt
  have hmin' := config.minSize.toInt_lt
  have hmax := config.maxSize.toInt_lt
  unfold Spared at hspared
  rw [not_or, ← sizeT_threshold_le_iff h] at hspared
  unfold Calculates paddingCalculateSize
  simp only [hmode, hspared, reduceCtorEq, if_false, Int32.lt_iff_toInt_lt]
  by_cases hlt : config.minSize.toInt < config.maxSize.toInt
  · simp only [hlt, if_true]
    by_cases hspan : 2 ^ 31 ≤ config.maxSize.toInt - config.minSize.toInt + 1
    · simp only [hspan, if_true]
      simp
      omega
    · simp only [hspan, if_false, Option.some.injEq]
      constructor
      · rintro ⟨rand, -, hrand⟩
        have hmod := Int.emod_lt_of_pos (rand : ℤ)
          (show 0 < config.maxSize.toInt - config.minSize.toInt + 1 by omega)
        have hmod' := Int.emod_nonneg (rand : ℤ)
          (show config.maxSize.toInt - config.minSize.toInt + 1 ≠ 0 by omega)
        rw [min_sizeT_eq_iff (by omega) (by omega)] at hrand
        omega
      · rintro (⟨hlow, hhigh, -⟩ | hequal)
        · refine ⟨(64 - config.minSize.toInt).toNat, ?_, ?_⟩
          · unfold randMax
            omega
          · have hmod : ((64 - config.minSize.toInt).toNat : ℤ) %
                (config.maxSize.toInt - config.minSize.toInt + 1) =
                64 - config.minSize.toInt := by
              rw [Int.emod_eq_of_lt (by omega) (by omega)]
              omega
            rw [hmod, min_sizeT_eq_iff (by omega) (by omega)]
            omega
        · omega
  · simp only [hlt, if_false, Option.some.injEq]
    rw [min_sizeT_eq_iff hmin hmin']
    constructor
    · rintro ⟨rand, -, hequal⟩
      omega
    · intro hequal
      exact ⟨0, by simp, by omega⟩

/-- Less the header, the buckets are no multiples of 128. -/
lemma bucket_not_aligned {bucket : ℕ} (hbucket : bucket = 512 ∨ bucket = 1024 ∨ bucket = 1500)
    (h : len + 3 < bucket) :
    min (bucket - (len + 3)) 512 ≠ (len + 127) / 128 * 128 - len := by
  rcases hbucket with rfl | rfl | rfl
  · omega
  · omega
  · omega

/-- A packet that is not spared is filled up to a bucket of the policy, or gets up to 63 bytes if it
is as long as one. -/
lemma calculates_buckets_iff (h : config.Ready) (hmode : config.mode = .buckets)
    (hspared : ¬ Spared config len) :
    Calculates config len (paddingLen .buckets len) ↔ len = 509 ∨ len = 1021 := by
  have hfirst : sizeT (512 : Int32).toInt = 512 := by decide
  have hsecond : sizeT (1024 : Int32).toInt = 1024 := by decide
  have hthird : sizeT (1500 : Int32).toInt = 1500 := by decide
  unfold Spared at hspared
  rw [not_or, ← sizeT_threshold_le_iff h] at hspared
  unfold Calculates paddingCalculateSize
  simp only [hmode, hspared, h.buckets hmode, defaultBuckets, reduceCtorEq, if_false,
    List.find?_cons, List.find?_nil, paddingLen, targetSize, maxPaddingSize, hfirst, hsecond, hthird,
    Option.some.injEq]
  constructor
  · rintro ⟨rand, -, hrand⟩
    by_contra hlen
    by_cases h512 : len + 3 ≤ 512
    · have hlt : len + 3 < 512 := by omega
      simp only [h512, decide_true, hfirst, Nat.sub_ne_zero_of_lt hlt, if_false] at hrand
      exact bucket_not_aligned (.inl rfl) hlt hrand
    · by_cases h1024 : len + 3 ≤ 1024
      · have hlt : len + 3 < 1024 := by omega
        simp only [h512, h1024, decide_true, decide_false, hsecond, Nat.sub_ne_zero_of_lt hlt,
          if_false] at hrand
        exact bucket_not_aligned (.inr (.inl rfl)) hlt hrand
      · have hlt : len + 3 < 1500 := by omega
        simp only [h512, h1024, hlt.le, decide_true, decide_false, hthird,
          Nat.sub_ne_zero_of_lt hlt, if_false] at hrand
        exact bucket_not_aligned (.inr (.inr rfl)) hlt hrand
  · rintro (rfl | rfl)
    · exact ⟨3, by decide, by decide⟩
    · exact ⟨3, by decide, by decide⟩

/-- **When the padding of a packet that is sent respects the configuration**: exactly if the packet
does not fit into the buffer, so that it is not sent, or mode, bounds and length agree with what
`quic_send_packet` always does. -/
theorem padding_respected_iff (options : PaddingOptions) (masquerading : Bool)
    (packet : List UInt8) :
    (quicSendPacket masquerading (setupPadding options).mode packet ≠ none →
      Calculates (setupPadding options) packet.length
        (paddingLen (setupPadding options).mode packet.length)) ↔
      bufferSpace < sentLen masquerading (setupPadding options).mode packet.length ∨
        Agrees (setupPadding options) packet.length := by
  have hready := setupPadding_ready options
  rw [Ne, quicSendPacket_eq_none_iff, ← or_iff_not_imp_left]
  refine or_congr_right ?_
  unfold Agrees
  cases hmode : (setupPadding options).mode with
  | off =>
      refine iff_of_true ⟨0, by simp, ?_⟩ trivial
      simp [paddingCalculateSize, hmode, paddingLen, targetSize]
  | random =>
      rw [paddingLen_random]
      by_cases hspared : Spared (setupPadding options) packet.length
      · rw [calculates_of_spared hready hspared]
        simp [hspared]
      · rw [calculates_random_iff hready hmode hspared]
        simp [hspared]
  | buckets =>
      by_cases hspared : Spared (setupPadding options) packet.length
      · rw [calculates_of_spared hready hspared, paddingLen_eq_zero_iff]
        simp [hspared]
      · rw [calculates_buckets_iff hready hmode hspared]
        simp [hspared]

/-- A packet of 1200 bytes gets 64 bytes of padding, although the policy does not pad packets above
1150 bytes, as they may become too long for a datagram. -/
theorem large_packet_padded : ¬ ∀ (options : PaddingOptions) (masquerading : Bool)
    (packet : List UInt8), quicSendPacket masquerading (setupPadding options).mode packet ≠ none →
    Calculates (setupPadding options) packet.length
      (paddingLen (setupPadding options).mode packet.length) := by
  intro h
  obtain ⟨rand, -, hrand⟩ := h { mode := some (ascii "random") } true (List.replicate 1200 0)
    (by rw [Ne, quicSendPacket_eq_none_iff, List.length_replicate]; decide)
  rw [List.length_replicate] at hrand
  simp [paddingCalculateSize, (by decide : (setupPadding { mode := some (ascii "random") }).mode =
    .random), paddingLen_random] at hrand

end Tinc.Quic
