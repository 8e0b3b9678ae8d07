import TincQuic.Network.Headers

/-!
# `do_decrement_ttl`

A packet that is forwarded for others loses one of its TTL, and the checksum of an IPv4 header is
made to follow, without a look at the rest of the header.

* `decrementIpv4_eq` says which bytes are assigned, and `doDecrementTtl_ok` when.
* **A header that verifies still does**, whatever its checksum and its length are:
  `decrement_right`.
* **An error is answered with an error** unless two bytes that have nothing to do with it happen to
  say that it is one: `answersExpired_iff`.
-/

namespace Tinc

open Bytes Checksum Function

/-- The header of an IPv4 packet, as long as it says itself. -/
def Packet.ipHeader (p : Packet) (ethlen : ℕ) : List UInt8 :=
  p.slice ethlen (4 * (p.byte ethlen % 16))

/-- What `do_decrement_ttl` adds to the checksum, before the carries. -/
def ttlSum (p : Packet) (ethlen : ℕ) : ℕ :=
  p.word (ethlen + 10) + p.word (ethlen + 8) +
    (65535 - ((p.byte (ethlen + 8) - 1) * 256 + p.byte (ethlen + 9)))

section Ipv4

variable (p : Packet) (ethlen : ℕ)

lemma ttlSum_lt : ttlSum p ethlen < 2 ^ 32 := by
  have h10 := p.word_lt (ethlen + 10)
  have h8 := p.word_lt (ethlen + 8)
  unfold ttlSum
  omega

/-- The bytes that are assigned. -/
lemma decrementIpv4_eq : p.decrementIpv4 ethlen =
    ((p.set (ethlen + 8) (p.byte (ethlen + 8) - 1)).set (ethlen + 10)
      (fold (ttlSum p ethlen) / 256)).set (ethlen + 11) (fold (ttlSum p ethlen) % 256) := by
  have h8 := p.byte_lt (ethlen + 8)
  have hnew : (p.set (ethlen + 8) (p.byte (ethlen + 8) - 1)).word (ethlen + 8) =
      (p.byte (ethlen + 8) - 1) * 256 + p.byte (ethlen + 9) := by
    rw [Packet.word, Packet.byte_set_self _ (by omega), Packet.byte_set_of_ne _ (by omega)]
  have hsum : (p.set (ethlen + 8) (p.byte (ethlen + 8) - 1)).word (ethlen + 10) =
      p.word (ethlen + 10) := by
    rw [Packet.word, Packet.byte_set_of_ne _ (by omega), Packet.byte_set_of_ne _ (by omega),
      Packet.word]
  unfold Packet.decrementIpv4
  dsimp only
  rw [hnew, hsum, addCarries_eq]
  rfl

/-- The bytes that are not assigned. -/
lemma data_decrementIpv4 {i : ℕ} (h8 : i ≠ ethlen + 8) (h10 : i ≠ ethlen + 10)
    (h11 : i ≠ ethlen + 11) : (p.decrementIpv4 ethlen).data i = p.data i := by
  rw [decrementIpv4_eq, Packet.data_set_of_ne _ h11, Packet.data_set_of_ne _ h10,
    Packet.data_set_of_ne _ h8]

lemma byte_decrementIpv4 : (p.decrementIpv4 ethlen).byte (ethlen + 8) = p.byte (ethlen + 8) - 1 := by
  have h8 := p.byte_lt (ethlen + 8)
  rw [decrementIpv4_eq, Packet.byte_set_of_ne _ (by omega), Packet.byte_set_of_ne _ (by omega),
    Packet.byte_set_self _ (by omega)]

/-- The new checksum is what the loop over the carries ends with. -/
lemma word_decrementIpv4 : (p.decrementIpv4 ethlen).word (ethlen + 10) = fold (ttlSum p ethlen) := by
  have hlt := fold_lt (ttlSum_lt p ethlen)
  rw [decrementIpv4_eq, Packet.word, Packet.byte_set_of_ne _ (by omega),
    Packet.byte_set_self _ (by omega), Packet.byte_set_self _ (by omega)]
  omega

/-- The sum of the header words stays what it is, modulo 65535. -/
lemma weigh_decrementIpv4 (httl : 0 < p.byte (ethlen + 8)) {n : ℕ} (hn : 12 ≤ n) :
    weigh 256 1 ((p.decrementIpv4 ethlen).slice ethlen n) ≡ weigh 256 1 (p.slice ethlen n)
      [MOD 65535] := by
  have hlt := fold_lt (ttlSum_lt p ethlen)
  have hmod := fold_mod (ttlSum p ethlen)
  have hbytes := fun i => p.byte_lt i
  rw [decrementIpv4_eq]
  generalize fold (ttlSum p ethlen) = sum at hlt hmod
  have h8 := weigh_slice_set p 256 1 (i := ethlen) (j := ethlen + 8) (n := n)
    (b := p.byte (ethlen + 8) - 1) (by omega) (by have := hbytes (ethlen + 8); omega)
  generalize hp₁ : p.set (ethlen + 8) (p.byte (ethlen + 8) - 1) = p₁ at h8 ⊢
  have h10 := weigh_slice_set p₁ 256 1 (i := ethlen) (j := ethlen + 10) (n := n)
    (b := sum / 256) (by omega) (by omega)
  generalize hp₂ : p₁.set (ethlen + 10) (sum / 256) = p₂ at h10 ⊢
  have h11 := weigh_slice_set p₂ 256 1 (i := ethlen) (j := ethlen + 11) (n := n)
    (b := sum % 256) (by omega) (by omega)
  have hb10 : p₁.byte (ethlen + 10) = p.byte (ethlen + 10) := by
    rw [← hp₁, Packet.byte_set_of_ne _ (by omega)]
  have hb11 : p₂.byte (ethlen + 11) = p.byte (ethlen + 11) := by
    rw [← hp₂, Packet.byte_set_of_ne _ (by omega), ← hp₁, Packet.byte_set_of_ne _ (by omega)]
  have h9 := hbytes (ethlen + 9)
  have hb8 := hbytes (ethlen + 8)
  have heven : weight 256 1 8 = 256 ∧ weight 256 1 10 = 256 ∧ weight 256 1 11 = 1 := by decide
  have hword8 : p.word (ethlen + 8) = p.byte (ethlen + 8) * 256 + p.byte (ethlen + 9) := rfl
  have hword10 : p.word (ethlen + 10) = p.byte (ethlen + 10) * 256 + p.byte (ethlen + 11) := rfl
  simp only [Nat.add_sub_cancel_left, hb10, hb11, heven] at h8 h10 h11
  unfold ttlSum Nat.ModEq at hmod
  rw [hword8, hword10] at hmod
  unfold Nat.ModEq
  omega

/-- **A header that verifies still does.** -/
lemma verifies_decrementIpv4 (httl : 1 < p.byte (ethlen + 8))
    (h : Verifies (p.ipHeader ethlen)) : Verifies ((p.decrementIpv4 ethlen).ipHeader ethlen) := by
  have hsize : (p.decrementIpv4 ethlen).byte ethlen = p.byte ethlen := by
    unfold Packet.byte
    rw [data_decrementIpv4 p ethlen (by omega) (by omega) (by omega)]
  unfold Packet.ipHeader at h ⊢
  rw [hsize]
  have hle : 4 * (p.byte ethlen % 16) < 65536 := by omega
  by_cases hshort : 4 * (p.byte ethlen % 16) ≤ 8
  · -- the header ends in front of what is assigned
    rw [Packet.slice_congr (q := p) _ fun k hk =>
      data_decrementIpv4 p ethlen (by omega) (by omega) (by omega)]
    exact h
  · rw [verifies_iff (by simpa using hle)] at h ⊢
    refine ⟨⟨(p.decrementIpv4 ethlen).data (ethlen + 8), ?_, ?_⟩, ?_⟩
    · exact (Packet.mem_slice _).mpr ⟨8, by omega, rfl⟩
    · intro hzero
      have hbyte := byte_decrementIpv4 p ethlen
      rw [Packet.byte, hzero, UInt8.toNat_zero] at hbyte
      omega
    · exact (weigh_decrementIpv4 p ethlen (by omega) (by omega)).trans h.2

end Ipv4

/-! ## What is decremented -/

/-- The packets that may go on, and what becomes of them. -/
lemma doDecrementTtl_ok {p q : Packet} {type ethlen : ℕ} (htype : p.etherType = (type, ethlen))
    (h : doDecrementTtl p = .ok q) :
    (type = ethPIp ∧ 1 < p.byte (ethlen + 8) ∧ q = p.decrementIpv4 ethlen) ∨
    (type = ethPIpv6 ∧ 1 < p.byte (ethlen + 7) ∧
      q = p.set (ethlen + 7) (p.byte (ethlen + 7) - 1)) ∨
    (type ≠ ethPIp ∧ type ≠ ethPIpv6 ∧ q = p) := by
  unfold doDecrementTtl at h
  rw [htype] at h
  dsimp only at h
  split at h
  · rename_i hip
    split at h
    · cases h
    · split at h
      · cases h
      · rename_i httl
        exact .inl ⟨hip, not_le.mp httl, (Except.ok.inj h).symm⟩
  · rename_i hip
    split at h
    · rename_i hipv6
      split at h
      · cases h
      · split at h
        · cases h
        · rename_i httl
          exact .inr (.inl ⟨hipv6, not_le.mp httl, (Except.ok.inj h).symm⟩)
    · rename_i hipv6
      exact .inr (.inr ⟨hip, hipv6, (Except.ok.inj h).symm⟩)

/-- A packet `p` has lost one of its TTL or hop limit, and is `q` now. -/
structure DecrementRight (p q : Packet) : Prop where
  len : q.len = p.len
  ipv4 : ∀ ethlen, p.etherType = (ethPIp, ethlen) →
    q.byte (ethlen + 8) + 1 = p.byte (ethlen + 8) ∧
    (∀ i, i ≠ ethlen + 8 → i ≠ ethlen + 10 → i ≠ ethlen + 11 → q.data i = p.data i) ∧
    Loop.run carryBody 4 (ttlSum p ethlen) = some (q.word (ethlen + 10)) ∧
    (Verifies (p.ipHeader ethlen) → Verifies (q.ipHeader ethlen))
  ipv6 : ∀ ethlen, p.etherType = (ethPIpv6, ethlen) →
    q.byte (ethlen + 7) + 1 = p.byte (ethlen + 7) ∧ ∀ i, i ≠ ethlen + 7 → q.data i = p.data i

/-- **Where `do_decrement_ttl` lets a packet go on**, the packet has lost one of its TTL, nothing
else has changed but the checksum, the loop over the carries has ended, and a header that verified
does so again. -/
theorem decrement_right {p q : Packet} (h : doDecrementTtl p = .ok q) : DecrementRight p q := by
  have hne : ethPIp ≠ ethPIpv6 := by decide
  refine ⟨?_, fun ethlen htype => ?_, fun ethlen htype => ?_⟩
  · rcases doDecrementTtl_ok rfl h with ⟨-, -, rfl⟩ | ⟨-, -, rfl⟩ | ⟨-, -, rfl⟩
    · rfl
    · rfl
    · rfl
  · rcases doDecrementTtl_ok htype h with ⟨-, httl, rfl⟩ | ⟨heq, -, -⟩ | ⟨hnot, -, -⟩
    · refine ⟨?_, fun i => data_decrementIpv4 p ethlen, ?_, verifies_decrementIpv4 p ethlen httl⟩
      · rw [byte_decrementIpv4]
        omega
      · rw [word_decrementIpv4, run_carryBody (ttlSum_lt p ethlen)]
    · exact absurd heq hne
    · exact absurd rfl hnot
  · rcases doDecrementTtl_ok htype h with ⟨heq, -, -⟩ | ⟨-, httl, rfl⟩ | ⟨-, hnot, -⟩
    · exact absurd heq.symm hne
    · have hlt := p.byte_lt (ethlen + 7)
      refine ⟨?_, fun i hi => Packet.data_set_of_ne _ hi _⟩
      rw [Packet.byte_set_self _ (by omega)]
      omega
    · exact absurd rfl hnot

/-- A frame with these bytes behind the two addresses. -/
def frameOf (bytes : List UInt8) : Packet where
  data i := (List.replicate 12 0 ++ bytes).getD i 0
  len := 12 + bytes.length

/-- An IPv4 header with a TTL of 64. -/
def sampleFrame : Packet :=
  frameOf [0x08, 0x00, 0x45, 0, 0, 20, 0, 0, 0, 0, 64, 17, 0xae, 0xd7, 10, 0, 0, 1, 192, 0, 2, 1]

theorem decrement_right_sample :
    DecrementRight sampleFrame (sampleFrame.decrementIpv4 14) ∧
      Verifies (sampleFrame.ipHeader 14) := by
  have hverifies : fold (weigh 256 1 (sampleFrame.ipHeader 14)) = 65535 := by decide +kernel
  refine ⟨decrement_right ?_, hverifies⟩
  have htype : sampleFrame.etherType = (ethPIp, 14) := by decide +kernel
  unfold doDecrementTtl
  rw [htype]
  dsimp only
  rw [if_pos rfl, if_neg (by decide +kernel), if_neg (by decide +kernel)]

/-! ## Errors about errors -/

variable (s : Routing) (p : Packet)

/-- There is nothing left of the TTL or of the hop limit. -/
def Packet.Expired : Prop :=
  (p.etherType.1 = ethPIp ∧ p.byte (p.etherType.2 + 8) ≤ 1) ∨
    (p.etherType.1 = ethPIpv6 ∧ p.byte (p.etherType.2 + 7) ≤ 1)

/-- The packet has its header. -/
def Packet.HasIpHeader : Prop :=
  p.etherType.2 + (if p.etherType.1 = ethPIp then 20 else 40) ≤ p.len

/-- The packet is a Time Exceeded message: of ICMP in an IPv4 packet without options that is not a
later fragment, or of ICMPv6 in an IPv6 packet without extension headers. -/
def Packet.IsTimeExceeded : Prop :=
  let ethlen := p.etherType.2
  (p.etherType.1 = ethPIp ∧ ethlen + 20 < p.len ∧ p.byte ethlen % 16 = 5 ∧
    p.word (ethlen + 6) % 8192 = 0 ∧ p.byte (ethlen + 9) = 1 ∧ p.byte (ethlen + 20) = 11) ∨
  (p.etherType.1 = ethPIpv6 ∧ ethlen + 40 < p.len ∧ p.byte (ethlen + 6) = 58 ∧
    p.byte (ethlen + 40) = 3)

/-- The bytes that `do_decrement_ttl` looks at, before it answers, are those of such a message.  In
an IPv4 packet they are a byte of the checksum and one of what follows the header. -/
def Packet.LooksExceeded : Prop :=
  let ethlen := p.etherType.2
  (p.etherType.1 = ethPIp ∧ p.byte (ethlen + 11) = 1 ∧ p.byte (ethlen + 32) = 11) ∨
    (p.etherType.1 = ethPIpv6 ∧ p.byte (ethlen + 6) = 58 ∧ p.byte (ethlen + 40) = 3)

/-- `do_decrement_ttl` sends a Time Exceeded message. -/
def SendsTimeExceeded : Prop :=
  s.limited = false ∧
    (doDecrementTtl p = .error (.icmp 11 0) ∨ doDecrementTtl p = .error (.icmp6 3 0))

/-- An expired packet is not let through, and it is answered if it is no answer itself. -/
structure AnswersExpired : Prop where
  stopped : ∃ action, doDecrementTtl p = .error action
  answered : SendsTimeExceeded s p ↔ ¬ p.IsTimeExceeded

variable {s p}

/-- What is done with an expired packet. -/
lemma doDecrementTtl_expired (h : p.Expired) :
    (∃ action, doDecrementTtl p = .error action) ∧
      ((doDecrementTtl p = .error (.icmp 11 0) ∨ doDecrementTtl p = .error (.icmp6 3 0)) ↔
        p.HasIpHeader ∧ ¬ p.LooksExceeded) := by
  have hne : ethPIpv6 ≠ ethPIp := by decide
  unfold doDecrementTtl Packet.HasIpHeader Packet.LooksExceeded
  rcases h with ⟨htype, httl⟩ | ⟨htype, httl⟩
  · simp only [htype, if_true, if_pos httl, true_and, hne.symm, false_and, or_false]
    by_cases hlen : p.len < p.etherType.2 + 20
    · simp [hlen]
    · by_cases hlook : p.byte (p.etherType.2 + 11) = 1 ∧ p.byte (p.etherType.2 + 32) = 11
      · simp [hlen, hlook]
      · have hsend : p.byte (p.etherType.2 + 11) ≠ 1 ∨ p.byte (p.etherType.2 + 32) ≠ 11 :=
          not_and_or.mp hlook
        simp [hlen, hlook, hsend, not_lt.mp hlen]
  · simp only [htype, hne, if_true, if_false, if_pos httl, true_and, false_and, false_or]
    by_cases hlen : p.len < p.etherType.2 + 40
    · simp [hlen]
    · by_cases hlook : p.byte (p.etherType.2 + 6) = 58 ∧ p.byte (p.etherType.2 + 40) = 3
      · simp [hlen, hlook]
      · have hsend : p.byte (p.etherType.2 + 6) ≠ 58 ∨ p.byte (p.etherType.2 + 40) ≠ 3 :=
          not_and_or.mp hlook
        simp [hlen, hlook, hsend, not_lt.mp hlen]

/-- **An expired packet is answered as it should be** just when it is a message of that kind and
is taken for one, or no answer is allowed in this second, or when it is none, has its header, is not
taken for one, and an answer is allowed. -/
theorem answersExpired_iff (h : p.Expired) : AnswersExpired s p ↔
    (p.IsTimeExceeded ∧ (s.limited = true ∨ ¬ p.HasIpHeader ∨ p.LooksExceeded)) ∨
      (¬ p.IsTimeExceeded ∧ s.limited = false ∧ p.HasIpHeader ∧ ¬ p.LooksExceeded) := by
  obtain ⟨hstopped, hsends⟩ := doDecrementTtl_expired h
  have hanswers : AnswersExpired s p ↔ (SendsTimeExceeded s p ↔ ¬ p.IsTimeExceeded) :=
    ⟨fun h => h.answered, fun h => ⟨hstopped, h⟩⟩
  rw [hanswers, SendsTimeExceeded, hsends]
  by_cases herror : p.IsTimeExceeded
  · cases hlimited : s.limited with
    | false => simp [herror, imp_iff_not_or]
    | true => simp [herror]
  · simp [herror]

/-- A router that decrements the TTL. -/
def agingRouting : Routing := { Routing.plain .router .internal with decrementTtl := true }

/-- A UDP packet that has expired. -/
def expiredFrame : Packet :=
  frameOf [0x08, 0x00, 0x45, 0, 0, 20, 0, 0, 0, 0, 1, 17, 0xed, 0xd7, 10, 0, 0, 1, 192, 0, 2, 1]

theorem answersExpired_udp : AnswersExpired agingRouting expiredFrame := by
  refine (answersExpired_iff ?_).mpr (.inr ⟨?_, rfl, ?_, ?_⟩)
  · unfold Packet.Expired
    decide +kernel
  · unfold Packet.IsTimeExceeded
    decide +kernel
  · unfold Packet.HasIpHeader
    decide +kernel
  · unfold Packet.LooksExceeded
    decide +kernel

/-- A Time Exceeded message in a packet that has expired. -/
def expiredError : Packet :=
  frameOf [0x08, 0x00, 0x45, 0, 0, 28, 0, 0, 0, 0, 1, 1, 0xed, 0xdf, 10, 0, 0, 1, 192, 0, 2, 1,
    11, 0, 0xf4, 0xff, 0, 0, 0, 0]

/-- The message is answered, because the bytes that are looked at are the wrong ones. -/
theorem error_answered : ¬ ∀ (s : Routing) (p : Packet), p.Expired → AnswersExpired s p := by
  intro h
  have hexpired : expiredError.Expired := by
    unfold Packet.Expired
    decide +kernel
  have hexceeded : expiredError.IsTimeExceeded := by
    unfold Packet.IsTimeExceeded
    decide +kernel
  have hsends : SendsTimeExceeded agingRouting expiredError := by
    refine ⟨rfl, (doDecrementTtl_expired hexpired).2.mpr ⟨?_, ?_⟩⟩
    · unfold Packet.HasIpHeader
      decide +kernel
    · unfold Packet.LooksExceeded
      decide +kernel
  exact (h agingRouting expiredError hexpired).answered.mp hsends hexceeded

end Tinc
