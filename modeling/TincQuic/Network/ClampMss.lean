import TincQuic.Network.IcmpErrors

/-!
# `clamp_mss`

A TCP segment that opens a connection says how large the segments may be that it wants back.  The
router lowers that number to what fits into its packets, and makes the checksum follow.

* `clampMss` walks over the options, and `mssBody` is one step of the walk.  `Clamps` says without a
  walk when it writes: `run_mssBody`.
* `tcpSegment` is where the IP headers say that the segment is, `Options` when its options are well
  formed, and `Due` which of them are too large.
* **The clamping is right just when what is clamped is what is due**, and stands where a word of the
  checksum begins: `clampRight_iff`.
-/

namespace Tinc

open Bytes Checksum Function

/-! ## The source -/

/-- Where `clamp_mss` looks for the TCP header. -/
def tcpStart (p : Packet) : Option ℕ :=
  let (type, start) := p.etherType
  let start := if type = ethPIp ∧ p.byte (start + 9) = 4 then start + 20 else start
  if p.len ≤ start + 20 then none
  else
    let start :=
      if type = ethPIp ∧ p.byte (start + 9) = 6 then some (start + p.byte start % 16 * 4)
      else if type = ethPIpv6 ∧ p.byte (start + 6) = 6 then some (start + 40)
      else none
    start.filter fun start => start + 20 < p.len

/-- The length of the options, which is nothing also if the data offset is too small. -/
def optionsLength (p : Packet) (start : ℕ) : ℕ := (p.byte (start + 12) / 16 - 5) * 4

/-- A turn of the loop over the options, at `i`: an option that is to be clamped is found, or the
loop ends without one, or it goes on. -/
def mssBody (p : Packet) (start len i : ℕ) : Option ℕ ⊕ ℕ :=
  if ¬ i < len then .inl none
  else if p.byte (start + 20 + i) = 0 then .inl none
  else if p.byte (start + 20 + i) = 1 then .inr (i + 1)
  else if len < i + 2 ∨ len < i + p.byte (start + 21 + i) then .inl none
  else if p.byte (start + 20 + i) ≠ 2 then
    if p.byte (start + 21 + i) < 2 then .inl none else .inr (i + p.byte (start + 21 + i))
  -- this is the second byte of all options, and not of the one at `i`
  else if p.byte (start + 21) ≠ 4 then .inl none
  else .inl (some i)

/-- The new checksum of TCP. -/
def mssChecksum (checksum oldmss newmss : ℕ) : ℕ :=
  let csum := carry (65535 - checksum + (65535 - oldmss) + newmss)
  -- a carry into the upper half is not written
  65535 - (csum + csum / 65536) % 65536

/-- The option at `i` is clamped, if it is too large.  The places that are written are returned as
well. -/
def clampAt (p : Packet) (mtu start i : ℕ) : Packet × List ℕ :=
  let oldmss := p.word (start + 22 + i)
  let newmss := (mtu + 65536 - start - 20) % 65536
  if oldmss ≤ newmss then (p, [])
  else
    let csum := mssChecksum (p.word (start + 16)) oldmss newmss
    let p := (p.set (start + 22 + i) (newmss / 256)).set (start + 23 + i) (newmss % 256)
    ((p.set (start + 16) (csum / 256)).set (start + 17) (csum % 256),
      [start + 22 + i, start + 23 + i, start + 16, start + 17])

/-- The MTU that counts for packets that `source` sends through `via`. -/
def effectiveMtu (s : Routing) (d : Daemon) (source via : Name) : ℕ :=
  if via ≠ d.myself ∧ s.mtu via < s.mtu source then s.mtu via else s.mtu source

/-- `clamp_mss`, with a bound on the rounds. -/
def clampMss (s : Routing) (d : Daemon) (source : Name) (via : Option Name) (p : Packet)
    (fuel : ℕ) : Option (Packet × List ℕ) :=
  match via with
  | none => some (p, [])
  | some via =>
      if (d.node via).options &&& optionClampMss = 0 then some (p, [])
      else
        let mtu := effectiveMtu s d source via
        match tcpStart p with
        | none => some (p, [])
        | some start =>
            let len := optionsLength p start
            if p.len < start + 20 + len then some (p, [])
            else (Loop.run (mssBody p start len) fuel 0).map fun
              | none => (p, [])
              | some i => clampAt p mtu start i

/-! ## The walk -/

section Walk

variable (b : ℕ → ℕ) (len : ℕ)

/-- Between `i` and `k` there are only options that are passed over. -/
inductive Skips : ℕ → ℕ → Prop where
  | refl (i : ℕ) : Skips i i
  | nop {i k : ℕ} (hi : i < len) (hnop : b i = 1) (rest : Skips (i + 1) k) : Skips i k
  | other {i k : ℕ} (hi : i + 2 ≤ len) (hkind : b i ≠ 0 ∧ b i ≠ 1 ∧ b i ≠ 2) (hsize : 2 ≤ b (i + 1))
      (hend : i + b (i + 1) ≤ len) (rest : Skips (i + b (i + 1)) k) : Skips i k

/-- The option at `k` is taken for one to be clamped. -/
structure TakenForMss (k : ℕ) : Prop where
  room : k + 2 ≤ len
  fits : k + b (k + 1) ≤ len
  kind : b k = 2
  second : b 1 = 4

variable {b len} {i k : ℕ}

/-- One step. -/
lemma skips_iff : Skips b len i k ↔ k = i ∨ (i < len ∧ b i = 1 ∧ Skips b len (i + 1) k) ∨
    (i + 2 ≤ len ∧ (b i ≠ 0 ∧ b i ≠ 1 ∧ b i ≠ 2) ∧ 2 ≤ b (i + 1) ∧ i + b (i + 1) ≤ len ∧
      Skips b len (i + b (i + 1)) k) := by
  constructor
  · intro h
    cases h with
    | refl => exact .inl rfl
    | nop hi hnop rest => exact .inr (.inl ⟨hi, hnop, rest⟩)
    | other hi hkind hsize hend rest => exact .inr (.inr ⟨hi, hkind, hsize, hend, rest⟩)
  · rintro (rfl | ⟨hi, hnop, rest⟩ | ⟨hi, hkind, hsize, hend, rest⟩)
    · exact .refl k
    · exact .nop hi hnop rest
    · exact .other hi hkind hsize hend rest

end Walk

/-- The options of a packet, by the places of their bytes. -/
def optionByte (p : Packet) (start i : ℕ) : ℕ := p.byte (start + 20 + i)

/-- **The walk ends**, and finds the option that is taken for one to be clamped, if there is one. -/
lemma run_mssBody (p : Packet) (start len fuel : ℕ) {i : ℕ} (hi : i ≤ len)
    (hfuel : len < i + fuel) : ∃ r, Loop.run (mssBody p start len) fuel i = some r ∧
      ∀ k, r = some k ↔
        Skips (optionByte p start) len i k ∧ TakenForMss (optionByte p start) len k := by
  induction fuel generalizing i with
  | zero => omega
  | succ fuel ih =>
      have hnext : p.byte (start + 21 + i) = optionByte p start (i + 1) := by
        unfold optionByte
        congr 1
        omega
      have hbody : mssBody p start len i =
          if ¬ i < len then .inl none
          else if optionByte p start i = 0 then .inl none
          else if optionByte p start i = 1 then .inr (i + 1)
          else if len < i + 2 ∨ len < i + optionByte p start (i + 1) then .inl none
          else if optionByte p start i ≠ 2 then
            if optionByte p start (i + 1) < 2 then .inl none
            else .inr (i + optionByte p start (i + 1))
          else if optionByte p start 1 ≠ 4 then .inl none
          else .inl (some i) := by
        rw [← hnext]
        rfl
      generalize optionByte p start = b at hbody ih ⊢
      -- the walk ends here, with `r`
      have hend : ∀ r, mssBody p start len i = .inl r →
          (∀ k, r = some k ↔ Skips b len i k ∧ TakenForMss b len k) → ∃ r,
          Loop.run (mssBody p start len) (fuel + 1) i = some r ∧
            ∀ k, r = some k ↔ Skips b len i k ∧ TakenForMss b len k :=
        fun r hr hk => ⟨r, Loop.run_of_inl hr fuel, hk⟩
      -- the walk goes on at `i'`
      have hgo : ∀ i', i < i' → i' ≤ len → mssBody p start len i = .inr i' →
          (∀ k, TakenForMss b len k → (Skips b len i k ↔ Skips b len i' k)) → ∃ r,
          Loop.run (mssBody p start len) (fuel + 1) i = some r ∧
            ∀ k, r = some k ↔ Skips b len i k ∧ TakenForMss b len k := by
        intro i' hlt hle hr hsame
        obtain ⟨r, hrun, hk⟩ := ih hle (by omega)
        refine ⟨r, by rw [Loop.run_of_inr hr, hrun], fun k => ?_⟩
        rw [hk]
        exact and_congr_left fun htaken => (hsame k htaken).symm
      split at hbody
      · refine hend none hbody fun k => ⟨by rintro ⟨⟩, ?_⟩
        rintro ⟨hskips, htaken⟩
        have hroom := htaken.room
        rcases skips_iff.mp hskips with rfl | ⟨hlt, -⟩ | ⟨hlt, -⟩
        all_goals omega
      · split at hbody
        · rename_i hzero
          refine hend none hbody fun k => ⟨by rintro ⟨⟩, ?_⟩
          rintro ⟨hskips, htaken⟩
          have hkind := htaken.kind
          rcases skips_iff.mp hskips with rfl | ⟨-, hnop, -⟩ | ⟨-, hother, -⟩
          all_goals omega
        · split at hbody
          · rename_i hnop
            refine hgo (i + 1) (by omega) (by omega) hbody fun k htaken => ?_
            have hkind := htaken.kind
            rw [skips_iff]
            constructor
            · rintro (rfl | ⟨-, -, hrest⟩ | ⟨-, hother, -⟩)
              · omega
              · exact hrest
              · omega
            · exact fun hrest => .inr (.inl ⟨by omega, hnop, hrest⟩)
          · split at hbody
            · refine hend none hbody fun k => ⟨by rintro ⟨⟩, ?_⟩
              rintro ⟨hskips, htaken⟩
              have hroom := htaken.room
              have hfits := htaken.fits
              rcases skips_iff.mp hskips with rfl | ⟨-, hnop, -⟩ | ⟨hroom, -, -, hfits, -⟩
              all_goals omega
            · split at hbody
              · split at hbody
                · refine hend none hbody fun k => ⟨by rintro ⟨⟩, ?_⟩
                  rintro ⟨hskips, htaken⟩
                  have hkind := htaken.kind
                  rcases skips_iff.mp hskips with rfl | ⟨-, hnop, -⟩ | ⟨-, -, hsize, -⟩
                  all_goals omega
                · refine hgo _ (by omega) (by omega) hbody fun k htaken => ?_
                  have hkind := htaken.kind
                  rw [skips_iff]
                  constructor
                  · rintro (rfl | ⟨-, hnop, -⟩ | ⟨-, -, -, -, hrest⟩)
                    · omega
                    · omega
                    · exact hrest
                  · exact fun hrest =>
                      .inr (.inr ⟨by omega, by omega, by omega, by omega, hrest⟩)
              · rename_i hkind
                have hself : ∀ k, Skips b len i k → k = i := by
                  intro k hskips
                  rcases skips_iff.mp hskips with rfl | ⟨-, hnop, -⟩ | ⟨-, hother, -⟩
                  · rfl
                  · omega
                  · omega
                split at hbody
                · refine hend none hbody fun k => ⟨by rintro ⟨⟩, ?_⟩
                  rintro ⟨-, htaken⟩
                  have hsecond := htaken.second
                  omega
                · refine hend (some i) hbody fun k => ⟨?_, ?_⟩
                  · rintro ⟨⟩
                    exact ⟨.refl i, by omega, by omega, by omega, by omega⟩
                  · rintro ⟨hskips, -⟩
                    rw [hself k hskips]

/-! ## What is due -/

/-- A TCP segment in a packet: where the IP header in front of it begins, where it begins itself,
and where it ends. -/
structure Segment where
  header : ℕ
  start : ℕ
  stop : ℕ
deriving DecidableEq

/-- The IPv4 header at `ip` is as long as it must be, and belongs to no later fragment. -/
def BeginsIpv4 (p : Packet) (ip : ℕ) : Prop :=
  5 ≤ p.byte ip % 16 ∧ p.word (ip + 6) % 8192 = 0

instance (p : Packet) (ip : ℕ) : Decidable (BeginsIpv4 p ip) := inferInstanceAs (Decidable (_ ∧ _))

/-- The TCP segment that the IP headers of the packet announce, of which there are two for IP in
IP. -/
def tcpSegment (p : Packet) : Option Segment :=
  let (type, ethlen) := p.etherType
  if type = ethPIp then
    let ip := if p.byte (ethlen + 9) = 4 then ethlen + 4 * (p.byte ethlen % 16) else ethlen
    if BeginsIpv4 p ethlen ∧ BeginsIpv4 p ip ∧ p.byte (ip + 9) = 6 then
      some { header := ip, start := ip + 4 * (p.byte ip % 16), stop := ip + p.word (ip + 2) }
    else none
  else if type = ethPIpv6 ∧ p.byte (ethlen + 6) = 6 then
    some { header := ethlen, start := ethlen + 40, stop := ethlen + 40 + p.word (ethlen + 4) }
  else none

/-- From `i` on the options are well formed, and those that say how large the segments may be begin
at the places in the list. -/
inductive Options (b : ℕ → ℕ) (len : ℕ) : ℕ → List ℕ → Prop where
  | finish : Options b len len []
  | last {i : ℕ} (hi : i < len) (hlast : b i = 0) : Options b len i []
  | nop {i : ℕ} {ms : List ℕ} (hi : i < len) (hnop : b i = 1) (rest : Options b len (i + 1) ms) :
      Options b len i ms
  | mss {i : ℕ} {ms : List ℕ} (hi : i + 4 ≤ len) (hkind : b i = 2) (hsize : b (i + 1) = 4)
      (rest : Options b len (i + 4) ms) : Options b len i (i :: ms)
  | other {i : ℕ} {ms : List ℕ} (hi : i + 2 ≤ len) (hkind : b i ≠ 0 ∧ b i ≠ 1 ∧ b i ≠ 2)
      (hsize : 2 ≤ b (i + 1)) (hend : i + b (i + 1) ≤ len)
      (rest : Options b len (i + b (i + 1)) ms) : Options b len i ms

/-- The packet has this TCP segment, with its header and with options that are well formed. -/
structure WellFormedTcp (p : Packet) (seg : Segment) (ms : List ℕ) : Prop where
  segment : tcpSegment p = some seg
  offset : 5 ≤ p.byte (seg.start + 12) / 16
  inside : seg.start + 20 + optionsLength p seg.start ≤ seg.stop
  whole : seg.stop ≤ p.len
  options : Options (optionByte p seg.start) (optionsLength p seg.start) 0 ms

/-- The option at `j` says that the segments may be larger than what fits into this MTU. -/
def Due (p : Packet) (mtu : ℕ) (seg : Segment) (j : ℕ) : Prop :=
  ∃ ms, WellFormedTcp p seg ms ∧ j ∈ ms ∧ mtu - seg.start - 20 < p.word (seg.start + 22 + j)

/-- The bytes that may be written for the option at `j`. -/
def mayWrite (seg : Segment) (j : ℕ) : List ℕ :=
  [seg.start + 16, seg.start + 17, seg.start + 22 + j, seg.start + 23 + j]

/-- The pseudo header of the checksum: the addresses, the protocol and the length. -/
def tcpPseudoHeader (p : Packet) (seg : Segment) : List UInt8 :=
  if p.etherType.1 = ethPIp then
    p.slice (seg.header + 12) 8 ++ [0, 6] ++ be16 (seg.stop - seg.start)
  else p.slice (seg.header + 8) 32 ++ be32 (seg.stop - seg.start) ++ be32 6

/-- The packet has a TCP segment whose checksum verifies. -/
def TcpVerifies (p : Packet) : Prop :=
  ∃ seg, tcpSegment p = some seg ∧ 5 ≤ p.byte (seg.start + 12) / 16 ∧
    seg.start + 20 + optionsLength p seg.start ≤ seg.stop ∧ seg.stop ≤ p.len ∧
    Verifies (tcpPseudoHeader p seg ++ p.slice seg.start (seg.stop - seg.start))

/-- What `clamp_mss` makes of `p`, which is `q` after it has written to these places: within the
packet and only where something is due, all of which is clamped, and a checksum that verified does
so again. -/
structure ClampRight (p : Packet) (mtu : ℕ) (q : Packet) (writes : List ℕ) : Prop where
  len : q.len = p.len
  frame : ∀ i, i ∉ writes → q.data i = p.data i
  inside : ∀ w ∈ writes, w < p.len
  only : ∀ w ∈ writes, ∃ seg j, Due p mtu seg j ∧ w ∈ mayWrite seg j
  clamped : ∀ seg j, Due p mtu seg j → q.word (seg.start + 22 + j) = mtu - seg.start - 20
  unchanged : (∀ seg j, ¬ Due p mtu seg j) → q = p
  checksum : TcpVerifies p → TcpVerifies q

/-- `clamp_mss` finds an option at `i` of what it takes for a TCP header, and writes. -/
structure Clamps (p : Packet) (mtu start i : ℕ) : Prop where
  located : tcpStart p = some start
  whole : start + 20 + optionsLength p start ≤ p.len
  reached : Skips (optionByte p start) (optionsLength p start) 0 i
  taken : TakenForMss (optionByte p start) (optionsLength p start) i
  large : mtu - start - 20 < p.word (start + 22 + i)

/-! ## What is written -/

section Written

variable {p : Packet} {mtu start i : ℕ}

lemma Packet.ethlen_le (p : Packet) : p.etherType.2 ≤ 18 := by
  unfold Packet.etherType
  split <;> simp

lemma tcpStart_le (h : tcpStart p = some start) : start ≤ 98 := by
  have hethlen := p.ethlen_le
  unfold tcpStart at h
  dsimp only at h
  generalize hip : (if p.etherType.1 = ethPIp ∧ p.byte (p.etherType.2 + 9) = 4
    then p.etherType.2 + 20 else p.etherType.2) = ip at h
  have hle : ip ≤ 38 := by
    split at hip <;> omega
  split at h
  · cases h
  · obtain ⟨hstart, -⟩ := Option.filter_eq_some_iff.mp h
    split at hstart
    · obtain rfl := Option.some.inj hstart
      omega
    · split at hstart
      · obtain rfl := Option.some.inj hstart
        omega
      · cases hstart

lemma optionsLength_le (p : Packet) (start : ℕ) : optionsLength p start ≤ 40 := by
  have hbyte := p.byte_lt (start + 12)
  unfold optionsLength
  omega

/-- There is at most one place to write. -/
lemma Clamps.unique {start' i' : ℕ} (h : Clamps p mtu start i) (h' : Clamps p mtu start' i') :
    start' = start ∧ i' = i := by
  have hstart := Option.some.inj (h'.located.symm.trans h.located)
  subst hstart
  obtain ⟨r, -, hr⟩ := run_mssBody p start' (optionsLength p start') 41
    (Nat.zero_le _) (by have := optionsLength_le p start'; omega)
  have hi := (hr i).mpr ⟨h.reached, h.taken⟩
  have hi' := (hr i').mpr ⟨h'.reached, h'.taken⟩
  exact ⟨rfl, Option.some.inj (hi'.symm.trans hi)⟩

variable {s : Routing} {d : Daemon} {source via : Name}

/-- **What `clamp_mss` does**: it writes where it clamps, and nothing else. -/
lemma clampMss_spec (hoption : (d.node via).options &&& optionClampMss ≠ 0)
    (hmtu : effectiveMtu s d source via = mtu) (h512 : 512 ≤ mtu) (hlt : mtu < 65536) :
    ∃ r, (∀ fuel, 40 < fuel → clampMss s d source (some via) p fuel = some r) ∧
      ((∃ start i, Clamps p mtu start i ∧ r = clampAt p mtu start i) ∨
        (∀ start i, ¬ Clamps p mtu start i) ∧ r = (p, [])) := by
  unfold clampMss
  simp only [if_neg hoption, hmtu]
  cases hstart : tcpStart p with
  | none =>
      refine ⟨(p, []), fun _ _ => rfl, .inr ⟨fun start i h => ?_, rfl⟩⟩
      rw [h.located] at hstart
      cases hstart
  | some start =>
      dsimp only
      have hsame : ∀ start' i, Clamps p mtu start' i → start' = start := fun start' i h =>
        Option.some.inj (h.located.symm.trans hstart)
      by_cases hlen : p.len < start + 20 + optionsLength p start
      · refine ⟨(p, []), fun _ _ => if_pos hlen, .inr ⟨fun start' i h => ?_, rfl⟩⟩
        obtain rfl := hsame start' i h
        have := h.whole
        omega
      · simp only [if_neg hlen]
        obtain ⟨r, hrun, hr⟩ := run_mssBody p start (optionsLength p start) 41
          (Nat.zero_le _) (by have := optionsLength_le p start; omega)
        have hruns : ∀ fuel, 40 < fuel →
            Loop.run (mssBody p start (optionsLength p start)) fuel 0 = some r := by
          intro fuel hfuel
          obtain ⟨r', hrun', hr'⟩ := run_mssBody p start (optionsLength p start) fuel
            (Nat.zero_le _) (by have := optionsLength_le p start; omega)
          have hrr : r' = r := Option.ext fun k => (hr' k).trans (hr k).symm
          rw [hrun', hrr]
        have hnew : (mtu + 65536 - start - 20) % 65536 = mtu - start - 20 := by
          have := tcpStart_le hstart
          omega
        cases r with
        | none =>
            refine ⟨(p, []), fun fuel hfuel => by rw [hruns fuel hfuel]; rfl,
              .inr ⟨fun start' i h => ?_, rfl⟩⟩
            obtain rfl := hsame start' i h
            have := (hr i).mpr ⟨h.reached, h.taken⟩
            cases this
        | some i =>
            refine ⟨clampAt p mtu start i, fun fuel hfuel => by rw [hruns fuel hfuel]; rfl, ?_⟩
            obtain ⟨hreached, htaken⟩ := (hr i).mp rfl
            by_cases hlarge : mtu - start - 20 < p.word (start + 22 + i)
            · exact .inl ⟨start, i, ⟨hstart, not_lt.mp hlen, hreached, htaken, hlarge⟩, rfl⟩
            · refine .inr ⟨fun start' i' h => ?_, ?_⟩
              · obtain rfl := hsame start' i' h
                obtain rfl := Option.some.inj ((hr i').mpr ⟨h.reached, h.taken⟩)
                exact hlarge h.large
              · unfold clampAt
                dsimp only
                rw [hnew, if_pos (not_lt.mp hlarge)]

/-- The packet after it was written to. -/
lemma clampAt_eq (h512 : 512 ≤ mtu) (hlt : mtu < 65536) (h : Clamps p mtu start i) :
    ∃ csum, csum = mssChecksum (p.word (start + 16)) (p.word (start + 22 + i)) (mtu - start - 20) ∧
      clampAt p mtu start i =
        ((((p.set (start + 22 + i) ((mtu - start - 20) / 256)).set (start + 23 + i)
          ((mtu - start - 20) % 256)).set (start + 16) (csum / 256)).set (start + 17) (csum % 256),
        [start + 22 + i, start + 23 + i, start + 16, start + 17]) := by
  have hnew : (mtu + 65536 - start - 20) % 65536 = mtu - start - 20 := by
    have := tcpStart_le h.located
    omega
  refine ⟨_, rfl, ?_⟩
  unfold clampAt
  dsimp only
  rw [hnew, if_neg (not_le.mpr h.large)]

/-- The carry of the second round is lost with the upper half, and is in the lower one. -/
lemma low_half {csum : ℕ} (hle : csum ≤ 65537) : (csum + csum / 65536) % 65536 ≤ 65535 ∧
    (csum + csum / 65536) % 65536 ≡ csum [MOD 65535] := by
  unfold Nat.ModEq
  rcases Nat.lt_or_ge csum 65536 with hlt | hge
  · have hzero : csum / 65536 = 0 := Nat.div_eq_of_lt hlt
    rw [hzero]
    omega
  · have hone : csum / 65536 = 1 := by omega
    rw [hone]
    omega

/-- The new checksum makes up for the difference. -/
lemma mssChecksum_mod {checksum oldmss newmss : ℕ} (hc : checksum < 65536) (ho : oldmss < 65536)
    (hn : newmss < 65536) : mssChecksum checksum oldmss newmss < 65536 ∧
      mssChecksum checksum oldmss newmss + newmss ≡ checksum + oldmss [MOD 65535] := by
  have hle : carry (65535 - checksum + (65535 - oldmss) + newmss) ≤ 65537 := by
    unfold carry
    omega
  obtain ⟨hlow, hmod⟩ := low_half hle
  have hsum := hmod.trans (carry_mod _)
  unfold mssChecksum
  dsimp only
  generalize (carry (65535 - checksum + (65535 - oldmss) + newmss) +
    carry (65535 - checksum + (65535 - oldmss) + newmss) / 65536) % 65536 = low at hlow hsum ⊢
  have hback : low + (checksum + oldmss) ≡ newmss [MOD 65535] := by
    have hall : 65535 - checksum + (65535 - oldmss) + newmss + (checksum + oldmss) =
        newmss + 65535 * 2 := by omega
    have hadd := hsum.add_right (checksum + oldmss)
    rw [hall] at hadd
    exact hadd.trans (Nat.add_mul_mod_self_left newmss 65535 2)
  refine ⟨by omega, ?_⟩
  calc 65535 - low + newmss ≡ 65535 - low + (low + (checksum + oldmss)) [MOD 65535] :=
        (hback.symm).add_left _
    _ = checksum + oldmss + 65535 := by omega
    _ ≡ checksum + oldmss [MOD 65535] := Nat.add_mod_right _ _

/-- The weights of the bytes of an option at `i`, counted from the TCP header. -/
lemma weight_option (i : ℕ) : (i % 2 = 0 ∧ weight 256 1 (22 + i) = 256 ∧ weight 256 1 (23 + i) = 1) ∨
    (i % 2 = 1 ∧ weight 256 1 (22 + i) = 1 ∧ weight 256 1 (23 + i) = 256) := by
  unfold weight
  rcases Nat.mod_two_eq_zero_or_one i with h | h
  · exact .inl ⟨h, if_pos (by omega), if_neg (by omega)⟩
  · exact .inr ⟨h, if_neg (by omega), if_pos (by omega)⟩

/-- What becomes of the sum of a segment: at an even place nothing, at an odd place the bytes of
the difference are swapped. -/
lemma weigh_clampAt (h512 : 512 ≤ mtu) (hlt : mtu < 65536) (h : Clamps p mtu start i) {n : ℕ}
    (hn : 24 + i ≤ n) :
    weigh 256 1 ((clampAt p mtu start i).1.slice start n) +
        i % 2 * 255 * (p.word (start + 22 + i) - (mtu - start - 20)) ≡
      weigh 256 1 (p.slice start n) [MOD 65535] := by
  obtain ⟨csum, hcsum, hclamp⟩ := clampAt_eq h512 hlt h
  have hnewLt : mtu - start - 20 < 65536 := by omega
  obtain ⟨hcsumLt, hmod⟩ := mssChecksum_mod (p.word_lt (start + 16)) (p.word_lt (start + 22 + i))
    hnewLt
  rw [← hcsum] at hcsumLt hmod
  have hlarge := h.large
  rw [hclamp]
  generalize mtu - start - 20 = new at hnewLt hmod hlarge ⊢
  dsimp only
  have h22 := weigh_slice_set p 256 1 (i := start) (j := start + 22 + i) (n := n) (b := new / 256)
    (by omega) (by omega)
  generalize hp₁ : p.set (start + 22 + i) (new / 256) = p₁ at h22 ⊢
  have h23 := weigh_slice_set p₁ 256 1 (i := start) (j := start + 23 + i) (n := n) (b := new % 256)
    (by omega) (by omega)
  have hb23 : p₁.byte (start + 23 + i) = p.byte (start + 23 + i) := by
    rw [← hp₁, Packet.byte_set_of_ne _ (by omega)]
  have hb16 : p₁.byte (start + 16) = p.byte (start + 16) := by
    rw [← hp₁, Packet.byte_set_of_ne _ (by omega)]
  have hb17 : p₁.byte (start + 17) = p.byte (start + 17) := by
    rw [← hp₁, Packet.byte_set_of_ne _ (by omega)]
  generalize hp₂ : p₁.set (start + 23 + i) (new % 256) = p₂ at h23 ⊢
  have h16 := weigh_slice_set p₂ 256 1 (i := start) (j := start + 16) (n := n) (b := csum / 256)
    (by omega) (by omega)
  have hb16 : p₂.byte (start + 16) = p.byte (start + 16) := by
    rw [← hp₂, Packet.byte_set_of_ne _ (by omega), hb16]
  have hb17 : p₂.byte (start + 17) = p.byte (start + 17) := by
    rw [← hp₂, Packet.byte_set_of_ne _ (by omega), hb17]
  generalize hp₃ : p₂.set (start + 16) (csum / 256) = p₃ at h16 ⊢
  have h17 := weigh_slice_set p₃ 256 1 (i := start) (j := start + 17) (n := n) (b := csum % 256)
    (by omega) (by omega)
  have hb17 : p₃.byte (start + 17) = p.byte (start + 17) := by
    rw [← hp₃, Packet.byte_set_of_ne _ (by omega), hb17]
  have hw16 : weight 256 1 16 = 256 ∧ weight 256 1 17 = 1 := by decide
  have hi22 : start + 22 + i - start = 22 + i := by omega
  have hi23 : start + 23 + i - start = 23 + i := by omega
  have hword16 : p.word (start + 16) = p.byte (start + 16) * 256 + p.byte (start + 17) := rfl
  have hword22 : p.word (start + 22 + i) =
      p.byte (start + 22 + i) * 256 + p.byte (start + 23 + i) := by
    rw [Packet.word]
    congr 2
    omega
  rw [hi22] at h22
  rw [hi23, hb23] at h23
  rw [Nat.add_sub_cancel_left, hb16, hw16.1] at h16
  rw [Nat.add_sub_cancel_left, hb17, hw16.2] at h17
  rw [hword16] at hmod
  rw [hword22] at hmod hlarge ⊢
  generalize p.byte (start + 22 + i) = high at *
  generalize p.byte (start + 23 + i) = low at *
  unfold Nat.ModEq at hmod ⊢
  rcases weight_option i with ⟨heven, hw22, hw23⟩ | ⟨hodd, hw22, hw23⟩
  · rw [hw22] at h22
    rw [hw23] at h23
    rw [heven]
    omega
  · rw [hw22] at h22
    rw [hw23] at h23
    rw [hodd]
    omega

end Written

/-! ## The segment and its options -/

section Parsed

variable {b : ℕ → ℕ} {len i : ℕ} {ms : List ℕ}

/-- An option has its bytes within the options. -/
lemma Options.bounds (h : Options b len i ms) : ∀ j ∈ ms, i ≤ j ∧ j + 4 ≤ len := by
  induction h with
  | finish => simp
  | last => simp
  | nop _ _ _ ih =>
      intro j hj
      have := ih j hj
      omega
  | mss hi _ _ _ ih =>
      intro j hj
      rcases List.mem_cons.mp hj with rfl | hj
      · omega
      · have := ih j hj
        omega
  | other _ _ _ _ _ ih =>
      intro j hj
      have := ih j hj
      omega

/-- Two options do not overlap. -/
lemma Options.apart (h : Options b len i ms) :
    ∀ j ∈ ms, ∀ k ∈ ms, j = k ∨ j + 4 ≤ k ∨ k + 4 ≤ j := by
  induction h with
  | finish => simp
  | last => simp
  | nop _ _ _ ih => exact ih
  | mss _ _ _ rest ih =>
      intro j hj k hk
      have hbounds := rest.bounds
      rcases List.mem_cons.mp hj with rfl | hjs
      · rcases List.mem_cons.mp hk with rfl | hks
        · exact .inl rfl
        · have := hbounds k hks
          omega
      · rcases List.mem_cons.mp hk with rfl | hks
        · have := hbounds j hjs
          omega
        · exact ih j hjs k hks
  | other _ _ _ _ _ ih => exact ih

/-- Options can be read in one way only. -/
lemma Options.unique (h : Options b len i ms) : ∀ {ms'}, Options b len i ms' → ms' = ms := by
  induction h with
  | finish =>
      intro ms' h'
      cases h'
      · rfl
      all_goals omega
  | last hi hlast =>
      intro ms' h'
      cases h'
      · omega
      · rfl
      all_goals omega
  | nop hi hnop _ ih =>
      intro ms' h'
      cases h'
      · omega
      · omega
      · rename_i rest
        exact ih rest
      all_goals omega
  | mss hi hkind _ _ ih =>
      intro ms' h'
      cases h'
      · omega
      · omega
      · omega
      · rename_i rest
        rw [ih rest]
      · omega
  | other hi hkind _ _ _ ih =>
      intro ms' h'
      cases h'
      · omega
      · omega
      · omega
      · omega
      · rename_i rest
        exact ih rest

variable {p q : Packet} {seg : Segment}

/-- A segment has its IP header in front of it. -/
lemma tcpSegment_header (h : tcpSegment p = some seg) :
    p.etherType.2 ≤ seg.header ∧ seg.header + 20 ≤ seg.start ∧
      (p.etherType.1 = ethPIp ∨ seg.header + 40 ≤ seg.start) := by
  unfold tcpSegment BeginsIpv4 at h
  dsimp only at h
  split at h
  · rename_i htype
    generalize hip : (if p.byte (p.etherType.2 + 9) = 4
      then p.etherType.2 + 4 * (p.byte p.etherType.2 % 16) else p.etherType.2) = ip at h
    have hle : p.etherType.2 ≤ ip := by
      split at hip <;> omega
    split at h
    · obtain rfl := Option.some.inj h
      refine ⟨hle, ?_, .inl htype⟩
      dsimp only
      omega
    · cases h
  · split at h
    · obtain rfl := Option.some.inj h
      refine ⟨le_rfl, ?_, .inr le_rfl⟩
      dsimp only
      omega
    · cases h

/-- Where the type is, the packets are the same. -/
lemma etherType_congr (h : ∀ k < p.etherType.2, q.byte k = p.byte k) :
    q.etherType = p.etherType := by
  have h14 := p.ethlen_ge
  have hword : q.word 12 = p.word 12 := by
    rw [Packet.word, h 12 (by omega), h 13 (by omega), Packet.word]
  unfold Packet.etherType at h ⊢
  rw [hword]
  split at h
  · rename_i htag
    rw [if_pos htag, if_pos htag, Packet.word, h 16 (by simp), h 17 (by simp), Packet.word]
  · rename_i htag
    rw [if_neg htag, if_neg htag]

/-- What follows the IP headers does not say where the segment is. -/
lemma tcpSegment_congr (h : tcpSegment p = some seg) (hsame : ∀ k < seg.start, q.byte k = p.byte k) :
    tcpSegment q = some seg := by
  obtain ⟨hheader, hstart, -⟩ := tcpSegment_header h
  have htype : q.etherType = p.etherType := etherType_congr fun k hk => hsame k (by omega)
  have hword : ∀ k, k + 1 < seg.start → q.word k = p.word k := by
    intro k hk
    rw [Packet.word, hsame k (by omega), hsame (k + 1) hk, Packet.word]
  have hbegins : ∀ ip, ip + 8 ≤ seg.start → (BeginsIpv4 q ip ↔ BeginsIpv4 p ip) := by
    intro ip hip
    rw [BeginsIpv4, hsame ip (by omega), hword (ip + 6) (by omega), BeginsIpv4]
  unfold tcpSegment at h ⊢
  rw [htype]
  dsimp only at h ⊢
  rw [hsame (p.etherType.2 + 9) (by omega), hsame p.etherType.2 (by omega),
    hsame (p.etherType.2 + 6) (by omega), hword (p.etherType.2 + 4) (by omega)]
  generalize (if p.byte (p.etherType.2 + 9) = 4
    then p.etherType.2 + 4 * (p.byte p.etherType.2 % 16) else p.etherType.2) = ip at h ⊢
  split at h
  · rename_i hip
    rw [if_pos hip]
    have hheader : ip = seg.header := by
      split at h
      · exact congrArg Segment.header (Option.some.inj h)
      · cases h
    simp only [hbegins p.etherType.2 (by omega), hbegins ip (by omega), hsame ip (by omega),
      hsame (ip + 9) (by omega), hword (ip + 2) (by omega)]
    exact h
  · rename_i hip
    rw [if_neg hip]
    exact h

/-- The pseudo header is in words, and not empty of anything. -/
lemma tcpPseudoHeader_words (p : Packet) (seg : Segment) :
    (tcpPseudoHeader p seg).length % 2 = 0 ∧ ∃ a ∈ tcpPseudoHeader p seg, a ≠ 0 := by
  unfold tcpPseudoHeader be32 be16
  split
  · refine ⟨by simp, 6, by simp, by decide⟩
  · refine ⟨by simp, 6, ?_, by decide⟩
    have hsix : UInt8.ofNat (6 % 256) = 6 := rfl
    simp [hsix]

/-- The pseudo header is not longer than what is in front of the segment. -/
lemma length_tcpPseudoHeader_le (h : tcpSegment p = some seg) :
    (tcpPseudoHeader p seg).length ≤ seg.start := by
  have h14 := p.ethlen_ge
  obtain ⟨hheader, hstart, hlong⟩ := tcpSegment_header h
  unfold tcpPseudoHeader be32 be16
  split
  · simp
    omega
  · rename_i hother
    have hlong := hlong.resolve_left hother
    simp
    omega

/-- The pseudo header is made from what is in front of the segment. -/
lemma tcpPseudoHeader_congr (h : tcpSegment p = some seg)
    (hsame : ∀ k < seg.start, q.data k = p.data k) :
    tcpPseudoHeader q seg = tcpPseudoHeader p seg := by
  obtain ⟨hheader, hstart, hlong⟩ := tcpSegment_header h
  have htype : q.etherType = p.etherType :=
    etherType_congr fun k hk => congrArg UInt8.toNat (hsame k (by omega))
  unfold tcpPseudoHeader
  rw [htype]
  split
  · rw [Packet.slice_congr q (q := p) fun k hk => hsame _ (by omega)]
  · rename_i hother
    have hlong := hlong.resolve_left hother
    rw [Packet.slice_congr q (q := p) fun k hk => hsame _ (by omega)]

variable {mtu start : ℕ}

/-- What was written, and what was not. -/
lemma clampAt_spec (h512 : 512 ≤ mtu) (hlt : mtu < 65536) (h : Clamps p mtu start i) :
    (clampAt p mtu start i).2 = [start + 22 + i, start + 23 + i, start + 16, start + 17] ∧
      (clampAt p mtu start i).1.len = p.len ∧
      (∀ k, k ∉ (clampAt p mtu start i).2 → (clampAt p mtu start i).1.data k = p.data k) ∧
      (clampAt p mtu start i).1.word (start + 22 + i) = mtu - start - 20 := by
  obtain ⟨csum, -, hclamp⟩ := clampAt_eq h512 hlt h
  rw [hclamp]
  refine ⟨rfl, rfl, fun k hk => ?_, ?_⟩
  · simp only [List.mem_cons, List.not_mem_nil, or_false, not_or] at hk
    dsimp only
    rw [Packet.data_set_of_ne _ hk.2.2.2, Packet.data_set_of_ne _ hk.2.2.1,
      Packet.data_set_of_ne _ hk.2.1, Packet.data_set_of_ne _ hk.1]
  · have hnext : start + 22 + i + 1 = start + 23 + i := by omega
    dsimp only
    rw [Packet.word, hnext, Packet.byte_set_of_ne _ (by omega), Packet.byte_set_of_ne _ (by omega),
      Packet.byte_set_of_ne _ (by omega), Packet.byte_set_self _ (by omega),
      Packet.byte_set_of_ne _ (by omega), Packet.byte_set_of_ne _ (by omega),
      Packet.byte_set_self _ (by omega)]
    omega

/-- A segment verifies by its weights. -/
lemma verifies_tcp_iff (h : tcpSegment p = some seg) {n : ℕ} (hn : seg.start + n < 65536) :
    Verifies (tcpPseudoHeader p seg ++ q.slice seg.start n) ↔
      weigh 256 1 (tcpPseudoHeader p seg) + weigh 256 1 (q.slice seg.start n) ≡ 0 [MOD 65535] := by
  obtain ⟨heven, a, ha, hzero⟩ := tcpPseudoHeader_words p seg
  have hle := length_tcpPseudoHeader_le h
  have hlength : (tcpPseudoHeader p seg ++ q.slice seg.start n).length < 65536 := by
    rw [List.length_append, Packet.length_slice]
    omega
  rw [verifies_iff hlength, weigh_append_even 256 1 heven]
  exact and_iff_right ⟨a, List.mem_append_left _ ha, hzero⟩

/-- A difference that is weighed with 255 is none just when it is a multiple of 257. -/
lemma odd_place_iff {x y e d : ℕ} (hsum : x + e * 255 * d ≡ y [MOD 65535]) (he : e < 2) {a : ℕ}
    (hy : a + y ≡ 0 [MOD 65535]) : a + x ≡ 0 [MOD 65535] ↔ e = 0 ∨ 257 ∣ d := by
  unfold Nat.ModEq at *
  rcases (by omega : e = 0 ∨ e = 1) with rfl | rfl
  · omega
  · omega

/-- **The checksum after the clamping** verifies just when the bytes of the option are where those
of a word are, or their difference does not count. -/
lemma tcpVerifies_clampAt_iff (h512 : 512 ≤ mtu) (hlt : mtu < 65536) (hlen : p.len < 65536)
    (h : Clamps p mtu seg.start i) (hseg : tcpSegment p = some seg)
    (hi : i + 4 ≤ optionsLength p seg.start) (hv : TcpVerifies p) :
    TcpVerifies (clampAt p mtu seg.start i).1 ↔
      i % 2 = 0 ∨ 257 ∣ p.word (seg.start + 22 + i) - (mtu - seg.start - 20) := by
  obtain ⟨seg', hseg', hoffset, hinside, hstop, hverifies⟩ := hv
  obtain rfl := Option.some.inj (hseg'.symm.trans hseg)
  obtain ⟨hwrites, hqlen, hframe, -⟩ := clampAt_spec h512 hlt h
  have hweigh := weigh_clampAt h512 hlt h (n := seg'.stop - seg'.start) (by omega)
  generalize hq : (clampAt p mtu seg'.start i).1 = q at hqlen hframe hweigh ⊢
  rw [hwrites] at hframe
  have hsame : ∀ k, k < seg'.start + 16 → q.data k = p.data k := by
    intro k hk
    refine hframe k ?_
    simp
    omega
  have hbyte : q.byte (seg'.start + 12) = p.byte (seg'.start + 12) :=
    congrArg UInt8.toNat (hsame _ (by omega))
  have hoptions : optionsLength q seg'.start = optionsLength p seg'.start := by
    rw [optionsLength, hbyte, optionsLength]
  have hsegq : tcpSegment q = some seg' :=
    tcpSegment_congr hseg fun k hk => congrArg UInt8.toNat (hsame k (by omega))
  have hpseudo : tcpPseudoHeader q seg' = tcpPseudoHeader p seg' :=
    tcpPseudoHeader_congr hseg fun k hk => hsame k (by omega)
  have hsum := (verifies_tcp_iff hseg (q := p) (by omega)).mp hverifies
  have hiff := odd_place_iff hweigh (Nat.mod_lt i (by decide)) hsum
  rw [← verifies_tcp_iff hseg (by omega)] at hiff
  rw [← hiff]
  constructor
  · rintro ⟨seg'', hseg'', -, -, -, hall⟩
    obtain rfl := Option.some.inj (hseg''.symm.trans hsegq)
    rwa [hpseudo] at hall
  · intro hall
    refine ⟨seg', hsegq, by rwa [hbyte], by rwa [hoptions], by rwa [hqlen], ?_⟩
    rwa [hpseudo]

/-! ## The clamping is right -/

/-- What is due is in one segment, and its options are apart. -/
lemma Due.apart {seg' : Segment} {j k : ℕ} (h : Due p mtu seg j) (h' : Due p mtu seg' k) :
    seg' = seg ∧ (j = k ∨ j + 4 ≤ k ∨ k + 4 ≤ j) := by
  obtain ⟨ms, hwell, hj, -⟩ := h
  obtain ⟨ms', hwell', hk, -⟩ := h'
  obtain rfl := Option.some.inj (hwell'.segment.symm.trans hwell.segment)
  obtain rfl := hwell.options.unique hwell'.options
  exact ⟨rfl, hwell.options.apart j hj k hk⟩

lemma Due.large {j : ℕ} (h : Due p mtu seg j) : mtu - seg.start - 20 < p.word (seg.start + 22 + j) := by
  obtain ⟨-, -, -, hlarge⟩ := h
  exact hlarge

/-- Two bytes in a row that may be written are a word that may be written. -/
lemma Due.word {w : ℕ} (hw : ∃ seg j, Due p mtu seg j ∧ w ∈ mayWrite seg j)
    (hw' : ∃ seg j, Due p mtu seg j ∧ w + 1 ∈ mayWrite seg j) :
    ∃ seg j, Due p mtu seg j ∧ (w = seg.start + 16 ∨ w = seg.start + 22 + j) := by
  obtain ⟨seg, j, hj, hw⟩ := hw
  obtain ⟨seg', k, hk, hw'⟩ := hw'
  obtain ⟨rfl, hapart⟩ := hj.apart hk
  simp only [mayWrite, List.mem_cons, List.not_mem_nil, or_false] at hw hw'
  refine ⟨seg', j, hj, ?_⟩
  omega

/-- The option of something due is in the packet. -/
lemma Due.inside {j : ℕ} (h : Due p mtu seg j) :
    j + 4 ≤ optionsLength p seg.start ∧ seg.start + 24 + j ≤ p.len := by
  obtain ⟨ms, hwell, hj, -⟩ := h
  have hbounds := hwell.options.bounds j hj
  have hinside := hwell.inside
  have hwhole := hwell.whole
  omega

variable {q : Packet} {writes : List ℕ}

/-- Where a right `clamp_mss` writes, that is due. -/
lemma ClampRight.due (h512 : 512 ≤ mtu) (hlt : mtu < 65536) (hlen : p.len < 65536)
    (h : Clamps p mtu start i) (hright : ClampRight p mtu q writes)
    (hq : clampAt p mtu start i = (q, writes)) :
    ∃ seg, seg.start = start ∧ Due p mtu seg i ∧
      (TcpVerifies p → i % 2 = 0 ∨ 257 ∣ p.word (start + 22 + i) - (mtu - start - 20)) := by
  have hstart := tcpStart_le h.located
  obtain ⟨hwrites, -, -, hword⟩ := clampAt_spec h512 hlt h
  rw [hq] at hwrites hword
  dsimp only at hwrites hword
  have honly : ∀ w ∈ writes, ∃ seg j, Due p mtu seg j ∧ w ∈ mayWrite seg j := hright.only
  simp only [hwrites, List.forall_mem_cons] at honly
  obtain ⟨h22, h23, h16, h17, -⟩ := honly
  rw [show start + 23 + i = start + 22 + i + 1 by omega] at h23
  obtain ⟨seg, j, hj, hj16⟩ := Due.word h16 h17
  obtain ⟨seg', k, hk, hk22⟩ := Due.word h22 h23
  obtain ⟨rfl, -⟩ := hj.apart hk
  have hplace : start + 22 + i = seg'.start + 22 + k := by omega
  -- both limits are written to the same place
  have hlimit := hright.clamped seg' k hk
  rw [← hplace, hword] at hlimit
  have hsame : seg'.start = start := by omega
  obtain rfl : k = i := by omega
  refine ⟨seg', hsame, hk, fun hv => ?_⟩
  subst hsame
  have hinside := hk.inside.1
  obtain ⟨ms, hwell, -⟩ := hk
  have hiff := tcpVerifies_clampAt_iff h512 hlt hlen h hwell.segment hinside hv
  rw [hq] at hiff
  exact hiff.mp (hright.checksum hv)

/-- What is due is clamped by a right `clamp_mss`. -/
lemma ClampRight.clamps (h512 : 512 ≤ mtu) (hlt : mtu < 65536) (hlen : p.len < 65536)
    (h : Clamps p mtu start i) (hright : ClampRight p mtu q writes)
    (hq : clampAt p mtu start i = (q, writes)) {j : ℕ} (hj : Due p mtu seg j) :
    Clamps p mtu seg.start j := by
  obtain ⟨hwrites, -, hframe, -⟩ := clampAt_spec h512 hlt h
  rw [hq] at hwrites hframe
  dsimp only at hwrites hframe
  obtain ⟨seg', rfl, hi, -⟩ := hright.due h512 hlt hlen h hq
  obtain ⟨rfl, hapart⟩ := hi.apart hj
  rcases hapart with rfl | hapart
  · exact h
  · -- another option is not touched, and was not clamped
    have hsame : q.word (seg.start + 22 + j) = p.word (seg.start + 22 + j) := by
      rw [Packet.word, Packet.byte, Packet.byte, hframe _ (by simp [hwrites]; omega),
        hframe _ (by simp [hwrites]; omega)]
      rfl
    have hclamped := hright.clamped seg j hj
    have hlarge := hj.large
    omega

/-- Where all that is clamped is due, and the checksum allows it, the clamping is right. -/
lemma clampRight_of_due (h512 : 512 ≤ mtu) (hlt : mtu < 65536) (hlen : p.len < 65536)
    (h : Clamps p mtu start i) (hstart : seg.start = start) (hdue : Due p mtu seg i)
    (hodd : TcpVerifies p → i % 2 = 0 ∨ 257 ∣ p.word (start + 22 + i) - (mtu - start - 20))
    (hall : ∀ seg j, Due p mtu seg j → Clamps p mtu seg.start j) :
    ClampRight p mtu (clampAt p mtu start i).1 (clampAt p mtu start i).2 := by
  subst hstart
  obtain ⟨hwrites, hqlen, hframe, hword⟩ := clampAt_spec h512 hlt h
  obtain ⟨hoptions, hinside⟩ := hdue.inside
  constructor
  case len => exact hqlen
  case frame => exact hframe
  case inside =>
    rw [hwrites]
    simp
    omega
  case only =>
    intro w hw
    refine ⟨seg, i, hdue, ?_⟩
    rw [hwrites] at hw
    simp only [mayWrite, List.mem_cons, List.not_mem_nil, or_false] at hw ⊢
    omega
  case clamped =>
    intro seg' j hj
    obtain ⟨hsame, rfl⟩ := h.unique (hall seg' j hj)
    rw [hsame]
    exact hword
  case unchanged => exact fun hnone => absurd hdue (hnone seg i)
  case checksum =>
    intro hv
    obtain ⟨ms, hwell, -⟩ := hdue
    exact (tcpVerifies_clampAt_iff h512 hlt hlen h hwell.segment hoptions hv).mpr (hodd hv)

/-- A packet in which nothing is due is right as it is. -/
lemma clampRight_self (hnone : ∀ seg j, ¬ Due p mtu seg j) : ClampRight p mtu p [] where
  len := rfl
  frame := fun _ _ => rfl
  inside := List.forall_mem_nil _
  only := List.forall_mem_nil _
  clamped := fun seg j hj => absurd hj (hnone seg j)
  unchanged := fun _ => rfl
  checksum := id

/-- **`clamp_mss` is right just when what it clamps is what is due**, and the option is not where
its bytes are in two words of the checksum, unless the difference does not count. -/
theorem clampRight_iff (s : Routing) (d : Daemon) (source via : Name) (p : Packet) (mtu : ℕ)
    (hoption : (d.node via).options &&& optionClampMss ≠ 0)
    (hmtu : effectiveMtu s d source via = mtu) (h512 : 512 ≤ mtu) (hlt : mtu < 65536)
    (hlen : p.len < 65536) :
    (∃ q writes, (∀ fuel, 40 < fuel → clampMss s d source (some via) p fuel = some (q, writes)) ∧
      ClampRight p mtu q writes) ↔
    (∀ start i, Clamps p mtu start i → ∃ seg, seg.start = start ∧ Due p mtu seg i ∧
      (TcpVerifies p → i % 2 = 0 ∨ 257 ∣ p.word (start + 22 + i) - (mtu - start - 20))) ∧
    ∀ seg j, Due p mtu seg j → Clamps p mtu seg.start j := by
  obtain ⟨r, hruns, hr⟩ := clampMss_spec (p := p) hoption hmtu h512 hlt
  constructor
  · rintro ⟨q, writes, hq, hright⟩
    obtain rfl : r = (q, writes) :=
      Option.some.inj ((hruns 41 (by decide)).symm.trans (hq 41 (by decide)))
    rcases hr with ⟨start, i, hclamps, hr⟩ | ⟨hnone, hr⟩
    · refine ⟨fun start' i' h => ?_, fun seg j hj => ?_⟩
      · obtain ⟨rfl, rfl⟩ := hclamps.unique h
        exact hright.due h512 hlt hlen hclamps hr.symm
      · exact hright.clamps h512 hlt hlen hclamps hr.symm hj
    · refine ⟨fun start i h => absurd h (hnone start i), fun seg j hj => ?_⟩
      obtain ⟨rfl, -⟩ := Prod.mk.inj hr
      have hclamped := hright.clamped seg j hj
      have hlarge := hj.large
      omega
  · rintro ⟨hdue, hall⟩
    refine ⟨r.1, r.2, hruns, ?_⟩
    rcases hr with ⟨start, i, hclamps, rfl⟩ | ⟨hnone, rfl⟩
    · obtain ⟨seg, hstart, hi, hodd⟩ := hdue start i hclamps
      exact clampRight_of_due h512 hlt hlen hclamps hstart hi hodd hall
    · exact clampRight_self fun seg j hj => hnone _ _ (hall seg j hj)

end Parsed

/-- A router with small packets. -/
def narrowRouting : Routing := { Routing.plain .router .internal with mtu := fun _ => 1000 }

/-- A daemon whose peers want their segments clamped. -/
def clampingDaemon : Daemon :=
  { Daemon.init (.plain (ascii "a")) id with
    node := fun _ => { Node.new with options := optionClampMss } }

/-- A TCP segment with these options, in a packet that can be 1514 bytes long. -/
def synFrame (options : List UInt8) : Packet :=
  frameOf ([0x08, 0x00, 0x45, 0, 0, UInt8.ofNat (40 + options.length), 0, 0, 0, 0, 64, 6, 0, 0,
    10, 0, 0, 1, 10, 0, 0, 2, 0, 80, 0, 80, 0, 0, 0, 1, 0, 0, 0, 0,
    UInt8.ofNat (80 + 4 * options.length), 2, 0xff, 0xff, 0, 0, 0, 0] ++ options)

/-- The option is the first one. -/
def firstOption : Packet := synFrame [2, 4, 5, 180]

/-- The option is behind two that are padding. -/
def laterOption : Packet := synFrame [1, 1, 2, 4, 5, 180, 1, 1]

lemma firstOption_wellFormed : WellFormedTcp firstOption ⟨14, 34, 58⟩ [0] := by
  refine ⟨by decide +kernel, by decide +kernel, by decide +kernel, by decide +kernel, ?_⟩
  rw [(by decide +kernel : optionsLength firstOption 34 = 4)]
  exact .mss (by decide) (by decide +kernel) (by decide +kernel) .finish

lemma laterOption_wellFormed : WellFormedTcp laterOption ⟨14, 34, 62⟩ [2] := by
  refine ⟨by decide +kernel, by decide +kernel, by decide +kernel, by decide +kernel, ?_⟩
  rw [(by decide +kernel : optionsLength laterOption 34 = 8)]
  refine .nop (by decide) (by decide +kernel) (.nop (by decide) (by decide +kernel) ?_)
  refine .mss (by decide) (by decide +kernel) (by decide +kernel) ?_
  exact .nop (by decide) (by decide +kernel) (.nop (by decide) (by decide +kernel) .finish)

lemma firstOption_clamps : Clamps firstOption 1000 34 0 := by
  refine ⟨by decide +kernel, by decide +kernel, .refl 0, ?_, by decide +kernel⟩
  exact ⟨by decide +kernel, by decide +kernel, by decide +kernel, by decide +kernel⟩

theorem clampRight_firstOption : ∃ q writes,
    (∀ fuel, 40 < fuel → clampMss narrowRouting clampingDaemon (ascii "b") (some (ascii "c"))
      firstOption fuel = some (q, writes)) ∧ ClampRight firstOption 1000 q writes := by
  have hlarge : 1000 - 34 - 20 < firstOption.word (34 + 22 + 0) := by decide +kernel
  refine (clampRight_iff narrowRouting clampingDaemon (ascii "b") (ascii "c") firstOption 1000
    (by decide) (by decide) (by decide) (by decide) (by decide)).mpr
    ⟨fun start i h => ?_, fun seg j hj => ?_⟩
  · obtain ⟨rfl, rfl⟩ := firstOption_clamps.unique h
    exact ⟨⟨14, 34, 58⟩, rfl, ⟨[0], firstOption_wellFormed, by simp, hlarge⟩, fun _ => .inl rfl⟩
  · obtain ⟨ms, hwell, hj, -⟩ := hj
    obtain rfl := Option.some.inj (hwell.segment.symm.trans firstOption_wellFormed.segment)
    obtain rfl := firstOption_wellFormed.options.unique hwell.options
    obtain rfl := List.mem_singleton.mp hj
    exact firstOption_clamps

/-- An option that is not the first one is too large, and stays so. -/
theorem laterOption_not_clamped : ¬ ∃ q writes,
    (∀ fuel, 40 < fuel → clampMss narrowRouting clampingDaemon (ascii "b") (some (ascii "c"))
      laterOption fuel = some (q, writes)) ∧ ClampRight laterOption 1000 q writes := by
  rintro ⟨q, writes, hq, hright⟩
  have hlarge : 1000 - 34 - 20 < laterOption.word (34 + 22 + 2) := by decide +kernel
  have hclamped := hright.clamped ⟨14, 34, 62⟩ 2 ⟨[2], laterOption_wellFormed, by simp, hlarge⟩
  have hoption : (clampingDaemon.node (ascii "c")).options &&& optionClampMss ≠ 0 := by decide
  have hmtu : effectiveMtu narrowRouting clampingDaemon (ascii "b") (ascii "c") = 1000 := by decide
  obtain ⟨r, hruns, hr⟩ :=
    clampMss_spec (p := laterOption) hoption hmtu (by decide) (by decide)
  obtain rfl : r = (q, writes) :=
    Option.some.inj ((hruns 41 (by decide)).symm.trans (hq 41 (by decide)))
  rcases hr with ⟨start, i, h, -⟩ | ⟨-, hr⟩
  · obtain rfl : start = 34 :=
      Option.some.inj (h.located.symm.trans (by decide +kernel : tcpStart laterOption = some 34))
    -- the second of all option bytes is padding
    have hsecond : optionByte laterOption 34 1 = 1 := by decide +kernel
    have htaken := h.taken.second
    omega
  · obtain ⟨rfl, -⟩ := Prod.mk.inj hr
    dsimp only at hclamped
    omega

end Tinc
