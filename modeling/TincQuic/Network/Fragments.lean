import TincQuic.Network.Headers

/-!
# `fragment_ipv4_packet`

A packet that is too long for a node and may be cut is sent in fragments, each with a copy of the
header in which length, offset, flags and checksum are its own.

* `fragmentBody` is the loop, whose state are the variables of the source and what was sent.
* `FragmentsOf` says what a list of fragments is to the rest of a payload.  **One turn of the loop puts a
  fragment in front of the pieces of what remains**: `FragmentsOf.cons`.
* **Nothing is lost**: `fragments_lossless`.
-/

namespace Tinc

open Bytes Checksum Function

/-! ## The loop -/

/-- The variables of the loop, and the fragments that were sent. -/
structure Fragmenting where
  sent : List Packet
  todo : ℕ
  offset : ℕ
  ipOff : ℕ

/-- `maxlen`, for a node with this MTU -/
def maxFragment (mtu ethlen : ℕ) : ℕ := (max mtu 590 - ethlen - 20) / 8 * 8

/-- The header of a fragment of `len` bytes, with the field `ip_off` as given. -/
def fragmentHeader (ip : List UInt8) (len off : ℕ) : List UInt8 :=
  let ip := putSum (putWord (putWord ip 2 (20 + len)) 6 off) 10 0
  putSum ip 10 (inetChecksum ip 65535)

/-- A fragment of `p` with `len` bytes from `offset` on. -/
def fragmentOf (p : Packet) (ethlen offset len off : ℕ) : Packet :=
  .ofBytes (p.slice 0 ethlen ++ fragmentHeader (p.slice ethlen 20) len off ++ p.slice offset len)

/-- The body of the loop; `origf` are the flags of the packet, and 0x2000 is `IP_MF`. -/
def fragmentBody (p : Packet) (ethlen maxlen origf : ℕ) (st : Fragmenting) :
    List Packet ⊕ Fragmenting :=
  if st.todo = 0 then .inl st.sent
  else
    let len := if maxlen < st.todo then maxlen else st.todo
    let todo := st.todo - len
    let off := st.ipOff ||| origf ||| (if todo ≠ 0 then 0x2000 else 0)
    .inr { sent := st.sent ++ [fragmentOf p ethlen st.offset len off], todo := todo,
           offset := st.offset + len, ipOff := (st.ipOff + len / 8) % 65536 }

/-- `fragment_ipv4_packet`: what is sent to a node with this MTU, with a bound on the rounds. -/
def fragmentPackets (mtu : ℕ) (p : Packet) (ethlen fuel : ℕ) : Option (List Packet) :=
  if p.byte ethlen % 16 ≠ 5 then some []
  else if ethlen + p.word (ethlen + 2) ≠ p.len then some []
  else
    Loop.run (fragmentBody p ethlen (maxFragment mtu ethlen) (p.word (ethlen + 6) / 8192 * 8192))
      fuel { sent := [], todo := p.word (ethlen + 2) - 20, offset := ethlen + 20,
             ipOff := p.word (ethlen + 6) % 8192 }

/-! ## What a fragment says -/

/-- What follows an IPv4 header of twenty bytes. -/
def Packet.ipPayload (p : Packet) (ethlen : ℕ) : List UInt8 :=
  p.slice (ethlen + 20) (p.len - ethlen - 20)

/-- Where the payload belongs. -/
def Packet.fragmentOffset (p : Packet) (ethlen : ℕ) : ℕ := p.word (ethlen + 6) % 8192 * 8

/-- `IP_MF` is set. -/
def Packet.MoreFragments (p : Packet) (ethlen : ℕ) : Prop := p.word (ethlen + 6) / 8192 % 2 = 1

/-- A packet of the same kind as `p` that fits, says how long it is, and verifies. -/
structure FragmentSound (mtu : ℕ) (p : Packet) (ethlen : ℕ) (f : Packet) : Prop where
  fits : f.len ≤ max mtu 590
  ethernet : f.slice 0 ethlen = p.slice 0 ethlen
  size : f.byte ethlen = p.byte ethlen
  total : ethlen + f.word (ethlen + 2) = f.len
  verifies : Verifies (f.slice ethlen 20)

section Fragment

variable (mtu : ℕ) (p : Packet) (ethlen offset len off : ℕ)

lemma length_fragmentHeader (ip : List UInt8) : (fragmentHeader ip len off).length = ip.length := by
  simp [fragmentHeader]

lemma wordAt_fragmentHeader {ip : List UInt8} (hip : ip.length = 20) (hlen : 20 + len < 65536)
    (hoff : off < 65536) : wordAt (fragmentHeader ip len off) 2 = 20 + len ∧
      wordAt (fragmentHeader ip len off) 6 = off := by
  unfold fragmentHeader
  dsimp only
  constructor
  · rw [wordAt_putSum_of_disjoint _ (by omega), wordAt_putSum_of_disjoint _ (by omega),
      wordAt_putWord_of_disjoint _ (by omega), wordAt_putWord _ (by omega) hlen]
  · rw [wordAt_putSum_of_disjoint _ (by omega), wordAt_putSum_of_disjoint _ (by omega),
      wordAt_putWord _ (by simp [hip]) hoff]

lemma verifies_fragmentHeader {ip : List UInt8} (hip : ip.length = 20) :
    Verifies (fragmentHeader ip len off) := by
  unfold fragmentHeader
  refine verifies_putSum _ (by simp [hip]) (by decide) (by simp [hip]) ?_ ?_ (by simp [hip])
  · simp [putSum, List.getD_eq_getElem?_getD, hip]
  · simp [putSum, List.getD_eq_getElem?_getD, hip]

/-- What is in a fragment. -/
lemma fragmentOf_spec (hsize : ethlen + 20 + len ≤ max mtu 590)
    (hlen : 20 + len < 65536) (hoff : off < 65536) :
    FragmentSound mtu p ethlen (fragmentOf p ethlen offset len off) ∧
      (fragmentOf p ethlen offset len off).ipPayload ethlen = p.slice offset len ∧
      (fragmentOf p ethlen offset len off).word (ethlen + 6) = off := by
  have hip : (p.slice ethlen 20).length = 20 := Packet.length_slice ..
  have hheader : (fragmentHeader (p.slice ethlen 20) len off).length = 20 := by
    rw [length_fragmentHeader, hip]
  obtain ⟨hword, hflags⟩ := wordAt_fragmentHeader len off hip hlen hoff
  have hfirst : (fragmentHeader (p.slice ethlen 20) len off).getD 0 0 = p.data ethlen := by
    unfold fragmentHeader
    dsimp only
    rw [getD_putSum_of_ne _ (by decide) (by decide), getD_putSum_of_ne _ (by decide) (by decide),
      getD_putWord_of_ne _ (by decide) (by decide), getD_putWord_of_ne _ (by decide) (by decide),
      List.getD_eq_getElem _ _ (by simp), Packet.getElem_slice, Nat.add_zero]
  have hverifies := verifies_fragmentHeader len off hip
  unfold fragmentOf
  generalize fragmentHeader (p.slice ethlen 20) len off = header at *
  have hbytes : p.slice 0 ethlen ++ header ++ p.slice offset len =
      p.slice 0 ethlen ++ (header ++ p.slice offset len) := List.append_assoc ..
  have hmiddle := Packet.slice_ofBytes_eq hbytes (Packet.length_slice ..) hheader
  have hlength : (Packet.ofBytes (p.slice 0 ethlen ++ header ++ p.slice offset len)).len =
      ethlen + 20 + len := by simp [hheader, Nat.add_assoc]
  refine ⟨⟨?_, ?_, ?_, ?_, ?_⟩, ?_, ?_⟩
  · rw [hlength]
    exact hsize
  · rw [Packet.slice_ofBytes (by simp), List.drop_zero, List.append_assoc]
    exact List.take_left' (by simp)
  · have hget := congrArg (fun t => t.getD 0 0) hmiddle
    simp only [hfirst, List.getD_eq_getElem?_getD] at hget
    rw [List.getElem?_eq_getElem (by simp), Packet.getElem_slice] at hget
    exact congrArg UInt8.toNat hget
  · rw [Packet.word_ofBytes_eq hbytes (Packet.length_slice ..) (by omega), hword, hlength]
    omega
  · rw [hmiddle]
    exact hverifies
  · have hrest : (Packet.ofBytes (p.slice 0 ethlen ++ header ++ p.slice offset len)).len -
        ethlen - 20 = len := by
      rw [hlength]
      omega
    rw [Packet.ipPayload, hrest, Packet.slice_ofBytes (by simp [hheader, Nat.add_assoc])]
    rw [List.drop_left' (by simp [hheader]), List.take_of_length_le (by simp)]
  · rw [Packet.word_ofBytes_eq hbytes (Packet.length_slice ..) (by omega), hflags]

end Fragment

/-! ## The pieces of a payload -/

/-- The fragments `fs` are what is left of the payload of `p` from `pos` on, `todo` bytes: each is
sound and not empty, they follow one another, and all but the last say that there are more. -/
structure FragmentsOf (mtu : ℕ) (p : Packet) (ethlen pos todo : ℕ) (fs : List Packet) : Prop where
  sound : ∀ f ∈ fs, FragmentSound mtu p ethlen f ∧ f.ipPayload ethlen ≠ []
  payload : fs.flatMap (·.ipPayload ethlen) = p.slice (ethlen + 20 + pos) todo
  placed : ∀ pre f post, fs = pre ++ f :: post → f.fragmentOffset ethlen =
    p.fragmentOffset ethlen + pos + (pre.flatMap (·.ipPayload ethlen)).length
  more : ∀ pre f post, fs = pre ++ f :: post → post ≠ [] →
    f.MoreFragments ethlen ∧ (f.ipPayload ethlen).length % 8 = 0
  last : ∀ pre f, fs = pre ++ [f] → (f.MoreFragments ethlen ↔ p.MoreFragments ethlen)

lemma FragmentsOf.nil (mtu : ℕ) (p : Packet) (ethlen pos : ℕ) : FragmentsOf mtu p ethlen pos 0 [] where
  sound f hf := by cases hf
  payload := rfl
  placed pre f post h := by simp at h
  more pre f post h := by simp at h
  last pre f h := by simp at h

/-- There are no pieces of nothing. -/
lemma FragmentsOf.eq_nil_iff {mtu : ℕ} {p : Packet} {ethlen pos todo : ℕ} {fs : List Packet}
    (h : FragmentsOf mtu p ethlen pos todo fs) : fs = [] ↔ todo = 0 := by
  have hlength := congrArg List.length h.payload
  rw [Packet.length_slice] at hlength
  constructor
  · rintro rfl
    exact hlength.symm
  · rintro rfl
    cases fs with
    | nil => rfl
    | cons f fs =>
        have hnil := (List.length_eq_zero_iff.mp hlength)
        rw [List.flatMap_cons, List.append_eq_nil_iff] at hnil
        exact absurd hnil.1 (h.sound f (by simp)).2

/-- **A fragment in front of the pieces of what remains.** -/
lemma FragmentsOf.cons {mtu : ℕ} {p f : Packet} {ethlen pos len todo : ℕ} {fs : List Packet}
    (hlen : 0 < len) (hsound : FragmentSound mtu p ethlen f)
    (hpayload : f.ipPayload ethlen = p.slice (ethlen + 20 + pos) len)
    (hplaced : f.fragmentOffset ethlen = p.fragmentOffset ethlen + pos)
    (hmore : todo ≠ 0 → f.MoreFragments ethlen ∧ len % 8 = 0)
    (hlast : todo = 0 → (f.MoreFragments ethlen ↔ p.MoreFragments ethlen))
    (h : FragmentsOf mtu p ethlen (pos + len) todo fs) :
    FragmentsOf mtu p ethlen pos (len + todo) (f :: fs) := by
  have hlength : (f.ipPayload ethlen).length = len := by rw [hpayload, Packet.length_slice]
  refine ⟨?_, ?_, ?_, ?_, ?_⟩
  · intro g hg
    rcases List.mem_cons.mp hg with rfl | hg
    · refine ⟨hsound, fun hnil => ?_⟩
      rw [hnil, List.length_nil] at hlength
      omega
    · exact h.sound g hg
  · rw [List.flatMap_cons, hpayload, h.payload, Packet.slice_add, Nat.add_assoc (ethlen + 20)]
  · intro pre g post hsplit
    cases pre with
    | nil =>
        obtain ⟨rfl, -⟩ := List.cons.inj hsplit
        simpa using hplaced
    | cons g' pre =>
        obtain ⟨rfl, hrest⟩ := List.cons.inj hsplit
        rw [h.placed pre g post hrest, List.flatMap_cons, List.length_append, hlength]
        omega
  · intro pre g post hsplit hpost
    cases pre with
    | nil =>
        obtain ⟨rfl, rfl⟩ := List.cons.inj hsplit
        rw [hlength]
        exact hmore fun htodo => hpost (h.eq_nil_iff.mpr htodo)
    | cons g' pre =>
        obtain ⟨rfl, hrest⟩ := List.cons.inj hsplit
        exact h.more pre g post hrest hpost
  · intro pre g hsplit
    cases pre with
    | nil =>
        obtain ⟨rfl, hnil⟩ := List.cons.inj hsplit
        exact hlast (h.eq_nil_iff.mp hnil)
    | cons g' pre =>
        obtain ⟨rfl, hrest⟩ := List.cons.inj hsplit
        exact h.last pre g hrest

/-! ## The whole loop -/

/-- The fields of `ip_off`, when the offset has not grown into the flags. -/
lemma offWord (ipOff origf : ℕ) {mf : ℕ} (hoff : ipOff < 8192) (horig : origf % 8192 = 0)
    (hlt : origf < 65536) (hmf : mf = 0 ∨ mf = 0x2000) :
    ipOff ||| origf ||| mf < 65536 ∧ (ipOff ||| origf ||| mf) % 8192 = ipOff ∧
      ((ipOff ||| origf ||| mf) / 8192 % 2 = 1 ↔ origf / 8192 % 2 = 1 ∨ mf ≠ 0) := by
  have hpow : (8192 : ℕ) = 2 ^ 13 := rfl
  have hmod : (ipOff ||| origf ||| mf) % 8192 = ipOff := by
    have hmf' : mf % 8192 = 0 := by omega
    rw [hpow] at hmf' horig hoff ⊢
    rw [Nat.or_mod_two_pow, Nat.or_mod_two_pow, hmf', horig, Nat.mod_eq_of_lt hoff]
    simp
  have hdiv : (ipOff ||| origf ||| mf) / 8192 = (origf / 8192) ||| (mf / 8192) := by
    rw [hpow] at hoff ⊢
    rw [Nat.or_div_two_pow, Nat.or_div_two_pow, Nat.div_eq_of_lt hoff]
    simp
  refine ⟨?_, hmod, ?_⟩
  · have hmf' : mf < 2 ^ 16 := by omega
    exact Nat.or_lt_two_pow (Nat.or_lt_two_pow (by omega) hlt) hmf'
  · rw [hdiv, Nat.or_mod_two_eq_one]
    omega

/-- From any state of the loop on, what remains is sent in pieces. -/
lemma run_fragmentBody {ethlen : ℕ} (mtu : ℕ) (p : Packet) (hethlen : ethlen = 14 ∨ ethlen = 18)
    (todo pos : ℕ) (hpos : todo ≠ 0 → pos % 8 = 0) (htodo : 20 + todo < 65536)
    (hoff : p.fragmentOffset ethlen + pos + todo ≤ 65535) (sent : List Packet) :
    ∃ fs, (FragmentsOf mtu p ethlen pos todo fs ∧ ∀ fuel, todo ≤ fuel →
      fs.map (fun f => (f.ipPayload ethlen).length) =
        fragmentLengths (maxFragment mtu ethlen) fuel todo) ∧
      ∀ fuel, todo < fuel → Loop.run (fragmentBody p ethlen (maxFragment mtu ethlen)
        (p.word (ethlen + 6) / 8192 * 8192)) fuel
        { sent := sent, todo := todo, offset := ethlen + 20 + pos,
          ipOff := p.word (ethlen + 6) % 8192 + pos / 8 } = some (sent ++ fs) := by
  induction todo using Nat.strong_induction_on generalizing pos sent with
  | _ todo ih =>
      by_cases hzero : todo = 0
      · subst hzero
        refine ⟨[], ⟨.nil mtu p ethlen pos, fun fuel _ => ?_⟩, fun fuel hfuel => ?_⟩
        · cases fuel <;> rfl
        obtain ⟨fuel, rfl⟩ := Nat.exists_eq_succ_of_ne_zero hfuel.ne'
        have hbody : fragmentBody p ethlen (maxFragment mtu ethlen)
            (p.word (ethlen + 6) / 8192 * 8192)
            { sent := sent, todo := 0, offset := ethlen + 20 + pos,
              ipOff := p.word (ethlen + 6) % 8192 + pos / 8 } = .inl sent := if_pos rfl
        rw [Loop.run_of_inl hbody, List.append_nil]
      · -- one fragment of `len` bytes, and the loop goes on with the rest
        have hpos := hpos hzero
        generalize hlen : (if maxFragment mtu ethlen < todo then maxFragment mtu ethlen else todo) =
          len
        have hmax : 0 < maxFragment mtu ethlen ∧ maxFragment mtu ethlen % 8 = 0 ∧
            ethlen + 20 + maxFragment mtu ethlen ≤ max mtu 590 := by
          unfold maxFragment
          omega
        have hle : 0 < len ∧ len ≤ todo ∧ len ≤ maxFragment mtu ethlen ∧
            (todo - len ≠ 0 → len % 8 = 0) := by
          split at hlen <;> omega
        generalize hmf : (if todo - len ≠ 0 then 0x2000 else 0) = mf
        have hmf0 : (mf = 0 ∨ mf = 0x2000) ∧ (mf ≠ 0 ↔ todo - len ≠ 0) := by
          split at hmf <;> omega
        have hword := p.word_lt (ethlen + 6)
        unfold Packet.fragmentOffset at hoff
        obtain ⟨hlt, hoffset, hflag⟩ := offWord (p.word (ethlen + 6) % 8192 + pos / 8)
          (p.word (ethlen + 6) / 8192 * 8192) (by omega) (by omega) (by omega) hmf0.1
        obtain ⟨hsound, hpayload, hfield⟩ := fragmentOf_spec mtu p ethlen (ethlen + 20 + pos) len
          (p.word (ethlen + 6) % 8192 + pos / 8 ||| p.word (ethlen + 6) / 8192 * 8192 ||| mf)
          (by omega) (by omega) hlt
        generalize hf : fragmentOf p ethlen (ethlen + 20 + pos) len
          (p.word (ethlen + 6) % 8192 + pos / 8 ||| p.word (ethlen + 6) / 8192 * 8192 ||| mf) = f
          at hsound hpayload hfield
        obtain ⟨fs, ⟨hfs, hlengths⟩, hrun⟩ := ih (todo - len) (by omega) (pos + len) (by omega)
          (by omega) (by unfold Packet.fragmentOffset; omega) (sent ++ [f])
        have hmoreIff : f.MoreFragments ethlen ↔ p.MoreFragments ethlen ∨ todo - len ≠ 0 := by
          rw [Packet.MoreFragments, hfield, hflag, hmf0.2, Packet.MoreFragments,
            Nat.mul_div_cancel _ (by decide)]
        have hcons : FragmentsOf mtu p ethlen pos (len + (todo - len)) (f :: fs) := by
          refine .cons hle.1 hsound hpayload ?_ ?_ ?_ hfs
          · rw [Packet.fragmentOffset, hfield, hoffset, Packet.fragmentOffset]
            omega
          · exact fun hmore => ⟨hmoreIff.mpr (.inr hmore), hle.2.2.2 hmore⟩
          · exact fun hlast => by simp [hmoreIff, hlast]
        rw [Nat.add_sub_cancel' hle.2.1] at hcons
        refine ⟨f :: fs, ⟨hcons, fun fuel hfuel => ?_⟩, fun fuel hfuel => ?_⟩
        · obtain ⟨fuel, rfl⟩ := Nat.exists_eq_succ_of_ne_zero (by omega : fuel ≠ 0)
          have hmin : min todo (maxFragment mtu ethlen) = len := by
            split at hlen <;> omega
          rw [List.map_cons, hpayload, Packet.length_slice, hlengths fuel (by omega),
            fragmentLengths, hmin]
          exact hzero
        obtain ⟨fuel, rfl⟩ := Nat.exists_eq_succ_of_ne_zero (by omega : fuel ≠ 0)
        have hnext : (p.word (ethlen + 6) % 8192 + pos / 8 + len / 8) % 65536 =
            p.word (ethlen + 6) % 8192 + (pos + len) / 8 := by omega
        have hbody : fragmentBody p ethlen (maxFragment mtu ethlen)
            (p.word (ethlen + 6) / 8192 * 8192)
            { sent := sent, todo := todo, offset := ethlen + 20 + pos,
              ipOff := p.word (ethlen + 6) % 8192 + pos / 8 } =
            .inr { sent := sent ++ [f], todo := todo - len, offset := ethlen + 20 + (pos + len),
                   ipOff := p.word (ethlen + 6) % 8192 + (pos + len) / 8 } := by
          unfold fragmentBody
          dsimp only
          rw [if_neg hzero, hlen, hmf, hf, hnext, Nat.add_assoc (ethlen + 20)]
        rw [Loop.run_of_inr hbody, hrun fuel (by omega), List.append_assoc]
        rfl

/-- An IPv4 packet with a header of twenty bytes that says how long the packet is. -/
structure PlainIpv4 (p : Packet) (ethlen : ℕ) : Prop where
  frame : ethlen = 14 ∨ ethlen = 18
  header : p.byte ethlen % 16 = 5
  size : 20 ≤ p.word (ethlen + 2)
  total : ethlen + p.word (ethlen + 2) = p.len
  /-- The payload ends within what the field for the offset can say. -/
  offset : p.fragmentOffset ethlen + (p.ipPayload ethlen).length ≤ 65535

/-- The loop ends with the pieces of the whole payload. -/
lemma fragmentPackets_spec {p : Packet} {ethlen : ℕ} (mtu : ℕ) (h : PlainIpv4 p ethlen) :
    ∃ fs, (∀ fuel, p.len ≤ fuel → fragmentPackets mtu p ethlen fuel = some fs) ∧
      FragmentsOf mtu p ethlen 0 (p.ipPayload ethlen).length fs ∧
      fs.map (fun f => (f.ipPayload ethlen).length) =
        fragmentLengths (maxFragment mtu ethlen) (p.word (ethlen + 2) - 20)
          (p.word (ethlen + 2) - 20) := by
  have hword := p.word_lt (ethlen + 2)
  have hoff := h.offset
  have htotal := h.total
  have hsize := h.size
  have hpayload : (p.ipPayload ethlen).length = p.word (ethlen + 2) - 20 := by
    rw [Packet.ipPayload, Packet.length_slice]
    omega
  rw [hpayload] at hoff ⊢
  obtain ⟨fs, ⟨hfs, hlengths⟩, hrun⟩ := run_fragmentBody mtu p h.frame (p.word (ethlen + 2) - 20) 0
    (fun _ => rfl) (by omega) (by omega) []
  refine ⟨fs, fun fuel hfuel => ?_, hfs, hlengths _ le_rfl⟩
  unfold fragmentPackets
  rw [if_neg (not_not.mpr h.header), if_neg (not_not.mpr htotal)]
  exact hrun fuel (by have := h.frame; omega)

/-- The decision of `route` has the lengths of these fragments. -/
lemma fragmentIpv4Packet_lengths {s : Routing} {n : Name} {p : Packet} {ethlen : ℕ}
    (h : PlainIpv4 p ethlen) : ∃ fs, fragmentPackets (s.mtu n) p ethlen p.len = some fs ∧
      fragmentIpv4Packet s n p ethlen =
        .fragment n (fs.map fun f => (f.ipPayload ethlen).length) := by
  obtain ⟨fs, hrun, -, hlengths⟩ := fragmentPackets_spec (s.mtu n) h
  refine ⟨fs, hrun _ le_rfl, ?_⟩
  unfold fragmentIpv4Packet
  dsimp only
  rw [if_neg (not_not.mpr h.header), if_neg (not_not.mpr h.total), hlengths]
  rfl

/-- **Nothing is lost**: the fragments fit, say how long they are and verify, their payloads are
the whole payload, each at its place, and the flags are those of the packet at the end. -/
theorem fragments_lossless {p : Packet} {ethlen : ℕ} (mtu : ℕ) (h : PlainIpv4 p ethlen) :
    ∃ fs, (∀ fuel, p.len ≤ fuel → fragmentPackets mtu p ethlen fuel = some fs) ∧
      FragmentsOf mtu p ethlen 0 (p.ipPayload ethlen).length fs := by
  obtain ⟨fs, hrun, hpieces, -⟩ := fragmentPackets_spec mtu h
  exact ⟨fs, hrun, hpieces⟩

/-- A packet with a payload of 1004 bytes, and more fragments to follow. -/
def longPacket : Packet where
  data i := if i = 14 then 0x45 else if i = 16 then 4 else if i = 20 then 0x20 else 0
  len := 14 + 1024

theorem fragments_lossless_longPacket :
    ∃ fs, (∀ fuel, longPacket.len ≤ fuel → fragmentPackets 0 longPacket 14 fuel = some fs) ∧
      FragmentsOf 0 longPacket 14 0 (longPacket.ipPayload 14).length fs := by
  refine fragments_lossless 0 ⟨.inl rfl, by decide, by decide, by decide, ?_⟩
  rw [Packet.ipPayload, Packet.length_slice]
  decide

end Tinc
