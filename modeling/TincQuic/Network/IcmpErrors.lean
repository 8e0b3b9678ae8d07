import TincQuic.Network.TimeToLive

/-!
# `route_ipv4_unreachable` and `route_ipv6_unreachable`

The errors that a router returns to the source of a packet are written over the packet itself: the
headers are new, and what follows them is the beginning of the old packet.

* `routeIpv4Unreachable` and `routeIpv6Unreachable` write them.
* `Action.Justified` is what a packet is fit for, and `route` asks for nothing else:
  `justified_route`.
* **What is returned is well formed**: the lengths agree, the checksums verify, and the quotation is
  a prefix of the packet: `errors_wellFormed`.
-/

namespace Tinc

open Bytes Checksum Function

/-- `struct in_addr` and `struct in6_addr` -/
abbrev InAddr := {t : List UInt8 // t.length = 4}
abbrev In6Addr := {t : List UInt8 // t.length = 16}

/-- `htons` and `htonl`, as bytes -/
def be16 (n : ℕ) : List UInt8 := [UInt8.ofNat (n / 256 % 256), UInt8.ofNat (n % 256)]
def be32 (n : ℕ) : List UInt8 := be16 (n / 65536) ++ be16 n

/-- `swap_mac_addresses` -/
def Packet.swapMacAddresses (p : Packet) : Packet :=
  { p with data := fun i => if i < 6 then p.data (i + 6) else if i < 12 then p.data (i - 6)
                            else p.data i }

/-- The number of bytes of a packet that are quoted, if there is room for `room`.  The difference
is one of unsigned numbers of 32 bits. -/
def quotedBytes (p : Packet) (ethlen room : ℕ) : ℕ := min ((p.len + 2 ^ 32 - ethlen) % 2 ^ 32) room

/-! ## IPv4 -/

/-- The IPv4 header of an error with `len` bytes of the packet. -/
def errorHeader (len : ℕ) (ipSrc ipDst : List UInt8) : List UInt8 :=
  let ip := [0x45, 0] ++ be16 (28 + len) ++ [0, 0, 0, 0, 255, 1, 0, 0] ++ ipSrc ++ ipDst
  putSum ip 10 (inetChecksum ip 65535)

/-- The ICMP header in front of a quotation. -/
def icmpHeader (type code nextmtu : ℕ) (quote : List UInt8) : List UInt8 :=
  let icmp := [UInt8.ofNat type, UInt8.ofNat code, 0, 0, 0, 0] ++ be16 nextmtu
  putSum icmp 2 (inetChecksum quote (inetChecksum icmp 65535))

/-- The address that the error comes from: the destination of the packet, or for Time Exceeded the
local address that a socket to the source gets. -/
def errorSource (p : Packet) (ethlen type code : ℕ) (localAddress : Option InAddr) : List UInt8 :=
  if type = 11 ∧ code = 0 then localAddress.elim (p.slice (ethlen + 16) 4) Subtype.val
  else p.slice (ethlen + 16) 4

/-- `route_ipv4_unreachable`: the packet that is sent, if any is. -/
def routeIpv4Unreachable (limited : Bool) (localAddress : Option InAddr) (p : Packet)
    (ethlen type code : ℕ) : Option Packet :=
  if limited then none
  else
    let p := p.swapMacAddresses
    let nextmtu := if type = 3 ∧ code = 4 then p.len + 2 ^ 32 - ethlen else 0
    let quote := p.slice ethlen (quotedBytes p ethlen 548)
    some (.ofBytes (p.slice 0 ethlen ++ errorHeader quote.length
        (errorSource p ethlen type code localAddress) (p.slice (ethlen + 12) 4) ++
      icmpHeader type code nextmtu quote ++ quote))

/-! ## IPv6 -/

/-- The IPv6 header of an error with `len` bytes of the packet. -/
def errorHeader6 (len : ℕ) (ip6Src ip6Dst : List UInt8) : List UInt8 :=
  [0x60, 0, 0, 0] ++ be16 (8 + len) ++ [58, 255] ++ ip6Src ++ ip6Dst

/-- The pseudo header of an ICMPv6 message of `len` bytes. -/
def pseudoHeader6 (len : ℕ) (ip6Src ip6Dst : List UInt8) : List UInt8 :=
  ip6Src ++ ip6Dst ++ be32 len ++ be32 58

/-- The ICMPv6 header in front of a quotation. -/
def icmp6Header (type code mtu : ℕ) (ip6Src ip6Dst quote : List UInt8) : List UInt8 :=
  let icmp6 := [UInt8.ofNat type, UInt8.ofNat code, 0, 0] ++ be32 mtu
  putSum icmp6 2 (inetChecksum quote (inetChecksum icmp6
    (inetChecksum (pseudoHeader6 (8 + quote.length) ip6Src ip6Dst) 65535)))

/-- The address that the error comes from. -/
def errorSource6 (p : Packet) (ethlen type code : ℕ) (localAddress : Option In6Addr) :
    List UInt8 :=
  if type = 3 ∧ code = 0 then localAddress.elim (p.slice (ethlen + 24) 16) Subtype.val
  else p.slice (ethlen + 24) 16

/-- `route_ipv6_unreachable`: the packet that is sent, if any is. -/
def routeIpv6Unreachable (limited : Bool) (localAddress : Option In6Addr) (p : Packet)
    (ethlen type code : ℕ) : Option Packet :=
  if limited then none
  else
    let p := p.swapMacAddresses
    let mtu := if type = 2 then p.len + 2 ^ 32 - ethlen else 0
    let quote := p.slice ethlen (quotedBytes p ethlen 528)
    let ip6Src := errorSource6 p ethlen type code localAddress
    let ip6Dst := p.slice (ethlen + 8) 16
    some (.ofBytes (p.slice 0 ethlen ++ errorHeader6 quote.length ip6Src ip6Dst ++
      icmp6Header type code mtu ip6Src ip6Dst quote ++ quote))

/-! ## Parts of an error -/

lemma length_be16 (n : ℕ) : (be16 n).length = 2 := rfl

lemma length_be32 (n : ℕ) : (be32 n).length = 4 := rfl

lemma wordAt_be16 {n : ℕ} (h : n < 65536) (a b : UInt8) (rest : List UInt8) :
    wordAt (a :: b :: (be16 n ++ rest)) 2 = n := by
  have hget : wordAt (a :: b :: (be16 n ++ rest)) 2 =
      (UInt8.ofNat (n / 256 % 256)).toNat * 256 + (UInt8.ofNat (n % 256)).toNat := rfl
  rw [hget, UInt8.toNat_ofNat', UInt8.toNat_ofNat']
  omega

lemma quotedBytes_le (p : Packet) (ethlen room : ℕ) : quotedBytes p ethlen room ≤ room :=
  min_le_right _ _

/-- The quotation is at the beginning of the packet, which may have been longer once. -/
lemma quotedBytes_prefix {p : Packet} {ethlen room whole : ℕ} (hwhole : ethlen ≤ whole)
    (h : p.len = whole ∧ whole < 65536 ∨ ethlen + room ≤ whole) :
    p.slice ethlen (quotedBytes p ethlen room) <+: p.slice ethlen (whole - ethlen) := by
  have hle : quotedBytes p ethlen room ≤ whole - ethlen := by
    have hroom := quotedBytes_le p ethlen room
    rcases h with ⟨hlen, hlt⟩ | hlong
    · unfold quotedBytes
      omega
    · omega
  obtain ⟨k, hk⟩ := Nat.exists_eq_add_of_le hle
  rw [hk, Packet.slice_add]
  exact List.prefix_append _ _

/-- Behind the addresses nothing is swapped. -/
lemma slice_swapMacAddresses (p : Packet) {i : ℕ} (hi : 12 ≤ i) (n : ℕ) :
    p.swapMacAddresses.slice i n = p.slice i n := by
  refine Packet.slice_congr _ fun k _ => ?_
  have h6 : ¬ i + k < 6 := by omega
  have h12 : ¬ i + k < 12 := by omega
  simp [Packet.swapMacAddresses, h6, h12]

/-- What a receiver finds in front of the IP header. -/
structure Returned (p q : Packet) (ethlen : ℕ) : Prop where
  destination : q.slice 0 6 = p.slice 6 6
  source : q.slice 6 6 = p.slice 0 6
  type : q.slice 12 (ethlen - 12) = p.slice 12 (ethlen - 12)

lemma returned_ofBytes (p : Packet) {ethlen : ℕ} (hethlen : 12 ≤ ethlen) (rest : List UInt8) :
    Returned p (.ofBytes (p.swapMacAddresses.slice 0 ethlen ++ rest)) ethlen := by
  obtain ⟨k, rfl⟩ := Nat.exists_eq_add_of_le hethlen
  have hfirst : p.swapMacAddresses.slice 0 6 = p.slice 6 6 := rfl
  have hsecond : p.swapMacAddresses.slice (0 + 6) 6 = p.slice 0 6 := rfl
  have htail : p.swapMacAddresses.slice (0 + 12) k = p.slice 12 k :=
    slice_swapMacAddresses p (by decide) k
  have hsplit : p.swapMacAddresses.slice 0 (12 + k) = p.slice 6 6 ++ p.slice 0 6 ++
      p.slice 12 k := by
    have htwelve : p.swapMacAddresses.slice 0 12 = p.slice 6 6 ++ p.slice 0 6 := by
      rw [← hfirst, ← hsecond, ← Packet.slice_add]
    rw [Packet.slice_add, htail, htwelve]
  rw [hsplit]
  refine ⟨?_, ?_, ?_⟩
  · exact Packet.slice_ofBytes_eq (a := []) (c := p.slice 0 6 ++ (p.slice 12 k ++ rest)) (by simp)
      rfl (by simp)
  · exact Packet.slice_ofBytes_eq (a := p.slice 6 6) (c := p.slice 12 k ++ rest) (by simp)
      (by simp) (by simp)
  · rw [Nat.add_sub_cancel_left]
    exact Packet.slice_ofBytes_eq (a := p.slice 6 6 ++ p.slice 0 6) (c := rest) (by simp)
      (by simp) (by simp)

/-! ## IPv4 errors -/

/-- An ICMP error about the packet `p`, that was once `whole` bytes long. -/
structure IcmpError (p q : Packet) (ethlen whole type code : ℕ) (ipSrc : List UInt8) : Prop where
  returned : Returned p q ethlen
  version : q.byte ethlen = 0x45
  protocol : q.byte (ethlen + 9) = 1
  total : ethlen + q.word (ethlen + 2) = q.len
  small : q.word (ethlen + 2) ≤ 576
  source : q.slice (ethlen + 12) 4 = ipSrc
  destination : q.slice (ethlen + 16) 4 = p.slice (ethlen + 12) 4
  header : Verifies (q.slice ethlen 20)
  kind : q.byte (ethlen + 20) = type ∧ q.byte (ethlen + 21) = code
  message : Verifies (q.slice (ethlen + 20) (q.len - ethlen - 20))
  quote : q.slice (ethlen + 28) (q.len - ethlen - 28) <+: p.slice ethlen (whole - ethlen)

section Ipv4

variable (type code nextmtu : ℕ)

/-- The header, written out. -/
lemma errorHeader_eq (len : ℕ) (ipSrc ipDst : List UInt8) : ∃ high low,
    errorHeader len ipSrc ipDst = [0x45, 0] ++ be16 (28 + len) ++
      [0, 0, 0, 0, 255, 1, high, low] ++ ipSrc ++ ipDst :=
  ⟨_, _, rfl⟩

lemma verifies_errorHeader (len : ℕ) {ipSrc ipDst : List UInt8} (hsrc : ipSrc.length = 4)
    (hdst : ipDst.length = 4) : Verifies (errorHeader len ipSrc ipDst) := by
  refine verifies_putSum _ ?_ (by decide) ?_ rfl rfl ?_
  all_goals simp [length_be16, hsrc, hdst]

lemma icmpHeader_eq (quote : List UInt8) : ∃ high low, icmpHeader type code nextmtu quote =
    [UInt8.ofNat type, UInt8.ofNat code, high, low, 0, 0] ++ be16 nextmtu :=
  ⟨_, _, rfl⟩

lemma verifies_icmpHeader {quote : List UInt8} (hquote : quote.length ≤ 1000) :
    Verifies (icmpHeader type code nextmtu quote ++ quote) := by
  generalize hicmp : [UInt8.ofNat type, UInt8.ofNat code, 0, 0, 0, 0] ++ be16 nextmtu = icmp
  have hlength : icmp.length = 8 := by rw [← hicmp]; rfl
  have hzero : icmp.getD 2 0 = 0 ∧ icmp.getD 3 0 = 0 := by
    rw [← hicmp]
    exact ⟨rfl, rfl⟩
  have hlt := fold_lt (weigh_lt (by decide : 1 ≤ 256) le_rfl (t := icmp) (by omega))
  have hquoteLt := weigh_le (by decide : 1 ≤ 256) le_rfl quote
  have hmod := fold_mod (weigh 1 256 icmp)
  have hfoldZero := fold_eq_zero (n := weigh 1 256 icmp)
  have hsum : inetChecksum quote (inetChecksum icmp 65535) =
      65535 - fold (fold (weigh 1 256 icmp) + weigh 1 256 quote) := by
    have hfirst : inetChecksum icmp 65535 = 65535 - fold (weigh 1 256 icmp) := by
      simp [inetChecksum_eq]
    rw [hfirst, inetChecksum_complement quote hlt]
  have hverifies := verifies_append_putSum icmp (a := []) (b := quote) (i := 2) rfl (by omega) rfl
    (by omega) hzero.1 hzero.2 (by simp; omega)
    (m := fold (weigh 1 256 icmp) + weigh 1 256 quote) (by omega)
    (by simpa using hmod.add_right _) (by simp [hfoldZero]) hsum
  unfold icmpHeader
  dsimp only
  rw [hicmp]
  simpa using hverifies

/-- The parts of an error, found in the packet that was put together from them. -/
lemma icmpError_parts {ether ipSrc ipDst quote : List UInt8} {ethlen : ℕ}
    (hether : ether.length = ethlen) (hsrc : ipSrc.length = 4) (hdst : ipDst.length = 4)
    (hquote : quote.length ≤ 548) (htype : type < 256) (hcode : code < 256) {q : Packet}
    (hq : q = .ofBytes (ether ++ (errorHeader quote.length ipSrc ipDst ++
      (icmpHeader type code nextmtu quote ++ quote)))) :
    q.len = ethlen + 28 + quote.length ∧
    (q.byte ethlen = 0x45 ∧ q.byte (ethlen + 9) = 1 ∧
      q.word (ethlen + 2) = 28 + quote.length) ∧
    (q.slice (ethlen + 12) 4 = ipSrc ∧ q.slice (ethlen + 16) 4 = ipDst) ∧
    q.slice ethlen 20 = errorHeader quote.length ipSrc ipDst ∧
    (q.byte (ethlen + 20) = type ∧ q.byte (ethlen + 21) = code) ∧
    q.slice (ethlen + 20) (8 + quote.length) = icmpHeader type code nextmtu quote ++ quote ∧
    q.slice (ethlen + 28) quote.length = quote := by
  obtain ⟨h1, l1, hheader⟩ := errorHeader_eq quote.length ipSrc ipDst
  obtain ⟨h2, l2, hicmp⟩ := icmpHeader_eq type code nextmtu quote
  have hheaderLength : (errorHeader quote.length ipSrc ipDst).length = 20 := by
    rw [hheader]
    simp [length_be16, hsrc, hdst]
  have hicmpLength : (icmpHeader type code nextmtu quote).length = 8 := by
    rw [hicmp]
    rfl
  generalize hbytes : ether ++ (errorHeader quote.length ipSrc ipDst ++
    (icmpHeader type code nextmtu quote ++ quote)) = bytes at hq
  have hinner : bytes = (ether ++ errorHeader quote.length ipSrc ipDst) ++
      (icmpHeader type code nextmtu quote ++ quote) := by
    rw [← hbytes, List.append_assoc]
  have hfront : (ether ++ errorHeader quote.length ipSrc ipDst).length = ethlen + 20 := by
    rw [List.length_append, hether, hheaderLength]
  subst hq
  refine ⟨?_, ⟨?_, ?_, ?_⟩, ⟨?_, ?_⟩, ?_, ⟨?_, ?_⟩, ?_, ?_⟩
  · rw [Packet.len_ofBytes, hinner, List.length_append, hfront, List.length_append, hicmpLength]
    omega
  · have hbyte := Packet.byte_ofBytes_eq (k := 0) hbytes.symm hether (by omega)
    rw [hheader] at hbyte
    exact hbyte
  · rw [Packet.byte_ofBytes_eq hbytes.symm hether (by omega), hheader]
    rfl
  · rw [Packet.word_ofBytes_eq hbytes.symm hether (by omega), hheader]
    simp only [List.append_assoc, List.cons_append, List.nil_append]
    exact wordAt_be16 (by omega) _ _ _
  · refine Packet.slice_ofBytes_eq (a := ether ++ ([0x45, 0] ++ be16 (28 + quote.length) ++
      [0, 0, 0, 0, 255, 1, h1, l1])) (c := ipDst ++ (icmpHeader type code nextmtu quote ++ quote))
      ?_ ?_ hsrc
    · rw [← hbytes, hheader]
      simp
    · simp [hether, length_be16]
  · refine Packet.slice_ofBytes_eq (a := ether ++ ([0x45, 0] ++ be16 (28 + quote.length) ++
      [0, 0, 0, 0, 255, 1, h1, l1] ++ ipSrc)) (c := icmpHeader type code nextmtu quote ++ quote)
      ?_ ?_ hdst
    · rw [← hbytes, hheader]
      simp
    · simp [hether, hsrc, length_be16]
  · exact Packet.slice_ofBytes_eq hbytes.symm hether hheaderLength
  · have hbyte := Packet.byte_ofBytes_eq (k := 0) hinner hfront (by omega)
    rw [hicmp] at hbyte
    rw [hbyte]
    exact UInt8.toNat_ofNat_of_lt htype
  · have hbyte := Packet.byte_ofBytes_eq (k := 1) hinner hfront (by omega)
    rw [hicmp] at hbyte
    rw [hbyte]
    exact UInt8.toNat_ofNat_of_lt hcode
  · refine Packet.slice_ofBytes_eq (c := []) ?_ hfront ?_
    · rw [hinner, List.append_nil]
    · rw [List.length_append, hicmpLength]
  · refine Packet.slice_ofBytes_eq (a := ether ++ errorHeader quote.length ipSrc ipDst ++
      icmpHeader type code nextmtu quote) (c := []) ?_ ?_ rfl
    · simp only [hinner, List.append_nil, List.append_assoc]
    · rw [List.length_append, hfront, hicmpLength]

/-- **What `route_ipv4_unreachable` sends.** -/
lemma icmpError_right {p : Packet} {ethlen whole : ℕ} (hethlen : 12 ≤ ethlen)
    (hwhole : ethlen ≤ whole) (h : p.len = whole ∧ whole < 65536 ∨ ethlen + 548 ≤ whole)
    (htype : type < 256) (hcode : code < 256) (localAddress : Option InAddr) :
    ∃ q, routeIpv4Unreachable false localAddress p ethlen type code = some q ∧
      IcmpError p q ethlen whole type code (errorSource p ethlen type code localAddress) := by
  refine ⟨_, rfl, ?_⟩
  have hsource : errorSource p.swapMacAddresses ethlen type code localAddress =
      errorSource p ethlen type code localAddress := by
    rw [errorSource, slice_swapMacAddresses p (by omega), errorSource]
  have hsourceLength : (errorSource p ethlen type code localAddress).length = 4 := by
    unfold errorSource
    split
    · cases localAddress with
      | none => exact Packet.length_slice ..
      | some a => exact a.2
    · exact Packet.length_slice ..
  have hquoted : quotedBytes p.swapMacAddresses ethlen 548 = quotedBytes p ethlen 548 := rfl
  rw [hsource, hquoted, slice_swapMacAddresses p hethlen,
    slice_swapMacAddresses p (i := ethlen + 12) (by omega)]
  have hprefix := quotedBytes_prefix hwhole h
  have hquoteLe := quotedBytes_le p ethlen 548
  have hdst : (p.slice (ethlen + 12) 4).length = 4 := Packet.length_slice ..
  generalize hquote : p.slice ethlen (quotedBytes p ethlen 548) = quote at hprefix ⊢
  have hquoteLength : quote.length ≤ 548 := by
    rw [← hquote, Packet.length_slice]
    exact hquoteLe
  simp only [List.append_assoc]
  generalize (if type = 3 ∧ code = 4 then p.swapMacAddresses.len + 2 ^ 32 - ethlen else 0) = nextmtu
  obtain ⟨hlen, ⟨hversion, hprotocol, htotal⟩, ⟨hsrc, hdst'⟩, hheader, hkind, hmessage, hquote'⟩ :=
    icmpError_parts type code nextmtu (Packet.length_slice p.swapMacAddresses 0 ethlen)
      hsourceLength hdst hquoteLength htype hcode rfl
  have hreturned := returned_ofBytes p hethlen (errorHeader quote.length
    (errorSource p ethlen type code localAddress) (p.slice (ethlen + 12) 4) ++
      (icmpHeader type code nextmtu quote ++ quote))
  generalize Packet.ofBytes (p.swapMacAddresses.slice 0 ethlen ++ (errorHeader quote.length
    (errorSource p ethlen type code localAddress) (p.slice (ethlen + 12) 4) ++
      (icmpHeader type code nextmtu quote ++ quote))) = q at *
  have hmessageLength : q.len - ethlen - 20 = 8 + quote.length := by omega
  have hquoteRest : q.len - ethlen - 28 = quote.length := by omega
  exact
    { returned := hreturned
      version := hversion
      protocol := hprotocol
      total := by omega
      small := by omega
      source := hsrc
      destination := hdst'
      header := by
        rw [hheader]
        exact verifies_errorHeader quote.length hsourceLength hdst
      kind := hkind
      message := by
        rw [hmessageLength, hmessage]
        exact verifies_icmpHeader type code nextmtu (by omega)
      quote := by
        rw [hquoteRest, hquote']
        exact hprefix }

end Ipv4

/-! ## IPv6 errors -/

/-- An ICMPv6 error about the packet `p`, that was once `whole` bytes long. -/
structure Icmp6Error (p q : Packet) (ethlen whole type code : ℕ) (ip6Src : List UInt8) : Prop where
  returned : Returned p q ethlen
  version : q.byte ethlen = 0x60
  protocol : q.byte (ethlen + 6) = 58
  total : ethlen + 40 + q.word (ethlen + 4) = q.len
  small : 40 + q.word (ethlen + 4) ≤ 576
  source : q.slice (ethlen + 8) 16 = ip6Src
  destination : q.slice (ethlen + 24) 16 = p.slice (ethlen + 8) 16
  kind : q.byte (ethlen + 40) = type ∧ q.byte (ethlen + 41) = code
  /-- with the pseudo header of the addresses, the length and the protocol -/
  message : Verifies (q.slice (ethlen + 8) 32 ++ be32 (q.word (ethlen + 4)) ++ be32 58 ++
    q.slice (ethlen + 40) (q.len - ethlen - 40))
  quote : q.slice (ethlen + 48) (q.len - ethlen - 48) <+: p.slice ethlen (whole - ethlen)

section Ipv6

variable (type code mtu : ℕ) {ip6Src ip6Dst quote : List UInt8}

lemma icmp6Header_eq (ip6Src ip6Dst quote : List UInt8) : ∃ high low,
    icmp6Header type code mtu ip6Src ip6Dst quote =
      [UInt8.ofNat type, UInt8.ofNat code, high, low] ++ be32 mtu :=
  ⟨_, _, rfl⟩

lemma verifies_icmp6Header (hsrc : ip6Src.length = 16) (hdst : ip6Dst.length = 16)
    (hquote : quote.length ≤ 1000) : Verifies (pseudoHeader6 (8 + quote.length) ip6Src ip6Dst ++
      icmp6Header type code mtu ip6Src ip6Dst quote ++ quote) := by
  generalize hicmp : [UInt8.ofNat type, UInt8.ofNat code, 0, 0] ++ be32 mtu = icmp6
  have hlength : icmp6.length = 8 := by rw [← hicmp]; rfl
  have hzero : icmp6.getD 2 0 = 0 ∧ icmp6.getD 3 0 = 0 := by
    rw [← hicmp]
    exact ⟨rfl, rfl⟩
  have hpseudo : (pseudoHeader6 (8 + quote.length) ip6Src ip6Dst).length = 40 := by
    simp [pseudoHeader6, hsrc, hdst, length_be32]
  unfold icmp6Header
  dsimp only
  rw [hicmp]
  generalize pseudoHeader6 (8 + quote.length) ip6Src ip6Dst = pseudo at hpseudo ⊢
  -- the sum is folded after each of the three parts
  have hw := weigh_lt (by decide : 1 ≤ 256) le_rfl (t := pseudo) (by omega)
  have hlt := fold_lt hw
  have hicmpLe := weigh_le (by decide : 1 ≤ 256) le_rfl icmp6
  have hquoteLe := weigh_le (by decide : 1 ≤ 256) le_rfl quote
  have hlt' := fold_lt (n := fold (weigh 1 256 pseudo) + weigh 1 256 icmp6) (by omega)
  have hsum : inetChecksum quote (inetChecksum icmp6 (inetChecksum pseudo 65535)) = 65535 -
      fold (fold (fold (weigh 1 256 pseudo) + weigh 1 256 icmp6) + weigh 1 256 quote) := by
    have hfirst : inetChecksum pseudo 65535 = 65535 - fold (weigh 1 256 pseudo) := by
      simp [inetChecksum_eq]
    rw [hfirst, inetChecksum_complement icmp6 hlt, inetChecksum_complement quote hlt']
  have hmod : fold (fold (weigh 1 256 pseudo) + weigh 1 256 icmp6) + weigh 1 256 quote ≡
      weigh 1 256 pseudo + weigh 1 256 icmp6 + weigh 1 256 quote [MOD 65535] :=
    ((fold_mod _).trans ((fold_mod _).add_right _)).add_right _
  exact verifies_append_putSum icmp6 (by omega) (by omega) rfl (by omega) hzero.1 hzero.2
    (by simp; omega) (by omega) hmod (by simp [fold_eq_zero]) hsum

/-- The parts of an error, found in the packet that was put together from them. -/
lemma icmp6Error_parts {ether : List UInt8} {ethlen : ℕ} (hether : ether.length = ethlen)
    (hsrc : ip6Src.length = 16) (hdst : ip6Dst.length = 16) (hquote : quote.length ≤ 528)
    (htype : type < 256) (hcode : code < 256) {q : Packet}
    (hq : q = .ofBytes (ether ++ (errorHeader6 quote.length ip6Src ip6Dst ++
      (icmp6Header type code mtu ip6Src ip6Dst quote ++ quote)))) :
    q.len = ethlen + 48 + quote.length ∧
    (q.byte ethlen = 0x60 ∧ q.byte (ethlen + 6) = 58 ∧
      q.word (ethlen + 4) = 8 + quote.length) ∧
    (q.slice (ethlen + 8) 16 = ip6Src ∧ q.slice (ethlen + 24) 16 = ip6Dst) ∧
    (q.byte (ethlen + 40) = type ∧ q.byte (ethlen + 41) = code) ∧
    q.slice (ethlen + 40) (8 + quote.length) =
      icmp6Header type code mtu ip6Src ip6Dst quote ++ quote ∧
    q.slice (ethlen + 48) quote.length = quote := by
  obtain ⟨h2, l2, hicmp⟩ := icmp6Header_eq type code mtu ip6Src ip6Dst quote
  have hheaderLength : (errorHeader6 quote.length ip6Src ip6Dst).length = 40 := by
    simp [errorHeader6, length_be16, hsrc, hdst]
  have hicmpLength : (icmp6Header type code mtu ip6Src ip6Dst quote).length = 8 := by
    rw [hicmp]
    rfl
  generalize hbytes : ether ++ (errorHeader6 quote.length ip6Src ip6Dst ++
    (icmp6Header type code mtu ip6Src ip6Dst quote ++ quote)) = bytes at hq
  have hinner : bytes = (ether ++ errorHeader6 quote.length ip6Src ip6Dst) ++
      (icmp6Header type code mtu ip6Src ip6Dst quote ++ quote) := by
    rw [← hbytes, List.append_assoc]
  have hfront : (ether ++ errorHeader6 quote.length ip6Src ip6Dst).length = ethlen + 40 := by
    rw [List.length_append, hether, hheaderLength]
  subst hq
  refine ⟨?_, ⟨?_, ?_, ?_⟩, ⟨?_, ?_⟩, ⟨?_, ?_⟩, ?_, ?_⟩
  · rw [Packet.len_ofBytes, hinner, List.length_append, hfront, List.length_append, hicmpLength]
    omega
  · exact Packet.byte_ofBytes_eq (k := 0) hbytes.symm hether (by omega)
  · rw [Packet.byte_ofBytes_eq hbytes.symm hether (by omega)]
    rfl
  · rw [Packet.word_ofBytes_eq hbytes.symm hether (by omega)]
    have hword : wordAt (errorHeader6 quote.length ip6Src ip6Dst) 4 =
        (UInt8.ofNat ((8 + quote.length) / 256 % 256)).toNat * 256 +
          (UInt8.ofNat ((8 + quote.length) % 256)).toNat := rfl
    rw [hword, UInt8.toNat_ofNat', UInt8.toNat_ofNat']
    omega
  · refine Packet.slice_ofBytes_eq (a := ether ++ ([0x60, 0, 0, 0] ++ be16 (8 + quote.length) ++
      [58, 255])) (c := ip6Dst ++ (icmp6Header type code mtu ip6Src ip6Dst quote ++ quote))
      ?_ ?_ hsrc
    · rw [← hbytes, errorHeader6]
      simp
    · simp [hether, length_be16]
  · refine Packet.slice_ofBytes_eq (a := ether ++ ([0x60, 0, 0, 0] ++ be16 (8 + quote.length) ++
      [58, 255] ++ ip6Src)) (c := icmp6Header type code mtu ip6Src ip6Dst quote ++ quote) ?_ ?_ hdst
    · rw [← hbytes, errorHeader6]
      simp
    · simp [hether, hsrc, length_be16]
  · have hbyte := Packet.byte_ofBytes_eq (k := 0) hinner hfront (by omega)
    rw [hicmp] at hbyte
    rw [hbyte]
    exact UInt8.toNat_ofNat_of_lt htype
  · have hbyte := Packet.byte_ofBytes_eq (k := 1) hinner hfront (by omega)
    rw [hicmp] at hbyte
    rw [hbyte]
    exact UInt8.toNat_ofNat_of_lt hcode
  · refine Packet.slice_ofBytes_eq (c := []) ?_ hfront ?_
    · rw [hinner, List.append_nil]
    · rw [List.length_append, hicmpLength]
  · refine Packet.slice_ofBytes_eq (a := ether ++ errorHeader6 quote.length ip6Src ip6Dst ++
      icmp6Header type code mtu ip6Src ip6Dst quote) (c := []) ?_ ?_ rfl
    · simp only [hinner, List.append_nil, List.append_assoc]
    · rw [List.length_append, hfront, hicmpLength]

/-- **What `route_ipv6_unreachable` sends.** -/
lemma icmp6Error_right {p : Packet} {ethlen whole : ℕ} (hethlen : 12 ≤ ethlen)
    (hwhole : ethlen ≤ whole) (h : p.len = whole ∧ whole < 65536 ∨ ethlen + 528 ≤ whole)
    (htype : type < 256) (hcode : code < 256) (localAddress : Option In6Addr) :
    ∃ q, routeIpv6Unreachable false localAddress p ethlen type code = some q ∧
      Icmp6Error p q ethlen whole type code (errorSource6 p ethlen type code localAddress) := by
  refine ⟨_, rfl, ?_⟩
  have hsource : errorSource6 p.swapMacAddresses ethlen type code localAddress =
      errorSource6 p ethlen type code localAddress := by
    rw [errorSource6, slice_swapMacAddresses p (by omega), errorSource6]
  have hsourceLength : (errorSource6 p ethlen type code localAddress).length = 16 := by
    unfold errorSource6
    split
    · cases localAddress with
      | none => exact Packet.length_slice ..
      | some a => exact a.2
    · exact Packet.length_slice ..
  have hquoted : quotedBytes p.swapMacAddresses ethlen 528 = quotedBytes p ethlen 528 := rfl
  rw [hsource, hquoted, slice_swapMacAddresses p hethlen,
    slice_swapMacAddresses p (i := ethlen + 8) (by omega)]
  have hprefix := quotedBytes_prefix hwhole h
  have hquoteLe := quotedBytes_le p ethlen 528
  have hdst : (p.slice (ethlen + 8) 16).length = 16 := Packet.length_slice ..
  generalize hquote : p.slice ethlen (quotedBytes p ethlen 528) = quote at hprefix ⊢
  have hquoteLength : quote.length ≤ 528 := by
    rw [← hquote, Packet.length_slice]
    exact hquoteLe
  simp only [List.append_assoc]
  generalize (if type = 2 then p.swapMacAddresses.len + 2 ^ 32 - ethlen else 0) = mtu
  obtain ⟨hlen, ⟨hversion, hprotocol, htotal⟩, ⟨hsrc, hdst'⟩, hkind, hmessage, hquote'⟩ :=
    icmp6Error_parts type code mtu (Packet.length_slice p.swapMacAddresses 0 ethlen)
      hsourceLength hdst hquoteLength htype hcode rfl
  have hreturned := returned_ofBytes p hethlen (errorHeader6 quote.length
    (errorSource6 p ethlen type code localAddress) (p.slice (ethlen + 8) 16) ++
      (icmp6Header type code mtu (errorSource6 p ethlen type code localAddress)
        (p.slice (ethlen + 8) 16) quote ++ quote))
  generalize Packet.ofBytes (p.swapMacAddresses.slice 0 ethlen ++ (errorHeader6 quote.length
    (errorSource6 p ethlen type code localAddress) (p.slice (ethlen + 8) 16) ++
      (icmp6Header type code mtu (errorSource6 p ethlen type code localAddress)
        (p.slice (ethlen + 8) 16) quote ++ quote))) = q at *
  have hmessageLength : q.len - ethlen - 40 = 8 + quote.length := by omega
  have hquoteRest : q.len - ethlen - 48 = quote.length := by omega
  have haddresses : q.slice (ethlen + 8) 32 =
      errorSource6 p ethlen type code localAddress ++ p.slice (ethlen + 8) 16 := by
    rw [← hsrc, ← hdst', ← Packet.slice_add]
  exact
    { returned := hreturned
      version := hversion
      protocol := hprotocol
      total := by omega
      small := by omega
      source := hsrc
      destination := hdst'
      kind := hkind
      message := by
        rw [haddresses, hmessageLength, hmessage, htotal, ← List.append_assoc]
        exact verifies_icmp6Header type code mtu hsourceLength hdst (by omega)
      quote := by
        rw [hquoteRest, hquote']
        exact hprefix }

end Ipv6

/-! ## When an error is returned -/

/-- The packet has the header that an error needs, and is long if the error says that it is. -/
def Action.Justified (p : Packet) : Action → Prop
  | .icmp type code => p.etherType.1 = ethPIp ∧ p.etherType.2 + 20 ≤ p.len ∧
      (type < 256 ∧ code < 256) ∧ (type = 3 ∧ code = 4 → p.etherType.2 + 576 ≤ p.len)
  | .icmp6 type code => p.etherType.1 = ethPIpv6 ∧ p.etherType.2 + 40 ≤ p.len ∧
      (type < 256 ∧ code < 256) ∧ (type = 2 → p.etherType.2 + 1280 ≤ p.len)
  | _ => True

variable {s : Routing} {r : Router} {source : Name} {p p' : Packet}

lemma Packet.ethlen_ge (p : Packet) : 14 ≤ p.etherType.2 := by
  unfold Packet.etherType
  split <;> simp

lemma etherType_doDecrementTtl (h : doDecrementTtl p = .ok p') : p'.etherType = p.etherType := by
  have hethlen := p.ethlen_ge
  rcases htype : p.etherType with ⟨type, ethlen⟩
  rw [htype] at hethlen
  have hword : ∀ i, i ≤ 16 → p'.word i = p.word i := by
    have hbyte : ∀ i, i ≤ 17 → p'.byte i = p.byte i := by
      intro i hi
      unfold Packet.byte
      rcases doDecrementTtl_ok htype h with ⟨-, -, rfl⟩ | ⟨-, -, rfl⟩ | ⟨-, -, rfl⟩
      · rw [data_decrementIpv4 p _ (by omega) (by omega) (by omega)]
      · rw [Packet.data_set_of_ne _ (by omega)]
      · rfl
    intro i hi
    rw [Packet.word, hbyte i (by omega), hbyte (i + 1) (by omega), Packet.word]
  rw [← htype, Packet.etherType, hword 12 (by decide), hword 16 (by decide), Packet.etherType]

/-- The TTL does not matter for what justifies an error. -/
lemma Action.Justified.of_decrement {action : Action} (h : doDecrementTtl p = .ok p')
    (ha : action.Justified p') : action.Justified p := by
  unfold Action.Justified at ha ⊢
  rw [etherType_doDecrementTtl h, length_doDecrementTtl h] at ha
  exact ha

lemma justified_doDecrementTtl {action : Action} (h : doDecrementTtl p = .error action) :
    action.Justified p := by
  unfold doDecrementTtl at h
  dsimp only at h
  split at h
  · rename_i hip
    split at h
    · obtain rfl := Except.error.inj h
      trivial
    · rename_i hlen
      split at h
      · obtain rfl := Except.error.inj h
        split
        · exact ⟨hip, not_lt.mp hlen, by decide, fun h => absurd h.1 (by decide)⟩
        · trivial
      · cases h
  · split at h
    · rename_i hipv6
      split at h
      · obtain rfl := Except.error.inj h
        trivial
      · rename_i hlen
        split at h
        · obtain rfl := Except.error.inj h
          split
          · exact ⟨hipv6, not_lt.mp hlen, by decide, fun h => absurd h (by decide)⟩
          · trivial
        · cases h
    · cases h

lemma justified_routeBroadcast (d : Daemon) : (routeBroadcast s d source p).Justified p := by
  unfold routeBroadcast decrementFor
  split_ifs with hdecrement
  · cases h : doDecrementTtl p with
    | error action => exact justified_doDecrementTtl h
    | ok p' => trivial
  · trivial

lemma justified_towards {d : Daemon} {i : SubnetId} {refused : Name → Bool}
    {refusal off : Action} {onward : Name → Packet → Action} (hrefusal : refusal.Justified p)
    (hoff : off.Justified p) (honward : ∀ owner p', (p' = p ∨ doDecrementTtl p = .ok p') →
      (onward owner p').Justified p) :
    (towards s d source p i refused refusal off onward).Justified p := by
  unfold towards
  split
  · exact justified_routeBroadcast d
  · split_ifs
    · trivial
    · exact hrefusal
    · exact hoff
    · unfold decrementFor
      split_ifs
      · cases h : doDecrementTtl p with
        | error action => exact justified_doDecrementTtl h
        | ok p' => exact honward _ _ (.inr h)
      · exact honward _ _ (.inl rfl)

lemma justified_fragment {n : Name} {ethlen : ℕ} (q : Packet) :
    (fragmentIpv4Packet s n p ethlen).Justified q := by
  unfold fragmentIpv4Packet
  dsimp only
  split_ifs <;> trivial

lemma justified_sendIpv4 {d : Daemon} {owner : Name} (htype : p.etherType = (ethPIp, 14))
    (hlen : 34 ≤ p.len) : (sendIpv4 s d source owner p).Justified p := by
  unfold sendIpv4
  split
  · trivial
  · split
    · exact ⟨by rw [htype], by rw [htype]; exact hlen, by decide, fun h => absurd h.2 (by decide)⟩
    · split
      · trivial
      · split
        · rename_i hlong
          have hle := tooLong_length hlong
          split
          · exact ⟨by rw [htype], by rw [htype]; exact hlen, by decide, fun _ => by
              rw [htype]; exact hle.le⟩
          · exact justified_fragment p
        · trivial

lemma justified_sendIpv6 {d : Daemon} {owner : Name} (htype : p.etherType = (ethPIpv6, 14))
    (hlen : 54 ≤ p.len) : (sendIpv6 s d source owner p).Justified p := by
  unfold sendIpv6
  split
  · trivial
  · split
    · exact ⟨by rw [htype], by rw [htype]; exact hlen, by decide, fun h => absurd h (by decide)⟩
    · split
      · trivial
      · split
        · rename_i hlong
          have hle := tooLong_length hlong
          exact ⟨by rw [htype], by rw [htype]; exact hlen, by decide, fun _ => by
            rw [htype]; exact hle.le⟩
        · trivial

lemma justified_sendMac {d : Daemon} {owner : Name} : (sendMac s d owner p).Justified p := by
  unfold sendMac
  split
  · trivial
  · split
    · trivial
    · split
      · dsimp only
        split
        · rename_i hip
          split
          · exact ⟨hip.1, by omega, by decide, fun _ => by omega⟩
          · exact justified_fragment p
        · split
          · rename_i hipv6
            exact ⟨hipv6.1, by omega, by decide, fun _ => by omega⟩
          · trivial
      · trivial

/-- The packet, or the packet with its TTL decremented. -/
def Forwarded (p p' : Packet) : Prop := p' = p ∨ doDecrementTtl p = .ok p'

lemma Forwarded.etherType (h : Forwarded p p') : p'.etherType = p.etherType := by
  rcases h with rfl | h
  · rfl
  · exact etherType_doDecrementTtl h

lemma Forwarded.length (h : Forwarded p p') : p'.len = p.len := by
  rcases h with rfl | h
  · rfl
  · exact length_doDecrementTtl h

lemma Forwarded.justified {action : Action} (h : Forwarded p p') (ha : action.Justified p') :
    action.Justified p := by
  rcases h with rfl | h
  · exact ha
  · exact ha.of_decrement h

/-- Without a tag, the header of the frame has fourteen bytes. -/
lemma etherType_untagged {type : ℕ} (h : p.word 12 = type) (hne : type ≠ ethP8021q) :
    p.etherType = (type, 14) := by
  subst h
  exact if_neg hne

lemma justified_routeIpv4 (htype : p.word 12 = ethPIp) :
    (routeIpv4 s r source p).2.Justified p := by
  have hether := etherType_untagged htype (by decide)
  unfold routeIpv4
  split
  · trivial
  · rename_i hlen
    have hle : 34 ≤ p.len := not_lt.mp hlen
    have hplain : ∀ code, code < 256 → code ≠ 4 → (Action.icmp 3 code).Justified p :=
      fun code hcode hne => ⟨by rw [hether], by rw [hether]; exact hle, ⟨by decide, hcode⟩,
        fun h => absurd h.2 hne⟩
    split
    · exact hplain 6 (by decide) (by decide)
    · refine justified_towards (hplain 0 (by decide) (by decide)) (hplain 9 (by decide) (by decide))
        fun owner p' hp' => Forwarded.justified hp' ?_
      refine justified_sendIpv4 ?_ ?_
      · rw [Forwarded.etherType hp', hether]
      · rw [Forwarded.length hp']
        exact hle

/-- The answer to a question, or the error that is returned instead. -/
lemma justified_answer {c : Prop} [Decidable c] : (if c then Action.drop
    else if s.decrementTtl then
      match doDecrementTtl p with
      | .error action => action
      | .ok _ => .answer
    else .answer).Justified p := by
  split
  · trivial
  · split
    · cases h : doDecrementTtl p with
      | error action => exact justified_doDecrementTtl h
      | ok p' => trivial
    · trivial

lemma justified_routeNeighborsol : (routeNeighborsol s r source p).2.Justified p := by
  unfold routeNeighborsol
  dsimp only
  split
  · trivial
  · split
    · trivial
    · split
      all_goals
        split
        · trivial
        · split
          · trivial
          · exact justified_answer

lemma justified_routeIpv6 (htype : p.word 12 = ethPIpv6) :
    (routeIpv6 s r source p).2.Justified p := by
  have hether := etherType_untagged htype (by decide)
  unfold routeIpv6
  split
  · trivial
  · rename_i hlen
    have hle : 54 ≤ p.len := not_lt.mp hlen
    have hplain : ∀ code, code < 256 → (Action.icmp6 1 code).Justified p :=
      fun code hcode => ⟨by rw [hether], by rw [hether]; exact hle, ⟨by decide, hcode⟩,
        fun h => absurd h (by decide)⟩
    split
    · exact justified_routeNeighborsol
    · split
      · exact hplain 3 (by decide)
      · refine justified_towards (hplain 0 (by decide)) (hplain 1 (by decide))
          fun owner p' hp' => Forwarded.justified hp' ?_
        refine justified_sendIpv6 ?_ ?_
        · rw [Forwarded.etherType hp', hether]
        · rw [Forwarded.length hp']
          exact hle

lemma justified_routeArp : (routeArp s r source p).2.Justified p := by
  unfold routeArp
  dsimp only
  split
  · trivial
  · split
    · trivial
    · split
      · trivial
      · exact justified_answer

lemma justified_routeMac : (routeMac s r source p).2.Justified p := by
  unfold routeMac
  dsimp only
  split
  · exact justified_routeBroadcast _
  · exact justified_towards trivial trivial fun owner p' hp' =>
      Forwarded.justified hp' justified_sendMac

/-- **`route` asks for an error only if the packet is fit for it.** -/
lemma justified_route : (route s r source p).2.Justified p := by
  unfold route
  split
  · trivial
  · split
    · trivial
    · split
      · split
        · exact justified_routeArp
        · split
          · rename_i htype
            exact justified_routeIpv4 htype
          · split
            · rename_i htype
              exact justified_routeIpv6 htype
            · trivial
      · exact justified_routeMac
      · exact justified_routeBroadcast _

/-! ## The errors of `route` -/

/-- The packet as it is handed over: if it is too long for the node `via`, it is cut first. -/
def refused (s : Routing) (via : Name) (p : Packet) (tooBig : Bool) (least : ℕ) : Packet :=
  if tooBig then
    { p with len := if s.routingMode = .router then max (s.mtu via) least else s.mtu via }
  else p

/-- Only the length is not what it was, and only if the packet was too long. -/
lemma refused_cases (s : Routing) (via : Name) (p : Packet) (tooBig : Bool) (least : ℕ) :
    ∃ n, refused s via p tooBig least = { p with len := n } ∧ (n = p.len ∨ tooBig = true) := by
  unfold refused
  split
  · rename_i hbig
    exact ⟨_, rfl, .inr hbig⟩
  · exact ⟨p.len, rfl, .inl rfl⟩

lemma Returned.of_cut {q : Packet} {ethlen n : ℕ} (h : Returned { p with len := n } q ethlen) :
    Returned p q ethlen := ⟨h.destination, h.source, h.type⟩

/-- What is said about a packet that was cut, is said about the packet. -/
lemma IcmpError.of_cut {q : Packet} {ethlen whole type code n : ℕ} {ipSrc : List UInt8}
    (h : IcmpError { p with len := n } q ethlen whole type code ipSrc) :
    IcmpError p q ethlen whole type code ipSrc :=
  { h with returned := h.returned.of_cut }

lemma Icmp6Error.of_cut {q : Packet} {ethlen whole type code n : ℕ} {ip6Src : List UInt8}
    (h : Icmp6Error { p with len := n } q ethlen whole type code ip6Src) :
    Icmp6Error p q ethlen whole type code ip6Src :=
  { h with returned := h.returned.of_cut }

/-- The errors that an action returns are well formed. -/
def ErrorRight (s : Routing) (p p' : Packet) (via : Name) (localAddress : Option InAddr)
    (localAddress6 : Option In6Addr) : Action → Prop
  | .icmp type code => ∃ q, routeIpv4Unreachable s.limited localAddress
      (refused s via p' (type = 3 ∧ code = 4) 590) p.etherType.2 type code = some q ∧
      IcmpError p' q p.etherType.2 p.len type code
        (errorSource p' p.etherType.2 type code localAddress)
  | .icmp6 type code => ∃ q, routeIpv6Unreachable s.limited localAddress6
      (refused s via p' (type = 2) 1294) p.etherType.2 type code = some q ∧
      Icmp6Error p' q p.etherType.2 p.len type code
        (errorSource6 p' p.etherType.2 type code localAddress6)
  | _ => True

/-- **The errors that `route` returns are well formed**, for every packet, whatever node it was too
long for, as long as the limit of errors lets them through. -/
theorem errors_wellFormed {s : Routing} {p p' : Packet} (r : Router) (source via : Name)
    (localAddress : Option InAddr) (localAddress6 : Option In6Addr) (hlen : p.len < 65536)
    (hp' : Forwarded p p') (hlimited : s.limited = false) :
    ErrorRight s p p' via localAddress localAddress6 (route s r source p).2 := by
  have hjustified : (route s r source p).2.Justified p := justified_route
  have hethlen := p.ethlen_ge
  generalize (route s r source p).2 = action at hjustified
  have hfront : 12 ≤ p.etherType.2 := by omega
  cases action with
  | icmp type code =>
      obtain ⟨-, hle, ⟨htype, hcode⟩, hlong⟩ := hjustified
      rw [ErrorRight, hlimited]
      obtain ⟨n, hn, hwhole⟩ := refused_cases s via p' (decide (type = 3 ∧ code = 4)) 590
      have hcut : n = p.len ∧ p.len < 65536 ∨ p.etherType.2 + 548 ≤ p.len := by
        rcases hwhole with rfl | hbig
        · exact .inl ⟨hp'.length, hlen⟩
        · have := hlong (of_decide_eq_true hbig)
          omega
      have hinside : p.etherType.2 ≤ p.len := by omega
      rw [hn]
      obtain ⟨q, hq, herror⟩ := icmpError_right type code (p := { p' with len := n }) hfront
        hinside hcut htype hcode localAddress
      exact ⟨q, hq, herror.of_cut⟩
  | icmp6 type code =>
      obtain ⟨-, hle, ⟨htype, hcode⟩, hlong⟩ := hjustified
      rw [ErrorRight, hlimited]
      obtain ⟨n, hn, hwhole⟩ := refused_cases s via p' (decide (type = 2)) 1294
      have hcut : n = p.len ∧ p.len < 65536 ∨ p.etherType.2 + 528 ≤ p.len := by
        rcases hwhole with rfl | hbig
        · exact .inl ⟨hp'.length, hlen⟩
        · have := hlong (of_decide_eq_true hbig)
          omega
      have hinside : p.etherType.2 ≤ p.len := by omega
      rw [hn]
      obtain ⟨q, hq, herror⟩ := icmp6Error_right type code (p := { p' with len := n }) hfront
        hinside hcut htype hcode localAddress6
      exact ⟨q, hq, herror.of_cut⟩
  | drop => trivial
  | answer => trivial
  | broadcast => trivial
  | send n => trivial
  | fragment n lengths => trivial

/-- The error about a packet that has expired on its way through `a`, from the node `x`. -/
theorem errors_wellFormed_expired :
    (route { agingRouting with routingMode := .hub } (Router.init (.plain (ascii "a")) id)
      (ascii "x") expiredFrame).2 = .icmp 11 0 ∧
    ErrorRight { agingRouting with routingMode := .hub } expiredFrame expiredFrame [] none none
      (route { agingRouting with routingMode := .hub } (Router.init (.plain (ascii "a")) id)
        (ascii "x") expiredFrame).2 :=
  ⟨by decide +kernel, errors_wellFormed _ _ _ _ _ (by decide) (.inl rfl) rfl⟩

end Tinc
