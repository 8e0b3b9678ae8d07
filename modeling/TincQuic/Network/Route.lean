import TincQuic.Daemon.LookupCache
import TincQuic.Daemon.Routes
import TincQuic.Network.Broadcast

/-!
# `route.c`: where a packet goes

`route` looks at a packet, from the device or from a peer, and decides what to do with it.  Every
way through it ends in one action: the packet is dropped, an error is returned to its source, it is
broadcast, or it is sent, whole or in fragments, towards the node that owns its destination.

* `Action` is that decision and `route` makes it; `Routing` are the variables that it reads.
* `transmissions` is what becomes of an action in `net_packet.c`.
* **A packet is sent back where it came from** if the node that it is for lies behind the peer that
  sent it: the loop test looks at `via`, but `send_packet` goes by `nexthop`.  `unicast_returned_iff`
  says exactly when.
* **With forwarding off packets are still broadcast**: `forwarding_off_iff`.

What the packet contains is modelled as far as the decision depends on it.  `clamp_mss`, the
priority and the addresses that are written into replies are left out, and so is `send_pcap`.
-/

namespace Tinc

open Bytes CText Function

/-! ## Packets -/

/-- `vpn_packet_t`: the buffer, and how much of it is used. -/
structure Packet where
  data : ℕ → UInt8
  len : ℕ

namespace Packet

variable (p : Packet)

def byte (i : ℕ) : ℕ := (p.data i).toNat

/-- Two bytes in network order. -/
def word (i : ℕ) : ℕ := p.byte i * 256 + p.byte (i + 1)

def slice (i n : ℕ) : List UInt8 := (List.range n).map fun k => p.data (i + k)

def set (i n : ℕ) : Packet := { p with data := update p.data i (UInt8.ofNat n) }

end Packet

/-- `ETH_P_IP`, `ETH_P_ARP`, `ETH_P_8021Q` and `ETH_P_IPV6` -/
def ethPIp : ℕ := 0x0800
def ethPArp : ℕ := 0x0806
def ethP8021q : ℕ := 0x8100
def ethPIpv6 : ℕ := 0x86dd

/-- The type of a frame and the length of its header, with a VLAN tag or without. -/
def Packet.etherType (p : Packet) : ℕ × ℕ :=
  if p.word 12 = ethP8021q then (p.word 16, 18) else (p.word 12, 14)

/-- The carries are added until the sum fits into 16 bits; three rounds are enough for 32. -/
def addCarries (sum : ℕ) : ℕ :=
  let round := fun n : ℕ => n % 65536 + n / 65536
  round (round (round sum))

def inetSum : List UInt8 → ℕ
  | a :: b :: data => a.toNat + b.toNat * 256 + inetSum data
  | [a] => a.toNat
  | [] => 0

/-- `inet_checksum` -/
def inetChecksum (data : List UInt8) (prevsum : ℕ) : ℕ :=
  65535 - addCarries (65535 - prevsum + inetSum data)

/-! ## Decisions -/

/-- `rmode_t` -/
inductive RoutingMode where
  | hub
  | switch
  | router
  deriving DecidableEq

/-- `fmode_t` -/
inductive ForwardingMode where
  | off
  | internal
  | kernel
  deriving DecidableEq

/-- The variables of `route.c`. -/
structure Routing where
  routingMode : RoutingMode
  forwardingMode : ForwardingMode
  broadcastMode : BroadcastMode
  decrementTtl : Bool
  directonly : Bool
  /-- `ratelimit` allows no more errors in this second. -/
  limited : Bool
  /-- `n->mtu` -/
  mtu : Name → ℕ
  /-- when a MAC address that is learned now is forgotten -/
  macExpires : ℕ

/-- What is done with a packet. -/
inductive Action where
  | drop
  /-- `route_ipv4_unreachable` -/
  | icmp (type code : ℕ)
  /-- `route_ipv6_unreachable` -/
  | icmp6 (type code : ℕ)
  /-- the reply to an ARP request or a neighbour solicitation -/
  | answer
  | broadcast
  | send (n : Name)
  /-- `fragment_ipv4_packet`, with the lengths of the fragments -/
  | fragment (n : Name) (lengths : List ℕ)
  deriving DecidableEq

/-- The TTL of an IPv4 header becomes less by one, and the checksum with it. -/
def Packet.decrementIpv4 (p : Packet) (ethlen : ℕ) : Packet :=
  let old := p.word (ethlen + 8)
  let p := p.set (ethlen + 8) (p.byte (ethlen + 8) - 1)
  let new := p.word (ethlen + 8)
  let checksum := addCarries (p.word (ethlen + 10) + old + (65535 - new))
  (p.set (ethlen + 10) (checksum / 256)).set (ethlen + 11) (checksum % 256)

/-- `do_decrement_ttl`: the packet, or what is done when it may not go further. -/
def doDecrementTtl (p : Packet) : Except Action Packet :=
  let (type, ethlen) := p.etherType
  if type = ethPIp then
    if p.len < ethlen + 20 then .error .drop
    else if p.byte (ethlen + 8) ≤ 1 then
      .error (if p.byte (ethlen + 11) ≠ 1 ∨ p.byte (ethlen + 32) ≠ 11 then .icmp 11 0 else .drop)
    else .ok (p.decrementIpv4 ethlen)
  else if type = ethPIpv6 then
    if p.len < ethlen + 40 then .error .drop
    else if p.byte (ethlen + 7) ≤ 1 then
      .error (if p.byte (ethlen + 6) ≠ 58 ∨ p.byte (ethlen + 40) ≠ 3 then .icmp6 3 0 else .drop)
    else .ok (p.set (ethlen + 7) (p.byte (ethlen + 7) - 1))
  else .ok p

/-- The loop of `fragment_ipv4_packet`: the lengths of the pieces of `todo` bytes. -/
def fragmentLengths (maxlen : ℕ) : ℕ → ℕ → List ℕ
  | 0, _ => []
  | _, 0 => []
  | fuel + 1, todo => min todo maxlen :: fragmentLengths maxlen fuel (todo - min todo maxlen)

section Route

variable (s : Routing)

/-- `fragment_ipv4_packet` -/
def fragmentIpv4Packet (n : Name) (p : Packet) (ethlen : ℕ) : Action :=
  let todo := p.word (ethlen + 2) - 20
  if p.byte ethlen % 16 ≠ 5 then .drop
  else if ethlen + p.word (ethlen + 2) ≠ p.len then .drop
  else .fragment n (fragmentLengths ((max (s.mtu n) 590 - ethlen - 20) / 8 * 8) todo todo)

/-- The TTL is decremented for packets that others send through us. -/
def decrementFor (d : Daemon) (source : Name) (owner : Option Name) (p : Packet) :
    Except Action Packet :=
  if s.decrementTtl ∧ source ≠ d.myself ∧ owner ≠ some d.myself then doDecrementTtl p else .ok p

/-- `route_broadcast` -/
def routeBroadcast (d : Daemon) (source : Name) (p : Packet) : Action :=
  match decrementFor s d source none p with
  | .error action => action
  | .ok _ => .broadcast

/-- What is done with a packet for the subnet `i`: it is broadcast if nobody owns the subnet, and else
it goes on to the owner, if that is not `refused` and forwarding is not `off`. -/
def towards (d : Daemon) (source : Name) (p : Packet) (i : SubnetId) (refused : Name → Bool)
    (refusal off : Action) (onward : Name → Packet → Action) : Action :=
  match (d.subnet i).owner with
  | none => routeBroadcast s d source p
  | some owner =>
      if owner = source then .drop
      else if refused owner then refusal
      else if s.forwardingMode = .off ∧ source ≠ d.myself ∧ owner ≠ d.myself then off
      else
        match decrementFor s d source (some owner) p with
        | .error action => action
        | .ok p => onward owner p

/-- The node whose MTU counts for packets to `owner`. -/
def relay (d : Daemon) (owner : Name) : Option Name :=
  if (d.node owner).via = some d.myself then (d.node owner).nexthop else (d.node owner).via

/-- The packet is longer than what `via` takes, which is not less than `least`. -/
def tooLong (d : Daemon) (via : Name) (least : ℕ) (p : Packet) : Bool :=
  max (s.mtu via) least < p.len ∧ via ≠ d.myself

/-- The end of `route_ipv4`, for a packet that may go on. -/
def sendIpv4 (d : Daemon) (source owner : Name) (p : Packet) : Action :=
  if relay d owner = some source then .drop
  else if s.directonly ∧ some owner ≠ relay d owner then .icmp 3 9
  else
    match relay d owner with
    | none => .send owner
    | some via =>
        if tooLong s d via 590 p then
          if p.byte 20 / 64 % 2 = 1 then .icmp 3 4 else fragmentIpv4Packet s via p 14
        else .send owner

/-- `route_ipv4` -/
def routeIpv4 (r : Router) (source : Name) (p : Packet) : Router × Action :=
  if p.len < 34 then (r, .drop)
  else
    match r.lookupSubnetIpv4 (p.slice 30 4) with
    | (none, r) => (r, .icmp 3 6)
    | (some i, r) =>
        (r, towards s r.daemon source p i (fun n => !(r.daemon.node n).reachable) (.icmp 3 0)
          (.icmp 3 9) (sendIpv4 s r.daemon source))

/-- `route_neighborsol` -/
def routeNeighborsol (r : Router) (source : Name) (p : Packet) : Router × Action :=
  let d := r.daemon
  let hasOpt : Bool := 86 ≤ p.len
  -- the pseudo header has the addresses, the length and the protocol
  let pseudo := p.slice 22 32 ++ [0, 0, 0, if hasOpt then 32 else 24, 0, 0, 0, 58]
  let checksum := inetChecksum (p.slice 54 24) (inetChecksum pseudo 65535)
  let checksum := if hasOpt then inetChecksum (p.slice 80 6) (inetChecksum (p.slice 78 2) checksum)
    else checksum
  if p.len < 78 ∨ source ≠ d.myself then (r, .drop)
  else if p.byte 54 ≠ 135 ∨ (hasOpt ∧ p.byte 78 ≠ 1) then (r, .drop)
  else if checksum ≠ 0 then (r, .drop)
  else
    match r.lookupSubnetIpv6 (p.slice 62 16) with
    | (none, r) => (r, .drop)
    | (some i, r) =>
        (r, if (r.daemon.subnet i).owner = some d.myself then .drop
          else if s.decrementTtl then
            match doDecrementTtl p with
            | .error action => action
            | .ok _ => .answer
          else .answer)

/-- The end of `route_ipv6`, for a packet that may go on. -/
def sendIpv6 (d : Daemon) (source owner : Name) (p : Packet) : Action :=
  if relay d owner = some source then .drop
  else if s.directonly ∧ some owner ≠ relay d owner then .icmp6 1 1
  else
    match relay d owner with
    | none => .send owner
    | some via => if tooLong s d via 1294 p then .icmp6 2 0 else .send owner

/-- `route_ipv6` -/
def routeIpv6 (r : Router) (source : Name) (p : Packet) : Router × Action :=
  if p.len < 54 then (r, .drop)
  else if p.byte 20 = 58 ∧ 62 ≤ p.len ∧ p.byte 54 = 135 then routeNeighborsol s r source p
  else
    match r.lookupSubnetIpv6 (p.slice 38 16) with
    | (none, r) => (r, .icmp6 1 3)
    | (some i, r) =>
        (r, towards s r.daemon source p i (fun n => !(r.daemon.node n).reachable) (.icmp6 1 0)
          (.icmp6 1 1) (sendIpv6 s r.daemon source))

/-- `route_arp` -/
def routeArp (r : Router) (source : Name) (p : Packet) : Router × Action :=
  let d := r.daemon
  if p.len < 42 ∨ source ≠ d.myself then (r, .drop)
  else if p.word 14 ≠ 1 ∨ p.word 16 ≠ ethPIp ∨ p.byte 18 ≠ 6 ∨ p.byte 19 ≠ 4 ∨ p.word 20 ≠ 1 then
    (r, .drop)
  else
    match r.lookupSubnetIpv4 (p.slice 38 4) with
    | (none, r) => (r, .drop)
    | (some i, r) =>
        (r, if (r.daemon.subnet i).owner = some d.myself then .drop
          else if s.decrementTtl then
            match doDecrementTtl p with
            | .error action => action
            | .ok _ => .answer
          else .answer)

/-- The end of `route_mac`, for a packet that may go on. -/
def sendMac (d : Daemon) (owner : Name) (p : Packet) : Action :=
  if s.directonly ∧ some owner ≠ relay d owner then .drop
  else
    match relay d owner with
    | none => .send owner
    | some via =>
        if s.mtu via < p.len ∧ via ≠ d.myself then
          let (type, ethlen) := p.etherType
          if type = ethPIp ∧ 576 + ethlen < p.len then
            if p.byte (6 + ethlen) / 64 % 2 = 1 then .icmp 3 4
            else fragmentIpv4Packet s via p ethlen
          else if type = ethPIpv6 ∧ 1280 + ethlen < p.len then .icmp6 2 0
          else .send owner
        else .send owner

/-- `route_mac`, which does not ask whether the owner is reachable -/
def routeMac (r : Router) (source : Name) (p : Packet) : Router × Action :=
  let r := if source = r.daemon.myself then r.learnMac (p.slice 6 6) s.macExpires else r
  match r.lookupSubnetMac none (p.slice 0 6) with
  | (none, r) => (r, routeBroadcast s r.daemon source p)
  | (some i, r) =>
      (r, towards s r.daemon source p i (fun _ => false) .drop .drop (sendMac s r.daemon))

/-- `route` -/
def route (r : Router) (source : Name) (p : Packet) : Router × Action :=
  if s.forwardingMode = .kernel ∧ source ≠ r.daemon.myself then (r, .send r.daemon.myself)
  else if p.len < 14 then (r, .drop)
  else
    match s.routingMode with
    | .router =>
        if p.word 12 = ethPArp then routeArp s r source p
        else if p.word 12 = ethPIp then routeIpv4 s r source p
        else if p.word 12 = ethPIpv6 then routeIpv6 s r source p
        else (r, .drop)
    | .switch => routeMac s r source p
    | .hub => (r, routeBroadcast s r.daemon source p)

/-! ## Transmissions -/

/-- What a transmission is: the packet or a fragment of it, a copy for everyone, or a message that
the router wrote itself. -/
inductive Purpose where
  | unicast
  | copy
  | reply
  deriving DecidableEq

/-- What an action sends and writes. -/
def transmissions (d : Daemon) (source : Name) : Action → List (Purpose × Output)
  | .drop => []
  | .icmp _ _ => if s.limited then [] else (sendPacket d source).map (.reply, ·)
  | .icmp6 _ _ => if s.limited then [] else (sendPacket d source).map (.reply, ·)
  | .answer => (sendPacket d source).map (.reply, ·)
  | .broadcast => (broadcastPacket d s.broadcastMode source).map (.copy, ·)
  | .send n => (sendPacket d n).map (.unicast, ·)
  | .fragment n lengths => lengths.flatMap fun _ => (sendPacket d n).map (.unicast, ·)

end Route

/-- What `route` makes a daemon send and write. -/
def routed (s : Routing) (r : Router) (source : Name) (p : Packet) : List (Purpose × Output) :=
  transmissions s (route s r source p).1.daemon source (route s r source p).2

/-! ## Where the packet itself goes -/

/-- The connection that `send_packet` chooses for node `n`. -/
def hop (d : Daemon) (n : Name) : Option ConnId :=
  if n = d.myself ∨ (d.node n).reachable = false then none
  else
    let via := if (d.node n).nexthop = some d.myself then some n else (d.node n).nexthop
    (via.bind d.nodeConnection).filter fun c => (d.conn c).quicContext

lemma mem_sendPacket {d : Daemon} {n : Name} {c : ConnId} :
    .datagram c ∈ sendPacket d n ↔ hop d n = some c := by
  unfold sendPacket hop
  by_cases hself : n = d.myself
  · simp [hself]
  · by_cases hreach : (d.node n).reachable = false
    · simp [hself, hreach]
    · have hnot : ¬ (n = d.myself ∨ (d.node n).reachable = false) := by simp [hself, hreach]
      rw [if_neg hself, if_neg hreach, if_neg hnot]
      dsimp only
      cases (if (d.node n).nexthop = some d.myself then some n else (d.node n).nexthop) with
      | none => simp
      | some via =>
          simp only [Option.elim_some, Option.bind_some, sendSptpsPacket]
          cases d.nodeConnection via with
          | none => simp
          | some c' =>
              by_cases hq : (d.conn c').quicContext = true
              · simp [Option.filter, hq, eq_comm]
              · simp [Option.filter, hq]

/-- The node to which the packet, or a fragment of it, is sent. -/
def Action.target : Action → Option Name
  | .send n => some n
  | .fragment n (_ :: _) => some n
  | _ => none

lemma mem_transmissions {s : Routing} {d : Daemon} {source : Name} {action : Action} {c : ConnId} :
    (.unicast, .datagram c) ∈ transmissions s d source action ↔
      ∃ n, action.target = some n ∧ hop d n = some c := by
  cases action with
  | send n => simp [transmissions, Action.target, mem_sendPacket]
  | fragment n lengths =>
      cases lengths with
      | nil => simp [transmissions, Action.target]
      | cons len lengths => simp [transmissions, Action.target, mem_sendPacket]
  | icmp type code =>
      simp only [transmissions, Action.target]
      split <;> simp
  | icmp6 type code =>
      simp only [transmissions, Action.target]
      split <;> simp
  | _ => simp [transmissions, Action.target]

section Heads

variable (s : Routing) (r : Router) (source : Name) (p : Packet)

/-- The packet, which becomes `p'`, may go on to the subnet `i` of `owner`. -/
structure Admitted (i : Option SubnetId) (owner : Name) (p' : Packet) : Prop where
  subnet : ∃ j, i = some j ∧ (r.daemon.subnet j).owner = some owner
  elsewhere : owner ≠ source
  forwarding : s.forwardingMode = .internal ∨ s.forwardingMode = .off ∧ owner = r.daemon.myself
  alive : decrementFor s r.daemon source (some owner) p = .ok p'
  direct : s.directonly = true → relay r.daemon owner = some owner

/-- The packet may be cut into fragments, and its header says how long it is. -/
def Fragmentable (p : Packet) (ethlen : ℕ) : Prop :=
  p.byte (6 + ethlen) / 64 % 2 ≠ 1 ∧ p.byte ethlen % 16 = 5 ∧
    ethlen + p.word (ethlen + 2) = p.len

/-- In switch mode a packet that is not too long for the node, or is not of the kind that may be
cut or refused, is sent whole. -/
def FitsMac (d : Daemon) (via : Name) (p : Packet) : Prop :=
  p.len ≤ s.mtu via ∨ via = d.myself ∨
    ¬ (p.etherType.1 = ethPIp ∧ 576 + p.etherType.2 < p.len) ∧
      ¬ (p.etherType.1 = ethPIpv6 ∧ 1280 + p.etherType.2 < p.len)

/-- In router mode an IPv4 packet, or a fragment of it, is sent to this node. -/
inductive HeadsIpv4 : Name → Prop where
  | whole {owner : Name} {p' : Packet} :
      Admitted s r source p (r.lookupSubnetIpv4 (p.slice 30 4)).1 owner p' →
      (r.daemon.node owner).reachable = true → relay r.daemon owner ≠ some source →
      (∀ via, relay r.daemon owner = some via → tooLong s r.daemon via 590 p' = false) →
      HeadsIpv4 owner
  | fragment {owner via : Name} {p' : Packet} :
      Admitted s r source p (r.lookupSubnetIpv4 (p.slice 30 4)).1 owner p' →
      (r.daemon.node owner).reachable = true → relay r.daemon owner = some via → via ≠ source →
      tooLong s r.daemon via 590 p' = true → Fragmentable p' 14 → HeadsIpv4 via

/-- In router mode an IPv6 packet, which is not a neighbour solicitation, is sent to this node. -/
inductive HeadsIpv6 : Name → Prop where
  | whole {owner : Name} {p' : Packet} :
      ¬ (p.byte 20 = 58 ∧ 62 ≤ p.len ∧ p.byte 54 = 135) →
      Admitted s r source p (r.lookupSubnetIpv6 (p.slice 38 16)).1 owner p' →
      (r.daemon.node owner).reachable = true → relay r.daemon owner ≠ some source →
      (∀ via, relay r.daemon owner = some via → tooLong s r.daemon via 1294 p' = false) →
      HeadsIpv6 owner

/-- In switch mode a packet, or a fragment of it, is sent to this node. -/
inductive HeadsMac : Name → Prop where
  | whole {owner : Name} {p' : Packet} :
      Admitted s r source p (r.lookupSubnetMac none (p.slice 0 6)).1 owner p' →
      (∀ via, relay r.daemon owner = some via → FitsMac s r.daemon via p') → HeadsMac owner
  | fragment {owner via : Name} {p' : Packet} :
      Admitted s r source p (r.lookupSubnetMac none (p.slice 0 6)).1 owner p' →
      relay r.daemon owner = some via → s.mtu via < p'.len → via ≠ r.daemon.myself →
      p'.etherType.1 = ethPIp → 576 + p'.etherType.2 < p'.len →
      Fragmentable p' p'.etherType.2 → HeadsMac via

/-- The packet, or a fragment of it, is sent to node `n`. -/
def Heads (n : Name) : Prop :=
  s.routingMode = .router ∧ p.word 12 = ethPIp ∧ 34 ≤ p.len ∧ HeadsIpv4 s r source p n ∨
  s.routingMode = .router ∧ p.word 12 = ethPIpv6 ∧ 54 ≤ p.len ∧ HeadsIpv6 s r source p n ∨
  s.routingMode = .switch ∧ 14 ≤ p.len ∧ HeadsMac s r source p n

end Heads

variable {s : Routing} {r : Router} {source : Name} {p : Packet}

lemma length_decrementIpv4 (p : Packet) (ethlen : ℕ) : (p.decrementIpv4 ethlen).len = p.len := rfl

lemma length_doDecrementTtl {p p' : Packet} (h : doDecrementTtl p = .ok p') : p'.len = p.len := by
  unfold doDecrementTtl at h
  dsimp only at h
  split_ifs at h <;> cases h <;> rfl

lemma length_decrementFor {d : Daemon} {owner : Option Name} {p' : Packet}
    (h : decrementFor s d source owner p = .ok p') : p'.len = p.len := by
  unfold decrementFor at h
  split_ifs at h
  · exact length_doDecrementTtl h
  · cases h
    rfl

/-- What `do_decrement_ttl` does instead is not to send the packet. -/
lemma target_doDecrementTtl {p : Packet} {action : Action} (h : doDecrementTtl p = .error action) :
    action.target = none := by
  unfold doDecrementTtl at h
  dsimp only at h
  split_ifs at h <;> cases h <;> rfl

lemma target_decrementFor {d : Daemon} {owner : Option Name} {action : Action}
    (h : decrementFor s d source owner p = .error action) : action.target = none := by
  unfold decrementFor at h
  split_ifs at h
  exact target_doDecrementTtl h

lemma target_routeBroadcast (d : Daemon) : (routeBroadcast s d source p).target = none := by
  unfold routeBroadcast
  split
  · rename_i action h
    exact target_decrementFor h
  · rfl

lemma target_fragment {n m : Name} {ethlen : ℕ} (hlen : 20 < p.len - ethlen) :
    (fragmentIpv4Packet s n p ethlen).target = some m ↔
      m = n ∧ p.byte ethlen % 16 = 5 ∧ ethlen + p.word (ethlen + 2) = p.len := by
  unfold fragmentIpv4Packet
  dsimp only
  split_ifs with hhl htotal
  · simp [Action.target, hhl]
  · simp [Action.target, htotal]
  · have htotal : ethlen + p.word (ethlen + 2) = p.len := not_not.mp htotal
    obtain ⟨todo, htodo⟩ : ∃ todo, p.word (ethlen + 2) - 20 = todo + 1 :=
      ⟨p.word (ethlen + 2) - 21, by omega⟩
    simp [htodo, fragmentLengths, Action.target, not_not.mp hhl, htotal, eq_comm]

lemma tooLong_length {d : Daemon} {via : Name} {least : ℕ} (h : tooLong s d via least p = true) :
    least < p.len := by
  simp only [tooLong, decide_eq_true_eq] at h
  omega

lemma target_sendIpv4 {d : Daemon} {owner n : Name} :
    (sendIpv4 s d source owner p).target = some n ↔
      relay d owner ≠ some source ∧ (s.directonly = true → relay d owner = some owner) ∧
        ((n = owner ∧ ∀ via, relay d owner = some via → tooLong s d via 590 p = false) ∨
          ∃ via, n = via ∧ relay d owner = some via ∧ tooLong s d via 590 p = true ∧
            Fragmentable p 14) := by
  unfold sendIpv4
  by_cases hloop : relay d owner = some source
  · simp [hloop, Action.target]
  · rw [if_neg hloop]
    by_cases hdirect : s.directonly = true ∧ some owner ≠ relay d owner
    · have hne : relay d owner ≠ some owner := Ne.symm hdirect.2
      simp [hdirect, hne, Action.target]
    · rw [if_neg hdirect]
      have hdirect : s.directonly = true → relay d owner = some owner :=
        fun h => (not_not.mp fun hne => hdirect ⟨h, hne⟩).symm
      cases hrelay : relay d owner with
      | none =>
          rw [hrelay] at hdirect
          simp only [Action.target, Option.some.injEq]
          constructor
          · rintro rfl
            exact ⟨by simp, hdirect, .inl ⟨rfl, by simp⟩⟩
          · rintro ⟨-, -, ⟨rfl, -⟩ | ⟨via, -, hnone, -⟩⟩
            · rfl
            · cases hnone
      | some via =>
          rw [hrelay] at hdirect hloop
          dsimp only
          by_cases hlong : tooLong s d via 590 p = true
          · have hlen := tooLong_length hlong
            rw [if_pos hlong]
            by_cases hdf : p.byte 20 / 64 % 2 = 1
            · simp [hdf, hlong, Fragmentable, Action.target]
            · rw [if_neg hdf, target_fragment (by omega)]
              constructor
              · rintro ⟨rfl, hhl, htotal⟩
                exact ⟨hloop, hdirect, .inr ⟨n, rfl, rfl, hlong, hdf, hhl, htotal⟩⟩
              · rintro ⟨-, -, ⟨-, hfits⟩ | ⟨via', rfl, hvia, -, -, hhl, htotal⟩⟩
                · rw [hfits via rfl] at hlong
                  cases hlong
                · exact ⟨(Option.some.inj hvia).symm, hhl, htotal⟩
          · rw [if_neg hlong]
            simp only [Action.target, Option.some.injEq]
            constructor
            · rintro rfl
              refine ⟨by simpa using hloop, by simpa using hdirect, .inl ⟨rfl, ?_⟩⟩
              rintro via' rfl
              simpa using hlong
            · rintro ⟨-, -, ⟨rfl, -⟩ | ⟨via', -, rfl, hlong', -⟩⟩
              · rfl
              · exact absurd hlong' hlong

lemma target_sendIpv6 {d : Daemon} {owner n : Name} :
    (sendIpv6 s d source owner p).target = some n ↔
      relay d owner ≠ some source ∧ (s.directonly = true → relay d owner = some owner) ∧
        n = owner ∧ ∀ via, relay d owner = some via → tooLong s d via 1294 p = false := by
  unfold sendIpv6
  by_cases hloop : relay d owner = some source
  · simp [hloop, Action.target]
  · rw [if_neg hloop]
    by_cases hdirect : s.directonly = true ∧ some owner ≠ relay d owner
    · have hne : relay d owner ≠ some owner := Ne.symm hdirect.2
      simp [hdirect, hne, Action.target]
    · rw [if_neg hdirect]
      have hdirect : s.directonly = true → relay d owner = some owner :=
        fun h => (not_not.mp fun hne => hdirect ⟨h, hne⟩).symm
      cases hrelay : relay d owner with
      | none =>
          rw [hrelay] at hdirect
          simp only [Action.target, Option.some.injEq]
          constructor
          · rintro rfl
            exact ⟨by simp, hdirect, rfl, by simp⟩
          · rintro ⟨-, -, rfl, -⟩
            rfl
      | some via =>
          rw [hrelay] at hdirect hloop
          dsimp only
          by_cases hlong : tooLong s d via 1294 p = true
          · simp [hlong, Action.target]
          · rw [if_neg hlong]
            simp only [Action.target, Option.some.injEq]
            constructor
            · rintro rfl
              refine ⟨by simpa using hloop, by simpa using hdirect, rfl, ?_⟩
              rintro via' rfl
              simpa using hlong
            · rintro ⟨-, -, rfl, -⟩
              rfl

lemma target_sendMac {d : Daemon} {owner n : Name} :
    (sendMac s d owner p).target = some n ↔
      (s.directonly = true → relay d owner = some owner) ∧
        ((n = owner ∧ ∀ via, relay d owner = some via → FitsMac s d via p) ∨
          ∃ via, n = via ∧ relay d owner = some via ∧ s.mtu via < p.len ∧ via ≠ d.myself ∧
            p.etherType.1 = ethPIp ∧ 576 + p.etherType.2 < p.len ∧
            Fragmentable p p.etherType.2) := by
  unfold sendMac
  by_cases hdirect : s.directonly = true ∧ some owner ≠ relay d owner
  · have hne : relay d owner ≠ some owner := Ne.symm hdirect.2
    simp [hdirect, hne, Action.target]
  · rw [if_neg hdirect]
    have hdirect : s.directonly = true → relay d owner = some owner :=
      fun h => (not_not.mp fun hne => hdirect ⟨h, hne⟩).symm
    cases hrelay : relay d owner with
    | none =>
        rw [hrelay] at hdirect
        simp only [Action.target, Option.some.injEq]
        constructor
        · rintro rfl
          exact ⟨hdirect, .inl ⟨rfl, by simp⟩⟩
        · rintro ⟨-, ⟨rfl, -⟩ | ⟨via, -, hnone, -⟩⟩
          · rfl
          · cases hnone
    | some via =>
        rw [hrelay] at hdirect
        -- the packet is sent whole unless it does not fit
        have hwhole : FitsMac s d via p → ((some owner = some n) ↔
            (s.directonly = true → some via = some owner) ∧
              ((n = owner ∧ ∀ v, some via = some v → FitsMac s d v p) ∨
                ∃ v, n = v ∧ some via = some v ∧ s.mtu v < p.len ∧ v ≠ d.myself ∧
                  p.etherType.1 = ethPIp ∧ 576 + p.etherType.2 < p.len ∧
                  Fragmentable p p.etherType.2)) := by
          intro hfits
          constructor
          · rintro ⟨⟩
            refine ⟨hdirect, .inl ⟨rfl, ?_⟩⟩
            rintro v ⟨⟩
            exact hfits
          · rintro ⟨-, ⟨rfl, -⟩ | ⟨v, -, ⟨⟩, hmtu, hself, htype, hlen, -⟩⟩
            · rfl
            · rcases hfits with hfits | hfits | hfits
              · omega
              · exact absurd hfits hself
              · exact absurd ⟨htype, hlen⟩ hfits.1
        dsimp only
        by_cases hlong : s.mtu via < p.len ∧ via ≠ d.myself
        · rw [if_pos hlong]
          by_cases hip : p.etherType.1 = ethPIp ∧ 576 + p.etherType.2 < p.len
          · have hnot : ¬ FitsMac s d via p := by
              rintro (h | h | h)
              · omega
              · exact hlong.2 h
              · exact h.1 hip
            rw [if_pos hip]
            by_cases hdf : p.byte (6 + p.etherType.2) / 64 % 2 = 1
            · simp [hdf, hnot, Fragmentable, Action.target]
            · rw [if_neg hdf, target_fragment (by omega)]
              constructor
              · rintro ⟨rfl, hhl, htotal⟩
                exact ⟨hdirect, .inr ⟨n, rfl, rfl, hlong.1, hlong.2, hip.1, hip.2, hdf, hhl, htotal⟩⟩
              · rintro ⟨-, ⟨-, hfits⟩ | ⟨v, rfl, hv, -, -, -, -, -, hhl, htotal⟩⟩
                · exact absurd (hfits via rfl) hnot
                · exact ⟨(Option.some.inj hv).symm, hhl, htotal⟩
          · rw [if_neg hip]
            by_cases hip6 : p.etherType.1 = ethPIpv6 ∧ 1280 + p.etherType.2 < p.len
            · have hnot : ¬ FitsMac s d via p := by
                rintro (h | h | h)
                · omega
                · exact hlong.2 h
                · exact h.2 hip6
              have hne : ¬ (p.etherType.1 = ethPIp) := by
                rw [hip6.1]
                decide
              rw [if_pos hip6]
              simp [hnot, hne, Action.target]
            · rw [if_neg hip6]
              exact hwhole (.inr (.inr ⟨hip, hip6⟩))
        · rw [if_neg hlong]
          refine hwhole ?_
          by_cases hself : via = d.myself
          · exact .inr (.inl hself)
          · exact .inl (not_lt.mp fun h => hlong ⟨h, hself⟩)

lemma target_towards {i : SubnetId} {refused : Name → Bool} {refusal off : Action}
    {onward : Name → Packet → Action} {n : Name} (hs : source ≠ r.daemon.myself)
    (hk : s.forwardingMode ≠ .kernel) (hrefusal : refusal.target = none) (hoff : off.target = none) :
    (towards s r.daemon source p i refused refusal off onward).target = some n ↔
      ∃ owner p', (r.daemon.subnet i).owner = some owner ∧ owner ≠ source ∧
        (s.forwardingMode = .internal ∨ s.forwardingMode = .off ∧ owner = r.daemon.myself) ∧
        decrementFor s r.daemon source (some owner) p = .ok p' ∧ refused owner = false ∧
        (onward owner p').target = some n := by
  unfold towards
  cases howner : (r.daemon.subnet i).owner with
  | none => simp [target_routeBroadcast]
  | some owner =>
      dsimp only
      by_cases hsource : owner = source
      · subst hsource
        simp [Action.target]
      · rw [if_neg hsource]
        by_cases hrefused : refused owner = true
        · simp [hrefused, hrefusal]
        · rw [if_neg hrefused]
          by_cases hforward : s.forwardingMode = .off ∧ source ≠ r.daemon.myself ∧
              owner ≠ r.daemon.myself
          · rw [if_pos hforward, hoff]
            simp [hforward.1, hforward.2.2]
          · rw [if_neg hforward]
            have hmode : s.forwardingMode = .internal ∨
                s.forwardingMode = .off ∧ owner = r.daemon.myself := by
              cases hmode : s.forwardingMode with
              | internal => exact .inl rfl
              | kernel => exact absurd hmode hk
              | off => exact .inr ⟨rfl, not_not.mp fun h => hforward ⟨hmode, hs, h⟩⟩
            cases hdecrement : decrementFor s r.daemon source (some owner) p with
            | error action =>
                rw [target_decrementFor hdecrement]
                simp [hdecrement]
            | ok p' =>
                constructor
                · intro h
                  exact ⟨owner, p', rfl, hsource, hmode, hdecrement, by simpa using hrefused, h⟩
                · rintro ⟨_, _, ⟨⟩, -, -, hok, -, h⟩
                  rw [hdecrement] at hok
                  cases hok
                  exact h

section Targets

variable (hs : source ≠ r.daemon.myself) (hk : s.forwardingMode ≠ .kernel) {n : Name}

include hs hk

lemma target_routeIpv4 :
    (routeIpv4 s r source p).2.target = some n ↔ 34 ≤ p.len ∧ HeadsIpv4 s r source p n := by
  unfold routeIpv4
  by_cases hlen : p.len < 34
  · have hnot : ¬ 34 ≤ p.len := by omega
    simp [hlen, hnot, Action.target]
  · have hle : 34 ≤ p.len := by omega
    rw [if_neg hlen]
    have hdaemon : (r.lookupSubnetIpv4 (p.slice 30 4)).2.daemon = r.daemon := rfl
    rcases hlookup : r.lookupSubnetIpv4 (p.slice 30 4) with ⟨_ | i, r'⟩
    · refine ⟨by rintro ⟨⟩, ?_⟩
      rintro ⟨-, ⟨hadm, -⟩ | ⟨hadm, -⟩⟩ <;>
        · obtain ⟨j, hj, -⟩ := hadm.subnet
          rw [hlookup] at hj
          cases hj
    · rw [hlookup] at hdaemon
      dsimp only at hdaemon ⊢
      rw [hdaemon, target_towards hs hk rfl rfl]
      constructor
      · rintro ⟨owner, p', howner, hsource, hmode, hok, hreach, htarget⟩
        obtain ⟨hloop, hdirect, hsend⟩ := target_sendIpv4.mp htarget
        have hadm : Admitted s r source p (r.lookupSubnetIpv4 (p.slice 30 4)).1 owner p' :=
          ⟨⟨i, by rw [hlookup], howner⟩, hsource, hmode, hok, hdirect⟩
        have hreach : (r.daemon.node owner).reachable = true := by simpa using hreach
        refine ⟨hle, ?_⟩
        rcases hsend with ⟨rfl, hfits⟩ | ⟨via, rfl, hrelay, hlong, hfragment⟩
        · exact .whole hadm hreach hloop hfits
        · refine .fragment hadm hreach hrelay ?_ hlong hfragment
          rintro rfl
          exact hloop hrelay
      · rintro ⟨-, hheads⟩
        cases hheads with
        | @whole owner p' hadm hreach hloop hfits =>
            obtain ⟨⟨j, hj, howner⟩, hsource, hmode, hok, hdirect⟩ := hadm
            rw [hlookup] at hj
            cases hj
            exact ⟨n, p', howner, hsource, hmode, hok, by simpa using hreach,
              target_sendIpv4.mpr ⟨hloop, hdirect, .inl ⟨rfl, hfits⟩⟩⟩
        | @fragment owner via p' hadm hreach hrelay hloop hlong hfragment =>
            obtain ⟨⟨j, hj, howner⟩, hsource, hmode, hok, hdirect⟩ := hadm
            rw [hlookup] at hj
            cases hj
            refine ⟨owner, p', howner, hsource, hmode, hok, by simpa using hreach,
              target_sendIpv4.mpr ⟨?_, hdirect, .inr ⟨n, rfl, hrelay, hlong, hfragment⟩⟩⟩
            rw [hrelay]
            simpa using hloop

lemma target_routeIpv6 :
    (routeIpv6 s r source p).2.target = some n ↔ 54 ≤ p.len ∧ HeadsIpv6 s r source p n := by
  unfold routeIpv6
  by_cases hlen : p.len < 54
  · have hnot : ¬ 54 ≤ p.len := by omega
    simp [hlen, hnot, Action.target]
  · have hle : 54 ≤ p.len := by omega
    rw [if_neg hlen]
    by_cases hsol : p.byte 20 = 58 ∧ 62 ≤ p.len ∧ p.byte 54 = 135
    · have hdrop : (routeNeighborsol s r source p).2 = .drop := by simp [routeNeighborsol, hs]
      rw [if_pos hsol, hdrop]
      refine ⟨by rintro ⟨⟩, ?_⟩
      rintro ⟨-, ⟨hnot, -⟩⟩
      exact absurd hsol hnot
    · rw [if_neg hsol]
      have hdaemon : (r.lookupSubnetIpv6 (p.slice 38 16)).2.daemon = r.daemon := rfl
      rcases hlookup : r.lookupSubnetIpv6 (p.slice 38 16) with ⟨_ | i, r'⟩
      · refine ⟨by rintro ⟨⟩, ?_⟩
        rintro ⟨-, ⟨-, hadm, -⟩⟩
        obtain ⟨j, hj, -⟩ := hadm.subnet
        rw [hlookup] at hj
        cases hj
      · rw [hlookup] at hdaemon
        dsimp only at hdaemon ⊢
        rw [hdaemon, target_towards hs hk rfl rfl]
        constructor
        · rintro ⟨owner, p', howner, hsource, hmode, hok, hreach, htarget⟩
          obtain ⟨hloop, hdirect, rfl, hfits⟩ := target_sendIpv6.mp htarget
          exact ⟨hle, .whole hsol ⟨⟨i, by rw [hlookup], howner⟩, hsource, hmode, hok, hdirect⟩
            (by simpa using hreach) hloop hfits⟩
        · rintro ⟨-, ⟨-, hadm, hreach, hloop, hfits⟩⟩
          obtain ⟨⟨j, hj, howner⟩, hsource, hmode, hok, hdirect⟩ := hadm
          rw [hlookup] at hj
          cases hj
          exact ⟨n, _, howner, hsource, hmode, hok, by simpa using hreach,
            target_sendIpv6.mpr ⟨hloop, hdirect, rfl, hfits⟩⟩

lemma target_routeMac :
    (routeMac s r source p).2.target = some n ↔ HeadsMac s r source p n := by
  unfold routeMac
  rw [if_neg hs]
  have hdaemon : (r.lookupSubnetMac none (p.slice 0 6)).2.daemon = r.daemon := rfl
  dsimp only
  rcases hlookup : r.lookupSubnetMac none (p.slice 0 6) with ⟨_ | i, r'⟩
  · dsimp only
    rw [target_routeBroadcast]
    refine ⟨by rintro ⟨⟩, ?_⟩
    rintro (⟨hadm, -⟩ | ⟨hadm, -⟩) <;>
      · obtain ⟨j, hj, -⟩ := hadm.subnet
        rw [hlookup] at hj
        cases hj
  · rw [hlookup] at hdaemon
    dsimp only at hdaemon ⊢
    rw [hdaemon, target_towards hs hk rfl rfl]
    constructor
    · rintro ⟨owner, p', howner, hsource, hmode, hok, -, htarget⟩
      obtain ⟨hdirect, hsend⟩ := target_sendMac.mp htarget
      have hadm : Admitted s r source p (r.lookupSubnetMac none (p.slice 0 6)).1 owner p' :=
        ⟨⟨i, by rw [hlookup], howner⟩, hsource, hmode, hok, hdirect⟩
      rcases hsend with ⟨rfl, hfits⟩ | ⟨via, rfl, hrelay, hmtu, hself, htype, hlen, hfragment⟩
      · exact .whole hadm hfits
      · exact .fragment hadm hrelay hmtu hself htype hlen hfragment
    · intro hheads
      cases hheads with
      | @whole owner p' hadm hfits =>
          obtain ⟨⟨j, hj, howner⟩, hsource, hmode, hok, hdirect⟩ := hadm
          rw [hlookup] at hj
          cases hj
          exact ⟨n, p', howner, hsource, hmode, hok, rfl,
            target_sendMac.mpr ⟨hdirect, .inl ⟨rfl, hfits⟩⟩⟩
      | @fragment owner via p' hadm hrelay hmtu hself htype hlen hfragment =>
          obtain ⟨⟨j, hj, howner⟩, hsource, hmode, hok, hdirect⟩ := hadm
          rw [hlookup] at hj
          cases hj
          exact ⟨owner, p', howner, hsource, hmode, hok, rfl, target_sendMac.mpr
            ⟨hdirect, .inr ⟨n, rfl, hrelay, hmtu, hself, htype, hlen, hfragment⟩⟩⟩

lemma target_route : (route s r source p).2.target = some n ↔ Heads s r source p n := by
  unfold route
  rw [if_neg fun h => hk h.1]
  by_cases hlen : p.len < 14
  · have h34 : ¬ 34 ≤ p.len := by omega
    have h54 : ¬ 54 ≤ p.len := by omega
    have h14 : ¬ 14 ≤ p.len := by omega
    simp [hlen, Heads, h34, h54, h14, Action.target]
  · have h14 : 14 ≤ p.len := by omega
    rw [if_neg hlen]
    cases hmode : s.routingMode with
    | hub => simp [Heads, hmode, target_routeBroadcast]
    | switch => simp [Heads, hmode, h14, target_routeMac hs hk]
    | router =>
        dsimp only
        split_ifs with harp hip hip6
        · have hdrop : (routeArp s r source p).2 = .drop := by simp [routeArp, hs]
          simp [Heads, hmode, harp, hdrop, ethPArp, ethPIp, ethPIpv6, Action.target]
        · simp [Heads, hmode, hip, target_routeIpv4 hs hk, ethPIp, ethPIpv6]
        · simp [Heads, hmode, hip6, target_routeIpv6 hs hk, ethPIp, ethPIpv6]
        · simp [Heads, hmode, hip, hip6, Action.target]

end Targets

/-- The daemon is not changed by a packet of somebody else. -/
lemma route_daemon (hs : source ≠ r.daemon.myself) : (route s r source p).1.daemon = r.daemon := by
  have hmac : (routeMac s r source p).1.daemon = r.daemon := by
    unfold routeMac
    rw [if_neg hs]
    dsimp only
    split <;> rename_i hlookup <;>
      exact (congrArg (fun x => x.2.daemon) hlookup).symm
  have hip : (routeIpv4 s r source p).1.daemon = r.daemon := by
    unfold routeIpv4
    split_ifs
    · rfl
    · split <;> rename_i hlookup <;>
        exact (congrArg (fun x => x.2.daemon) hlookup).symm
  have hip6 : (routeIpv6 s r source p).1.daemon = r.daemon := by
    unfold routeIpv6
    split_ifs
    · rfl
    · simp [routeNeighborsol, hs]
    · split <;> rename_i hlookup <;>
        exact (congrArg (fun x => x.2.daemon) hlookup).symm
  have harp : (routeArp s r source p).1.daemon = r.daemon := by simp [routeArp, hs]
  unfold route
  split
  · rfl
  · split
    · rfl
    · cases s.routingMode with
      | hub => rfl
      | switch => exact hmac
      | router =>
          dsimp only
          split_ifs
          · exact harp
          · exact hip
          · exact hip6
          · rfl

/-- In kernel mode no packet of somebody else is sent on. -/
lemma Heads.not_kernel {n : Name} (h : Heads s r source p n) : s.forwardingMode ≠ .kernel := by
  have hadm : ∀ {i owner p'}, Admitted s r source p i owner p' → s.forwardingMode ≠ .kernel := by
    intro i owner p' hadm hk
    rcases hadm.forwarding with hmode | hmode
    · rw [hk] at hmode
      cases hmode
    · rw [hk] at hmode
      cases hmode.1
  rcases h with ⟨-, -, -, h⟩ | ⟨-, -, -, h⟩ | ⟨-, -, h⟩
  · cases h with
    | whole h => exact hadm h
    | fragment h => exact hadm h
  · cases h with
    | whole _ h => exact hadm h
  · cases h with
    | whole h => exact hadm h
    | fragment h => exact hadm h

/-- **When a packet of a peer is not sent on connection `c`**, whole or in fragments: exactly if no
node that it heads for has a next hop behind `c`.  If `c` is the connection on which it came, that
is the condition for it not to be sent back. -/
theorem unicast_returned_iff (s : Routing) (r : Router) (source : Name) (p : Packet) (c : ConnId)
    (hs : source ≠ r.daemon.myself) :
    (.unicast, .datagram c) ∉ routed s r source p ↔
      ∀ n, Heads s r source p n → hop r.daemon n ≠ some c := by
  unfold routed
  rw [mem_transmissions, route_daemon hs]
  by_cases hk : s.forwardingMode = .kernel
  · have hroute : (route s r source p).2 = .send r.daemon.myself := by simp [route, hk, hs]
    rw [hroute]
    refine ⟨fun _ n hheads => absurd hk hheads.not_kernel, fun _ => ?_⟩
    simp [Action.target, hop]
  · constructor
    · intro h n hheads hhop
      exact h ⟨n, (target_route hs hk).mpr hheads, hhop⟩
    · rintro h ⟨n, htarget, hhop⟩
      exact h n ((target_route hs hk).mp htarget) hhop

/-! ## Broadcasts -/

/-- A packet that others send is broadcast. -/
structure Spreads (s : Routing) (r : Router) (source : Name) (p : Packet) : Prop where
  length : 14 ≤ p.len
  /-- nobody owns the destination, as far as the mode knows of destinations -/
  unowned : s.routingMode = .hub ∨
    s.routingMode = .switch ∧
      (∀ i, (r.lookupSubnetMac none (p.slice 0 6)).1 = some i → (r.daemon.subnet i).owner = none) ∨
    s.routingMode = .router ∧ p.word 12 = ethPIp ∧ 34 ≤ p.len ∧
      (∃ i, (r.lookupSubnetIpv4 (p.slice 30 4)).1 = some i ∧ (r.daemon.subnet i).owner = none) ∨
    s.routingMode = .router ∧ p.word 12 = ethPIpv6 ∧ 54 ≤ p.len ∧
      ¬ (p.byte 20 = 58 ∧ 62 ≤ p.len ∧ p.byte 54 = 135) ∧
      ∃ i, (r.lookupSubnetIpv6 (p.slice 38 16)).1 = some i ∧ (r.daemon.subnet i).owner = none
  alive : ∃ p', decrementFor s r.daemon source none p = .ok p'

lemma doDecrementTtl_ne {p : Packet} {action : Action} (h : doDecrementTtl p = .error action) :
    action ≠ .broadcast := by
  unfold doDecrementTtl at h
  dsimp only at h
  split_ifs at h <;> cases h <;> exact nofun

lemma decrementFor_ne {d : Daemon} {owner : Option Name} {action : Action}
    (h : decrementFor s d source owner p = .error action) : action ≠ .broadcast := by
  unfold decrementFor at h
  split_ifs at h
  exact doDecrementTtl_ne h

lemma routeBroadcast_iff {d : Daemon} : routeBroadcast s d source p = .broadcast ↔
    ∃ p', decrementFor s d source none p = .ok p' := by
  unfold routeBroadcast
  cases h : decrementFor s d source none p with
  | error action => simpa using decrementFor_ne h
  | ok p' => simp

lemma fragment_ne {n : Name} {ethlen : ℕ} : fragmentIpv4Packet s n p ethlen ≠ .broadcast := by
  unfold fragmentIpv4Packet
  dsimp only
  split_ifs <;> exact nofun

lemma sendIpv4_ne {d : Daemon} {owner : Name} : sendIpv4 s d source owner p ≠ .broadcast := by
  unfold sendIpv4
  split
  · exact nofun
  · split
    · exact nofun
    · split
      · exact nofun
      · split
        · split
          · exact nofun
          · exact fragment_ne
        · exact nofun

lemma sendIpv6_ne {d : Daemon} {owner : Name} : sendIpv6 s d source owner p ≠ .broadcast := by
  unfold sendIpv6
  split_ifs
  · exact nofun
  · exact nofun
  · split
    · exact nofun
    · split_ifs <;> exact nofun

lemma sendMac_ne {d : Daemon} {owner : Name} : sendMac s d owner p ≠ .broadcast := by
  unfold sendMac
  split_ifs
  · exact nofun
  · split
    · exact nofun
    · dsimp only
      split_ifs
      · exact nofun
      · exact fragment_ne
      · exact nofun
      · exact nofun
      · exact nofun

/-- A packet for a subnet is broadcast only if nobody owns the subnet. -/
lemma towards_iff {d : Daemon} {i : SubnetId} {refused : Name → Bool} {refusal off : Action}
    {onward : Name → Packet → Action} (hrefusal : refusal ≠ .broadcast) (hoff : off ≠ .broadcast)
    (honward : ∀ n p, onward n p ≠ .broadcast) :
    towards s d source p i refused refusal off onward = .broadcast ↔
      (d.subnet i).owner = none ∧ ∃ p', decrementFor s d source none p = .ok p' := by
  unfold towards
  cases (d.subnet i).owner with
  | none => simp [routeBroadcast_iff]
  | some owner =>
      simp only [reduceCtorEq, false_and, iff_false]
      split_ifs
      · exact nofun
      · exact hrefusal
      · exact hoff
      · split
        · rename_i action h
          exact decrementFor_ne h
        · exact honward _ _

section Spreads

variable (hs : source ≠ r.daemon.myself)

lemma routeIpv4_broadcast_iff : (routeIpv4 s r source p).2 = .broadcast ↔ 34 ≤ p.len ∧
    (∃ i, (r.lookupSubnetIpv4 (p.slice 30 4)).1 = some i ∧ (r.daemon.subnet i).owner = none) ∧
    ∃ p', decrementFor s r.daemon source none p = .ok p' := by
  unfold routeIpv4
  by_cases hlen : p.len < 34
  · have hnot : ¬ 34 ≤ p.len := by omega
    simp [hlen, hnot]
  · have hle : 34 ≤ p.len := by omega
    rw [if_neg hlen]
    have hdaemon : (r.lookupSubnetIpv4 (p.slice 30 4)).2.daemon = r.daemon := rfl
    rcases hlookup : r.lookupSubnetIpv4 (p.slice 30 4) with ⟨_ | i, r'⟩
    · simp
    · rw [hlookup] at hdaemon
      dsimp only at hdaemon ⊢
      rw [hdaemon]
      refine (towards_iff (by exact nofun) (by exact nofun) fun _ _ => sendIpv4_ne).trans ?_
      simp [hle]

include hs

lemma routeIpv6_broadcast_iff : (routeIpv6 s r source p).2 = .broadcast ↔ 54 ≤ p.len ∧
    ¬ (p.byte 20 = 58 ∧ 62 ≤ p.len ∧ p.byte 54 = 135) ∧
    (∃ i, (r.lookupSubnetIpv6 (p.slice 38 16)).1 = some i ∧ (r.daemon.subnet i).owner = none) ∧
    ∃ p', decrementFor s r.daemon source none p = .ok p' := by
  unfold routeIpv6
  by_cases hlen : p.len < 54
  · have hnot : ¬ 54 ≤ p.len := by omega
    simp [hlen, hnot]
  · have hle : 54 ≤ p.len := by omega
    rw [if_neg hlen]
    by_cases hsol : p.byte 20 = 58 ∧ 62 ≤ p.len ∧ p.byte 54 = 135
    · have hdrop : (routeNeighborsol s r source p).2 = .drop := by simp [routeNeighborsol, hs]
      rw [if_pos hsol, hdrop]
      simp [hsol]
    · rw [if_neg hsol]
      have hdaemon : (r.lookupSubnetIpv6 (p.slice 38 16)).2.daemon = r.daemon := rfl
      rcases hlookup : r.lookupSubnetIpv6 (p.slice 38 16) with ⟨_ | i, r'⟩
      · simp
      · rw [hlookup] at hdaemon
        dsimp only at hdaemon ⊢
        rw [hdaemon]
        refine (towards_iff (by exact nofun) (by exact nofun) fun _ _ => sendIpv6_ne).trans ?_
        simp [hle, hsol]

lemma routeMac_broadcast_iff : (routeMac s r source p).2 = .broadcast ↔
    (∀ i, (r.lookupSubnetMac none (p.slice 0 6)).1 = some i → (r.daemon.subnet i).owner = none) ∧
    ∃ p', decrementFor s r.daemon source none p = .ok p' := by
  unfold routeMac
  rw [if_neg hs]
  have hdaemon : (r.lookupSubnetMac none (p.slice 0 6)).2.daemon = r.daemon := rfl
  dsimp only
  rcases hlookup : r.lookupSubnetMac none (p.slice 0 6) with ⟨_ | i, r'⟩
  · rw [hlookup] at hdaemon
    dsimp only at hdaemon ⊢
    rw [hdaemon]
    simp [routeBroadcast_iff]
  · rw [hlookup] at hdaemon
    dsimp only at hdaemon ⊢
    rw [hdaemon]
    refine (towards_iff (by exact nofun) (by exact nofun) fun _ _ => sendMac_ne).trans ?_
    simp

lemma route_broadcast_iff (hk : s.forwardingMode ≠ .kernel) :
    (route s r source p).2 = .broadcast ↔ Spreads s r source p := by
  have hspreads : Spreads s r source p ↔ 14 ≤ p.len ∧ _ ∧ _ :=
    ⟨fun h => ⟨h.length, h.unowned, h.alive⟩, fun h => ⟨h.1, h.2.1, h.2.2⟩⟩
  unfold route
  rw [if_neg fun h => hk h.1, hspreads]
  by_cases hlen : p.len < 14
  · have h14 : ¬ 14 ≤ p.len := by omega
    simp [hlen, h14]
  · have h14 : 14 ≤ p.len := by omega
    rw [if_neg hlen]
    cases hmode : s.routingMode with
    | hub => simp [h14, routeBroadcast_iff]
    | switch => simp [h14, routeMac_broadcast_iff hs]
    | router =>
        dsimp only
        split_ifs with harp hip hip6
        · have hdrop : (routeArp s r source p).2 = .drop := by simp [routeArp, hs]
          simp [harp, hdrop, ethPArp, ethPIp, ethPIpv6]
        · rw [routeIpv4_broadcast_iff]
          simp [h14, hip, ethPIp, ethPIpv6, and_assoc]
        · rw [routeIpv6_broadcast_iff hs]
          simp [h14, hip6, ethPIp, ethPIpv6, and_assoc]
        · simp [hip, hip6]

end Spreads

/-- What is sent to a node that has a hop goes to another node. -/
lemma sendPacket_device {d : Daemon} {n : Name} :
    (∀ o ∈ sendPacket d n, o = .device) ↔ hop d n = none := by
  constructor
  · intro h
    cases hhop : hop d n with
    | none => rfl
    | some c => cases h _ (mem_sendPacket.mpr hhop)
  · intro hnone o ho
    cases o with
    | device => rfl
    | datagram c =>
        rw [mem_sendPacket.mp ho] at hnone
        cases hnone

/-- A packet of somebody else is broadcast to nobody but us. -/
lemma broadcastPacket_device {d : Daemon} {mode : BroadcastMode} (hs : source ≠ d.myself) :
    (∀ o ∈ broadcastPacket d mode source, o = .device) ↔
      ¬ (d.config.tunnelserver = false ∧ mode = .mst ∧
        ∃ c ∈ treeConnections d source, ∃ n, (d.conn c).node = some n ∧ hop d n ≠ none) := by
  have hself : ∀ o ∈ sendPacket d d.myself, o = .device := by simp [sendPacket]
  unfold broadcastPacket
  rw [if_pos hs]
  by_cases htunnel : d.config.tunnelserver = true
  · simp [htunnel, sendPacket]
  · have htunnel : d.config.tunnelserver = false := by simpa using htunnel
    cases mode with
    | none => simp [sendPacket]
    | direct => simp [htunnel, hs, sendPacket]
    | mst =>
        simp only [htunnel, Bool.false_eq_true, reduceCtorEq, or_self, if_false, true_and]
        constructor
        · rintro h ⟨c, hc, n, hn, hhop⟩
          refine hhop (sendPacket_device.mp fun o ho => h o ?_)
          refine List.mem_append_right _ (List.mem_flatMap.mpr ⟨c, hc, ?_⟩)
          rw [hn]
          exact ho
        · intro h o ho
          rcases List.mem_append.mp ho with ho | ho
          · exact hself o ho
          · obtain ⟨c, hc, ho⟩ := List.mem_flatMap.mp ho
            cases hn : (d.conn c).node with
            | none => simp [hn] at ho
            | some n =>
                rw [hn] at ho
                refine sendPacket_device.mpr ?_ o ho
                by_contra hhop
                exact h ⟨c, hc, n, hn, hhop⟩

/-- With forwarding off the packet itself goes to nobody but us. -/
lemma Heads.eq_myself {n : Name} (hh : Home r.daemon) (hoff : s.forwardingMode = .off)
    (h : Heads s r source p n) : n = r.daemon.myself := by
  have howner : ∀ {i owner p'}, Admitted s r source p i owner p' → owner = r.daemon.myself := by
    intro i owner p' hadm
    rcases hadm.forwarding with hmode | hmode
    · rw [hoff] at hmode
      cases hmode
    · exact hmode.2
  have hvia : ∀ {i owner p' via}, Admitted s r source p i owner p' →
      relay r.daemon owner = some via → via = r.daemon.myself := by
    intro i owner p' via hadm hrelay
    rw [howner hadm, relay, if_pos hh.via, hh.nexthop] at hrelay
    exact (Option.some.inj hrelay).symm
  rcases h with ⟨-, -, -, h⟩ | ⟨-, -, -, h⟩ | ⟨-, -, h⟩
  · cases h with
    | whole h => exact howner h
    | fragment h _ hrelay => exact hvia h hrelay
  · cases h with
    | whole _ h => exact howner h
  · cases h with
    | whole h => exact howner h
    | fragment h hrelay => exact hvia h hrelay

/-- What an action that does not spread the packet sends to others are replies, if the packet itself
goes to nobody but us. -/
lemma transmissions_local {d : Daemon} {action : Action} (hb : action ≠ .broadcast)
    (ht : ∀ n, action.target = some n → n = d.myself) :
    ∀ t ∈ transmissions s d source action, t.1 = .reply ∨ t.2 = .device := by
  have hself : ∀ n, n = d.myself → ∀ t ∈ (sendPacket d n).map (Purpose.unicast, ·),
      t.1 = .reply ∨ t.2 = .device := by
    rintro n rfl
    simp [sendPacket]
  have hreply : ∀ t ∈ (sendPacket d source).map (Purpose.reply, ·),
      t.1 = .reply ∨ t.2 = .device := by
    intro t ht
    obtain ⟨o, -, rfl⟩ := List.mem_map.mp ht
    exact .inl rfl
  cases action with
  | drop => simp [transmissions]
  | answer => exact hreply
  | broadcast => exact absurd rfl hb
  | send n => exact hself n (ht n rfl)
  | icmp type code =>
      simp only [transmissions]
      split
      · simp
      · exact hreply
  | icmp6 type code =>
      simp only [transmissions]
      split
      · simp
      · exact hreply
  | fragment n lengths =>
      intro t hmem
      obtain ⟨len, hlen, hsent⟩ := List.mem_flatMap.mp hmem
      cases lengths with
      | nil => simp at hlen
      | cons l lengths => exact hself n (ht n rfl) t hsent

/-- **When forwarding is off, a packet of a peer goes to no other node** exactly if it is not
broadcast, or there is nobody to whom a broadcast is sent: a tunnel server forwards no broadcasts,
the modes other than the spanning tree have none for packets of others, and the tree may have no
other connection.  The daemon may have done anything before. -/
theorem forwarding_off_iff (config : Config) (rand : ℕ → ℕ) (own broadcasts : List Subnet)
    (hosts : List (Name × Option Subnet)) (happenings : List Happening)
    (hdel : ∀ n, .event (.nodeDel n) ∉ happenings) (s : Routing) (r : Router)
    (hr : r.daemon = happenings.foldl Daemon.happen (.setup config rand own broadcasts hosts))
    (source : Name) (p : Packet) (hs : source ≠ r.daemon.myself)
    (hoff : s.forwardingMode = .off) :
    (∀ t ∈ routed s r source p, t.1 = .reply ∨ t.2 = .device) ↔
      ¬ (Spreads s r source p ∧ r.daemon.config.tunnelserver = false ∧ s.broadcastMode = .mst ∧
        ∃ c ∈ treeConnections r.daemon source, ∃ n,
          (r.daemon.conn c).node = some n ∧ hop r.daemon n ≠ none) := by
  have hhome : Home r.daemon := hr ▸ atHome_always config rand own broadcasts hosts happenings hdel
  have hk : s.forwardingMode ≠ .kernel := by simp [hoff]
  unfold routed
  rw [route_daemon hs, ← route_broadcast_iff hs hk]
  by_cases hb : (route s r source p).2 = .broadcast
  · rw [hb]
    simp only [true_and]
    rw [← broadcastPacket_device hs]
    simp [transmissions]
  · have hlocal : ∀ t ∈ transmissions s r.daemon source (route s r source p).2,
        t.1 = .reply ∨ t.2 = .device :=
      transmissions_local hb fun n hn => ((target_route hs hk).mp hn).eq_myself hhome hoff
    exact ⟨fun _ h => hb h.1, fun _ => hlocal⟩

/-! ## Three nodes -/

/-- Peers of `a` that are connected to it. -/
def connects (c : ConnId) (id ack edge : Text) : List Happening :=
  [.event (.connectionAdd c { name := ascii "<unknown>" }), .event (.receive c id),
    .event (.receive c ack), .event (.receive c edge)]

/-- `b` is connected to `a`, and says that `c` is behind it and owns `10.0.0.0/8`. -/
def chain : List Happening :=
  connects 0 (ascii "0 b 17.7") (ascii "4 655 10 c") (ascii "12 1 b a unspec unspec c 10") ++
    [.event (.receive 0 (ascii "12 2 b c unspec unspec c 10")),
      .event (.receive 0 (ascii "12 3 c b unspec unspec c 10")),
      .event (.receive 0 (ascii "10 4 c 10.0.0.0/8"))]

/-- `b` and `c` are both connected to `a`, and `c` says that it owns `10.0.0.0/8`. -/
def star : List Happening :=
  connects 0 (ascii "0 b 17.7") (ascii "4 655 10 c") (ascii "12 1 b a unspec unspec c 10") ++
    connects 1 (ascii "0 c 17.7") (ascii "4 655 10 c") (ascii "12 2 c a unspec unspec c 10") ++
    [.event (.receive 1 (ascii "10 3 c 10.0.0.0/8"))]

/-- The router of `a` after that. -/
def routerWith (happenings : List Happening) : Router :=
  { Router.init (.plain (ascii "a")) id with
    daemon := happenings.foldl Daemon.happen (.setup (.plain (ascii "a")) id [] [] []) }

lemma routerWith_daemon (happenings : List Happening) : (routerWith happenings).daemon =
    happenings.foldl Daemon.happen (.setup (.plain (ascii "a")) id [] [] []) :=
  rfl

/-- The settings that a daemon has without configuration, with this forwarding mode. -/
def Routing.plain (routingMode : RoutingMode) (forwardingMode : ForwardingMode) : Routing where
  routingMode := routingMode
  forwardingMode := forwardingMode
  broadcastMode := .mst
  decrementTtl := false
  directonly := false
  limited := false
  mtu := fun _ => 1518
  macExpires := 600

/-- An IPv4 packet for `10.0.0.1`, of 34 bytes. -/
def packetForTen : Packet where
  data := fun i => [(12, 8), (14, 0x45), (17, 20), (22, 64), (30, 10), (33, 1)].lookup i |>.getD 0
  len := 34

/-- A packet of `b` for a node that is connected to us goes there, and not back. -/
theorem unicast_returned_star :
    (.unicast, .datagram 1) ∈
        routed (.plain .router .internal) (routerWith star) (ascii "b") packetForTen ∧
      ∀ n, Heads (.plain .router .internal) (routerWith star) (ascii "b") packetForTen n →
        hop (routerWith star).daemon n ≠ some 0 :=
  ⟨by decide +kernel,
    (unicast_returned_iff _ (routerWith star) (ascii "b") packetForTen 0 (by decide +kernel)).mp
      (by decide +kernel)⟩

/-- A packet of `b` for a node behind `b` is sent back to `b`: the node could be reached directly, so
`via` is the node itself, but its next hop is `b`. -/
theorem unicast_returned_chain : ¬ ∀ (happenings : List Happening) (s : Routing) (source : Name)
    (p : Packet) (c : ConnId), source ≠ (routerWith happenings).daemon.myself →
    (routerWith happenings).daemon.nodeConnection source = some c →
    (.unicast, .datagram c) ∉ routed s (routerWith happenings) source p := by
  intro h
  exact h chain (.plain .router .internal) (ascii "b") packetForTen 0 (by decide +kernel)
    (by decide +kernel) (by decide +kernel)

/-- A router refuses to forward the packet of `b` to `c`. -/
theorem forwarding_off_router :
    routed (.plain .router .off) (routerWith star) (ascii "b") packetForTen =
        [(.reply, .datagram 0)] ∧
      ¬ (Spreads (.plain .router .off) (routerWith star) (ascii "b") packetForTen ∧
        (routerWith star).daemon.config.tunnelserver = false ∧
        (Routing.plain .router .off).broadcastMode = .mst ∧
        ∃ c ∈ treeConnections (routerWith star).daemon (ascii "b"), ∃ n,
          ((routerWith star).daemon.conn c).node = some n ∧
            hop (routerWith star).daemon n ≠ none) := by
  have hrouted : routed (.plain .router .off) (routerWith star) (ascii "b") packetForTen =
      [(.reply, .datagram 0)] := by decide +kernel
  refine ⟨hrouted, (forwarding_off_iff (.plain (ascii "a")) id [] [] [] star ?_ _ (routerWith star)
    (routerWith_daemon star) (ascii "b") packetForTen (by decide +kernel) rfl).mp ?_⟩
  · simp [star, connects]
  · rw [hrouted]
    simp

/-- A hub sends the packet of `b` to `c`, although forwarding is off. -/
theorem forwarding_off_hub : ¬ ∀ (happenings : List Happening) (s : Routing) (source : Name)
    (p : Packet), source ≠ (routerWith happenings).daemon.myself → s.forwardingMode = .off →
    ∀ t ∈ routed s (routerWith happenings) source p, t.1 = .reply ∨ t.2 = .device := by
  intro h
  have ht := h star (.plain .hub .off) (ascii "b") packetForTen (by decide +kernel) rfl
    (.copy, .datagram 1) (by decide +kernel)
  simp at ht

end Tinc
