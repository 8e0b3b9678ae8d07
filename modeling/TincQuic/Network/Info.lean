import TincQuic.Daemon.Pointers

/-!
# UDP_INFO and MTU_INFO

The two requests travel along the path that packets take, and every node on it adds what it knows.
To find the next node the handlers follow pointers: `via` and `nexthop` of the nodes that the request
names, and from there to a connection and its edge.

* `udpInfoH` and `mtuInfoH` are the handlers.  Their result is an error if a pointer is followed that
  is null, or leads to something that is in none of the tables any more.
* `Sound` states have no pointer of the second kind, and of the first kind only at nodes that were
  never reached.  `udp_info_h` looks at `via` before it follows it; **`mtu_info_h` follows it as
  soon as the request is passed on**: `info_pointers_followed`.
-/

namespace Tinc

open Bytes CText Function Run

/-! ## Pointers -/

/-- A pointer that is followed. -/
inductive Pointer where
  | node (n : Option Name)
  | connection (c : Option ConnId)
  | edge (e : Option EdgeId)
  deriving DecidableEq

variable (d : Daemon)

def Daemon.followNode (p : Option Name) : Except Pointer Name :=
  match p with
  | none => .error (.node none)
  | some n => if n ∈ d.nodeTree then .ok n else .error (.node (some n))

def Daemon.followConnection (p : Option ConnId) : Except Pointer ConnId :=
  match p with
  | none => .error (.connection none)
  | some c => if c ∈ d.connectionList then .ok c else .error (.connection (some c))

def Daemon.followEdge (p : Option EdgeId) : Except Pointer EdgeId :=
  match p with
  | none => .error (.edge none)
  | some e => if e ∈ d.edgeTree (d.edge e).fromNode then .ok e else .error (.edge (some e))

/-! ## The handlers -/

/-- What is known of a node besides the way to it.  Times are in microseconds. -/
structure Probe where
  mtu : ℤ
  minmtu : ℤ
  maxmtu : ℤ
  udpConfirmed : Bool
  udpInfoSent : ℤ
  mtuInfoSent : ℤ

/-- A daemon, what its probes found, and its clock. -/
structure Station where
  daemon : Daemon
  probe : Name → Probe
  now : ℤ
  udpInfoInterval : ℤ
  mtuInfoInterval : ℤ

/-- `MTU`, without jumbograms -/
def mtuLimit : ℤ := 1518

/-- `n->options` -/
def Daemon.nodeOptions (n : Name) : UInt32 :=
  if n = d.myself then d.config.options else (d.node n).options

/-- `n->via`, or `n->nexthop` if we are the relay ourselves. -/
def Daemon.relay (n : Name) : Option Name :=
  if (d.node n).via = some d.myself then (d.node n).nexthop else (d.node n).via

/-- `elapsed.tv_sec` -/
def Station.elapsed (s : Station) (sent : ℤ) : ℤ := (s.now - sent) / 1000000

/-- `update_node_udp` with an address -/
def Station.updateNodeUdp (s : Station) (n : Name) (sa : SockAddr) : Station :=
  if n = s.daemon.myself then s
  else
    { s with
      daemon := { s.daemon with
        node := update s.daemon.node n { s.daemon.node n with address := sa } }
      probe := update s.probe n
        { s.probe n with udpConfirmed := false, minmtu := 0, maxmtu := mtuLimit } }

/-- The address that is sent.  If we are the originator, it is our own address on the connection. -/
def Daemon.infoAddress (fromNode nexthop : Name) : Except Pointer SockAddr :=
  if fromNode ≠ d.myself then .ok (d.node fromNode).address
  else do
    let c ← d.followConnection (d.nodeConnection nexthop)
    let e ← d.followEdge (d.conn c).edge
    .ok (d.edge e).localAddress

/-- `send_udp_info` -/
def sendUdpInfo (s : Station) (fromNode toNode : Name) : Except Pointer (Station × Bool) := do
  let d := s.daemon
  if d.relay toNode = none then .ok (s, false)
  else if d.relay toNode = some d.myself then .ok (s, true)
  else do
    let relay ← d.followNode (d.relay toNode)
    if ¬ (d.node relay).reachable then .ok (s, true)
    else if fromNode = d.myself ∧ (d.nodeConnection relay ≠ none ∨
        s.elapsed (s.probe relay).udpInfoSent < s.udpInfoInterval) then .ok (s, true)
    else if (d.nodeOptions d.myself ||| d.nodeOptions fromNode ||| d.nodeOptions relay) &&&
        optionTcpOnly ≠ 0 then .ok (s, true)
    else do
      let nexthop ← d.followNode (d.node relay).nexthop
      if d.nodeOptions nexthop >>> 24 < 5 then .ok (s, true)
      else do
        let address ← d.infoAddress fromNode nexthop
        let c ← d.followConnection (d.nodeConnection nexthop)
        let (fromAddress, fromPort) := d.sockaddr2str address
        let (d, x) := d.sendRequest c (words [decimal Request.udpInfo.number, fromNode, relay,
          fromAddress, fromPort])
        let probe :=
          if fromNode = d.myself then
            update s.probe relay { s.probe relay with udpInfoSent := s.now }
          else s.probe
        .ok ({ s with daemon := d, probe := probe }, x)

/-- The `sscanf` of `udp_info_h` -/
def parseUdpInfo (request : Text) : Option (Text × Text × Text × Text) :=
  match (sscanf [.skip (.d none), .space, maxString, .space, maxString, .space, maxString, .space,
      maxString] request).1 with
  | [.str fromName, .str toName, .str fromAddress, .str fromPort] =>
      some (fromName, toName, fromAddress, fromPort)
  | _ => none

/-- `udp_info_h` -/
def udpInfoH (s : Station) (_c : ConnId) (request : Text) : Except Pointer (Station × Bool) :=
  match parseUdpInfo request with
  | none => .ok (s, false)
  | some (fromName, toName, fromAddress, fromPort) =>
      let d := s.daemon
      if ¬ checkId fromName ∨ ¬ checkId toName then .ok (s, false)
      else if d.lookupNode fromName = none then .ok (s, true)
      else if (d.node fromName).via ≠ some fromName then .ok (s, true)
      else
        let s :=
          if d.nodeConnection fromName = none ∧ ¬ (s.probe fromName).udpConfirmed ∧
              d.str2sockaddr fromAddress fromPort ≠ (d.node fromName).address then
            s.updateNodeUdp fromName (d.str2sockaddr fromAddress fromPort)
          else s
        if d.lookupNode toName = none then .ok (s, true) else sendUdpInfo s fromName toName

/-- The MTU that is sent: the one that was passed in, unless we believe ours is better. -/
def Station.betterMtu (s : Station) (fromNode : Name) (mtu : ℤ) : Except Pointer ℤ :=
  let d := s.daemon
  if (s.probe fromNode).minmtu = (s.probe fromNode).maxmtu ∧
      (d.node fromNode).via = some d.myself then .ok (s.probe fromNode).minmtu
  else do
    let relay ← d.followNode (d.relay fromNode)
    if (s.probe relay).minmtu = (s.probe relay).maxmtu then .ok (min mtu (s.probe relay).minmtu)
    else do
      let hop ← d.followNode (d.node relay).nexthop
      if (s.probe hop).minmtu = (s.probe hop).maxmtu then .ok (min mtu (s.probe hop).minmtu)
      else .ok mtu

/-- `send_mtu_info` -/
def sendMtuInfo (s : Station) (fromNode toNode : Name) (mtu : ℤ) :
    Except Pointer (Station × Bool) := do
  let d := s.daemon
  if toNode = d.myself then .ok (s, true)
  else if ¬ (d.node toNode).reachable then .ok (s, true)
  else if fromNode = d.myself ∧ (d.nodeConnection toNode ≠ none ∨
      s.elapsed (s.probe toNode).mtuInfoSent < s.mtuInfoInterval) then .ok (s, true)
  else do
    let nexthop ← d.followNode (d.node toNode).nexthop
    if d.nodeOptions nexthop >>> 24 < 6 then .ok (s, true)
    else do
      let mtu ← s.betterMtu fromNode mtu
      let c ← d.followConnection (d.nodeConnection nexthop)
      let probe :=
        if fromNode = d.myself then
          update s.probe toNode { s.probe toNode with mtuInfoSent := s.now }
        else s.probe
      let (d, x) := d.sendRequest c (words [decimal Request.mtuInfo.number, fromNode, toNode,
        decimal mtu])
      .ok ({ s with daemon := d, probe := probe }, x)

/-- The `sscanf` of `mtu_info_h` -/
def parseMtuInfo (request : Text) : Option (Text × Text × ℤ) :=
  match (sscanf [.skip (.d none), .space, maxString, .space, maxString, .space, .conv (.d none)]
      request).1 with
  | [.str fromName, .str toName, .int mtu] => some (fromName, toName, mtu)
  | _ => none

/-- If we don't know the current MTU for that node, use the one we received. -/
def Station.useMtu (s : Station) (n : Name) (mtu : ℤ) : Station :=
  if (s.probe n).mtu ≠ mtu ∧ (s.probe n).minmtu ≠ (s.probe n).maxmtu then
    { s with probe := update s.probe n { s.probe n with mtu := mtu } }
  else s

/-- `mtu_info_h` -/
def mtuInfoH (s : Station) (_c : ConnId) (request : Text) : Except Pointer (Station × Bool) :=
  match parseMtuInfo request with
  | none => .ok (s, false)
  | some (fromName, toName, mtu) =>
      let d := s.daemon
      if mtu < 512 then .ok (s, false)
      else
        let mtu := min mtu mtuLimit
        if ¬ checkId fromName ∨ ¬ checkId toName then .ok (s, false)
        else if d.lookupNode fromName = none then .ok (s, true)
        else
          let s := s.useMtu fromName mtu
          if d.lookupNode toName = none then .ok (s, true) else sendMtuInfo s fromName toName mtu

/-! ## What is followed -/

/-- No pointer was followed that leads nowhere. -/
def Returns {α : Type} (x : Except Pointer α) : Prop := ∃ a, x = .ok a

lemma Returns.ok {α : Type} (a : α) : Returns (.ok a : Except Pointer α) := ⟨a, rfl⟩

lemma Returns.bind {α β : Type} {x : Except Pointer α} {f : α → Except Pointer β} (hx : Returns x)
    (hf : ∀ a, x = .ok a → Returns (f a)) : Returns (x >>= f) := by
  obtain ⟨a, rfl⟩ := hx
  exact hf a rfl

lemma not_returns_error {α : Type} (p : Pointer) : ¬ Returns (.error p : Except Pointer α) := by
  rintro ⟨a, ha⟩
  cases ha

variable {d} {s : Station} {n fromNode toNode : Name}

lemma followNode_some (hn : n ∈ d.nodeTree) : d.followNode (some n) = .ok n := if_pos hn

lemma followNode_eq {p : Option Name} {m : Name} (h : d.followNode p = .ok m) : p = some m := by
  unfold Daemon.followNode at h
  split at h
  · cases h
  · split at h
    · rw [Except.ok.inj h]
    · cases h

namespace Sound

/-- The next hop of a reachable node is connected. -/
lemma hop (h : Sound d) (hn : n ∈ d.nodeTree) (hr : (d.node n).reachable = true)
    (hne : n ≠ d.myself) : ∃ k c e, (d.node n).nexthop = some k ∧ d.followNode (some k) = .ok k ∧
      d.nodeConnection k = some c ∧ d.followConnection (some c) = .ok c ∧
      (d.conn c).edge = some e ∧ d.followEdge (some e) = .ok e := by
  obtain ⟨k, hk, -, e, he, hto⟩ := h.routed.nexthop n hn hr hne
  have hknown := (h.routed.way.known n hn k (.inr hk)).1
  obtain ⟨c, hc, hce⟩ := h.index.own e he
  have hnode := (h.index.connEdge c hc e hce).2.2
  rw [hto] at hnode
  have hfrom : (d.edge e).fromNode = d.myself := h.index.shelved.start _ e he
  exact ⟨k, c, e, hk, if_pos hknown, (h.index.node c hc k).mpr hnode, if_pos hc, hce,
    if_pos (hfrom ▸ he)⟩

/-- Addresses are not looked at. -/
lemma setAddress (h : Sound d) (n : Name) (sa : SockAddr) :
    Sound { d with node := update d.node n { d.node n with address := sa } } := by
  have hs : SameIndexes d { d with node := update d.node n { d.node n with address := sa } } :=
    ⟨_, _, _, _, _, _, _, rfl⟩
  have hsame : ∀ m, (update d.node n { d.node n with address := sa } m).via = (d.node m).via ∧
      (update d.node n { d.node n with address := sa } m).nexthop = (d.node m).nexthop ∧
      (update d.node n { d.node n with address := sa } m).reachable = (d.node m).reachable := by
    intro m
    by_cases hm : m = n
    · rw [hm, update_self]
      exact ⟨rfl, rfl, rfl⟩
    · rw [update_of_ne hm]
      exact ⟨rfl, rfl, rfl⟩
  refine ⟨h.index.of_same hs, ⟨h.home.nodes, h.home.myself, ?_, ?_, ?_⟩, ⟨?_, ?_⟩, ?_⟩
  · exact (hsame _).1.trans h.home.via
  · exact (hsame _).2.1.trans h.home.nexthop
  · exact (hsame _).2.2.trans h.home.reachable
  · intro m hm k hk
    dsimp only at hk ⊢
    rw [(hsame m).1, (hsame m).2.1] at hk
    rw [(hsame k).2.1]
    exact h.routed.way.known m hm k hk
  · intro m hm
    dsimp only
    rw [(hsame m).1, (hsame m).2.1]
    exact h.routed.way.both m hm
  · intro m hm hr hne
    dsimp only at hr ⊢
    rw [(hsame m).2.2] at hr
    rw [(hsame m).2.1]
    exact h.routed.nexthop m hm hr hne

lemma updateNodeUdp (h : Sound s.daemon) (n : Name) (sa : SockAddr) :
    Sound (s.updateNodeUdp n sa).daemon := by
  unfold Station.updateNodeUdp
  split
  · exact h
  · exact h.setAddress n sa

end Sound

/-- The relay of `send_udp_info` and `send_mtu_info` is a node, if there is one. -/
lemma relay_known (h : Sound d) (hn : n ∈ d.nodeTree) {k : Name}
    (hk : d.relay n = some k) : k ∈ d.nodeTree ∧ (d.node k).nexthop ≠ none := by
  unfold Daemon.relay at hk
  split at hk
  · exact h.routed.way.known n hn k (.inr hk)
  · exact h.routed.way.known n hn k (.inl hk)

/-- `send_udp_info` looks before it follows. -/
lemma sendUdpInfo_returns (h : Sound s.daemon) (hto : toNode ∈ s.daemon.nodeTree) :
    Returns (sendUdpInfo s fromNode toNode) := by
  unfold sendUdpInfo
  dsimp only
  split
  · exact .ok _
  · rename_i hsome
    split
    · exact .ok _
    · rename_i hnotme
      obtain ⟨relay, hrelay⟩ := Option.ne_none_iff_exists'.mp hsome
      rw [hrelay] at hnotme ⊢
      have hknown := (relay_known h hto hrelay).1
      rw [followNode_some hknown]
      change Returns (if _ then _ else _)
      split
      · exact .ok _
      · rename_i hreach
        split
        · exact .ok _
        split
        · exact .ok _
        obtain ⟨k, c, e, hk, hfk, hkc, hfc, hce, hfe⟩ := h.hop hknown (by simpa using hreach)
          fun heq => hnotme (by rw [heq])
        rw [hk, hfk]
        change Returns (if _ then _ else _)
        split
        · exact .ok _
        · have haddress : Returns (s.daemon.infoAddress fromNode k) := by
            unfold Daemon.infoAddress
            split
            · exact .ok _
            · rw [hkc, hfc]
              change Returns (s.daemon.followEdge (s.daemon.conn c).edge >>= _)
              rw [hce, hfe]
              exact .ok _
          refine haddress.bind fun address _ => ?_
          rw [hkc, hfc]
          exact .ok _

/-- What `mtu_info_h` needs to know of the node that the request comes from: it was reached once, or
the request is not passed on. -/
def Daemon.Heard (d : Daemon) (fromNode toNode : Name) : Prop :=
  (d.node fromNode).via ≠ none ∨ toNode = d.myself ∨ (d.node toNode).reachable = false ∨
    ∀ k ∈ (d.node toNode).nexthop, d.nodeOptions k >>> 24 < 6

/-- The pointers to the node that a request comes from are set. -/
lemma betterMtu_returns (h : Sound s.daemon) (hn : n ∈ s.daemon.nodeTree) (mtu : ℤ) :
    Returns (s.betterMtu n mtu) ↔ (s.daemon.node n).via ≠ none := by
  constructor
  · intro hret hnone
    have hrelay : s.daemon.relay n = none := by
      unfold Daemon.relay
      rw [hnone, if_neg (Option.some_ne_none _).symm]
    unfold Station.betterMtu at hret
    dsimp only at hret
    rw [if_neg (by simp [hnone]), hrelay] at hret
    exact not_returns_error _ hret
  · intro hvia
    unfold Station.betterMtu
    dsimp only
    split
    · exact .ok _
    · have hsome : s.daemon.relay n ≠ none := by
        unfold Daemon.relay
        split
        · rwa [ne_eq, ← h.routed.way.both n hn]
        · exact hvia
      obtain ⟨relay, hrelay⟩ := Option.ne_none_iff_exists'.mp hsome
      obtain ⟨hknown, hnext⟩ := relay_known h hn hrelay
      rw [hrelay, followNode_some hknown]
      change Returns (if _ then _ else _)
      split
      · exact .ok _
      · obtain ⟨k, hk⟩ := Option.ne_none_iff_exists'.mp hnext
        rw [hk, followNode_some (h.routed.way.known relay hknown k (.inr hk)).1]
        change Returns (if _ then _ else _)
        split <;> exact .ok _

/-- `send_mtu_info` follows `via` without a look. -/
lemma sendMtuInfo_returns (h : Sound s.daemon) (hfrom : fromNode ∈ s.daemon.nodeTree)
    (hto : toNode ∈ s.daemon.nodeTree) (mtu : ℤ) :
    Returns (sendMtuInfo s fromNode toNode mtu) ↔ s.daemon.Heard fromNode toNode := by
  unfold sendMtuInfo Daemon.Heard
  dsimp only
  split
  · rename_i hme
    exact iff_of_true (.ok _) (.inr (.inl hme))
  · rename_i hme
    split
    · rename_i hreach
      exact iff_of_true (.ok _) (.inr (.inr (.inl (by simpa using hreach))))
    · rename_i hreach
      split
      · rename_i hskip
        refine iff_of_true (.ok _) (.inl ?_)
        rw [hskip.1, h.home.via]
        exact Option.some_ne_none _
      · obtain ⟨k, c, e, hk, hfk, hkc, hfc, -, -⟩ := h.hop hto (by simpa using hreach) hme
        rw [hk, hfk]
        change Returns (if _ then _ else _) ↔ _
        split
        · rename_i hold
          refine iff_of_true (.ok _) (.inr (.inr (.inr fun k' hk' => ?_)))
          rwa [← Option.some.inj hk']
        · rename_i hold
          have hiff : ((s.daemon.node fromNode).via ≠ none ∨ toNode = s.daemon.myself ∨
              (s.daemon.node toNode).reachable = false ∨
              ∀ k' ∈ some k, s.daemon.nodeOptions k' >>> 24 < 6) ↔
              (s.daemon.node fromNode).via ≠ none := by
            constructor
            · rintro (hvia | heq | hr | hopt)
              · exact hvia
              · exact absurd heq hme
              · exact absurd (by simpa using hr) hreach
              · exact absurd (hopt k rfl) hold
            · exact .inl
          rw [hiff, ← betterMtu_returns h hfrom mtu]
          constructor
          · rintro ⟨a, ha⟩
            cases hm : s.betterMtu fromNode mtu with
            | error p =>
                rw [hm] at ha
                cases ha
            | ok m => exact .ok m
          · intro hm
            refine hm.bind fun m _ => ?_
            rw [hkc, hfc]
            exact .ok _

/-! ## The requests -/

lemma udpInfoH_returns (h : Sound s.daemon) (c : ConnId) (request : Text) :
    Returns (udpInfoH s c request) := by
  unfold udpInfoH
  split
  · exact .ok _
  · rename_i fromName toName fromAddress fromPort _
    dsimp only
    split
    · exact .ok _
    split
    · exact .ok _
    split
    · exact .ok _
    generalize hs' : (if s.daemon.nodeConnection fromName = none ∧
        ¬ (s.probe fromName).udpConfirmed = true ∧
        s.daemon.str2sockaddr fromAddress fromPort ≠ (s.daemon.node fromName).address then
      s.updateNodeUdp fromName (s.daemon.str2sockaddr fromAddress fromPort) else s) = s'
    have hsound : Sound s'.daemon ∧ s'.daemon.nodeTree = s.daemon.nodeTree := by
      rw [← hs']
      split
      · refine ⟨h.updateNodeUdp _ _, ?_⟩
        unfold Station.updateNodeUdp
        split <;> rfl
      · exact ⟨h, rfl⟩
    split
    · exact .ok _
    · rename_i hto
      refine sendUdpInfo_returns hsound.1 ?_
      rw [hsound.2]
      by_contra hn
      exact hto ((lookupNode_eq_none h.home.nodes).mpr hn)

/-- The node that an MTU_INFO comes from was reached once, unless the request is refused or not
passed on. -/
def Daemon.HeardOf (d : Daemon) (request : Text) : Prop :=
  ∀ r ∈ parseMtuInfo request, 512 ≤ r.2.2 → checkId r.1 → checkId r.2.1 →
    d.lookupNode r.1 ≠ none → d.lookupNode r.2.1 ≠ none → d.Heard r.1 r.2.1

lemma mtuInfoH_returns (h : Sound s.daemon) (c : ConnId) (request : Text) :
    Returns (mtuInfoH s c request) ↔ s.daemon.HeardOf request := by
  have hknown : ∀ n, s.daemon.lookupNode n ≠ none → n ∈ s.daemon.nodeTree := fun n hn => by
    by_contra hnot
    exact hn ((lookupNode_eq_none h.home.nodes).mpr hnot)
  unfold mtuInfoH Daemon.HeardOf
  split
  · rename_i hp
    rw [hp]
    exact iff_of_true (.ok _) nofun
  · rename_i fromName toName mtu hp
    rw [hp]
    simp only [Option.mem_some_iff, forall_eq']
    split
    · rename_i hmtu
      exact iff_of_true (.ok _) fun hge => absurd hge (by omega)
    split
    · rename_i hid
      refine iff_of_true (.ok _) fun _ hf ht => ?_
      rcases hid with hid | hid
      · exact absurd hf hid
      · exact absurd ht hid
    rename_i hmtu hid
    split
    · rename_i hfrom
      exact iff_of_true (.ok _) fun _ _ _ hne => absurd hfrom hne
    rename_i hfrom
    have hd : (s.useMtu fromName (min mtu mtuLimit)).daemon = s.daemon := by
      unfold Station.useMtu
      split <;> rfl
    split
    · rename_i hto
      exact iff_of_true (.ok _) fun _ _ _ _ hne => absurd hto hne
    · rename_i hto
      rw [not_or, not_not, not_not] at hid
      rw [sendMtuInfo_returns (hd ▸ h) (hd ▸ hknown _ hfrom) (hd ▸ hknown _ hto), hd]
      constructor
      · exact fun hheard _ _ _ _ _ => hheard
      · exact fun hall => hall (by omega) hid.1 hid.2 hfrom hto

/-- **In every state that is reached while `purge` deletes no node that another one points to**, the
handler of UDP_INFO follows only pointers that lead somewhere, and so does the handler of MTU_INFO
if and only if the node that the request comes from was reached once, or the request ends here. -/
theorem info_pointers_followed (config : Config) (rand : ℕ → ℕ) (own broadcasts : List Subnet)
    (hosts : List (Name × Option Subnet)) (happenings : List Happening)
    (hp : Along Daemon.happen Happening.Possible (.setup config rand own broadcasts hosts)
      happenings)
    (hk : Along Daemon.happen Happening.Keeps (.setup config rand own broadcasts hosts)
      happenings)
    (s : Station)
    (hs : s.daemon = happenings.foldl Daemon.happen (.setup config rand own broadcasts hosts))
    (c : ConnId) (request : Text) :
    (∃ result, udpInfoH s c request = .ok result) ∧
      ((∃ result, mtuInfoH s c request = .ok result) ↔ s.daemon.HeardOf request) := by
  have hsound : Sound s.daemon := hs ▸ Sound.run config rand own broadcasts hosts hp hk
  exact ⟨udpInfoH_returns hsound c request, mtuInfoH_returns hsound c request⟩

/-! ## Two runs -/

/-- Node `a` has read of a node `x` in its `hosts.json`. -/
def heardOfX : Daemon := .setup (.plain (ascii "a")) id [] [] [(ascii "x", none)]

/-- Node `b` joins. -/
def bJoins : List Happening :=
  [.event (.connectionAdd 0 { name := ascii "<unknown>" }),
    .event (.receive 0 (ascii "0 b 17.7")), .event (.receive 0 (ascii "4 655 10 700000c")),
    .event (.receive 0 (ascii "12 1 b a unspec unspec 700000c 10"))]

/-- The daemon after that, before it has sent a probe. -/
def stationAfter (happenings : List Happening) : Station where
  daemon := happenings.foldl Daemon.happen heardOfX
  probe := fun _ => ⟨mtuLimit, 0, mtuLimit, false, 0, 0⟩
  now := 0
  udpInfoInterval := 5
  mtuInfoInterval := 5

lemma stationAfter_daemon (happenings : List Happening) : (stationAfter happenings).daemon =
    happenings.foldl Daemon.happen
      (.setup (.plain (ascii "a")) id [] [] [(ascii "x", none)]) := rfl

theorem info_pointers_followed_joined :
    Along Daemon.happen Happening.Keeps heardOfX bJoins ∧
      (∃ result, udpInfoH (stationAfter bJoins) 0 (ascii "21 b a 192.0.2.1 655") = .ok result) ∧
      ((∃ result, mtuInfoH (stationAfter bJoins) 0 (ascii "21 b a 192.0.2.1 655") = .ok result) ↔
        (stationAfter bJoins).daemon.HeardOf (ascii "21 b a 192.0.2.1 655")) :=
  ⟨by decide +kernel, info_pointers_followed (.plain (ascii "a")) id [] [] [(ascii "x", none)]
    bJoins (by decide +kernel) (by decide +kernel) _ (stationAfter_daemon bJoins) 0 _⟩

/-- `c` is reached through `b`, and `e`, which has an edge to `c` too, joins.  Then the connection
to `b` is lost, and `purge` deletes `b`, but not `c`. -/
def bIsPurged : List Happening :=
  bJoins ++
  [.event (.receive 0 (ascii "12 2 b c unspec unspec 700000d 10")),
    .event (.receive 0 (ascii "12 3 c b unspec unspec 700000d 10")),
    .event (.connectionAdd 1 { name := ascii "<unknown>" }),
    .event (.receive 1 (ascii "0 e 17.7")), .event (.receive 1 (ascii "4 655 10 700000c")),
    .event (.receive 1 (ascii "12 4 e a unspec unspec 700000c 10")),
    .event (.receive 1 (ascii "12 5 e c unspec unspec 700000c 10")),
    .event (.terminate 0 true), .purge false]

/-- The pointer that led nowhere. -/
def fault {α : Type} : Except Pointer α → Option Pointer
  | .ok _ => none
  | .error p => some p

/-- `b` sends an MTU_INFO of `x`, which was never reached: a null pointer is followed.  And after
`b` was purged, `e` sends an UDP_INFO for `c`: the pointer to `b` is followed. -/
theorem info_pointers_lost :
    Along Daemon.happen Happening.Possible heardOfX bIsPurged ∧
      (stationAfter bJoins).daemon.gate 0 (ascii "22 x b 1000") = .admitted .mtuInfo ∧
      fault (mtuInfoH (stationAfter bJoins) 0 (ascii "22 x b 1000")) = some (.node none) ∧
      (stationAfter bIsPurged).daemon.gate 1 (ascii "21 e c unspec unspec") =
        .admitted .udpInfo ∧
      fault (udpInfoH (stationAfter bIsPurged) 1 (ascii "21 e c unspec unspec")) =
        some (.node (some (ascii "b"))) := by
  decide +kernel

end Tinc
