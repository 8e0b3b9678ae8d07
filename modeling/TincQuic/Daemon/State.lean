import Mathlib.Logic.Function.Basic
import TincQuic.Lib.CText
import TincQuic.Lib.OrdList

/-!
# The state of a daemon

What `node.h`, `edge.h`, `subnet.h` and `connection.h` declare, as far as the meta protocol uses
it, and the functions by which every part of the daemon sends: `send_meta`, `broadcast_meta`,
`send_request` and `forward_request`.

Nodes are named by their names, which are unique in `node_tree`.  Edges, subnets and connections
are named by numbers, because the code compares their addresses; the maps `edge`, `subnet` and
`conn` hold the objects.  A splay tree is the list of its elements in order.

Left out is what no request handler here reads: time stamps, traffic counters, path MTUs, the
trees of node ids and UDP addresses, the scripts that are run, and the scope of an IPv6 address.
-/

namespace Tinc

open Bytes CText

/-- `node->name` -/
abbrev Name := Text

abbrev ConnId := ℕ
abbrev EdgeId := ℕ
abbrev SubnetId := ℕ

/-- `sockaddr_t` -/
inductive SockAddr where
  | unspec
  /-- `AF_UNKNOWN`: an address that could not be converted is kept as it was written. -/
  | unknown (address port : Text)
  | inet (address : List UInt8) (port : ℕ)
  | inet6 (address : List UInt8) (port : ℕ)
  deriving DecidableEq, Repr

/-- The family is `AF_UNKNOWN`. -/
def SockAddr.isUnknown : SockAddr → Bool
  | .unknown _ _ => true
  | _ => false

/-- `sockaddr_setport`: a port that `atoi` reads as a multiple of `2 ^ 16` changes nothing. -/
def SockAddr.setPort (sa : SockAddr) (port : Text) : SockAddr :=
  let portnum := (atoi port % 2 ^ 16).toNat
  if portnum = 0 then sa
  else match sa with
    | .unspec => .unspec
    | .unknown address _ => .unknown address port
    | .inet address _ => .inet address portnum
    | .inet6 address _ => .inet6 address portnum

/-- `edge_t` -/
structure Edge where
  fromNode : Name
  toNode : Name
  address : SockAddr
  localAddress : SockAddr
  options : UInt32
  weight : ℤ
  connection : Option ConnId
  reverse : Option EdgeId
  deriving DecidableEq

/-- The network of a `subnet_t`: its type, address and prefix length. -/
inductive Net where
  | mac (address : List UInt8)
  | ipv4 (address : List UInt8) (prefixlength : ℕ)
  | ipv6 (address : List UInt8) (prefixlength : ℕ)
  deriving DecidableEq, Repr

/-- `subnet_t` -/
structure Subnet where
  owner : Option Name
  net : Net
  weight : ℤ
  expires : ℕ
  deriving DecidableEq

/-- What `graph.c` knows of a node. -/
structure Node where
  visited : Bool
  reachable : Bool
  indirect : Bool
  distance : ℤ
  nexthop : Option Name
  via : Option Name
  prevedge : Option EdgeId
  options : UInt32
  address : SockAddr
  deriving DecidableEq

/-- `new_node` -/
def Node.new : Node :=
  { visited := false, reachable := false, indirect := false, distance := 0, nexthop := none,
    via := none, prevedge := none, options := 0, address := .unspec }

/-- The variables of a connection's `config_tree` that the handlers ask for. -/
structure ConnConfig where
  indirectData : Option Bool := none
  tcpOnly : Option Bool := none
  clampMss : Option Bool := none
  weight : Option ℤ := none
  deriving DecidableEq

/-- `connection_t` -/
structure Conn where
  name : Name
  address : SockAddr := .unspec
  localAddress : SockAddr := .unspec
  protocolMajor : ℤ := 0
  protocolMinor : ℤ := 0
  options : UInt32 := 0
  /-- `status.control` -/
  control : Bool := false
  /-- `status.invitation` -/
  invitation : Bool := false
  /-- `invitation_vpn_address` -/
  invitationVpnAddress : Option Text := none
  /-- the milliseconds since `start`, as the clock will tell -/
  elapsed : ℤ := 0
  estimatedWeight : ℤ := 0
  outgoing : Option ℕ := none
  node : Option Name := none
  edge : Option EdgeId := none
  allowRequest : ℤ := 0
  configTree : ConnConfig := {}
  /-- `quic_context` is set. -/
  quicContext : Bool := true
  /-- The transport takes what is sent. -/
  canSend : Bool := true
  deriving DecidableEq

/-- What a daemon takes from its configuration and from the system's libraries. -/
structure Config where
  myself : Name
  myport : Text
  options : UInt32
  protocolMajor : ℤ
  protocolMinor : ℤ
  tunnelserver : Bool
  strictsubnets : Bool
  experimental : Bool
  controlcookie : Text
  pid : ℤ
  /-- `proxytype` is `PROXY_HTTP`. -/
  proxyHttp : Bool
  /-- The variable `Weight` of `tinc.conf`. -/
  weight : Option ℤ
  /-- `getaddrinfo` with `AI_NUMERICHOST` -/
  getaddrinfo : Text → Text → Option SockAddr
  /-- `getnameinfo` with `NI_NUMERICHOST` and `NI_NUMERICSERV`, without the scope -/
  getnameinfo : SockAddr → Text × Text
  /-- a bound on the rounds of the loops in `graph.c` -/
  rounds : ℕ

/-- The global variables. -/
structure Daemon where
  config : Config
  nodeTree : List Name
  node : Name → Node
  edgeTree : Name → List EdgeId
  edgeWeightTree : List EdgeId
  edge : EdgeId → Edge
  newEdge : EdgeId
  subnetTree : List SubnetId
  nodeSubnets : Name → List SubnetId
  subnet : SubnetId → Subnet
  newSubnet : SubnetId
  connectionList : List ConnId
  conn : ConnId → Conn
  /-- `status.mst` of the connections -/
  mst : ConnId → Bool
  /-- `n->connection` -/
  nodeConnection : Name → Option ConnId
  pastRequests : List Text
  /-- the results of `rand` that become nonces, and how many of them were drawn -/
  rand : ℕ → ℕ
  drawn : ℕ
  /-- what was sent: the connection and the request, without its newline -/
  sent : List (ConnId × Text)
  /-- the outgoing connections handed to `do_outgoing_connection` -/
  retries : List ℕ
  contradictingAddEdge : ℕ
  contradictingDelEdge : ℕ

variable (d : Daemon)

abbrev Daemon.myself : Name := d.config.myself

/-- Changes the connection `c`. -/
def Daemon.setConn (c : ConnId) (f : Conn → Conn) : Daemon :=
  { d with conn := Function.update d.conn c (f (d.conn c)) }

/-- Changes the edge `e`. -/
def Daemon.setEdge (e : EdgeId) (f : Edge → Edge) : Daemon :=
  { d with edge := Function.update d.edge e (f (d.edge e)) }

/-- The node is in `node_tree`. -/
def Daemon.known (n : Name) : Bool := n ∈ d.nodeTree

/-- `lookup_node` -/
def Daemon.lookupNode (name : Name) : Option Name :=
  OrdList.search (strcmp name) d.nodeTree

/-- `new_node` and `node_add` -/
def Daemon.addNode (name : Name) : Daemon :=
  { d with
    nodeTree := (OrdList.insert (strcmp name) name d.nodeTree).getD d.nodeTree
    node := Function.update d.node name .new
    edgeTree := Function.update d.edgeTree name []
    nodeSubnets := Function.update d.nodeSubnets name []
    nodeConnection := Function.update d.nodeConnection name none }

/-- The node of that name, made if there is none. -/
def Daemon.ensureNode (name : Name) : Daemon :=
  if d.lookupNode name = none then d.addNode name else d

/-- `isalnum` -/
def isAlnum (c : UInt8) : Bool := isDigit c ∨ (65 ≤ c ∧ c ≤ 90) ∨ (97 ≤ c ∧ c ≤ 122)

/-- `check_id` -/
def checkId (id : Text) : Bool := id ≠ [] ∧ id.all (fun c => isAlnum c ∨ c = 95)

/-- `str2sockaddr` -/
def Daemon.str2sockaddr (address port : Text) : SockAddr :=
  (d.config.getaddrinfo address port).getD (.unknown address port)

/-- `sockaddr2str` -/
def Daemon.sockaddr2str : SockAddr → Text × Text
  | .unspec => (ascii "unspec", ascii "unspec")
  | .unknown address port => (address, port)
  | sa => d.config.getnameinfo sa

/-! ## Sending -/

/-- `MAXBUFSIZE` -/
def maxBufSize : ℕ := 65664

/-- `send_meta` -/
def Daemon.sendMeta (c : ConnId) (request : Text) : Daemon × Bool :=
  if (d.conn c).canSend then ({ d with sent := d.sent ++ [(c, request)] }, true) else (d, false)

/-- `broadcast_meta` -/
def Daemon.broadcastMeta (from? : Option ConnId) (request : Text) : Daemon :=
  { d with sent := d.sent ++
      ((d.connectionList.filter fun c =>
        some c ≠ from? ∧ (d.conn c).edge ≠ none ∧ (d.conn c).canSend).map (·, request)) }

/-- `send_request` to a connection.  An ID is sent raw, and then the result is always true. -/
def Daemon.sendRequest (c : ConnId) (request : Text) : Daemon × Bool :=
  if maxBufSize - 1 < request.length then (d, false)
  else if atoi request = 0 then ((d.sendMeta c request).1, true)
  else d.sendMeta c request

/-- Whom a request is sent to. -/
inductive Target where
  | one (c : ConnId)
  | everyone

/-- `send_request`, where its result is not looked at. -/
def Daemon.send (target : Target) (request : Text) : Daemon :=
  match target with
  | .one c => (d.sendRequest c request).1
  | .everyone =>
      if maxBufSize - 1 < request.length then d else d.broadcastMeta none request

/-- `forward_request` -/
def Daemon.forwardRequest (c : ConnId) (request : Text) : Daemon :=
  d.broadcastMeta (some c) request

/-- `rand` -/
def Daemon.draw : Daemon × ℕ := ({ d with drawn := d.drawn + 1 }, d.rand d.drawn)

/-- `seen_request` -/
def Daemon.seenRequest (request : Text) : Daemon × Bool :=
  if request ∈ d.pastRequests then (d, true)
  else ({ d with pastRequests := request :: d.pastRequests }, false)

/-- `age_past_requests`, which keeps these. -/
def Daemon.agePastRequests (keep : List Text) : Daemon :=
  { d with pastRequests := d.pastRequests.filter (· ∈ keep) }

/-- The words of a request, with blanks between them. -/
def words (ws : List Text) : Text := [32].intercalate ws

end Tinc
