import TincQuic.Daemon.Subnet

/-!
# `protocol_auth.c` and the end of a connection

* `idH` and `ackH` are the handlers of ID and ACK.  `ackH` activates a connection: it binds it to
  the node, admits all requests and adds the edge that stands for it.
* `tieBreak` is the part of `ack_h` that deals with a second connection to the same node.
* `terminateConnection` is `terminate_connection` of `net.c`.
-/

namespace Tinc

open Bytes CText Function

/-- `OPTION_TCPONLY`, `OPTION_PMTU_DISCOVERY` and `OPTION_CLAMP_MSS` -/
def optionTcpOnly : UInt32 := 0x0002
def optionPmtuDiscovery : UInt32 := 0x0004
def optionClampMss : UInt32 := 0x0008

/-- `PROT_MINOR` -/
def protMinor : UInt32 := 7

variable (d : Daemon)

/-! ## ID -/

/-- `send_id` on a connection that the peer opened. -/
def Daemon.sendId (c : ConnId) : Daemon :=
  let minor := if d.config.experimental then d.config.protocolMinor else 0
  (d.sendRequest c (words [decimal Request.id.number, d.myself,
    decimal d.config.protocolMajor ++ 46 :: decimal minor])).1

/-- The options that `send_ack` announces. -/
def ackOptions (options : UInt32) (c : Conn) : UInt32 :=
  let o := c.options
  let o := if c.configTree.indirectData = some true ∨ options &&& optionIndirect ≠ 0 then
    o ||| optionIndirect else o
  let o := if c.configTree.tcpOnly = some true ∨ options &&& optionTcpOnly ≠ 0 then
    o ||| optionTcpOnly ||| optionIndirect else o
  let o := if options &&& optionPmtuDiscovery ≠ 0 ∧ o &&& optionTcpOnly = 0 then
    o ||| optionPmtuDiscovery else o
  if c.configTree.clampMss.getD (options &&& optionClampMss ≠ 0) then o ||| optionClampMss else o

/-- `send_ack` -/
def Daemon.sendAck (c : ConnId) : Daemon × Bool :=
  let conn := d.conn c
  let weight := (conn.configTree.weight.or d.config.weight).getD (toInt32 conn.elapsed)
  let options := ackOptions d.config.options conn
  let d := d.setConn c ({ · with estimatedWeight := weight, options := options })
  let version : UInt32 := if d.config.experimental then protMinor <<< 24 else 0
  let announced : UInt32 := (options &&& (0xffffff : UInt32)) ||| version
  d.sendRequest c (words [decimal Request.ack.number, d.config.myport, decimal weight,
    hex announced.toNat])

/-- What an ID says: the name and the version of the protocol. -/
structure IdRequest where
  name : Name
  major : ℤ
  minor : Option ℤ

/-- The `sscanf` of `id_h`, which needs two of its three parameters. -/
def parseId (request : Text) : Option IdRequest :=
  match (sscanf [.skip (.d none), .space, maxString, .space, .conv (.d (some 2)), .lit 46,
      .conv (.d (some 3))] request).1 with
  | [.str name, .int major] => some ⟨name, major, none⟩
  | [.str name, .int major, .int minor] => some ⟨name, major, some minor⟩
  | _ => none

/-- A control connection introduced itself with the cookie. -/
def Daemon.acceptControl (c : ConnId) : Daemon × Bool :=
  let d := d.setConn c
    ({ · with control := true, allowRequest := Request.control.number, name := ascii "<control>" })
  let d := if (d.conn c).outgoing = none then d.sendId c else d
  d.sendRequest c (words [decimal Request.ack.number, decimal 0, decimal d.config.pid])

/-- A peer introduced itself by name. -/
def Daemon.acceptId (c : ConnId) (r : IdRequest) : Daemon × Bool :=
  if (d.conn c).outgoing ≠ none ∧ (d.conn c).name ≠ r.name then (d, false)
  else
    let d := d.setConn c ({ · with name := r.name })
    if (d.conn c).protocolMajor ≠ d.config.protocolMajor then (d, false)
    else if ¬ (d.conn c).quicContext then (d, false)
    else
      let d := d.setConn c ({ · with allowRequest := Request.ack.number })
      let d := if (d.conn c).outgoing = none then d.sendId c else d
      d.sendAck c

/-- `id_h` -/
def idH (c : ConnId) (request : Text) : Daemon × Bool :=
  match parseId request with
  | none => (d, false)
  | some r =>
      let d := d.setConn c fun conn =>
        { conn with protocolMajor := r.major, protocolMinor := r.minor.getD conn.protocolMinor }
      if r.name = 94 :: d.config.controlcookie then d.acceptControl c
      else if ¬ checkId r.name ∨ r.name = d.myself then (d, false)
      else d.acceptId c r

/-! ## `terminate_connection` -/

/-- The node of `c` is no longer connected through `c`. -/
def Daemon.detach (c : ConnId) (n : Name) : Daemon :=
  if d.nodeConnection n = some c then
    { d with nodeConnection := update d.nodeConnection n none }
  else d

/-- The edge `e` of connection `c` to node `n` is removed. -/
def Daemon.removeEdge (c : ConnId) (n : Name) (e : EdgeId) (report : Bool) : Daemon :=
  let d := if report ∧ ¬ d.config.tunnelserver then
    d.sendDelEdge .everyone (d.edge e).fromNode (d.edge e).toNode else d
  let d := graph ((d.edgeDel e).setConn c ({ · with edge := none }))
  if report then d.cleanUp n else d

/-- The connection is taken from the list; if it was outgoing, another attempt is made. -/
def Daemon.connectionDel (c : ConnId) : Daemon :=
  { d with
    connectionList := d.connectionList.filter (· ≠ c)
    retries := d.retries ++ (d.conn c).outgoing.toList }

/-- `terminate_connection` -/
def Daemon.terminateConnection (c : ConnId) (report : Bool) : Daemon :=
  match (d.conn c).node with
  | none => d.connectionDel c
  | some n =>
      match (d.conn c).edge with
      | none => (d.detach c n).connectionDel c
      | some e => ((d.detach c n).removeEdge c n e report).connectionDel c

/-! ## ACK -/

/-- `send_everything` -/
def Daemon.sendEverything (c : ConnId) : Daemon :=
  let sendSubnets := fun (d : Daemon) (n : Name) =>
    (d.nodeSubnets n).foldl (fun d s => d.sendSubnet .addSubnet c n (d.subnet s)) d
  if d.config.tunnelserver then sendSubnets d d.myself
  else
    d.nodeTree.foldl (fun d n =>
      (d.edgeTree n).foldl (fun d e => d.sendAddEdge (.one c) (d.edge e)) (sendSubnets d n)) d

/-- The connection `c` takes over what the connection `old` was opened for. -/
def Daemon.moveOutgoing (old c : ConnId) : Daemon :=
  (d.setConn c ({ · with outgoing := (d.conn old).outgoing })).setConn old
    ({ · with outgoing := none })

/-- There is a connection `old` to the node of `c` already.  The result says whether `c` goes
on. -/
def Daemon.tieBreak (c old : ConnId) : Daemon × Bool :=
  let oldOutgoing := (d.conn old).outgoing ≠ none
  let newOutgoing := (d.conn c).outgoing ≠ none
  let peerSmaller := strcmp (d.conn c).name d.myself < 0
  if (oldOutgoing ∧ newOutgoing) ∨ (¬ oldOutgoing ∧ ¬ newOutgoing) then
    if peerSmaller then
      let d := if oldOutgoing then d.moveOutgoing old c else d
      (graph (d.terminateConnection old false), true)
    else (d.terminateConnection c false, false)
  else if oldOutgoing ∧ ¬ newOutgoing then
    if peerSmaller then (graph ((d.moveOutgoing old c).terminateConnection old false), true)
    else (d.terminateConnection c false, false)
  else
    -- old is incoming, new is outgoing: replaced, whatever the names are
    (graph ((d.setConn c ({ · with outgoing := (d.conn old).outgoing })).terminateConnection old
      false), true)

/-- What an ACK says. -/
structure AckRequest where
  hisport : Text
  weight : ℤ
  options : UInt32

/-- The `sscanf` of `ack_h` -/
def parseAck (request : Text) : Option AckRequest :=
  match (sscanf [.skip (.d none), .space, maxString, .space, .conv (.d none), .space,
      .conv (.x none 32)] request).1 with
  | [.str hisport, .int weight, .uint options] => some ⟨hisport, weight, .ofNat options⟩
  | _ => none

/-- The options of a connection after the peer's were heard. -/
def mergeOptions (c : Conn) (options : UInt32) : UInt32 :=
  let o := if c.options &&& options &&& optionPmtuDiscovery = 0 then
    (c.options &&& ~~~ optionPmtuDiscovery) ||| (options &&& ~~~ optionPmtuDiscovery)
    else c.options ||| options
  match c.configTree.clampMss with
  | none => o
  | some true => o ||| optionClampMss
  | some false => o &&& ~~~ optionClampMss

/-- The edge that stands for an active connection. -/
def Daemon.connectionEdge (c : ConnId) (n : Name) (r : AckRequest) : Edge :=
  let conn := d.conn c
  { fromNode := d.myself
    toNode := n
    address := conn.address.setPort r.hisport
    localAddress :=
      if conn.quicContext then conn.localAddress.setPort d.config.myport else .unspec
    options := conn.options
    weight := (toInt32 (r.weight + conn.estimatedWeight)).tdiv 2
    connection := some c
    reverse := none }

/-- The connection is bound to its node and admits all requests. -/
def Daemon.bindNode (c : ConnId) (n : Name) (r : AckRequest) : Daemon :=
  { d with nodeConnection := update d.nodeConnection n (some c) }.setConn c fun conn =>
    { conn with
      node := some n
      options := mergeOptions conn r.options
      allowRequest := allRequests }

/-- An edge for the connection is made and added. -/
def Daemon.addConnectionEdge (c : ConnId) (n : Name) (r : AckRequest) : Daemon :=
  let (d, e) := d.allocEdge (d.connectionEdge c n r)
  (d.setConn c ({ · with edge := some e })).edgeAdd e

/-- Everyone is told of the edge of connection `c`. -/
def Daemon.announceEdge (c : ConnId) : Daemon :=
  match (d.conn c).edge with
  | none => d
  | some e => d.sendAddEdge (if d.config.tunnelserver then .one c else .everyone) (d.edge e)

/-- The connection `c` to node `n` is activated. -/
def Daemon.activate (c : ConnId) (n : Name) (r : AckRequest) : Daemon :=
  graph ((((d.bindNode c n r).sendEverything c).addConnectionEdge c n r).announceEdge c)

/-- `ack_h` -/
def ackH (c : ConnId) (request : Text) : Daemon × Bool :=
  match parseAck request with
  | none => (d, false)
  | some r =>
      let n := (d.conn c).name
      let d := d.ensureNode n
      match d.nodeConnection n with
      | none => (d.activate c n r, true)
      | some old =>
          if old = c then (d.activate c n r, true)
          else if (d.tieBreak c old).2 then ((d.tieBreak c old).1.activate c n r, true)
          else ((d.tieBreak c old).1, true)

end Tinc
