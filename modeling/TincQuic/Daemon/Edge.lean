import TincQuic.Daemon.Graph
import TincQuic.Protocol.Request

/-!
# `edge.c` and `protocol_edge.c`

Edges are kept in two indexes, the `edge_tree` of the node they start from and
`edge_weight_tree`, and every edge points to its reverse.

* `edgeAdd` and `edgeDel` maintain the indexes.
* `addEdgeH` and `delEdgeH` are the handlers of ADD_EDGE and DEL_EDGE.
-/

namespace Tinc

open Bytes CText Function

variable (d : Daemon)

/-! ## `edge.c` -/

/-- `edge_weight_compare`; the difference of the weights is that of 32-bit numbers. -/
def edgeWeightCompare (a b : Edge) : ℤ :=
  let result := toInt32 (a.weight - b.weight)
  if result ≠ 0 then result
  else
    let result := strcmp a.fromNode b.fromNode
    if result ≠ 0 then result else strcmp a.toNode b.toNode

/-- `lookup_edge` -/
def Daemon.lookupEdge (fromNode toNode : Name) : Option EdgeId :=
  OrdList.search (fun e => strcmp toNode (d.edge e).toNode) (d.edgeTree fromNode)

/-- `new_edge` with its fields filled in. -/
def Daemon.allocEdge (edge : Edge) : Daemon × EdgeId :=
  ({ d with edge := update d.edge d.newEdge edge, newEdge := d.newEdge + 1 }, d.newEdge)

/-- The edge `e` and its reverse are made to point to each other. -/
def Daemon.linkReverse (e : EdgeId) : Daemon :=
  let reverse := d.lookupEdge (d.edge e).toNode (d.edge e).fromNode
  let d := d.setEdge e ({ · with reverse := reverse })
  match reverse with
  | none => d
  | some r => d.setEdge r ({ · with reverse := some e })

/-- `splay_insert (edge_weight_tree, e)` -/
def Daemon.insertWeight (e : EdgeId) : Daemon :=
  { d with
    edgeWeightTree :=
      (OrdList.insert (fun i => edgeWeightCompare (d.edge e) (d.edge i)) e d.edgeWeightTree).getD
        d.edgeWeightTree }

/-- `edge_add` -/
def Daemon.edgeAdd (e : EdgeId) : Daemon :=
  let fromNode := (d.edge e).fromNode
  match OrdList.insert (fun i => strcmp (d.edge e).toNode (d.edge i).toNode) e
      (d.edgeTree fromNode) with
  | none => d
  | some tree =>
      (({ d with edgeTree := update d.edgeTree fromNode tree }).linkReverse e).insertWeight e

/-- The reverse of `e` forgets `e`. -/
def Daemon.unlinkReverse (e : EdgeId) : Daemon :=
  match (d.edge e).reverse with
  | none => d
  | some r => d.setEdge r ({ · with reverse := none })

/-- `splay_delete (edge_weight_tree, e)` -/
def Daemon.deleteWeight (e : EdgeId) : Daemon :=
  { d with
    edgeWeightTree :=
      OrdList.delete (fun i => edgeWeightCompare (d.edge e) (d.edge i)) d.edgeWeightTree }

/-- `edge_del` -/
def Daemon.edgeDel (e : EdgeId) : Daemon :=
  let d := (d.unlinkReverse e).deleteWeight e
  let fromNode := (d.edge e).fromNode
  { d with
    edgeTree := update d.edgeTree fromNode
      (OrdList.delete (fun i => strcmp (d.edge e).toNode (d.edge i).toNode)
        (d.edgeTree fromNode)) }

/-! ## ADD_EDGE and DEL_EDGE on the wire -/

/-- The request that `send_add_edge` writes. -/
def Daemon.addEdgeRequest (nonce : ℕ) (e : Edge) : Text :=
  let (address, port) := d.sockaddr2str e.address
  words ([decimal Request.addEdge.number, hex nonce, e.fromNode, e.toNode, address, port,
      hex e.options.toNat, decimal e.weight] ++
    if e.localAddress = .unspec then []
    else [(d.sockaddr2str e.localAddress).1, (d.sockaddr2str e.localAddress).2])

/-- `send_add_edge` -/
def Daemon.sendAddEdge (target : Target) (e : Edge) : Daemon :=
  let (d, nonce) := d.draw
  d.send target (d.addEdgeRequest nonce e)

/-- The request that `send_del_edge` writes. -/
def delEdgeRequest (nonce : ℕ) (fromNode toNode : Name) : Text :=
  words [decimal Request.delEdge.number, hex nonce, fromNode, toNode]

/-- `send_del_edge` -/
def Daemon.sendDelEdge (target : Target) (fromNode toNode : Name) : Daemon :=
  let (d, nonce) := d.draw
  d.send target (delEdgeRequest nonce fromNode toNode)

/-- `MAX_STRING` -/
def maxString : Directive := .conv (.s 2048)

/-- `"%*d %*x "`, the number and the nonce of a request. -/
def requestHeader : List Directive := [.skip (.d none), .space, .skip (.x none 32), .space]

/-- What an ADD_EDGE says. -/
structure AddEdge where
  fromName : Name
  toName : Name
  toAddress : Text
  toPort : Text
  options : UInt32
  weight : ℤ
  /-- the local address and its port -/
  localAddress : Option (Text × Text)

/-- The `sscanf` of `add_edge_h`, which accepts six or eight parameters. -/
def parseAddEdge (request : Text) : Option AddEdge :=
  let format := requestHeader ++ [maxString, .space, maxString, .space, maxString, .space,
    maxString, .space, .conv (.x none 32), .space, .conv (.d none), .space, maxString, .space,
    maxString]
  match (sscanf format request).1 with
  | [.str fromName, .str toName, .str toAddress, .str toPort, .uint options, .int weight] =>
      some ⟨fromName, toName, toAddress, toPort, .ofNat options, weight, none⟩
  | [.str fromName, .str toName, .str toAddress, .str toPort, .uint options, .int weight,
      .str addressLocal, .str portLocal] =>
      some ⟨fromName, toName, toAddress, toPort, .ofNat options, weight,
        some (addressLocal, portLocal)⟩
  | _ => none

/-- The `sscanf` of `del_edge_h`, and of other requests with two words. -/
def parseTwoWords (request : Text) : Option (Text × Text) :=
  match (sscanf (requestHeader ++ [maxString, .space, maxString]) request).1 with
  | [.str a, .str b] => some (a, b)
  | _ => none

/-- Both names are valid and they differ. -/
def validEnds (fromName toName : Name) : Bool :=
  checkId fromName ∧ checkId toName ∧ fromName ≠ toName

/-- A tunnel server ignores edges that neither end at itself nor at the peer. -/
def Daemon.ignoresEdge (c : ConnId) (fromName toName : Name) : Bool :=
  d.config.tunnelserver ∧
    d.lookupNode fromName ≠ some d.myself ∧ d.lookupNode fromName ≠ (d.conn c).node ∧
    d.lookupNode toName ≠ some d.myself ∧ d.lookupNode toName ≠ (d.conn c).node

/-- Tell the rest, unless we are a tunnel server. -/
def Daemon.tellRest (c : ConnId) (request : Text) : Daemon :=
  if d.config.tunnelserver then d else d.forwardRequest c request

/-! ## `add_edge_h` -/

/-- The two addresses of an ADD_EDGE after conversion. -/
def Daemon.edgeAddresses (r : AddEdge) : SockAddr × SockAddr :=
  (d.str2sockaddr r.toAddress r.toPort,
    r.localAddress.elim .unspec fun (address, port) => d.str2sockaddr address port)

/-- A local address is taken over only if it was sent, could be converted, and is new. -/
def newLocalAddress (e : Edge) (localAddress : SockAddr) : Bool :=
  localAddress ≠ .unspec ∧ ¬ localAddress.isUnknown ∧ e.localAddress ≠ localAddress

/-- The existing entry says what the request says. -/
def Daemon.matchesEntry (e : Edge) (r : AddEdge) : Bool :=
  e.weight = r.weight ∧ e.options = r.options ∧ e.address = (d.edgeAddresses r).1 ∧
    ¬ newLocalAddress e (d.edgeAddresses r).2

/-- The weight of `e` changes, and its place in `edge_weight_tree` with it. -/
def Daemon.changeWeight (e : EdgeId) (weight : ℤ) : Daemon :=
  if (d.edge e).weight = weight then d
  else
    match OrdList.search (fun i => edgeWeightCompare (d.edge e) (d.edge i)) d.edgeWeightTree with
    | none => d.setEdge e ({ · with weight := weight })
    | some node => ((d.deleteWeight e).setEdge e ({ · with weight := weight })).insertWeight node

/-- The entry takes over what the request says. -/
def Daemon.changeEdge (e : EdgeId) (r : AddEdge) : Daemon :=
  (d.setEdge e fun edge =>
    { edge with
      options := r.options
      address := (d.edgeAddresses r).1
      localAddress :=
        if newLocalAddress edge (d.edgeAddresses r).2 then (d.edgeAddresses r).2
        else edge.localAddress }).changeWeight e r.weight

/-- The edge that a request describes. -/
def Daemon.edgeOf (r : AddEdge) : Edge :=
  { fromNode := r.fromName, toNode := r.toName, address := (d.edgeAddresses r).1,
    localAddress := (d.edgeAddresses r).2, options := r.options, weight := r.weight,
    connection := none, reverse := none }

/-- `new_edge` and `edge_add` -/
def Daemon.addNewEdge (edge : Edge) : Daemon :=
  (d.allocEdge edge).1.edgeAdd (d.allocEdge edge).2

/-- What `add_edge_h` does with an edge that it has no quarrel with. -/
def Daemon.applyAddEdge (c : ConnId) (request : Text) (r : AddEdge) : Daemon :=
  match d.lookupEdge r.fromName r.toName with
  | some e =>
      if d.matchesEntry (d.edge e) r then d
      else if r.fromName = d.myself then d.sendAddEdge (.one c) (d.edge e)
      else graph ((d.changeEdge e r).tellRest c request)
  | none =>
      if r.fromName = d.myself then
        { d with contradictingAddEdge := d.contradictingAddEdge + 1 }.sendDelEdge (.one c)
          r.fromName r.toName
      else graph ((d.addNewEdge (d.edgeOf r)).tellRest c request)

/-- `add_edge_h` -/
def addEdgeH (c : ConnId) (request : Text) : Daemon × Bool :=
  match parseAddEdge request with
  | none => (d, false)
  | some r =>
      if ¬ validEnds r.fromName r.toName then (d, false)
      else
        let (d, seen) := d.seenRequest request
        if seen ∨ d.ignoresEdge c r.fromName r.toName then (d, true)
        else (((d.ensureNode r.fromName).ensureNode r.toName).applyAddEdge c request r, true)

/-- A request is rejected, or ignored but remembered, or applied once the two nodes are known. -/
lemma addEdgeH_cases (c : ConnId) (request : Text) :
    addEdgeH d c request = (d, false) ∨
    addEdgeH d c request = ((d.seenRequest request).1, true) ∨
    ∃ r, parseAddEdge request = some r ∧ validEnds r.fromName r.toName ∧
      (d.seenRequest request).2 = false ∧
      addEdgeH d c request = ((((d.seenRequest request).1.ensureNode r.fromName).ensureNode
        r.toName).applyAddEdge c request r, true) := by
  unfold addEdgeH
  cases hr : parseAddEdge request with
  | none => exact .inl rfl
  | some r =>
      dsimp only
      by_cases hv : validEnds r.fromName r.toName
      · rw [if_neg (by simp [hv])]
        split
        · exact .inr (.inl rfl)
        · rename_i hn
          exact .inr (.inr ⟨r, rfl, hv, by simpa using fun h => hn (.inl h), rfl⟩)
      · exact .inl (by rw [if_pos hv])

/-! ## `del_edge_h` -/

/-- If node `n` is not reachable any more but had an edge to us, that edge is cleaned up. -/
def Daemon.cleanUp (n : Name) : Daemon :=
  if (d.node n).reachable then d
  else
    match d.lookupEdge n d.myself with
    | none => d
    | some e =>
        (if d.config.tunnelserver then d
          else d.sendDelEdge .everyone (d.edge e).fromNode (d.edge e).toNode).edgeDel e

/-- What `del_edge_h` does with an edge between two nodes it knows. -/
def Daemon.applyDelEdge (c : ConnId) (request : Text) (fromName toName : Name) : Daemon :=
  match d.lookupEdge fromName toName with
  | none => d
  | some e =>
      if (d.edge e).fromNode = d.myself then
        { d with contradictingDelEdge := d.contradictingDelEdge + 1 }.sendAddEdge (.one c)
          (d.edge e)
      else (graph ((d.tellRest c request).edgeDel e)).cleanUp toName

/-- `del_edge_h` -/
def delEdgeH (c : ConnId) (request : Text) : Daemon × Bool :=
  match parseTwoWords request with
  | none => (d, false)
  | some (fromName, toName) =>
      if ¬ validEnds fromName toName then (d, false)
      else
        let (d, seen) := d.seenRequest request
        if seen ∨ d.ignoresEdge c fromName toName then (d, true)
        else if d.lookupNode fromName = none ∨ d.lookupNode toName = none then (d, true)
        else (d.applyDelEdge c request fromName toName, true)

/-- A request is rejected, or ignored but remembered, or applied if both nodes are known. -/
lemma delEdgeH_cases (c : ConnId) (request : Text) :
    delEdgeH d c request = (d, false) ∨
    delEdgeH d c request = ((d.seenRequest request).1, true) ∨
    ∃ fromName toName, parseTwoWords request = some (fromName, toName) ∧
      validEnds fromName toName ∧ (d.seenRequest request).2 = false ∧
      d.lookupNode fromName ≠ none ∧ d.lookupNode toName ≠ none ∧
      delEdgeH d c request =
        ((d.seenRequest request).1.applyDelEdge c request fromName toName, true) := by
  have hl : ∀ n, (d.seenRequest request).1.lookupNode n = d.lookupNode n := by
    intro n
    unfold Daemon.seenRequest
    split <;> rfl
  unfold delEdgeH
  cases hr : parseTwoWords request with
  | none => exact .inl rfl
  | some ft =>
      obtain ⟨fromName, toName⟩ := ft
      dsimp only
      by_cases hv : validEnds fromName toName
      · rw [if_neg (by simp [hv])]
        split
        · exact .inr (.inl rfl)
        · rename_i hn
          split
          · exact .inr (.inl rfl)
          · rename_i hk
            rw [hl, hl, not_or] at hk
            exact .inr (.inr ⟨fromName, toName, rfl, hv, by simpa using fun h => hn (.inl h), hk.1,
              hk.2, rfl⟩)
      · exact .inl (by rw [if_pos hv])

end Tinc
