import TincQuic.Daemon.EdgeIndex
import TincQuic.Daemon.SubnetBuffer

/-!
# ADD_EDGE and ADD_SUBNET from one daemon to another

What `send_add_edge` and `send_add_subnet` of one daemon write, `add_edge_h` and `add_subnet_h` of
another read.  Addresses travel in the numeric form of `getnameinfo`, numbers in that of `printf`.

* `Numeric` is what both rely on of `getnameinfo` and `getaddrinfo`.
* `parseAddEdge_request` and `parseTwoWords_request` read the lines back, with and without the
  optional fields.
* `Welcomes` and `WelcomesSubnet` are the tests by which a receiver decides to learn something.
* **What is learned is what was announced**: `announcements_arrive`.
-/

namespace Tinc

open Bytes CText Comparison Function

/-! ## Addresses and names -/

/-- An IPv4 or an IPv6 address. -/
def SockAddr.Internet : SockAddr → Prop
  | .inet address port => address.length = 4 ∧ port < 2 ^ 16
  | .inet6 address port => address.length = 16 ∧ port < 2 ^ 16
  | _ => False

instance : DecidablePred SockAddr.Internet := fun sa =>
  match sa with
  | .inet _ _ => inferInstanceAs (Decidable (_ ∧ _))
  | .inet6 _ _ => inferInstanceAs (Decidable (_ ∧ _))
  | .unspec => isFalse id
  | .unknown _ _ => isFalse id

/-- Numeric `getnameinfo` writes words that fit into `NI_MAXHOST` and `NI_MAXSERV` bytes, and
`getaddrinfo` is its inverse. -/
structure Numeric (getnameinfo : SockAddr → Text × Text)
    (getaddrinfo : Text → Text → Option SockAddr) : Prop where
  inverse : ∀ sa, sa.Internet →
    getaddrinfo (getnameinfo sa).1 (getnameinfo sa).2 = some sa
  host : ∀ sa, sa.Internet → IsWord (getnameinfo sa).1 ∧ (getnameinfo sa).1.length < 1025
  service : ∀ sa, sa.Internet → IsWord (getnameinfo sa).2 ∧ (getnameinfo sa).2.length < 32

lemma sockaddr2str_internet (d : Daemon) {sa : SockAddr} (h : sa.Internet) :
    d.sockaddr2str sa = d.config.getnameinfo sa := by
  cases sa with
  | unspec => exact absurd h id
  | unknown address port => exact absurd h id
  | inet address port => rfl
  | inet6 address port => rfl

/-- A name is a word. -/
lemma isWord_of_checkId {name : Name} (h : checkId name = true) : IsWord name := by
  simp only [checkId, decide_eq_true_eq, List.all_eq_true] at h
  refine ⟨h.1, fun c hc => ?_⟩
  have halnum : ∀ c : UInt8, isAlnum c ∨ c = 95 → isSpace c = false := by decide +kernel
  exact halnum c (h.2 c hc)

/-- A name that `MAX_STRING` does not cut. -/
def NameFits (name : Name) : Prop := checkId name = true ∧ name.length ≤ 2048

instance (name : Name) : Decidable (NameFits name) := inferInstanceAs (Decidable (_ ∧ _))

lemma NameFits.takes {name : Name} (h : NameFits name) : Takes (maxString, [.str name]) name :=
  takes_string (isWord_of_checkId h.1) h.2

/-! ## The length of a line -/

lemma length_words_le (ws : List Text) :
    (words ws).length ≤ (ws.map fun w => w.length + 1).sum := by
  have hdrop : words ws = (terminated 32 ws).dropLast := intercalate_eq_dropLast ws
  have hlength : (terminated 32 ws).length = (ws.map fun w => w.length + 1).sum := by
    simp [terminated, List.length_flatMap]
  rw [hdrop, List.length_dropLast]
  omega

/-- A line that fits is what the peer gets. -/
lemma send_one (d : Daemon) {c : ConnId} {request : Text} (hlength : request.length < maxBufSize)
    (hc : (d.conn c).canSend = true) :
    (d.send (.one c) request).sent = d.sent ++ [(c, request)] := by
  have hfits : ¬ maxBufSize - 1 < request.length := by omega
  simp only [Daemon.send, Daemon.sendRequest, if_neg hfits, Daemon.sendMeta, hc, if_true]
  split <;> rfl

/-! ## ADD_EDGE -/

/-- An edge between two different nodes with addresses that can be written as numbers. -/
structure Edge.Announceable (e : Edge) : Prop where
  fromNode : NameFits e.fromNode
  toNode : NameFits e.toNode
  ends : e.fromNode ≠ e.toNode
  weight : IsInt e.weight
  address : e.address.Internet
  localAddress : e.localAddress = .unspec ∨ e.localAddress.Internet

/-- What the ADD_EDGE for `e` says. -/
def Daemon.announcement (d : Daemon) (e : Edge) : AddEdge where
  fromName := e.fromNode
  toName := e.toNode
  toAddress := (d.config.getnameinfo e.address).1
  toPort := (d.config.getnameinfo e.address).2
  options := e.options
  weight := e.weight
  localAddress :=
    if e.localAddress = .unspec then none else some (d.config.getnameinfo e.localAddress)

variable {d d' : Daemon} {e : Edge} {nonce : ℕ} {getaddrinfo : Text → Text → Option SockAddr}

/-- The two words of an address. -/
lemma Numeric.takes (h : Numeric d.config.getnameinfo getaddrinfo) {sa : SockAddr}
    (hsa : sa.Internet) :
    Takes (maxString, [.str (d.config.getnameinfo sa).1]) (d.config.getnameinfo sa).1 ∧
      Takes (maxString, [.str (d.config.getnameinfo sa).2]) (d.config.getnameinfo sa).2 := by
  have hhost := h.host sa hsa
  have hservice := h.service sa hsa
  exact ⟨takes_string hhost.1 (by omega), takes_string hservice.1 (by omega)⟩

/-- The number and the nonce of a request are read over. -/
lemma takes_header (r : Request) (hnonce : nonce < 2 ^ 32) :
    Takes (.skip (.d none), []) (decimal r.number) ∧
      Takes (.skip (.x none 32), []) (hex nonce) := by
  have hnumber : IsInt r.number := by
    unfold IsInt
    cases r <;> decide
  exact ⟨(takes_int hnumber).skip, (takes_hex (by decide) hnonce).skip⟩

/-- The words in front of the optional ones. -/
lemma takes_addEdge (hnum : Numeric d.config.getnameinfo getaddrinfo) (he : e.Announceable)
    (hnonce : nonce < 2 ^ 32) :
    List.Forall₂ Takes
      [(.skip (.d none), []), (.skip (.x none 32), []), (maxString, [.str e.fromNode]),
        (maxString, [.str e.toNode]), (maxString, [.str (d.config.getnameinfo e.address).1]),
        (maxString, [.str (d.config.getnameinfo e.address).2]),
        (.conv (.x none 32), [.uint e.options.toNat]), (.conv (.d none), [.int e.weight])]
      [decimal Request.addEdge.number, hex nonce, e.fromNode, e.toNode,
        (d.config.getnameinfo e.address).1, (d.config.getnameinfo e.address).2,
        hex e.options.toNat, decimal e.weight] := by
  obtain ⟨hnumber, hhex⟩ := takes_header .addEdge hnonce
  obtain ⟨hhost, hservice⟩ := hnum.takes he.address
  have hoptions : Takes (.conv (.x none 32), [.uint e.options.toNat]) (hex e.options.toNat) :=
    takes_hex (by decide) e.options.toNat_lt
  exact .cons hnumber (.cons hhex (.cons he.fromNode.takes (.cons he.toNode.takes
    (.cons hhost (.cons hservice (.cons hoptions (.cons (takes_int he.weight) .nil)))))))

/-- The words of an ADD_EDGE -/
lemma addEdgeRequest_eq (he : e.Announceable) : d.addEdgeRequest nonce e =
    [32].intercalate ([decimal Request.addEdge.number, hex nonce, e.fromNode, e.toNode,
      (d.config.getnameinfo e.address).1, (d.config.getnameinfo e.address).2,
      hex e.options.toNat, decimal e.weight] ++
      if e.localAddress = .unspec then []
      else [(d.config.getnameinfo e.localAddress).1, (d.config.getnameinfo e.localAddress).2]) := by
  unfold Daemon.addEdgeRequest
  rw [sockaddr2str_internet d he.address]
  by_cases hl : e.localAddress = .unspec
  · rw [if_pos hl, if_pos hl]
    rfl
  · rw [if_neg hl, if_neg hl, sockaddr2str_internet d (he.localAddress.resolve_left hl)]
    rfl

/-- `add_edge_h` reads what `send_add_edge` wrote, with six parameters or with eight. -/
lemma parseAddEdge_request (hnum : Numeric d.config.getnameinfo getaddrinfo)
    (he : e.Announceable) (hnonce : nonce < 2 ^ 32) :
    parseAddEdge (d.addEdgeRequest nonce e) = some (d.announcement e) := by
  have hfront := takes_addEdge hnum he hnonce
  have hoptions : UInt32.ofNat e.options.toNat = e.options := UInt32.ofNat_toNat
  unfold parseAddEdge Daemon.announcement
  rw [addEdgeRequest_eq he]
  by_cases hl : e.localAddress = .unspec
  · have hread := sscanf_words hfront (by simp) [.space, maxString, .space, maxString]
    rw [if_pos hl, if_pos hl, List.append_nil]
    simp only [requestHeader, List.map_cons, List.map_nil, List.intersperse_cons_cons,
      List.intersperse_singleton, List.cons_append, List.nil_append] at hread ⊢
    rw [hread]
    simp [sscanf, maxString, Conversion.scan, skipSpace]
  · obtain ⟨hhost, hservice⟩ := hnum.takes (he.localAddress.resolve_left hl)
    have hread := sscanf_words (List.rel_append hfront (.cons hhost (.cons hservice .nil)))
      (by simp) []
    rw [if_neg hl, if_neg hl]
    simp only [requestHeader, List.map_cons, List.map_nil, List.intersperse_cons_cons,
      List.intersperse_singleton, List.cons_append, List.nil_append] at hread ⊢
    rw [hread]
    simp [sscanf]

/-- The receiver turns the words back into the addresses. -/
lemma edgeOf_announcement (hnum : Numeric d.config.getnameinfo d'.config.getaddrinfo)
    (he : e.Announceable) :
    d'.edgeOf (d.announcement e) = { e with connection := none, reverse := none } := by
  have haddress := hnum.inverse e.address he.address
  unfold Daemon.edgeOf Daemon.edgeAddresses Daemon.announcement Daemon.str2sockaddr
  dsimp only
  rw [haddress]
  by_cases hl : e.localAddress = .unspec
  · rw [if_pos hl, hl]
    rfl
  · rw [if_neg hl]
    dsimp only [Option.elim_some]
    rw [hnum.inverse e.localAddress (he.localAddress.resolve_left hl)]
    rfl

/-- No line for an edge is too long for `send_request`. -/
lemma length_addEdgeRequest (hnum : Numeric d.config.getnameinfo getaddrinfo)
    (he : e.Announceable) (hnonce : nonce < 2 ^ 32) :
    (d.addEdgeRequest nonce e).length < maxBufSize := by
  have hfrom := he.fromNode.2
  have hto := he.toNode.2
  have hhost := (hnum.host e.address he.address).2
  have hservice := (hnum.service e.address he.address).2
  have hhex : (hex nonce).length ≤ 8 := length_hex_le hnonce
  have hoptions : (hex e.options.toNat).length ≤ 8 := length_hex_le e.options.toNat_lt
  have hweight := length_decimal_int_le he.weight
  have hnumber : (decimal Request.addEdge.number).length = 2 := by decide
  have hle := length_words_le ([decimal Request.addEdge.number, hex nonce, e.fromNode, e.toNode,
      (d.config.getnameinfo e.address).1, (d.config.getnameinfo e.address).2,
      hex e.options.toNat, decimal e.weight] ++
      if e.localAddress = .unspec then []
      else [(d.config.getnameinfo e.localAddress).1, (d.config.getnameinfo e.localAddress).2])
  rw [addEdgeRequest_eq he]
  refine hle.trans_lt ?_
  unfold maxBufSize
  by_cases hl : e.localAddress = .unspec
  · rw [if_pos hl]
    simp only [List.append_nil, List.map_cons, List.map_nil, List.sum_cons, List.sum_nil]
    omega
  · have hlocal := he.localAddress.resolve_left hl
    have hhost' := (hnum.host e.localAddress hlocal).2
    have hservice' := (hnum.service e.localAddress hlocal).2
    rw [if_neg hl]
    simp only [List.cons_append, List.nil_append, List.map_cons, List.map_nil, List.sum_cons,
      List.sum_nil]
    omega

/-- The edge is unknown to `lookup_edge`, if only because the node it starts from is. -/
def Daemon.UnknownEdge (d : Daemon) (fromNode toNode : Name) : Prop :=
  d.lookupNode fromNode = none ∨ d.lookupEdge fromNode toNode = none

/-- The tests of `add_edge_h` before it adds an edge that it does not know. -/
def Daemon.Welcomes (d : Daemon) (c : ConnId) (request : Text) (e : Edge) : Prop :=
  request ∉ d.pastRequests ∧ d.ignoresEdge c e.fromNode e.toNode = false ∧ e.fromNode ≠ d.myself

/-- `d'` has one edge more than `d`, which says what `e` says. -/
structure Daemon.Learned (d d' : Daemon) (e : Edge) : Prop where
  newEdge : d'.newEdge = d.newEdge + 1
  tree : d.newEdge ∈ d'.edgeTree e.fromNode
  fromNode : (d'.edge d.newEdge).fromNode = e.fromNode
  toNode : (d'.edge d.newEdge).toNode = e.toNode
  weight : (d'.edge d.newEdge).weight = e.weight
  options : (d'.edge d.newEdge).options = e.options
  address : (d'.edge d.newEdge).address = e.address
  localAddress : (d'.edge d.newEdge).localAddress = e.localAddress

/-- An edge that `lookup_edge` does not find is added. -/
lemma learned_addNewEdge (hfiled : Filed d) (edge : Edge)
    (hnone : d.lookupEdge edge.fromNode edge.toNode = none) :
    d.Learned (d.addNewEdge edge) edge := by
  have hold : d.lookupEdge edge.fromNode edge.toNode =
      OrdList.search (fun i => strcmp edge.toNode (update d.edge d.newEdge edge i).toNode)
        (d.edgeTree edge.fromNode) := by
    refine OrdList.search_congr fun i hi => ?_
    rw [update_of_ne (hfiled.edge _ i hi).2.ne]
  obtain ⟨tree, htree⟩ := OrdList.exists_insert (hold ▸ hnone) d.newEdge
  have hmem : d.newEdge ∈ tree := (OrdList.mem_insert htree).mpr (.inl rfl)
  have hsaid : ((d.addNewEdge edge).edge d.newEdge).said = edge.said := by
    refine (EdgeIndex.edgeAdd_said _ _ _).trans ?_
    simp [Daemon.allocEdge]
  have heq : d.addNewEdge edge = (({ (d.allocEdge edge).1 with
      edgeTree := update d.edgeTree edge.fromNode tree }).linkReverse d.newEdge).insertWeight
        d.newEdge := by
    unfold Daemon.addNewEdge Daemon.edgeAdd Daemon.allocEdge
    simp only [update_self, htree]
  have hnew : (d.addNewEdge edge).newEdge = d.newEdge + 1 := by
    rw [heq, Daemon.insertWeight, linkReverse_eq]
    rfl
  have htree' : d.newEdge ∈ (d.addNewEdge edge).edgeTree edge.fromNode := by
    rw [heq, Daemon.insertWeight, linkReverse_eq]
    simpa using hmem
  simp only [Edge.said, Edge.mk.injEq, and_true] at hsaid
  obtain ⟨hfrom, hto, haddress, hlocal, hoptions, hweight, -⟩ := hsaid
  exact ⟨hnew, htree', hfrom, hto, hweight, hoptions, haddress, hlocal⟩

lemma Daemon.Learned.of_same {d'' : Daemon} (h : d.Learned d' e) (hs : SameIndexes d' d'') :
    d.Learned d'' e :=
  hs.keeps (P := fun d'' => d.Learned d'' e) (fun _ _ _ _ _ _ _ h => ⟨h.newEdge, h.tree,
    h.fromNode, h.toNode, h.weight, h.options, h.address, h.localAddress⟩) h

/-- The node that an unknown edge starts from has no such edge once it is known. -/
lemma lookupEdge_ensureNode {fromNode toNode : Name} (hunknown : d.UnknownEdge fromNode toNode)
    (hne : fromNode ≠ toNode) :
    ((d.ensureNode fromNode).ensureNode toNode).lookupEdge fromNode toNode = none := by
  have hfrom : (d.ensureNode fromNode).lookupEdge fromNode toNode = none := by
    unfold Daemon.ensureNode
    split
    · simp [Daemon.addNode, Daemon.lookupEdge, OrdList.search]
    · rename_i hknown
      exact hunknown.resolve_left hknown
  generalize d.ensureNode fromNode = d at hfrom ⊢
  unfold Daemon.ensureNode
  split
  · simpa [Daemon.addNode, Daemon.lookupEdge, hne] using hfrom
  · exact hfrom

lemma ensureNode_newEdge (d : Daemon) (n : Name) : (d.ensureNode n).newEdge = d.newEdge := by
  unfold Daemon.ensureNode
  split <;> rfl

/-- A request that was not seen before is remembered, and nothing else happens. -/
lemma seenRequest_new {request : Text} (h : request ∉ d.pastRequests) :
    d.seenRequest request = ({ d with pastRequests := request :: d.pastRequests }, false) := by
  rw [Daemon.seenRequest, if_neg h]

/-- An edge is applied if the tests let it pass. -/
lemma addEdgeH_eq {c : ConnId} {request : Text} {r : AddEdge} (hr : parseAddEdge request = some r)
    (hvalid : validEnds r.fromName r.toName = true) :
    (addEdgeH d c request).2 = true ∧
    (request ∉ d.pastRequests → d.ignoresEdge c r.fromName r.toName = false →
      (addEdgeH d c request).1 = ((({ d with pastRequests := request :: d.pastRequests }).ensureNode
        r.fromName).ensureNode r.toName).applyAddEdge c request r) := by
  unfold addEdgeH
  rw [hr]
  dsimp only
  rw [if_neg (by simp [hvalid])]
  refine ⟨by split <;> rfl, fun hseen hignored => ?_⟩
  rw [seenRequest_new hseen]
  dsimp only
  rw [if_neg]
  simp only [Bool.false_eq_true, false_or]
  exact ne_true_of_eq_false hignored

/-- The line that announces `e` is accepted, and `e` is learned unless a test says no. -/
lemma addEdgeH_announced (hnum : Numeric d.config.getnameinfo d'.config.getaddrinfo)
    (he : e.Announceable) (hnonce : nonce < 2 ^ 32) (hfiled : Filed d') (c : ConnId) :
    (addEdgeH d' c (d.addEdgeRequest nonce e)).2 = true ∧
    (d'.UnknownEdge e.fromNode e.toNode → d'.Welcomes c (d.addEdgeRequest nonce e) e →
      d'.Learned (addEdgeH d' c (d.addEdgeRequest nonce e)).1 e) := by
  have hparse := parseAddEdge_request hnum he hnonce
  have hvalid : validEnds (d.announcement e).fromName (d.announcement e).toName = true := by
    simp only [validEnds, decide_eq_true_eq]
    exact ⟨he.fromNode.1, he.toNode.1, he.ends⟩
  obtain ⟨haccept, happly⟩ := addEdgeH_eq hparse hvalid (d := d') (c := c)
  refine ⟨haccept, ?_⟩
  rintro hunknown ⟨hseen, hignored, hown⟩
  rw [happly hseen hignored]
  generalize d.addEdgeRequest nonce e = request at *
  set d₁ := { d' with pastRequests := request :: d'.pastRequests } with hd₁
  have hfiled₁ : Filed d₁ := hfiled.of_same ⟨_, _, _, _, _, _, _, rfl⟩
  have hnone := lookupEdge_ensureNode (d := d₁) hunknown he.ends
  have hconfig : ((d₁.ensureNode e.fromNode).ensureNode e.toNode).config = d'.config := by
    rw [EdgeIndex.ensureNode_config, EdgeIndex.ensureNode_config]
  have hnew : ((d₁.ensureNode e.fromNode).ensureNode e.toNode).newEdge = d'.newEdge := by
    rw [ensureNode_newEdge, ensureNode_newEdge]
  have hfiled₂ := (hfiled₁.ensureNode e.fromNode).ensureNode e.toNode
  have hends : (d.announcement e).fromName = e.fromNode ∧ (d.announcement e).toName = e.toNode :=
    ⟨rfl, rfl⟩
  rw [hends.1, hends.2]
  generalize (d₁.ensureNode e.fromNode).ensureNode e.toNode = d₂ at *
  have hedge : d₂.edgeOf (d.announcement e) = _ := edgeOf_announcement (hconfig ▸ hnum) he
  have hlearned := learned_addNewEdge hfiled₂ (d₂.edgeOf (d.announcement e)) hnone
  rw [hedge] at hlearned
  unfold Daemon.applyAddEdge
  rw [hends.1, hends.2, hnone]
  dsimp only
  rw [if_neg (by rwa [Daemon.myself, hconfig]), hedge]
  have hsame := (SameIndexes.tellRest (d₂.addNewEdge { e with connection := none, reverse := none })
    c request).trans (SameIndexes.graph _)
  obtain ⟨h1, h2, h3, h4, h5, h6, h7, h8⟩ := hlearned.of_same hsame
  rw [hnew] at h1 h2 h3 h4 h5 h6 h7 h8
  exact ⟨h1, h2, h3, h4, h5, h6, h7, h8⟩

/-! ## ADD_SUBNET -/

/-- The line of `send_add_subnet` -/
def addSubnetRequest (nonce : ℕ) (owner : Name) (s : Subnet) : Text :=
  words [decimal Request.addSubnet.number, hex nonce, owner, net2str s]

variable {s : Subnet} {owner : Name}

/-- A subnet in text is a word. -/
lemma isWord_net2str (h : s.net.Sized) (hweight : IsInt s.weight) : IsWord (net2str s) := by
  have hlength := length_net2str h hweight
  have hread := str2net_net2str h hweight (by omega)
  constructor
  · intro hnil
    rw [hnil] at hread
    have hnone : str2net [] = none := by decide
    rw [hnone] at hread
    cases hread
  · intro c hc
    by_contra hspace
    have hplain : ∀ c : UInt8, isSpace c ≠ false → hexValue c = none ∧ c ≠ 46 ∧ c ≠ 47 ∧ c ≠ 58 ∧
        c ≠ 35 := by decide +kernel
    obtain ⟨hdigit, hdot, hslash, hcolon, hhash⟩ := hplain c hspace
    rw [net2str, List.mem_append] at hc
    rcases hc with hc | hc
    · exact notMem_print h hdigit hdot hslash hcolon hc
    · split at hc
      · cases hc
      · rcases List.mem_cons.mp hc with rfl | hc
        · exact hhash rfl
        · exact hspace ((isWord_decimal s.weight).2 c hc)

/-- `add_subnet_h` reads what `send_add_subnet` wrote. -/
lemma parseTwoWords_request (hs : s.net.Sized) (hweight : IsInt s.weight) (howner : NameFits owner)
    (hnonce : nonce < 2 ^ 32) :
    parseTwoWords (addSubnetRequest nonce owner s) = some (owner, net2str s) := by
  obtain ⟨hnumber, hhex⟩ := takes_header .addSubnet hnonce
  have hlength := length_net2str hs hweight
  have hnet : Takes (maxString, [.str (net2str s)]) (net2str s) :=
    takes_string (isWord_net2str hs hweight) (by omega)
  have hread := sscanf_words (.cons hnumber (.cons hhex (.cons howner.takes (.cons hnet .nil))))
    (by simp) []
  unfold parseTwoWords addSubnetRequest words
  simp only [requestHeader, List.map_cons, List.map_nil, List.intersperse_cons_cons,
    List.intersperse_singleton, List.cons_append, List.nil_append] at hread ⊢
  rw [hread]
  simp [sscanf]

lemma length_addSubnetRequest (hs : s.net.Sized) (hweight : IsInt s.weight)
    (howner : NameFits owner) (hnonce : nonce < 2 ^ 32) :
    (addSubnetRequest nonce owner s).length < maxBufSize := by
  have hname := howner.2
  have hnet := length_net2str hs hweight
  have hhex : (hex nonce).length ≤ 8 := length_hex_le hnonce
  have hnumber : (decimal Request.addSubnet.number).length = 2 := by decide
  refine (length_words_le _).trans_lt ?_
  unfold maxBufSize
  simp only [List.map_cons, List.map_nil, List.sum_cons, List.sum_nil]
  omega

/-- The subnet that a request describes. -/
def Subnet.heard (s : Subnet) : Subnet := { s with owner := none, expires := 0 }

/-- The subnet is unknown to `lookup_subnet`, if only because its owner is. -/
def Daemon.UnknownSubnet (d : Daemon) (owner : Name) (s : Subnet) : Prop :=
  d.lookupNode owner = none ∨ d.lookupSubnet owner s.heard = none

/-- The tests of `add_subnet_h` before it adds a subnet that it does not know. -/
def Daemon.WelcomesSubnet (d : Daemon) (c : ConnId) (request : Text) (owner : Name) : Prop :=
  request ∉ d.pastRequests ∧ d.ignoresSubnet c owner = false ∧ owner ≠ d.myself ∧
    d.config.tunnelserver = false ∧ d.config.strictsubnets = false

/-- `d'` has one subnet more than `d`, which is `s` of this owner. -/
structure Daemon.LearnedSubnet (d d' : Daemon) (owner : Name) (s : Subnet) : Prop where
  newSubnet : d'.newSubnet = d.newSubnet + 1
  tree : d.newSubnet ∈ d'.nodeSubnets owner
  subnet : d'.subnet d.newSubnet = { s with owner := some owner, expires := 0 }

/-- Only the weights decide between two subnets of one network and owner. -/
lemma subnetCompare_owner {a b : Subnet} (hb : b.owner = some owner) :
    subnetCompare { a with owner := some owner } b = subnetCompare { a with owner := none } b := by
  have hrest : compareWeightOwner { a with owner := some owner } b =
      compareWeightOwner { a with owner := none } b := by
    simp [compareWeightOwner, hb, strcmp_eq_zero.mpr]
  unfold subnetCompare
  dsimp only
  rw [hrest]

/-- A subnet that `lookup_subnet` does not find is added. -/
lemma learned_subnetAdd (hfiled : Filed d) (hnone : d.lookupSubnet owner s.heard = none) :
    d.LearnedSubnet (d.subnetAdd (some owner) s.heard) owner s := by
  have hold : d.lookupSubnet owner s.heard = OrdList.search
      (fun i => subnetCompare { s.heard with owner := some owner } (update d.subnet d.newSubnet
        { s.heard with owner := some owner } i)) (d.nodeSubnets owner) := by
    refine OrdList.search_congr fun i hi => ?_
    obtain ⟨howner, hlt⟩ := hfiled.subnet owner i hi
    rw [update_of_ne hlt.ne, subnetCompare_owner howner]
    rfl
  obtain ⟨tree, htree⟩ := OrdList.exists_insert (hold ▸ hnone) d.newSubnet
  have hmem : d.newSubnet ∈ tree := (OrdList.mem_insert htree).mpr (.inl rfl)
  refine ⟨rfl, ?_, by simp [Daemon.subnetAdd, Subnet.heard]⟩
  simp only [Daemon.subnetAdd, Daemon.insertSubnet, Option.elim_some, update_self, htree,
    Option.getD_some]
  exact hmem

/-- `age_subnets` will not meet what was just learned. -/
lemma Daemon.LearnedSubnet.handoff (h : d.LearnedSubnet d' owner s) (s' : Subnet) :
    d.LearnedSubnet (d'.handoff s') owner s := by
  unfold Daemon.handoff
  split
  · split
    · rename_i old _
      split
      · exact h
      · rename_i hexpires
        have hne : d.newSubnet ≠ old := by
          rintro rfl
          rw [h.subnet] at hexpires
          exact hexpires rfl
        exact ⟨h.newSubnet, h.tree, (update_of_ne hne _ _).trans h.subnet⟩
    · exact h
  · exact h

lemma lookupSubnet_ensureNode (h : d.UnknownSubnet owner s) :
    (d.ensureNode owner).lookupSubnet owner s.heard = none := by
  unfold Daemon.ensureNode
  split
  · simp [Daemon.addNode, Daemon.lookupSubnet, OrdList.search]
  · rename_i hknown
    exact h.resolve_left hknown

lemma ensureNode_newSubnet (d : Daemon) (n : Name) :
    (d.ensureNode n).newSubnet = d.newSubnet := by
  unfold Daemon.ensureNode
  split <;> rfl

/-- A subnet is applied if the tests let it pass. -/
lemma addSubnetH_eq {c : ConnId} {request str : Text}
    (hparse : parseTwoWords request = some (owner, str)) (howner : checkId owner = true)
    (hread : str2net str = some s) :
    (addSubnetH d c request).2 = true ∧
    (request ∉ d.pastRequests → d.ignoresSubnet c owner = false →
      (addSubnetH d c request).1 =
        (({ d with pastRequests := request :: d.pastRequests }).ensureNode owner).applyAddSubnet c
          request owner s) := by
  unfold addSubnetH
  rw [hparse]
  dsimp only
  rw [if_neg (by simp [howner]), hread]
  dsimp only
  refine ⟨by split <;> rfl, fun hseen hignored => ?_⟩
  rw [seenRequest_new hseen]
  dsimp only
  rw [if_neg]
  simp only [Bool.false_eq_true, false_or]
  exact ne_true_of_eq_false hignored

/-- The line that announces `s` is accepted, and `s` is learned unless a test says no. -/
lemma addSubnetH_announced (hs : s.net.Sized) (hweight : IsInt s.weight) (howner : NameFits owner)
    (hnonce : nonce < 2 ^ 32) (hfiled : Filed d) (c : ConnId) :
    (addSubnetH d c (addSubnetRequest nonce owner s)).2 = true ∧
    (d.UnknownSubnet owner s → d.WelcomesSubnet c (addSubnetRequest nonce owner s) owner →
      d.LearnedSubnet (addSubnetH d c (addSubnetRequest nonce owner s)).1 owner s) := by
  have hlength := length_net2str hs hweight
  have hread : str2net (net2str s) = some s.heard := str2net_net2str hs hweight (by omega)
  obtain ⟨haccept, happly⟩ := addSubnetH_eq (d := d) (c := c)
    (parseTwoWords_request hs hweight howner hnonce) howner.1 hread
  refine ⟨haccept, ?_⟩
  rintro hunknown ⟨hseen, hignored, hown, htunnel, hstrict⟩
  rw [happly hseen hignored]
  generalize addSubnetRequest nonce owner s = request at *
  set d₁ := { d with pastRequests := request :: d.pastRequests } with hd₁
  have hfiled₁ : Filed d₁ := hfiled.of_same ⟨_, _, _, _, _, _, _, rfl⟩
  have hnone := lookupSubnet_ensureNode (d := d₁) hunknown
  have hconfig : (d₁.ensureNode owner).config = d.config := EdgeIndex.ensureNode_config d₁ owner
  have hnew : (d₁.ensureNode owner).newSubnet = d.newSubnet := ensureNode_newSubnet d₁ owner
  have hfiled₂ := hfiled₁.ensureNode owner
  generalize d₁.ensureNode owner = d₂ at *
  have hlearned := learned_subnetAdd hfiled₂ hnone
  have hsame := SameIndexes.tellRest (d₂.subnetAdd (some owner) s.heard) c request
  have hlearned' := hsame.keeps (P := fun d' => d₂.LearnedSubnet d' owner s)
    (fun _ _ _ _ _ _ _ h => ⟨h.newSubnet, h.tree, h.subnet⟩) hlearned
  unfold Daemon.applyAddSubnet
  rw [if_neg (by simp [hnone]), if_neg (by rwa [Daemon.myself, hconfig]),
    if_neg (by simp [hconfig, htunnel]), if_neg (by simp [hconfig, hstrict])]
  obtain ⟨h1, h2, h3⟩ := hlearned'.handoff s.heard
  rw [hnew] at h1 h2 h3
  exact ⟨h1, h2, h3⟩

/-! ## From one daemon to another -/

/-- **Whatever edge or subnet a daemon announces, the line is sent as it is, it is accepted, and a
receiver that does not know it yet learns it unchanged**, unless one of its tests says no: the line
was seen before, a tunnel server does not ask for it, strict subnets forbid it, or it is the
receiver's own. -/
theorem announcements_arrive (sender receiver : Daemon) (c k : ConnId)
    (hnum : Numeric sender.config.getnameinfo receiver.config.getaddrinfo)
    (hrand : ∀ i, sender.rand i < 2 ^ 31) (hk : (sender.conn k).canSend = true)
    (hfiled : Filed receiver) :
    (∀ e : Edge, e.Announceable →
      ∃ line, (sender.sendAddEdge (.one k) e).sent = sender.sent ++ [(k, line)] ∧
        (addEdgeH receiver c line).2 = true ∧
        (receiver.UnknownEdge e.fromNode e.toNode → receiver.Welcomes c line e →
          receiver.Learned (addEdgeH receiver c line).1 e)) ∧
    (∀ (s : Subnet) (owner : Name), s.net.Sized → IsInt s.weight → NameFits owner →
      ∃ line, (sender.sendSubnet .addSubnet k owner s).sent = sender.sent ++ [(k, line)] ∧
        (addSubnetH receiver c line).2 = true ∧
        (receiver.UnknownSubnet owner s → receiver.WelcomesSubnet c line owner →
          receiver.LearnedSubnet (addSubnetH receiver c line).1 owner s)) := by
  have hnonce : sender.rand sender.drawn < 2 ^ 32 := (hrand _).trans (by decide)
  constructor
  · intro e he
    exact ⟨_, send_one sender.draw.1 (length_addEdgeRequest hnum he hnonce) hk,
      addEdgeH_announced hnum he hnonce hfiled c⟩
  · intro s owner hs hweight howner
    exact ⟨_, send_one sender.draw.1 (length_addSubnetRequest hs hweight howner hnonce) hk,
      addSubnetH_announced hs hweight howner hnonce hfiled c⟩

/-- Numeric `getnameinfo`, which writes addresses as `net2str` does -/
def numericName : SockAddr → Text × Text
  | .inet address port => (Net.print (.ipv4 address 32), decimal port)
  | .inet6 address port => (Net.print (.ipv6 address 128), decimal port)
  | _ => ([], [])

/-- Numeric `getaddrinfo` -/
def numericAddress (host service : Text) : Option SockAddr := do
  let s ← str2net host
  let port ← scanWholeInt service
  match s.net with
  | .ipv4 address 32 => some (.inet address port.toNat)
  | .ipv6 address 128 => some (.inet6 address port.toNat)
  | _ => none

/-- A network without a weight in its text. -/
def Net.alone (net : Net) : Subnet := { owner := none, net, weight := defaultWeight, expires := 0 }

lemma net2str_alone (net : Net) : net2str net.alone = net.print := by
  simp [net2str, Net.alone]

lemma isInt_defaultWeight : IsInt defaultWeight := by
  unfold IsInt defaultWeight
  omega

/-- The text of a network is a short word that `str2net` reads. -/
lemma print_alone (net : Net) (h : net.Sized) :
    str2net net.print = some net.alone ∧ IsWord net.print ∧ net.print.length < 1025 := by
  have hlength := length_net2str (s := net.alone) h isInt_defaultWeight
  have hread := str2net_net2str (s := net.alone) h isInt_defaultWeight (by omega)
  have hword := isWord_net2str (s := net.alone) h isInt_defaultWeight
  rw [net2str_alone] at hlength hread hword
  exact ⟨hread, hword, by omega⟩

/-- The text of a port is a short word that is read as a number. -/
lemma decimal_port {port : ℕ} (h : port < 2 ^ 16) :
    scanWholeInt (decimal port) = some (port : ℤ) ∧ (decimal port).length < 32 := by
  have hint : IsInt port := by
    unfold IsInt
    omega
  have hlength := length_decimal_int_le hint
  exact ⟨scanWholeInt_decimal hint, by omega⟩

lemma numeric_net2str : Numeric numericName numericAddress := by
  have hboth : ∀ sa : SockAddr, sa.Internet →
      numericAddress (numericName sa).1 (numericName sa).2 = some sa ∧
      (IsWord (numericName sa).1 ∧ (numericName sa).1.length < 1025) ∧
      (IsWord (numericName sa).2 ∧ (numericName sa).2.length < 32) := by
    intro sa hsa
    cases sa with
    | unspec => exact absurd hsa id
    | unknown address port => exact absurd hsa id
    | inet address port =>
        obtain ⟨hread, hword⟩ := print_alone (.ipv4 address 32) ⟨hsa.1, le_refl 32⟩
        obtain ⟨hport, hlength⟩ := decimal_port hsa.2
        exact ⟨by simp [numericName, numericAddress, hread, hport, Net.alone], hword,
          isWord_decimal port, hlength⟩
    | inet6 address port =>
        obtain ⟨hread, hword⟩ := print_alone (.ipv6 address 128) ⟨hsa.1, le_refl 128⟩
        obtain ⟨hport, hlength⟩ := decimal_port hsa.2
        exact ⟨by simp [numericName, numericAddress, hread, hport, Net.alone], hword,
          isWord_decimal port, hlength⟩
  exact ⟨fun sa h => (hboth sa h).1, fun sa h => (hboth sa h).2.1, fun sa h => (hboth sa h).2.2⟩

/-- A daemon of this name that knows only itself. -/
def alone (name : Name) : Daemon :=
  .init { Config.plain name with getnameinfo := numericName, getaddrinfo := numericAddress }
    fun _ => 7

/-- An edge with a negative weight and a local IPv6 address. -/
def edgeBetween (fromNode toNode : Name) : Edge where
  fromNode := fromNode
  toNode := toNode
  address := .inet [192, 0, 2, 1] 655
  localAddress := .inet6 [254, 128, 0, 0, 0, 0, 0, 0, 0, 0, 0, 0, 0, 0, 0, 7] 655
  options := 4294967295
  weight := -5
  connection := none
  reverse := none

lemma announceable_edgeBetween (fromNode toNode : Name) (hfrom : NameFits fromNode)
    (hto : NameFits toNode) (hne : fromNode ≠ toNode) :
    (edgeBetween fromNode toNode).Announceable := by
  have hweight : IsInt (-5) := ⟨by decide, by decide⟩
  exact ⟨hfrom, hto, hne, hweight, ⟨rfl, by decide⟩, .inr ⟨rfl, by decide⟩⟩

/-- `a` tells `b` of an edge to `c` and of a MAC address. -/
theorem announcements_arrive_alone :
    (∃ line, ((alone (ascii "a")).sendAddEdge (.one 0)
        (edgeBetween (ascii "a") (ascii "c"))).sent = [(0, line)] ∧
      (addEdgeH (alone (ascii "b")) 0 line).2 = true ∧
      (alone (ascii "b")).Learned (addEdgeH (alone (ascii "b")) 0 line).1
        (edgeBetween (ascii "a") (ascii "c"))) ∧
    (∃ line, ((alone (ascii "a")).sendSubnet .addSubnet 0 (ascii "a")
        (Net.alone (.mac [2, 0, 0, 0, 0, 1]))).sent = [(0, line)] ∧
      (addSubnetH (alone (ascii "b")) 0 line).2 = true ∧
      (alone (ascii "b")).LearnedSubnet (addSubnetH (alone (ascii "b")) 0 line).1 (ascii "a")
        (Net.alone (.mac [2, 0, 0, 0, 0, 1]))) := by
  have h := announcements_arrive (alone (ascii "a")) (alone (ascii "b")) 0 0 numeric_net2str
    (fun _ => show 7 < 2 ^ 31 by decide) rfl (.init _ _)
  obtain ⟨line, hsent, haccept, hlearned⟩ := h.1 _ (announceable_edgeBetween
    (ascii "a") (ascii "c") (by decide) (by decide) (by decide))
  obtain ⟨line', hsent', haccept', hlearned'⟩ := h.2 (Net.alone (.mac [2, 0, 0, 0, 0, 1]))
    (ascii "a") (by decide) isInt_defaultWeight (by decide)
  have hseen : ∀ line, line ∉ (alone (ascii "b")).pastRequests := by simp [alone, Daemon.init]
  exact ⟨⟨line, hsent, haccept, hlearned (.inl (by decide)) ⟨hseen line, by decide, by decide⟩⟩,
    line', hsent', haccept',
    hlearned' (.inl (by decide)) ⟨hseen line', by decide, by decide, rfl, rfl⟩⟩

/-- A daemon does not learn an edge of its own that it does not know: it contradicts. -/
theorem own_edge_not_learned : ¬ ∀ (sender receiver : Daemon) (c : ConnId),
    Numeric sender.config.getnameinfo receiver.config.getaddrinfo →
    (∀ i, sender.rand i < 2 ^ 31) → Filed receiver → ∀ e : Edge, e.Announceable →
    receiver.UnknownEdge e.fromNode e.toNode →
    (addEdgeH receiver c (sender.addEdgeRequest (sender.rand sender.drawn) e)).2 = true ∧
      receiver.Learned
        (addEdgeH receiver c (sender.addEdgeRequest (sender.rand sender.drawn) e)).1 e := by
  intro hall
  have h := hall (alone (ascii "a")) (alone (ascii "b")) 0 numeric_net2str
    (fun _ => show 7 < 2 ^ 31 by decide) (.init _ _) _
    (announceable_edgeBetween (ascii "b") (ascii "a") (by decide) (by decide) (by decide))
    (.inr (by decide))
  exact absurd h.2.newEdge (by decide +kernel)

end Tinc
