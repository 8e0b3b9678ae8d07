import TincQuic.Daemon.Edge

/-!
# `subnet_parse.c`, `subnet.c` and `protocol_subnet.c`

A subnet is kept in the global `subnet_tree` and in the tree of its owner.

* `str2net` and `net2str` read and write a subnet.
* `subnetCompare` orders the trees; a subnet without an owner compares equal to the same subnet
  of any owner.
* `addSubnetH` and `delSubnetH` are the handlers of ADD_SUBNET and DEL_SUBNET.
-/

namespace Tinc

open Bytes CText Function

/-! ## Reading a subnet -/

/-- `DEFAULT_WEIGHT` -/
def defaultWeight : ℤ := 10

/-- `"%d%n"` with nothing behind the number. -/
def scanWholeInt (t : Text) : Option ℤ :=
  match sscanf [.conv (.d none)] t with
  | ([.int n], []) => some n
  | _ => none

/-- A text cut at the first `separator`; the part behind it is an integer, if it is there. -/
def cutInt (separator : UInt8) (t : Text) : Option (Text × Option ℤ) :=
  let str := t.takeWhile (· ≠ separator)
  match t.drop str.length with
  | [] => some (str, none)
  | _ :: rest => (scanWholeInt rest).map fun n => (str, some n)

/-- `count` conversions with `separator` between them. -/
def fields (k : Conversion) (separator : UInt8) (count : ℕ) : List Directive :=
  (List.replicate count (Directive.conv k)).intersperse (.lit separator)

/-- The numbers that a format stored. -/
def uints : List Item → List ℕ :=
  List.filterMap fun
    | .uint n => some n
    | _ => none

/-- Exactly `count` numbers, with nothing behind them. -/
def scanFields (k : Conversion) (separator : UInt8) (count : ℕ) (t : Text) : Option (List ℕ) :=
  let (items, rest) := sscanf (fields k separator count) t
  if items.length = count ∧ rest = [] then some (uints items) else none

/-- `"%hx"` and `"%hu"` -/
def shortHex : Conversion := .x none 16
def shortDec : Conversion := .u none 16

/-- `"%02x"` of a byte -/
def hexByte (n : ℕ) : Text := [digitByte (n / 16), digitByte (n % 16)]

/-- The number of parts between colons. -/
def countGroups : Text → ℕ
  | [] => 0
  | c :: t => (if c ≠ 58 ∧ (t = [] ∨ t.head? = some 58) then 1 else 0) + countGroups t

/-- The text before the first double colon and the text behind it. -/
def splitDoubleColon : Text → Option (Text × Text)
  | [] => none
  | [_] => none
  | a :: b :: t =>
      if a = 58 ∧ b = 58 then some ([], t)
      else (splitDoubleColon (b :: t)).map fun (before, rest) => (a :: before, rest)

/-- The text before the last colon, and the text from that colon on. -/
def splitLastColon (t : Text) : Option (Text × Text) :=
  let tail := (t.reverse.takeWhile (· ≠ 58)).reverse
  if tail.length = t.length then none
  else some (t.take (t.length - tail.length - 1), t.drop (t.length - tail.length - 1))

/-- A dotted quad behind the last colon is turned into standard notation. -/
def expandQuad (str : Text) : Option Text :=
  match splitLastColon str with
  | none => some str
  | some (before, fromColon) =>
      match scanFields shortDec 46 4 fromColon.tail with
      | some [a, b, c, d] =>
          if 255 < a ∨ 255 < b ∨ 255 < c ∨ 255 < d then none
          else
            some ((before ++ 58 :: hexByte a ++ hexByte b ++ 58 :: hexByte c ++ hexByte d).take
              1023)
      | _ => some str

/-- A double colon is replaced by the zero groups that it stands for, and colons at either end are
removed. -/
def expandZeros (str : Text) : Option Text :=
  match splitDoubleColon str with
  | none => some str
  | some (before, rest) =>
      if 8 < countGroups str + 1 then none
      else
        let zeros := (List.replicate (8 - countGroups str) [48, 58]).flatten
        let str := before ++ 58 :: zeros ++ rest
        let str := if str.head? = some 58 then str.tail else str
        some (if str.getLast? = some 58 then str.dropLast else str)

/-- The 16 bytes of eight groups in network order. -/
def groupBytes (groups : List ℕ) : List UInt8 :=
  groups.flatMap fun x => [UInt8.ofNat (x / 256), UInt8.ofNat (x % 256)]

/-- The network part of a subnet without its weight and prefix length. -/
def str2address (str : Text) (prefixlength : Option ℕ) : Option Net :=
  match scanFields shortHex 58 6 str with
  | some x => if prefixlength.isSome then none else some (.mac (x.map UInt8.ofNat))
  | none =>
      match scanFields shortDec 46 4 str with
      | some x =>
          if 32 < prefixlength.getD 32 ∨ x.any (255 < ·) then none
          else some (.ipv4 (x.map UInt8.ofNat) (prefixlength.getD 32))
      | none => do
          let str ← expandQuad str
          let str ← expandZeros str
          let x ← scanFields shortHex 58 8 str
          if 128 < prefixlength.getD 128 then none
          else some (.ipv6 (groupBytes x) (prefixlength.getD 128))

/-- `str2net`; the text is cut to the 1023 bytes that its buffer holds. -/
def str2net (subnetstr : Text) : Option Subnet := do
  let (str, weight) ← cutInt 35 (subnetstr.take 1023)
  let (str, prefixlength) ← cutInt 47 str
  if prefixlength.any (· < 0) then none
  else
    let net ← str2address str (prefixlength.map Int.toNat)
    some { owner := none, net := net, weight := weight.getD defaultWeight, expires := 0 }

/-! ## Writing a subnet -/

/-- The longest run of zero groups: where it begins and how long it is.  `i` is the position of the
next group, `current` the run that ends before it. -/
def longestZeros : ℕ → List ℕ → ℕ × ℕ → ℕ × ℕ → ℕ × ℕ
  | _, [], _, best => best
  | i, x :: groups, current, best =>
      if x ≠ 0 then longestZeros (i + 1) groups (0, 0) best
      else
        let current := if current.2 = 0 then (i, 1) else (current.1, current.2 + 1)
        longestZeros (i + 1) groups current (if best.2 < current.2 then current else best)

/-- The eight groups of an address. -/
def groupsOf : List UInt8 → List ℕ
  | a :: b :: bytes => (a.toNat * 256 + b.toNat) :: groupsOf bytes
  | _ => []

/-- An IPv6 address; its longest run of at least two zero groups is written as colons. -/
def printIpv6 (address : List UInt8) : Text :=
  let groups := groupsOf address
  let print := List.flatMap fun x => hex x ++ [58]
  let (i, len) := longestZeros 0 groups (0, 0) (0, 0)
  let text :=
    if len ≤ 1 then print groups
    else
      let colons := 1 + (if i = 0 then 1 else 0) + (if i + len = 8 then 1 else 0)
      print (groups.take i) ++ List.replicate colons 58 ++ print (groups.drop (i + len))
  text.dropLast

/-- The address part of `net2str`. -/
def Net.print : Net → Text
  | .mac address => [58].intercalate (address.map fun b => hexByte b.toNat)
  | .ipv4 address prefixlength =>
      [46].intercalate (address.map fun b => decimal b.toNat) ++
        if prefixlength = 32 then [] else 47 :: decimal prefixlength
  | .ipv6 address prefixlength =>
      printIpv6 address ++ if prefixlength = 128 then [] else 47 :: decimal prefixlength

/-- `net2str` -/
def net2str (s : Subnet) : Text :=
  s.net.print ++ if s.weight = defaultWeight then [] else 35 :: decimal s.weight

/-! ## The trees -/

/-- The weights, and then the owners if both are there. -/
def compareWeightOwner (a b : Subnet) : ℤ :=
  let result := toInt32 (a.weight - b.weight)
  if result ≠ 0 then result
  else match a.owner, b.owner with
    | some m, some n => strcmp m n
    | _, _ => 0

/-- The comparison of two networks of one type with prefix lengths. -/
def comparePrefix (address address' : List UInt8) (len len' : ℕ) (rest : ℤ) : ℤ :=
  if (len' : ℤ) - len ≠ 0 then (len' : ℤ) - len
  else if strcmp address address' ≠ 0 then strcmp address address' else rest

/-- `subnet_compare`; the types are ordered MAC, IPv4, IPv6. -/
def subnetCompare (a b : Subnet) : ℤ :=
  match a.net, b.net with
  | .mac x, .mac y => if strcmp x y ≠ 0 then strcmp x y else compareWeightOwner a b
  | .ipv4 x m, .ipv4 y n => comparePrefix x y m n (compareWeightOwner a b)
  | .ipv6 x m, .ipv6 y n => comparePrefix x y m n (compareWeightOwner a b)
  | .mac _, _ => -1
  | _, .mac _ => 1
  | .ipv4 _ _, .ipv6 _ _ => -1
  | .ipv6 _ _, .ipv4 _ _ => 1

variable (d : Daemon)

/-- `lookup_subnet` -/
def Daemon.lookupSubnet (owner : Name) (s : Subnet) : Option SubnetId :=
  OrdList.search (fun i => subnetCompare s (d.subnet i)) (d.nodeSubnets owner)

/-- `splay_insert` of the subnet `s` into one of the trees. -/
def Daemon.insertSubnet (s : SubnetId) (tree : List SubnetId) : List SubnetId :=
  (OrdList.insert (fun i => subnetCompare (d.subnet s) (d.subnet i)) s tree).getD tree

/-- `new_subnet` and `subnet_add`; a subnet without an owner is only in `subnet_tree`. -/
def Daemon.subnetAdd (owner : Option Name) (s : Subnet) : Daemon :=
  let i := d.newSubnet
  let d := { d with
    subnet := update d.subnet i { s with owner := owner }
    newSubnet := i + 1 }
  { d with
    subnetTree := d.insertSubnet i d.subnetTree
    nodeSubnets := owner.elim d.nodeSubnets fun n =>
      update d.nodeSubnets n (d.insertSubnet i (d.nodeSubnets n)) }

/-- `splay_delete` of the subnet `s` from one of the trees. -/
def Daemon.deleteSubnet (s : SubnetId) (tree : List SubnetId) : List SubnetId :=
  OrdList.delete (fun i => subnetCompare (d.subnet s) (d.subnet i)) tree

/-- `subnet_del` -/
def Daemon.subnetDel (owner : Option Name) (s : SubnetId) : Daemon :=
  { d with
    nodeSubnets := owner.elim d.nodeSubnets fun n =>
      update d.nodeSubnets n (d.deleteSubnet s (d.nodeSubnets n))
    subnetTree := d.deleteSubnet s d.subnetTree }

/-! ## `protocol_subnet.c` -/

/-- `send_add_subnet` and `send_del_subnet`, which differ in the number of the request. -/
def Daemon.sendSubnet (r : Request) (c : ConnId) (owner : Name) (s : Subnet) : Daemon :=
  let (d, nonce) := d.draw
  d.send (.one c) (words [decimal r.number, hex nonce, owner, net2str s])

/-- A tunnel server ignores subnets of others than itself and the peer. -/
def Daemon.ignoresSubnet (c : ConnId) (name : Name) : Bool :=
  d.config.tunnelserver ∧
    d.lookupNode name ≠ some d.myself ∧ d.lookupNode name ≠ (d.conn c).node

/-- Fast handoff of roaming MAC addresses: our own entry, if it was learned, expires. -/
def Daemon.handoff (s : Subnet) : Daemon :=
  match s.net with
  | .mac _ =>
      match d.lookupSubnet d.myself s with
      | some old =>
          if (d.subnet old).expires = 0 then d
          else { d with subnet := update d.subnet old { d.subnet old with expires := 1 } }
      | none => d
  | _ => d

/-- What `add_subnet_h` does with a subnet of a node that is known by now. -/
def Daemon.applyAddSubnet (c : ConnId) (request : Text) (owner : Name) (s : Subnet) : Daemon :=
  if d.lookupSubnet owner s ≠ none then d
  else if owner = d.myself then d.sendSubnet .delSubnet c d.myself s
  else if d.config.tunnelserver then d
  else if d.config.strictsubnets then d.forwardRequest c request
  else ((d.subnetAdd (some owner) s).tellRest c request).handoff s

/-- `add_subnet_h` -/
def addSubnetH (c : ConnId) (request : Text) : Daemon × Bool :=
  match parseTwoWords request with
  | none => (d, false)
  | some (name, subnetstr) =>
      if ¬ checkId name then (d, false)
      else
        match str2net subnetstr with
        | none => (d, false)
        | some s =>
            let (d, seen) := d.seenRequest request
            if seen ∨ d.ignoresSubnet c name then (d, true)
            else ((d.ensureNode name).applyAddSubnet c request name s, true)

/-- A request is rejected, or ignored but remembered, or applied once the owner is known. -/
lemma addSubnetH_cases (c : ConnId) (request : Text) :
    addSubnetH d c request = (d, false) ∨
    addSubnetH d c request = ((d.seenRequest request).1, true) ∨
    ∃ name s, (∃ str, parseTwoWords request = some (name, str) ∧ str2net str = some s) ∧
      addSubnetH d c request =
        (((d.seenRequest request).1.ensureNode name).applyAddSubnet c request name s, true) := by
  unfold addSubnetH
  cases parseTwoWords request with
  | none => exact .inl rfl
  | some w =>
      dsimp only
      split
      · exact .inl rfl
      · cases hs : str2net w.2 with
        | none => exact .inl rfl
        | some s =>
            dsimp only
            split
            · exact .inr (.inl rfl)
            · exact .inr (.inr ⟨w.1, s, ⟨w.2, rfl, hs⟩, rfl⟩)

/-- What `del_subnet_h` does with a subnet of a known node. -/
def Daemon.applyDelSubnet (c : ConnId) (request : Text) (owner : Name) (s : Subnet) : Daemon :=
  match d.lookupSubnet owner { s with owner := some owner } with
  | none => if d.config.strictsubnets then d.forwardRequest c request else d
  | some find =>
      if owner = d.myself then d.sendSubnet .addSubnet c d.myself (d.subnet find)
      else if d.config.tunnelserver then d
      else if d.config.strictsubnets then d.tellRest c request
      else (d.tellRest c request).subnetDel (some owner) find

/-- `del_subnet_h` -/
def delSubnetH (c : ConnId) (request : Text) : Daemon × Bool :=
  match parseTwoWords request with
  | none => (d, false)
  | some (name, subnetstr) =>
      if ¬ checkId name then (d, false)
      else
        match str2net subnetstr with
        | none => (d, false)
        | some s =>
            let (d, seen) := d.seenRequest request
            if seen ∨ d.ignoresSubnet c name ∨ d.lookupNode name = none then (d, true)
            else (d.applyDelSubnet c request name s, true)

/-- A request is rejected, or ignored but remembered, or applied if the owner is known. -/
lemma delSubnetH_cases (c : ConnId) (request : Text) :
    delSubnetH d c request = (d, false) ∨
    delSubnetH d c request = ((d.seenRequest request).1, true) ∨
    ∃ name s, delSubnetH d c request =
      ((d.seenRequest request).1.applyDelSubnet c request name s, true) := by
  unfold delSubnetH
  cases parseTwoWords request with
  | none => exact .inl rfl
  | some w =>
      dsimp only
      split
      · exact .inl rfl
      · cases str2net w.2 with
        | none => exact .inl rfl
        | some s =>
            dsimp only
            split
            · exact .inr (.inl rfl)
            · exact .inr (.inr ⟨w.1, s, rfl⟩)

end Tinc
