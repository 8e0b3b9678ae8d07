import TincQuic.Lib.DirectMapped
import TincQuic.Daemon.SubnetIndex

/-!
# Looking up addresses: `subnet.c`, `hash.c` and `learn_mac`

A packet is routed to the owner of the first subnet of `subnet_tree` that matches its address.  The
answers are kept in three hash tables, one for each type of address, which are cleared by
`subnet_add`, `subnet_del` and `graph`.

* `walkMac`, `walkIpv4` and `walkIpv6` are the loops over the trees; the last match counts, unless
  one of a reachable owner comes before it.
* `Router` is a daemon with its tables.  An entry of the table for MAC addresses also remembers the
  owner for whom it was looked up, which the code does not.
* `Router.step` is what happens to it: subnets and edges change, `graph` runs, addresses are
  looked up and learned.
-/

namespace Tinc

open Bytes CText Function

/-! ## `hash.c` -/

/-- One round of `hash_function`, for the first `len` bytes of `q`. -/
def hashRound (q : List UInt8) (hash : UInt32) (len : ℕ) : UInt32 :=
  let shifted := fun i : ℕ => (q.getD (len - i) 0).toUInt32 <<< UInt32.ofNat (8 * i)
  let sum := ((List.range (min len 4)).drop 1).foldl (fun h i => h + shifted i) hash
  sum * 0x9e370001

/-- `hash_function`: the rounds go on, with four bytes less each, until at most four were left. -/
def hashFunction (q : List UInt8) : UInt32 :=
  ((List.range ((q.length + 3) / 4)).map (q.length - 4 * ·)).foldl (hashRound q) 0

/-- `modulo` for tables of `0x100` entries -/
def modulo (hash : UInt32) : ℕ :=
  let byte : UInt32 := 0xff
  ((hash >>> 24) ^^^ ((hash >>> 16) &&& byte) ^^^ ((hash >>> 8) &&& byte) ^^^
    (hash &&& byte)).toNat

/-- The slot of a key. -/
def hashSlot (key : List UInt8) : ℕ := modulo (hashFunction key)

/-! ## The loops over the trees -/

/-- A byte as a `char` -/
def charValue (b : UInt8) : ℤ := if b < 128 then b.toNat else (b.toNat : ℤ) - 256

/-- `maskcmp` -/
def maskcmp : List UInt8 → List UInt8 → ℕ → ℤ
  | a :: va, b :: vb, m =>
      if 8 ≤ m then
        if charValue a - charValue b ≠ 0 then charValue a - charValue b
        else maskcmp va vb (m - 8)
      else if m = 0 then 0
      else
        let mask := UInt8.ofNat (0x100 - 1 <<< (8 - m))
        ((a &&& mask).toNat : ℤ) - (b &&& mask).toNat
  | _, _, _ => 0

/-- The subnet has no owner, or a reachable one. -/
def Daemon.usable (d : Daemon) (i : SubnetId) : Bool := (d.subnet i).owner.all fun n => (d.node n).reachable

/-- The loop over a tree; `r` is the last match so far. -/
def Daemon.walk (d : Daemon) (found : Net → Bool) : List SubnetId → Option SubnetId → Option SubnetId
  | [], r => r
  | p :: tree, r =>
      if found (d.subnet p).net then
        if d.usable p then some p else d.walk found tree (some p)
      else d.walk found tree r

variable (d : Daemon)

/-- A MAC subnet with this address -/
def isMac (address : List UInt8) : Net → Bool
  | .mac a => a = address
  | _ => false

/-- An IPv4 subnet that contains the address -/
def hasIpv4 (address : List UInt8) : Net → Bool
  | .ipv4 a prefixlength => maskcmp address a prefixlength = 0
  | _ => false

/-- An IPv6 subnet that contains the address -/
def hasIpv6 (address : List UInt8) : Net → Bool
  | .ipv6 a prefixlength => maskcmp address a prefixlength = 0
  | _ => false

/-- The loop of `lookup_subnet_mac`, over the tree of the owner or over all. -/
def Daemon.walkMac (owner : Option Name) (address : List UInt8) : Option SubnetId :=
  d.walk (isMac address) (owner.elim d.subnetTree d.nodeSubnets) none

/-- The loop of `lookup_subnet_ipv4` -/
def Daemon.walkIpv4 (address : List UInt8) : Option SubnetId :=
  d.walk (hasIpv4 address) d.subnetTree none

/-- The loop of `lookup_subnet_ipv6` -/
def Daemon.walkIpv6 (address : List UInt8) : Option SubnetId :=
  d.walk (hasIpv6 address) d.subnetTree none

/-! ## The tables -/

/-- A daemon with the tables of its lookups. -/
structure Router where
  daemon : Daemon
  ipv4Cache : DirectMapped.Cache (List UInt8) SubnetId
  ipv6Cache : DirectMapped.Cache (List UInt8) SubnetId
  /-- with the owner for whom the entry was looked up -/
  macCache : DirectMapped.Cache (List UInt8) (Option Name × SubnetId)

namespace Router

variable (r : Router)

/-- `subnet_cache_flush` -/
def flush : Router :=
  { r with
    ipv4Cache := DirectMapped.clear
    ipv6Cache := DirectMapped.clear
    macCache := DirectMapped.clear }

/-- `lookup_subnet_mac` -/
def lookupSubnetMac (owner : Option Name) (address : List UInt8) : Option SubnetId × Router :=
  let (answer, cache) := DirectMapped.lookup hashSlot r.macCache address
    ((r.daemon.walkMac owner address).map (owner, ·))
  (answer.map Prod.snd, { r with macCache := cache })

/-- `lookup_subnet_ipv4` -/
def lookupSubnetIpv4 (address : List UInt8) : Option SubnetId × Router :=
  let (answer, cache) :=
    DirectMapped.lookup hashSlot r.ipv4Cache address (r.daemon.walkIpv4 address)
  (answer, { r with ipv4Cache := cache })

/-- `lookup_subnet_ipv6` -/
def lookupSubnetIpv6 (address : List UInt8) : Option SubnetId × Router :=
  let (answer, cache) :=
    DirectMapped.lookup hashSlot r.ipv6Cache address (r.daemon.walkIpv6 address)
  (answer, { r with ipv6Cache := cache })

/-- Applies a function of the daemon that does not clear the tables. -/
def onDaemon (f : Daemon → Daemon) : Router := { r with daemon := f r.daemon }

/-- Our own subnet is announced on every active connection. -/
def announce (s : SubnetId) : Router :=
  r.onDaemon fun d => d.connectionList.foldl (fun d c =>
    if (d.conn c).edge = none then d else d.sendSubnet .addSubnet c d.myself (d.subnet s)) d

/-- `learn_mac`; `expires` is the time at which the address is forgotten. -/
def learnMac (address : List UInt8) (expires : ℕ) : Router :=
  match r.lookupSubnetMac (some r.daemon.myself) address with
  | (none, r) =>
      let s := r.daemon.newSubnet
      let r := (r.onDaemon fun d => d.subnetAdd (some d.myself)
        { owner := none, net := .mac address, weight := 10, expires := expires }).flush
      r.announce s
  | (some s, r) =>
      if (r.daemon.subnet s).expires = 0 then r
      else r.onDaemon fun d => { d with
        subnet := update d.subnet s { d.subnet s with expires := expires } }

/-- `add_subnet_h` clears the tables if it gets to `subnet_add`, which it calls with a subnet that
it allocates for it. -/
def addSubnetH (c : ConnId) (request : Text) : Router :=
  let r' := r.onDaemon fun d => (Tinc.addSubnetH d c request).1
  if r'.daemon.newSubnet = r.daemon.newSubnet then r' else r'.flush

/-- `del_subnet_h` gets to `subnet_del`. -/
def reachesSubnetDel (c : ConnId) (request : Text) : Bool :=
  match parseTwoWords request with
  | none => false
  | some (name, subnetstr) =>
      match str2net subnetstr with
      | none => false
      | some s =>
          let (d, seen) := r.daemon.seenRequest request
          checkId name ∧ ¬ seen ∧ ¬ d.ignoresSubnet c name ∧ d.lookupNode name ≠ none ∧
            d.lookupSubnet name { s with owner := some name } ≠ none ∧ name ≠ d.myself ∧
            ¬ d.config.tunnelserver ∧ ¬ d.config.strictsubnets

/-- `del_subnet_h` clears the tables if it gets to `subnet_del`. -/
def delSubnetH (c : ConnId) (request : Text) : Router :=
  let r' := r.onDaemon fun d => (Tinc.delSubnetH d c request).1
  if r.reachesSubnetDel c request then r'.flush else r'

end Router

/-! ## Steps -/

/-- What happens to the subnets, the nodes and the tables. -/
inductive RouterEvent where
  | connectionAdd (c : ConnId) (conn : Conn)
  | subnetAdd (owner : Option Name) (s : Subnet)
  | subnetDel (owner : Option Name) (s : SubnetId)
  /-- A node appears, as in the handlers of requests about edges. -/
  | nodeAdd (name : Name)
  /-- The edges become these; `graph` runs later. -/
  | edges (edge : EdgeId → Edge) (edgeTree : Name → List EdgeId) (edgeWeightTree : List EdgeId)
  | graph
  | addSubnet (c : ConnId) (request : Text)
  | delSubnet (c : ConnId) (request : Text)
  | learnMac (address : List UInt8) (expires : ℕ)
  | lookupMac (owner : Option Name) (address : List UInt8)
  | lookupIpv4 (address : List UInt8)
  | lookupIpv6 (address : List UInt8)

/-- One event. -/
def Router.step (r : Router) : RouterEvent → Router
  | .connectionAdd c conn => r.onDaemon fun d =>
      { d.setConn c (fun _ => conn) with connectionList := d.connectionList ++ [c] }
  | .subnetAdd owner s => (r.onDaemon (·.subnetAdd owner s)).flush
  | .subnetDel owner s => (r.onDaemon (·.subnetDel owner s)).flush
  | .nodeAdd name => r.onDaemon (·.ensureNode name)
  | .edges edge edgeTree edgeWeightTree => r.onDaemon fun d =>
      { d with edge := edge, edgeTree := edgeTree, edgeWeightTree := edgeWeightTree }
  | .graph => r.flush.onDaemon Tinc.graph
  | .addSubnet c request => r.addSubnetH c request
  | .delSubnet c request => r.delSubnetH c request
  | .learnMac address expires => r.learnMac address expires
  | .lookupMac owner address => (r.lookupSubnetMac owner address).2
  | .lookupIpv4 address => (r.lookupSubnetIpv4 address).2
  | .lookupIpv6 address => (r.lookupSubnetIpv6 address).2

end Tinc
