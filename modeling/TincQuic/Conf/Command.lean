import TincQuic.Conf.Reading
import TincQuic.Daemon.Masks

/-!
# The command that edits configuration files

`cmdConfig` is `cmd_config` of the control program: it takes a node, a variable and a value from
the command line, finds the file they belong to, and copies it line by line with the wanted change.
What it makes of the file does not depend on how the daemon reads it; whether the two agree is
settled elsewhere.
-/

namespace Tinc

open CText Bytes

/-! ## The variables -/

def varServer : ℕ := 1
def varHost : ℕ := 2
def varMultiple : ℕ := 4
def varObsolete : ℕ := 8
def varSafe : ℕ := 16

/-- `var_t` -/
structure ConfigVariable where
  name : Text
  type : ℕ
deriving DecidableEq

/-- `variables` -/
def configVariables : List ConfigVariable :=
  [ ⟨ascii "AddressFamily", varServer ||| varSafe⟩,
    ⟨ascii "AutoConnect", varServer ||| varSafe⟩,
    ⟨ascii "BindToAddress", varServer ||| varMultiple⟩,
    ⟨ascii "BindToInterface", varServer⟩,
    ⟨ascii "Broadcast", varServer ||| varSafe⟩,
    ⟨ascii "BroadcastSubnet", varServer ||| varMultiple ||| varSafe⟩,
    ⟨ascii "ConnectTo", varServer ||| varMultiple ||| varSafe⟩,
    ⟨ascii "DecrementTTL", varServer ||| varSafe⟩,
    ⟨ascii "Device", varServer⟩,
    ⟨ascii "DeviceStandby", varServer⟩,
    ⟨ascii "DeviceType", varServer⟩,
    ⟨ascii "DirectOnly", varServer ||| varSafe⟩,
    ⟨ascii "Ed25519PrivateKeyFile", varServer ||| varObsolete⟩,
    ⟨ascii "ExperimentalProtocol", varServer⟩,
    ⟨ascii "Forwarding", varServer⟩,
    ⟨ascii "FWMark", varServer⟩,
    ⟨ascii "GraphDumpFile", varServer ||| varObsolete⟩,
    ⟨ascii "Hostnames", varServer⟩,
    ⟨ascii "IffOneQueue", varServer⟩,
    ⟨ascii "Interface", varServer⟩,
    ⟨ascii "InvitationExpire", varServer⟩,
    ⟨ascii "KeyExpire", varServer ||| varSafe⟩,
    ⟨ascii "ListenAddress", varServer ||| varMultiple⟩,
    ⟨ascii "LocalDiscovery", varServer ||| varSafe⟩,
    ⟨ascii "LogLevel", varServer⟩,
    ⟨ascii "MACExpire", varServer ||| varSafe⟩,
    ⟨ascii "MaxConnectionBurst", varServer ||| varSafe⟩,
    ⟨ascii "MaxOutputBufferSize", varServer ||| varSafe⟩,
    ⟨ascii "MaxTimeout", varServer ||| varSafe⟩,
    ⟨ascii "Mode", varServer ||| varSafe⟩,
    ⟨ascii "Name", varServer⟩,
    ⟨ascii "PingInterval", varServer ||| varSafe⟩,
    ⟨ascii "PingTimeout", varServer ||| varSafe⟩,
    ⟨ascii "PriorityInheritance", varServer⟩,
    ⟨ascii "PrivateKey", varServer ||| varObsolete⟩,
    ⟨ascii "PrivateKeyFile", varServer ||| varObsolete⟩,
    ⟨ascii "ProcessPriority", varServer⟩,
    ⟨ascii "Proxy", varServer⟩,
    ⟨ascii "ReplayWindow", varServer ||| varSafe⟩,
    ⟨ascii "ScriptsExtension", varServer⟩,
    ⟨ascii "ScriptsInterpreter", varServer⟩,
    ⟨ascii "StrictSubnets", varServer ||| varSafe⟩,
    ⟨ascii "TunnelServer", varServer ||| varSafe⟩,
    ⟨ascii "UDPDiscovery", varServer ||| varSafe⟩,
    ⟨ascii "UDPDiscoveryKeepaliveInterval", varServer ||| varSafe⟩,
    ⟨ascii "UDPDiscoveryInterval", varServer ||| varSafe⟩,
    ⟨ascii "UDPDiscoveryTimeout", varServer ||| varSafe⟩,
    ⟨ascii "MTUInfoInterval", varServer ||| varSafe⟩,
    ⟨ascii "UDPInfoInterval", varServer ||| varSafe⟩,
    ⟨ascii "UDPRcvBuf", varServer⟩,
    ⟨ascii "UDPSndBuf", varServer⟩,
    ⟨ascii "UPnP", varServer⟩,
    ⟨ascii "UPnPDiscoverWait", varServer⟩,
    ⟨ascii "UPnPRefreshPeriod", varServer⟩,
    ⟨ascii "VDEGroup", varServer⟩,
    ⟨ascii "VDEPort", varServer⟩,
    ⟨ascii "Address", varHost ||| varMultiple⟩,
    ⟨ascii "Cipher", varServer ||| varHost ||| varObsolete⟩,
    ⟨ascii "ClampMSS", varServer ||| varHost ||| varSafe⟩,
    ⟨ascii "Compression", varServer ||| varHost ||| varSafe⟩,
    ⟨ascii "Digest", varServer ||| varHost ||| varObsolete⟩,
    ⟨ascii "Ed25519PublicKey", varHost ||| varObsolete⟩,
    ⟨ascii "Ed25519PublicKeyFile", varServer ||| varHost ||| varObsolete⟩,
    ⟨ascii "IndirectData", varServer ||| varHost ||| varSafe⟩,
    ⟨ascii "MACLength", varServer ||| varHost ||| varObsolete⟩,
    ⟨ascii "PMTU", varServer ||| varHost⟩,
    ⟨ascii "PMTUDiscovery", varServer ||| varHost⟩,
    ⟨ascii "Port", varHost⟩,
    ⟨ascii "PublicKey", varHost ||| varObsolete⟩,
    ⟨ascii "PublicKeyFile", varServer ||| varHost ||| varObsolete⟩,
    ⟨ascii "Subnet", varHost ||| varMultiple ||| varSafe⟩,
    ⟨ascii "TCPOnly", varServer ||| varHost ||| varSafe⟩,
    ⟨ascii "Weight", varHost ||| varSafe⟩ ]

/-! ## The own name -/

/-- `rstrip` -/
def rstrip (value : Text) : Text := value.rdropWhile fun c => c = 9 ∨ c = 13 ∨ c = 10 ∨ c = 32

/-- What the command finds outside its arguments: the files, the environment, the name of the host,
and whether `--force` was given. -/
structure ConfigContext where
  tincConf : Option (List UInt8)
  hosts : Text → Option (List UInt8)
  getenv : Text → Option Text
  hostname : Option Text
  force : Bool

variable (x : ConfigContext)

/-- `replace_name` -/
def ConfigContext.replaceName (name : Text) : Option Text :=
  let retName :=
    if name.head? = some 36 then
      let envname :=
        match x.getenv name.tail with
        | some envname => some envname
        | none => if name.tail = ascii "HOST" then x.hostname.filter (· ≠ []) else none
      envname.map fun n => n.map fun c => if isAlnum c then c else 95
    else some name
  retName.filter checkId

/-- `get_my_name` -/
def ConfigContext.getMyName : Option Text :=
  match x.tincConf with
  | none => none
  | some file =>
      let named := (fgets 4096 file).filterMap fun buf =>
        let (buf, value) := assignment (cstr buf)
        if rstrip value ≠ [] ∧ sameIgnoringCase buf (ascii "Name") then some (rstrip value)
        else none
      named.head?.bind x.replaceName

/-! ## The checks of a subnet -/

/-- `subnetcheck` -/
def subnetcheck : Net → Bool
  | .mac _ => true
  | .ipv4 address prefixlength => maskcheck address prefixlength 4 = some true
  | .ipv6 address prefixlength => maskcheck address prefixlength 16 = some true

/-- What `str2net` leaves in a subnet that was zero: if an IPv4 address has a number over 255, the
bytes before it are there already. -/
def netAfterStr2net (subnetstr : Text) : Net :=
  match str2net subnetstr with
  | some subnet => subnet.net
  | none =>
      let partly := do
        let (str, _) ← cutInt 35 (subnetstr.take 1023)
        let (str, prefixlength) ← cutInt 47 str
        if prefixlength.any (· < 0) ∨ (scanFields shortHex 58 6 str).isSome then none
        else
          let x ← scanFields shortDec 46 4 str
          if 32 < (prefixlength.map Int.toNat).getD 32 then none
          else
            let bytes := (x.takeWhile (· ≤ 255)).map UInt8.ofNat
            some (Net.ipv4 (bytes ++ List.replicate (4 - bytes.length) 0)
              ((prefixlength.map Int.toNat).getD 32))
      partly.getD (.mac (List.replicate 6 0))

/-! ## The command line -/

/-- The values of `action`: `-2`, `-1`, `0` and `1`. -/
inductive ConfigAction where
  | get
  | del
  | set
  | add
deriving DecidableEq

/-- `action >= 0` -/
def ConfigAction.writes (action : ConfigAction) : Bool := action = .set ∨ action = .add

/-- The words for the actions. -/
def configAction (word : Text) : Option ConfigAction :=
  if sameIgnoringCase word (ascii "get") then some .get
  else if sameIgnoringCase word (ascii "add") then some .add
  else if sameIgnoringCase word (ascii "del") then some .del
  else if sameIgnoringCase word (ascii "replace") ∨ sameIgnoringCase word (ascii "set") ∨
      sameIgnoringCase word (ascii "change") then some .set
  else none

/-- What is to be done to which file. -/
structure ConfigEdit where
  action : ConfigAction
  node : Option Text
  var : Text
  value : Text
deriving DecidableEq

/-- The rest of the command line in the buffer `line`. -/
def commandLine (args : List Text) : Text := ([32].intercalate args).take 4095

/-- The liberal parsing of the rest of the command line. -/
def parseEdit (action : ConfigAction) (line : Text) : Option ConfigEdit :=
  let (word, value) := assignment line
  let (node, var) :=
    if 46 ∈ word then
      (some (word.takeWhile (· ≠ 46)), (word.dropWhile (· ≠ 46)).tail)
    else (none, word)
  if var = [] then none
  else if action.writes ∧ value = [] then none
  else
    some {
      action := if action = .get ∧ value ≠ [] then .set else action
      node := node
      var := var
      value := value }

/-- The checks that depend on the variable. -/
def checkEdit (e : ConfigEdit) : Option ConfigEdit :=
  match configVariables.find? fun v => sameIgnoringCase v.name e.var with
  | none => if x.force ∨ ¬ e.action.writes then some e else none
  | some v =>
      if sameIgnoringCase v.name (ascii "Subnet") ∧
          ¬ subnetcheck (netAfterStr2net e.value) then none
      else if v.type &&& varObsolete ≠ 0 ∧ e.action.writes ∧ ¬ x.force then none
      else if e.node.isSome ∧ v.type &&& varHost = 0 ∧ e.action.writes ∧ ¬ x.force then none
      else
        let e := { e with
          var := v.name
          action := if e.action = .add ∧ v.type &&& varMultiple = 0 then .set else e.action }
        if e.node.isNone ∧ v.type &&& varServer = 0 then
          -- this goes into our own host config file
          x.getMyName.map fun node => { e with node := some node }
        else some e

/-! ## The copy -/

/-- The variables of the copying loop: the temporary file, what was printed, and the flags. -/
structure ConfigCopy where
  tf : Text
  printed : List Text
  set : Bool
  removed : Bool
  found : Bool

/-- The line that sets a variable. -/
def settingLine (var value : Text) : Text := var ++ ascii " = " ++ value ++ [10]

/-- A line as it is copied: a missing newline is added. -/
def withNewline (line : Text) : Text :=
  if line ≠ [] ∧ line.getLast? ≠ some 10 then line ++ [10] else line

/-- One round of the copying loop. -/
def ConfigCopy.round (e : ConfigEdit) (buf1 : List UInt8) (s : ConfigCopy) : ConfigCopy :=
  let (buf2, bvalue) := assignment (cstr buf1)
  let bvalue := rstrip bvalue
  let copied := { s with tf := s.tf ++ withNewline (cstr buf1) }
  if sameIgnoringCase buf2 e.var then
    match e.action with
    | .get => { s with found := true, printed := s.printed ++ [bvalue] }
    | .del =>
        if e.value = [] ∨ sameIgnoringCase bvalue e.value then { s with removed := true }
        else copied
    | .set =>
        if s.set then s
        else { s with tf := s.tf ++ settingLine e.var e.value, set := true }
    | .add =>
        if sameIgnoringCase bvalue e.value then { copied with found := true } else copied
  else if e.action = .get then s
  else copied

/-- The copying loop. -/
def copyConfig (e : ConfigEdit) (file : List UInt8) : ConfigCopy :=
  (fgets 4096 file).foldl (fun s buf1 => s.round e buf1) ⟨[], [], false, false, false⟩

/-- What is in the temporary file at the end. -/
def editedConfig (e : ConfigEdit) (s : ConfigCopy) : Text :=
  if e.action = .add ∧ ¬ s.found ∨ e.action = .set ∧ ¬ s.set then
    s.tf ++ settingLine e.var e.value
  else s.tf

/-! ## The whole command -/

/-- How the command ends: with an error, having printed values, or having replaced the file of the
node (without a node, tinc.conf). -/
inductive ConfigResult where
  | failed
  | printed (values : List Text)
  | replaced (node : Option Text) (file : Text)
deriving DecidableEq

/-- The file of a node, or tinc.conf. -/
def ConfigContext.file : Option Text → Option (List UInt8)
  | none => x.tincConf
  | some node => x.hosts node

/-- The command once it is known what to do. -/
def runEdit (e : ConfigEdit) : ConfigResult :=
  if e.node.any (fun node => ¬ checkId node) then .failed
  else
    match x.file e.node with
    | none => .failed
    | some file =>
        let s := copyConfig e file
        match e.action with
        | .get => if s.found then .printed s.printed else .failed
        | .del => if s.removed then .replaced e.node (editedConfig e s) else .failed
        | _ => .replaced e.node (editedConfig e s)

/-- `cmd_config` -/
def cmdConfig (argv : List Text) : ConfigResult :=
  if argv.length < 2 then .failed
  else
    let args := if sameIgnoringCase (argv.headD []) (ascii "config") then argv.tail else argv
    let (action, args) :=
      match configAction (args.headD []) with
      | some action => (action, args.tail)
      | none => (.get, args)
    if args = [] then .failed
    else
      match (parseEdit action (commandLine args)).bind (checkEdit x) with
      | none => .failed
      | some e => runEdit x e

end Tinc
