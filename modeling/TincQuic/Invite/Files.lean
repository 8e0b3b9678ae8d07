import TincQuic.Daemon.Run

/-!
# `invitation.c`

A daemon that is the certificate authority of its network invites others: it writes a file for the
invitation, in which it reserves an address of the VPN, and hands out a token.  Whoever comes with
the token gets the name and the address that are in the file.

* `allocateVpnIp` looks for a free address.
* `createInvitation` and `validateInvitationToken` write and read the file.
* `Site` is a daemon together with its invitations, its hosts and its certificates.
-/

namespace Tinc

open Bytes CText Function

/-! ## `hosts_json.c` -/

/-- `host_entry_t` -/
structure Host where
  name : Text
  addresses : List Text := []
  port : ℕ := 443
  subnet : Text := []
  vpnAddress : Text := []
  deriving DecidableEq

/-- `hosts_db_find` -/
def hostsDbFind (hosts : List Host) (name : Text) : Option Host :=
  hosts.find? fun h => sameIgnoringCase h.name name

/-- `hosts_db_find_by_vpn_address`, as a test. -/
def hostsDbHasVpnAddress (hosts : List Host) (vpnAddress : Text) : Bool :=
  hosts.any fun h => h.vpnAddress ≠ [] ∧ h.vpnAddress = vpnAddress

/-- `hosts_db_add`: the hosts, and the place of the one that was found or made.  A new one is the
first, with no more of the name than fits into `MAX_HOST_NAME_LEN` bytes. -/
def hostsDbAdd (hosts : List Host) (name : Text) : List Host × ℕ :=
  match hosts.findIdx? fun h => sameIgnoringCase h.name name with
  | some i => (hosts, i)
  | none => ({ name := name.take 63 } :: hosts, 0)

/-- `host_set_vpn_address` -/
def Host.setVpnAddress (h : Host) (vpnAddress : Text) (prefixLength : ℤ) : Host :=
  { h with
    vpnAddress := vpnAddress.take 127
    subnet := (vpnAddress ++ 47 :: decimal (if 0 < prefixLength then prefixLength else 32)).take
      63 }

/-! ## Addresses of the VPN -/

/-- Four numbers with dots between them, as `sscanf` reads them. -/
def parseQuad (t : Text) : Option UInt32 :=
  match (sscanf [.conv (.d none), .lit 46, .conv (.d none), .lit 46, .conv (.d none), .lit 46,
      .conv (.d none)] t).1 with
  | [.int a, .int b, .int c, .int d] =>
      let word := fun n : ℤ => UInt32.ofNat (n % 2 ^ 32).toNat
      some (word a <<< 24 ||| word b <<< 16 ||| word c <<< 8 ||| word d)
  | _ => none

/-- What `parse_vpn_address` makes of the variable `VPNAddress`. -/
structure VpnAddress where
  network : UInt32
  prefixLength : ℤ
  myIp : Text

/-- `parse_vpn_address` on the value of `VPNAddress` in `tinc.conf`, which is empty if there is
none. -/
def parseVpnAddress (value : Text) : Option VpnAddress :=
  if value = [] ∨ 47 ∉ value.take 63 then none
  else
    let ip := (value.take 63).takeWhile (· ≠ 47)
    let prefixLength := atoi ((value.take 63).drop (ip.length + 1))
    (parseQuad ip).map fun addr =>
      let mask : UInt32 :=
        if prefixLength = 0 then 0
        else (0xffffffff : UInt32) <<< UInt32.ofNat ((32 - prefixLength) % 2 ^ 32).toNat
      ⟨addr &&& mask, prefixLength, ip.take 31⟩

/-- `ip_to_string` -/
def ipToString (ip : UInt32) : Text :=
  let byte := fun n : UInt32 => decimal ((ip >>> n) &&& 0xff).toNat
  byte 24 ++ 46 :: byte 16 ++ 46 :: byte 8 ++ 46 :: byte 0

/-- `string_to_ip` -/
def stringToIp (t : Text) : UInt32 := (parseQuad t).getD 0

/-! ## Invitations -/

/-- A file in the directory of invitations. -/
structure InvitationFile where
  content : Text
  /-- `st_mtime` -/
  mtime : ℤ
  deriving DecidableEq

/-- The directory: every file with its name. -/
abbrev Directory := List (Text × InvitationFile)

/-- The file is written anew. -/
def Directory.write (dir : Directory) (filename : Text) (file : InvitationFile) : Directory :=
  dir.filter (·.1 ≠ filename) ++ [(filename, file)]

/-- `unlink` -/
def Directory.unlink (dir : Directory) (filename : Text) : Directory := dir.filter (·.1 ≠ filename)

/-- `fopen` for reading -/
def Directory.read (dir : Directory) (filename : Text) : Option Text :=
  (dir.find? (·.1 = filename)).map (·.2.content)

/-- The line of a file says something about the address. -/
def reservesIp (ip line : Text) : Bool := hasPrefixCase (ascii "VPNAddress") line ∧ ip <:+: line

/-- `ip_used_in_invitations` -/
def ipUsedInInvitations (dir : Directory) (ip : UInt32) : Bool :=
  dir.any fun (filename, file) =>
    filename.head? ≠ some 46 ∧ (fgets 256 file.content).any (reservesIp (ipToString ip))

/-- `ip_used_in_hosts`; without a database no address is used. -/
def ipUsedInHosts (hosts : Option (List Host)) (ip : UInt32) : Bool :=
  hosts.any (hostsDbHasVpnAddress · (ipToString ip))

/-- `MAX_IP_POOL` -/
def maxIpPool : UInt32 := 254

/-- The tests in the loop of `allocate_vpn_ip`. -/
def isFreeIp (dir : Directory) (hosts : Option (List Host)) (v : VpnAddress) (candidate : UInt32) :
    Bool :=
  let hostBits := UInt32.ofNat ((32 - v.prefixLength) % 2 ^ 32).toNat
  let hostMask : UInt32 := (1 <<< hostBits) - 1
  candidate ≠ stringToIp v.myIp ∧ candidate &&& hostMask ≠ 0 ∧ candidate &&& hostMask ≠ hostMask ∧
    ¬ ipUsedInHosts hosts candidate ∧ ¬ ipUsedInInvitations dir candidate

/-- The candidates that `allocate_vpn_ip` tries, in this order. -/
def VpnAddress.pool (v : VpnAddress) : List UInt32 :=
  let hostBits := UInt32.ofNat ((32 - v.prefixLength) % 2 ^ 32).toNat
  let numHosts : UInt32 := (1 <<< hostBits) - 2
  let numHosts := if maxIpPool < numHosts then maxIpPool else numHosts
  (List.range' 2 numHosts.toNat).map fun i => v.network ||| UInt32.ofNat i

/-- `allocate_vpn_ip`: an address with its prefix length. -/
def allocateVpnIp (value : Text) (dir : Directory) (hosts : Option (List Host)) : Option Text :=
  (parseVpnAddress value).bind fun v =>
    (v.pool.find? (isFreeIp dir hosts v)).map fun ip =>
      (ipToString ip ++ 47 :: decimal v.prefixLength).take 39

example : allocateVpnIp (ascii "10.0.0.1/24") [] (some [⟨ascii "b", [], 443, [], ascii "10.0.0.2"⟩])
    = some (ascii "10.0.0.3/24") := by decide +kernel

/-! ## The site -/

/-- A certificate request, as far as `sign_csr` looks at it. -/
structure X509Req where
  /-- the common name of the subject -/
  subject : Text
  publicKey : Text
  deriving DecidableEq

/-- A certificate. -/
structure X509 where
  subject : Text
  issuer : Text
  publicKey : Text
  deriving DecidableEq

/-- What a daemon takes from its files and from OpenSSL for invitations. -/
structure SiteConfig where
  /-- the value of `VPNAddress` in `tinc.conf`, or nothing -/
  vpnAddress : Text
  /-- the address that others are told to connect to -/
  address : Text
  /-- `has_ca_authority` -/
  hasCaAuthority : Bool
  /-- The directory of invitations can be written to. -/
  canWrite : Bool
  /-- the text of `ca-cert.pem`, if it can be read -/
  caCert : Option Text
  /-- `load_ca_key` -/
  caKey : Bool
  /-- `load_ca_cert`: the subject of the certificate of the authority -/
  caSubject : Option Text
  /-- `PEM_read_bio_X509_REQ` -/
  readReq : Text → Option X509Req
  /-- `X509_sign` -/
  sign : X509 → Bool
  /-- `PEM_write_bio_X509` -/
  writeX509 : X509 → Text
  /-- `calculate_cert_fingerprint` -/
  fingerprint : Text → Option Text
  /-- `generate_csr`: a key and a request for this name -/
  generateCsr : Text → Option (Text × Text)
  /-- A file of that name can be saved. -/
  canSave : Text → Bool

/-- A daemon with the state of its invitations. -/
structure Site where
  config : SiteConfig
  daemon : Daemon
  invitations : Directory
  hosts : Option (List Host)
  /-- the tokens that were found valid: on which connection, and the name they assigned -/
  validated : List (ConnId × Text × Text)
  /-- the certificates that were signed, and on which connection -/
  signed : List (ConnId × X509)

variable (s : Site)

/-- The characters of `base64url_table` -/
def base64urlTable : Text :=
  ascii "ABCDEFGHIJKLMNOPQRSTUVWXYZabcdefghijklmnopqrstuvwxyz0123456789-_"

/-- One of the 64 characters. -/
def base64urlChar (n : ℕ) : UInt8 := base64urlTable.getD (n % 64) 0

/-- `base64url_encode` -/
def base64urlEncode : List UInt8 → Text
  | [] => []
  | [a] =>
      let n := a.toNat * 2 ^ 16
      [base64urlChar (n / 2 ^ 18), base64urlChar (n / 2 ^ 12), 61, 61]
  | [a, b] =>
      let n := a.toNat * 2 ^ 16 + b.toNat * 2 ^ 8
      [base64urlChar (n / 2 ^ 18), base64urlChar (n / 2 ^ 12), base64urlChar (n / 2 ^ 6), 61]
  | a :: b :: c :: data =>
      let n := a.toNat * 2 ^ 16 + b.toNat * 2 ^ 8 + c.toNat
      base64urlChar (n / 2 ^ 18) :: base64urlChar (n / 2 ^ 12) :: base64urlChar (n / 2 ^ 6) ::
        base64urlChar n :: base64urlEncode data

/-- `token_to_filename` -/
def tokenToFilename (token : Text) : Text := token.take 16

/-- `INVITATION_VALIDITY` -/
def invitationValidity : ℤ := 24 * 3600

/-- `cleanup_expired_invitations` -/
def cleanupExpiredInvitations (dir : Directory) (now : ℤ) : Directory :=
  dir.filter fun (filename, file) =>
    filename.head? = some 46 ∨ ¬ invitationValidity < now - file.mtime

/-- A line of the file, without its newline. -/
def entry (key value : Text) : Text := key ++ ascii " = " ++ value

/-- The text of an invitation. -/
def invitationText (name token : Text) (now : ℤ) (vpnAddress : Option Text) : Text :=
  entry (ascii "Name") name ++ 10 :: (entry (ascii "Token") token ++ 10 ::
    (entry (ascii "Created") (decimal now) ++ 10 ::
      (entry (ascii "Expires") (decimal (now + invitationValidity)) ++ 10 ::
        vpnAddress.elim [] fun a => entry (ascii "VPNAddress") a ++ [10])))

/-- `get_my_address` -/
def Site.myAddress : Text :=
  match s.hosts.bind (hostsDbFind · s.daemon.myself) with
  | some me => me.addresses.headD (ascii "127.0.0.1")
  | none => ascii "127.0.0.1"

/-- `create_invitation` with these random bytes, at this time: the result, and the URL if it is
zero.  The file is empty while the address is looked for, because it is written when it is
closed. -/
def Site.createInvitation (name : Text) (random : List UInt8) (now : ℤ) : Site × ℤ × Option Text :=
  if ¬ s.config.hasCaAuthority then (s, -3, none)
  else if (s.hosts.bind (hostsDbFind · name)).isSome then (s, -2, none)
  else if ¬ s.config.canWrite then (s, -4, none)
  else
    let token := base64urlEncode random
    let filename := tokenToFilename token
    let dir := (cleanupExpiredInvitations s.invitations now).write filename ⟨[], now⟩
    let allocated := allocateVpnIp s.config.vpnAddress dir s.hosts
    let file := ⟨invitationText name token now allocated, now⟩
    ({ s with invitations := dir.write filename file }, 0,
      some (ascii "https://" ++ s.myAddress ++ ascii ":443/invite/" ++ token))

/-- What `validate_invitation_token` reads from a file. -/
structure StoredInvitation where
  token : Text := []
  name : Text := []
  vpnAddress : Text := []
  expires : ℤ := 0
  deriving DecidableEq

/-- The rest of a line behind blanks and the equals sign. -/
def skipEquals (t : Text) : Text := t.dropWhile fun c => c = 32 ∨ c = 9 ∨ c = 61

/-- The value in a line, of which `size` bytes are kept. -/
def entryValue (size : ℕ) (t : Text) : Text := ((skipEquals t).takeWhile (· ≠ 10)).take size

/-- One line of the file. -/
def StoredInvitation.readLine (r : StoredInvitation) (line : Text) : StoredInvitation :=
  let p := line.dropWhile fun c => c = 32 ∨ c = 9
  if hasPrefixCase (ascii "Token") p then { r with token := entryValue 255 (p.drop 5) }
  else if hasPrefixCase (ascii "Name") p ∧ ¬ hasPrefixCase (ascii "VPNAddress") p then
    { r with name := entryValue 255 (p.drop 4) }
  else if hasPrefixCase (ascii "VPNAddress") p then
    { r with vpnAddress := entryValue 63 (p.drop 10) }
  else if hasPrefixCase (ascii "Expires") p then { r with expires := atol (skipEquals (p.drop 7)) }
  else r

/-- The loop over the lines of a file. -/
def readInvitation (content : Text) : StoredInvitation :=
  (fgets 1024 content).foldl StoredInvitation.readLine {}

/-- `validate_invitation_token` at this time: the name and the address that the invitation
assigns. -/
def Site.validateInvitationToken (token : Text) (now : ℤ) : Site × Option (Text × Option Text) :=
  let filename := tokenToFilename token
  match s.invitations.read filename with
  | none => (s, none)
  | some content =>
      let r := readInvitation content
      if token ≠ r.token then (s, none)
      else
        let used := { s with invitations := s.invitations.unlink filename }
        if r.expires < now then (used, none)
        else (used, some (r.name, if r.vpnAddress = [] then none else some r.vpnAddress))

end Tinc
