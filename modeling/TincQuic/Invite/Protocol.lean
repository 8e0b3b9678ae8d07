import TincQuic.Invite.Files

/-!
# `protocol_invite.c`

Four requests make a node a member of the network: it sends its token with INVITE_JOIN, is told
about the network with INVITE_DATA, asks for a certificate with INVITE_CSR, and gets it with
INVITE_CERT.  The inviter handles the first and the third of them, the new node the others.

What the new node writes to its own `tinc.conf` and `hosts.json` is left out.
-/

namespace Tinc

open Bytes CText Function

/-! ## PEM on the wire -/

/-- `base64_to_pem` -/
def base64ToPem (base64 type : Text) : Text :=
  ascii "-----BEGIN " ++ type ++ ascii "-----\n" ++
    (base64.zipIdx.flatMap fun (c, i) => if (i + 1) % 64 = 0 then [c, 10] else [c]) ++
    (if base64.length % 64 ≠ 0 then [10] else []) ++
    ascii "-----END " ++ type ++ ascii "-----\n"

/-- The loop of `pem_to_base64`: whether the rest of the line is skipped, and whether the header
has been seen. -/
def pemBody (skip inBody : Bool) : Text → Text
  | [] => []
  | c :: t =>
      if skip then pemBody (c ≠ 10) inBody t
      else if ascii "-----BEGIN" <+: c :: t then pemBody true true t
      else if ascii "-----END" <+: c :: t then []
      else if inBody ∧ c ≠ 10 ∧ c ≠ 13 then c :: pemBody false inBody t
      else pemBody false inBody t

/-- `pem_to_base64` -/
def pemToBase64 (pem : Text) : Text := pemBody false false pem

variable (s : Site)

/-! ## The inviter -/

/-- The description of a host in INVITE_DATA. -/
def hostEntry (number : ℕ) (h : Host) (port : ℤ) : Text :=
  ascii ",Host_" ++ decimal number ++ 61 :: h.name ++ 124 :: ([59].intercalate h.addresses).take 511
    ++ 124 :: decimal port ++ 124 :: h.vpnAddress ++ 124 :: h.subnet

/-- A host is described behind the text, of which there are `count` before it, if the buffer of
2048 bytes has room for it. -/
def addHost (text : Text) (count : ℕ) (h : Host) (port : ℤ) : Option Text :=
  if text.length + (hostEntry count h port).length < 2048 then some (text ++ hostEntry count h port)
  else none

/-- The loop over the hosts, which ends when the buffer is full. -/
def addHosts : List Host → Text → ℕ → Text × ℕ
  | [], text, count => (text, count)
  | h :: hosts, text, count =>
      match addHost text count h h.port with
      | some text => addHosts hosts text (count + 1)
      | none => (text, count)

/-- The description of the network for a new node, the inviter itself first. -/
def Site.inviteConfig (name : Text) (vpnAddress : Option Text) : Text :=
  let myname := s.daemon.myself
  let text := ascii "Name=" ++ name ++ vpnAddress.elim [] (ascii ",VPNAddress=" ++ ·) ++
    ascii ",InvName=" ++ myname
  let me : Host :=
    { name := myname, addresses := [s.config.address.take 255], vpnAddress := s.config.vpnAddress }
  let others := (s.hosts.getD []).filter fun h => ¬ sameIgnoringCase h.name myname
  let (text, count) :=
    match addHost text 0 me (atoi s.daemon.config.myport) with
    | some text => addHosts others text 1
    | none => addHosts others text 0
  (text ++ ascii ",HostCount=" ++ decimal count).take 2047

/-- A request is sent on connection `c`. -/
def Site.sendRequest (c : ConnId) (request : Text) : Site × Bool :=
  let (d, ok) := s.daemon.sendRequest c request
  ({ s with daemon := d }, ok)

/-- `send_invite_data` -/
def Site.sendInviteData (c : ConnId) (name : Text) (vpnAddress : Option Text) : Site × Bool :=
  match s.config.caCert with
  | none => (s, false)
  | some caPem => s.sendRequest c (words [decimal Request.inviteData.number, name,
      pemToBase64 (caPem.take 8191), s.inviteConfig name vpnAddress])

/-- The `sscanf` of a handler that needs one word. -/
def parseWord (width : ℕ) (request : Text) : Option Text :=
  match (sscanf [.skip (.d none), .space, .conv (.s width)] request).1 with
  | [.str word] => some word
  | _ => none

/-- The connection belongs to the new node `name` now, and a CSR is expected. -/
def Conn.join (name : Text) (vpnAddress : Option Text) (conn : Conn) : Conn :=
  { conn with
    invitation := true
    name := name
    invitationVpnAddress := vpnAddress
    allowRequest := Request.inviteCsr.number }

/-- `invite_join_h` -/
def inviteJoinH (c : ConnId) (request : Text) (now : ℤ) : Site × Bool :=
  match parseWord 2048 request with
  | none => (s, false)
  | some token =>
      match s.validateInvitationToken token now with
      | (s, none) => (s, false)
      | (s, some (name, vpnAddress)) =>
          { s with
            daemon := s.daemon.setConn c (Conn.join name vpnAddress)
            validated := s.validated ++ [(c, token, name)] }.sendInviteData c name vpnAddress

/-- `sign_csr`: the certificate gets the subject of the request. -/
def SiteConfig.signCsr (config : SiteConfig) (csr : Text) : Option X509 :=
  match config.caSubject, config.readReq csr with
  | some issuer, some req =>
      let cert := { subject := req.subject, issuer := issuer, publicKey := req.publicKey }
      if config.caKey ∧ config.sign cert then some cert else none
  | _, _ => none

/-- `send_invite_cert` -/
def Site.sendInviteCert (c : ConnId) (cert fingerprint : Text) : Site × Bool :=
  s.sendRequest c (words [decimal Request.inviteCert.number, pemToBase64 cert, fingerprint])

/-- The address and the prefix length of an entry such as `10.0.0.2/24`.  An address that does not
fit into the buffer of 64 bytes is left out. -/
def splitVpnAddress (t : Text) : Text × ℤ :=
  if 47 ∈ t then
    let ip := t.takeWhile (· ≠ 47)
    if ip.length < 64 then (ip, atoi (t.drop (ip.length + 1))) else ([], 32)
  else (t.take 63, 32)

/-- The new node is entered into the database of hosts. -/
def addInvitedHost (hosts : List Host) (conn : Conn) : List Host :=
  let (hosts, i) := hostsDbAdd hosts conn.name
  match conn.invitationVpnAddress with
  | some (a :: t) =>
      hosts.modify i (·.setVpnAddress (splitVpnAddress (a :: t)).1 (splitVpnAddress (a :: t)).2)
  | _ => hosts

/-- `invite_csr_h`.  The host is entered whether or not the certificate could be sent. -/
def inviteCsrH (c : ConnId) (request : Text) : Site × Bool :=
  match parseWord 8000 request with
  | none => (s, false)
  | some base64 =>
      match s.config.signCsr (base64ToPem base64 (ascii "CERTIFICATE REQUEST")) with
      | none => (s, false)
      | some cert =>
          let pem := s.config.writeX509 cert
          let conn := s.daemon.conn c
          let (s, ok) := { s with signed := s.signed ++ [(c, cert)] }.sendInviteCert c pem
            ((s.config.fingerprint pem).getD (ascii "unknown"))
          ({ s with hosts := s.hosts.map (addInvitedHost · conn) }, ok)

/-! ## The new node -/

/-- The `sscanf` of `invite_data_h`: the assigned name and the certificate of the authority. -/
def parseInviteData (request : Text) : Option (Text × Text) :=
  match (sscanf [.skip (.d none), .space, maxString, .space, .conv (.s 8000), .space,
      .conv (.s 2048)] request).1 with
  | [.str name, .str ca] => some (name, ca)
  | [.str name, .str ca, .str _] => some (name, ca)
  | _ => none

/-- `invite_data_h` -/
def inviteDataH (c : ConnId) (request : Text) : Site × Bool :=
  match parseInviteData request with
  | none => (s, false)
  | some (name, _) =>
      if ¬ s.config.canSave (ascii "ca-cert.pem") then (s, false)
      else
        match s.config.generateCsr name with
        | none => (s, false)
        | some (_, csr) =>
            if ¬ s.config.canSave (ascii "server-key.pem") then (s, false)
            else
              let (s, ok) := s.sendRequest c
                (words [decimal Request.inviteCsr.number, pemToBase64 csr])
              if ok then
                ({ s with
                  daemon := s.daemon.setConn c
                    ({ · with allowRequest := Request.inviteCert.number }) }, true)
              else (s, false)

/-- `invite_cert_h`, which always ends the connection. -/
def inviteCertH : Site × Bool := (s, false)

/-! ## Dispatching -/

/-- `request_handlers`, with the handlers of invitations. -/
def Site.handler (r : Request) (c : ConnId) (request : Text) (now : ℤ) : Site × Bool :=
  match r with
  | .inviteJoin => inviteJoinH s c request now
  | .inviteCsr => inviteCsrH s c request
  | .inviteData => inviteDataH s c request
  | .inviteCert => inviteCertH s
  | r =>
      let (d, ok) := Tinc.handler r s.daemon c request
      ({ s with daemon := d }, ok)

end Tinc
