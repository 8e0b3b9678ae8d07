import TincQuic.Daemon.Codec
import TincQuic.Invite.Allocation
import TincQuic.Invite.Base64
import TincQuic.Invite.RoundTrip

/-!
# From an invitation to its URL and back

`create_invitation` prints a URL, `cmd_join` of `tincctl.c` takes it apart on another machine and
tells its daemon the host, the port and the token in a request of words, and with the token
`validate_invitation_token` finds the file again.

* `parseUrl`, `joinRequest` and `parseJoin` are the way of the URL.
* `joinTarget_plain` and `joinTarget_colon` say where it leads: the URL has no brackets, so that
  the host ends at the first colon.
* **The URL leads back to its invitation just when the daemon listens on port 443 and the address
  has no colon**: `url_leadsBack_iff`.
-/

namespace Tinc

open Bytes Comparison CText Function

/-! ## The new node -/

/-- What `cmd_join` skips of a URL. -/
def skipScheme (url : Text) : Text :=
  if ascii "https://" <+: url then url.drop 8
  else if ascii "http://" <+: url then url.drop 7
  else url

/-- The host and the port, which are apart at the first colon, with their buffers of 256 and 16
bytes. -/
def splitHostPort (hostport : Text) : Text × Text :=
  if 58 ∈ hostport then
    let host := hostport.takeWhile (· ≠ 58)
    (host.take 255, (hostport.drop (host.length + 1)).take 15)
  else (hostport.take 255, ascii "443")

/-- The host, the port and the token that `cmd_join` finds in a URL. -/
def parseUrl (url : Text) : Option (Text × Text × Text) :=
  let rest := skipScheme url
  let hostport := rest.takeWhile (· ≠ 47)
  let path := rest.dropWhile (· ≠ 47)
  if path = [] ∨ 256 ≤ hostport.length then none
  else if ascii "/invite/" <+: path then
    let token := (path.drop 8).take 255
    if token = [] then none
    else some ((splitHostPort hostport).1, (splitHostPort hostport).2, token)
  else none

/-- `REQ_JOIN` -/
def reqJoin : ℕ := 17

/-- The request that `cmd_join` sends to its daemon. -/
def joinRequest (host port token : Text) : Text :=
  words [decimal Request.control.number, decimal reqJoin, host, port, token]

/-- The `sscanf` of `control_h` on `REQ_JOIN`. -/
def parseJoin (request : Text) : Option (Text × Text × Text) :=
  match (sscanf [.skip (.d none), .space, .skip (.d none), .space, maxString, .space, maxString,
      .space, maxString] request).1 with
  | [.str host, .str port, .str token] => some (host, port, token)
  | _ => none

/-- What `process_join_request` is called with for a URL. -/
def joinTarget (url : Text) : Option (Text × Text × Text) :=
  (parseUrl url).bind fun (host, port, token) => parseJoin (joinRequest host port token)

example : joinTarget (ascii "https://a.example:443/invite/xyz") =
    some (ascii "a.example", ascii "443", ascii "xyz") := by decide +kernel

/-! ## Tokens -/

/-- A character of `base64url_table`, or the padding. -/
def IsTokenByte (c : UInt8) : Prop := c ≠ 47 ∧ c ≠ 10 ∧ isSpace c = false

lemma base64urlChar_plain (n : ℕ) : IsTokenByte (base64urlChar n) ∧ base64urlChar n ≠ 61 := by
  have hall : ∀ m < 64, IsTokenByte (base64urlTable.getD m 0) ∧ base64urlTable.getD m 0 ≠ 61 := by
    unfold IsTokenByte
    rw [base64urlTable_eq]
    decide +kernel
  exact hall (n % 64) (Nat.mod_lt n (by decide))

lemma base64urlEncode_plain (data : List UInt8) : ∀ c ∈ base64urlEncode data, IsTokenByte c := by
  have hpad : IsTokenByte 61 := by
    unfold IsTokenByte
    decide
  have hchar := fun n => (base64urlChar_plain n).1
  induction data using base64urlEncode.induct with
  | case1 => simp [base64urlEncode]
  | case2 a => simp [base64urlEncode, hchar, hpad]
  | case3 a b => simp [base64urlEncode, hchar, hpad]
  | case4 a b c data ih => simpa [base64urlEncode, hchar] using ih

/-- No token begins with the padding. -/
lemma head_base64urlEncode {data : List UInt8} {c : UInt8}
    (h : c ∈ (base64urlEncode data).head?) : c ≠ 61 := by
  have hchar := fun n => (base64urlChar_plain n).2
  unfold base64urlEncode at h
  split at h
  · cases h
  · obtain rfl := Option.some.inj h
    exact hchar _
  · obtain rfl := Option.some.inj h
    exact hchar _
  · obtain rfl := Option.some.inj h
    exact hchar _

lemma value_base64urlEncode (data : List UInt8) : Value (base64urlEncode data) where
  newline hmem := (base64urlEncode_plain data 10 hmem).2.1 rfl
  begins c hc := by
    have hspace := (base64urlEncode_plain data c (List.mem_of_mem_head? hc)).2.2
    refine ⟨?_, ?_, head_base64urlEncode hc⟩
    · rintro rfl
      exact absurd hspace (by decide)
    · rintro rfl
      exact absurd hspace (by decide)

/-! ## The way of the URL -/

/-- Bytes of an IPv4 address, an IPv6 address with its scope, or a host name. -/
def isAddressByte (c : UInt8) : Bool := isAlnum c ∨ c = 46 ∨ c = 45 ∨ c = 95 ∨ c = 58 ∨ c = 37

/-- What can be the address of a host: it fits into `MAX_ADDRESS_LEN` bytes. -/
structure HostAddress (address : Text) : Prop where
  ne_nil : address ≠ []
  length_le : address.length ≤ 127
  plain : ∀ c ∈ address, isAddressByte c = true

lemma isAddressByte_plain {c : UInt8} (h : isAddressByte c = true) :
    c ≠ 47 ∧ isSpace c = false := by
  have hall : ∀ c : UInt8, isAddressByte c = true → c ≠ 47 ∧ isSpace c = false := by decide +kernel
  exact hall c h

/-- What `create_invitation` prints. -/
def invitationUrl (address token : Text) : Text :=
  ascii "https://" ++ address ++ ascii ":443/invite/" ++ token

/-- The bytes in front of the path of a URL. -/
lemma hostport_plain {address : Text} (h : HostAddress address) {c : UInt8}
    (hc : c ∈ address ++ ascii ":443") : c ≠ 47 ∧ isSpace c = false := by
  have hport : (ascii ":443").all (fun c => c ≠ 47 ∧ isSpace c = false) = true := by decide
  rcases List.mem_append.mp hc with hc | hc
  · exact isAddressByte_plain (h.plain c hc)
  · exact of_decide_eq_true (List.all_eq_true.mp hport c hc)

lemma parseUrl_invitationUrl {address token : Text} (h : HostAddress address) (htoken : token ≠ [])
    (hfits : token.length ≤ 255) :
    parseUrl (invitationUrl address token) =
      some ((splitHostPort (address ++ ascii ":443")).1,
        (splitHostPort (address ++ ascii ":443")).2, token) := by
  have hscheme : skipScheme (invitationUrl address token) =
      address ++ ascii ":443" ++ (ascii "/invite/" ++ token) := by
    have hpre : invitationUrl address token =
        ascii "https://" ++ (address ++ ascii ":443" ++ (ascii "/invite/" ++ token)) := by
      have hsplit : ascii ":443/invite/" = ascii ":443" ++ ascii "/invite/" := rfl
      simp only [invitationUrl, hsplit, List.append_assoc]
    rw [hpre, skipScheme, if_pos (List.prefix_append _ _)]
    rfl
  have hslash : ∀ c ∈ address ++ ascii ":443", decide (c ≠ 47) = true :=
    fun c hc => decide_eq_true (hostport_plain h hc).1
  have hinvite : ascii "/invite/" ++ token = 47 :: (ascii "invite/" ++ token) := rfl
  have hhost : (address ++ ascii ":443" ++ (ascii "/invite/" ++ token)).takeWhile (· ≠ 47) =
      address ++ ascii ":443" := by
    rw [List.takeWhile_append_of_pos hslash, hinvite]
    simp
  have hpath : (address ++ ascii ":443" ++ (ascii "/invite/" ++ token)).dropWhile (· ≠ 47) =
      ascii "/invite/" ++ token := by
    rw [List.dropWhile_append_of_pos hslash]
    rfl
  have htake : ((ascii "/invite/" ++ token).drop 8).take 255 = token :=
    List.take_of_length_le hfits
  have hcond : ¬ (ascii "/invite/" ++ token = [] ∨ 256 ≤ (address ++ ascii ":443").length) := by
    have hlength := h.length_le
    have hport : (ascii ":443").length = 4 := rfl
    rw [List.length_append, hport]
    rintro (hnil | hle)
    · cases hnil
    · omega
  unfold parseUrl
  simp only [hscheme, hhost, hpath]
  rw [if_neg hcond, if_pos (List.prefix_append _ _), htake, if_neg htoken]

lemma splitHostPort_plain {address : Text} (h : HostAddress address) (hcolon : 58 ∉ address) :
    splitHostPort (address ++ ascii ":443") = (address, ascii "443") := by
  have hport : ascii ":443" = 58 :: ascii "443" := rfl
  have hpos : ∀ c ∈ address, decide (c ≠ 58) = true := by
    intro c hc
    refine decide_eq_true ?_
    rintro rfl
    exact hcolon hc
  have hhost : (address ++ ascii ":443").takeWhile (· ≠ 58) = address := by
    rw [List.takeWhile_append_of_pos hpos, hport]
    simp
  have hrest : (address ++ ascii ":443").drop (address.length + 1) = ascii "443" := by
    rw [← List.drop_drop, List.drop_left]
    rfl
  have hmem : (58 : UInt8) ∈ address ++ ascii ":443" := by simp [hport]
  unfold splitHostPort
  dsimp only
  rw [if_pos hmem, hhost, hrest, List.take_of_length_le (h.length_le.trans (by decide))]
  rfl

/-- With a colon in the address, the host ends there, and the port is what follows. -/
lemma splitHostPort_colon {address : Text} (h : HostAddress address) (hcolon : 58 ∈ address) :
    ∃ host port, splitHostPort (address ++ ascii ":443") = (host, port) ∧ 58 ∉ host ∧
      (∀ c ∈ host, isSpace c = false) ∧ host.length ≤ 255 ∧ IsWord port ∧ port.length ≤ 15 := by
  obtain ⟨pre, post, rfl, hpre⟩ := List.eq_append_cons_of_mem hcolon
  have hpos : ∀ c ∈ pre, decide (c ≠ 58) = true := by
    intro c hc
    refine decide_eq_true ?_
    rintro rfl
    exact hpre hc
  have hhost : (pre ++ 58 :: post ++ ascii ":443").takeWhile (· ≠ 58) = pre := by
    rw [List.append_assoc, List.takeWhile_append_of_pos hpos]
    simp
  have hrest : (pre ++ 58 :: post ++ ascii ":443").drop (pre.length + 1) =
      post ++ ascii ":443" := by
    rw [List.append_assoc, ← List.drop_drop, List.drop_left]
    rfl
  refine ⟨pre.take 255, (post ++ ascii ":443").take 15, ?_, ?_, ?_, ?_, ⟨?_, ?_⟩, ?_⟩
  · have hmem : (58 : UInt8) ∈ pre ++ 58 :: post ++ ascii ":443" := by simp
    unfold splitHostPort
    dsimp only
    rw [if_pos hmem, hhost, hrest]
  · exact fun hmem => hpre (List.mem_of_mem_take hmem)
  · intro c hc
    refine (hostport_plain h (c := c) ?_).2
    simp [List.mem_of_mem_take hc]
  · exact List.length_take_le _ _
  · cases post with
    | nil => simp [ascii]
    | cons c post => simp
  · intro c hc
    have hmem := List.mem_of_mem_take hc
    refine (hostport_plain h (c := c) ?_).2
    simp only [List.mem_append, List.mem_cons] at hmem ⊢
    tauto
  · exact List.length_take_le _ _

/-! ## The control request -/

lemma takes_requestNumbers : Takes (.skip (.d none), []) (decimal Request.control.number) ∧
    Takes (.skip (.d none), []) (decimal reqJoin) := by
  have hcontrol : IsInt Request.control.number := ⟨by decide, by decide⟩
  have hjoin : IsInt reqJoin := ⟨by decide, by decide⟩
  exact ⟨(takes_int hcontrol).skip, (takes_int hjoin).skip⟩

lemma takes_maxString {w : Text} (h : IsWord w) (hlength : w.length ≤ 255) :
    Takes (maxString, [.str w]) w := takes_string h (hlength.trans (by decide))

lemma parseJoin_joinRequest {host port token : Text} (hhost : IsWord host) (hport : IsWord port)
    (htoken : IsWord token) (hhostFits : host.length ≤ 255) (hportFits : port.length ≤ 255)
    (htokenFits : token.length ≤ 255) :
    parseJoin (joinRequest host port token) = some (host, port, token) := by
  obtain ⟨hcontrol, hjoin⟩ := takes_requestNumbers
  have hread := sscanf_words (.cons hcontrol (.cons hjoin (.cons (takes_maxString hhost hhostFits)
    (.cons (takes_maxString hport hportFits) (.cons (takes_maxString htoken htokenFits) .nil)))))
    (by simp) []
  unfold parseJoin joinRequest words
  simp only [List.map_cons, List.map_nil, List.intersperse_cons_cons, List.intersperse_singleton,
    List.cons_append, List.nil_append] at hread
  rw [hread]
  rfl

/-- Without a host there is one word too few. -/
lemma parseJoin_noHost {port token : Text} (hport : IsWord port) (htoken : IsWord token)
    (hportFits : port.length ≤ 255) (htokenFits : token.length ≤ 255) :
    parseJoin (joinRequest [] port token) = none := by
  obtain ⟨hcontrol, hjoin⟩ := takes_requestNumbers
  have htext : joinRequest [] port token = decimal Request.control.number ++
      32 :: (decimal reqJoin ++ 32 :: 32 :: (port ++ 32 :: (token ++ []))) := by
    simp [joinRequest, words, List.intercalate]
  have hblank : ∀ t : Text, skipSpace (32 :: t) = skipSpace t := fun t =>
    List.dropWhile_cons_of_pos (by decide)
  have hends : ∀ t : Text, EndsWord (32 :: t) := by
    intro t c hc
    exact (Option.some.inj hc).symm
  unfold parseJoin
  rw [htext, hcontrol.2 _ (hends _), sscanf, hblank, hjoin.1.skipSpace_append,
    hjoin.2 _ (hends _), sscanf, hblank, hblank, hport.skipSpace_append,
    (takes_maxString hport hportFits).2 _ (hends _), sscanf, hblank, htoken.skipSpace_append,
    (takes_maxString htoken htokenFits).2 [] (by simp [EndsWord])]
  rfl

/-! ## The file of an invitation -/

variable (s : Site)

/-- The address that `create_invitation` reserves with these random bytes, at this time. -/
def Site.allocated (random : List UInt8) (now : ℤ) : Option Text :=
  let filename := tokenToFilename (base64urlEncode random)
  allocateVpnIp s.config.vpnAddress
    ((cleanupExpiredInvitations s.invitations now).write filename ⟨[], now⟩) s.hosts

/-- What is allocated can stand in the file, and is read back as a whole. -/
lemma value_allocateVpnIp {value : Text} {dir : Directory} {hosts : Option (List Host)} {a : Text}
    (h : allocateVpnIp value dir hosts = some a) : Value a ∧ a.length ≤ 63 ∧ a ≠ [] := by
  obtain ⟨v, -, hv⟩ := Option.bind_eq_some_iff.mp h
  obtain ⟨ip, -, rfl⟩ := Option.map_eq_some_iff.mp hv
  refine ⟨value_of_plain fun c hc => ?_, (List.length_take_le _ _).trans (by decide), ?_⟩
  · have hmem := List.mem_of_mem_take hc
    have hip : ∀ b : UInt8, isDigit b = false → b ≠ 46 → b ∉ ipToString ip := fun b =>
      fun hdigit hdot => notMem_ipToString hdigit hdot ip
    rw [List.mem_append, List.mem_cons] at hmem
    refine ⟨?_, ?_, ?_, ?_⟩
    all_goals
      rintro rfl
      rcases hmem with hmem | hmem | hmem
      · exact absurd hmem (hip _ (by decide) (by decide))
      · exact absurd hmem (by decide)
      · exact absurd (mem_decimal hmem) (by decide)
  · rw [ipToString_eq]
    obtain ⟨c, t, hct⟩ := List.exists_cons_of_ne_nil (decimal_ne_nil (octet ip 24))
    rw [hct]
    simp

lemma value_of_checkId {name : Name} (h : checkId name = true) : Value name := by
  have hall : ∀ c : UInt8, isAlnum c ∨ c = 95 → c ≠ 10 ∧ c ≠ 32 ∧ c ≠ 9 ∧ c ≠ 61 := by
    decide +kernel
  simp only [checkId, decide_eq_true_eq, List.all_eq_true] at h
  exact value_of_plain fun c hc => hall c (h.2 c hc)

/-- What was written is what is read. -/
lemma Directory.read_write (dir : Directory) (filename : Text) (file : InvitationFile) :
    (dir.write filename file).read filename = some file.content := by
  have hother : (dir.filter (·.1 ≠ filename)).find? (·.1 = filename) = none := by
    rw [List.find?_eq_none]
    intro entry hentry
    simpa using (List.mem_filter.mp hentry).2
  unfold Directory.read Directory.write
  rw [List.find?_append, hother, Option.none_or, List.find?_cons_of_pos (by simp)]
  rfl

/-- An invitation that was created: the file, and the URL. -/
lemma createInvitation_some {s s' : Site} {name : Text} {random : List UInt8} {now : ℤ}
    {url : Text} (h : s.createInvitation name random now = (s', 0, some url)) :
    url = invitationUrl s.myAddress (base64urlEncode random) ∧
      s'.invitations.read (tokenToFilename (base64urlEncode random)) =
        some (invitationText name (base64urlEncode random) now (s.allocated random now)) := by
  unfold Site.createInvitation at h
  split at h
  · cases h
  · split at h
    · cases h
    · split at h
      · cases h
      · obtain ⟨hs, hresult⟩ := Prod.mk.inj h
        obtain ⟨-, hurl⟩ := Prod.mk.inj hresult
        rw [← hs, ← Option.some.inj hurl]
        exact ⟨rfl, Directory.read_write _ _ _⟩

/-- The invitation is found again by its token, until it expires. -/
lemma validate_created {s s' : Site} {name : Text} {random : List UInt8} {now later : ℤ}
    {url : Text}
    (hname : checkId name = true) (hnameFits : name.length ≤ 255) (hrandom : random.length = 32)
    (hnow : IsLong now) (hexpires : IsLong (now + invitationValidity))
    (h : s.createInvitation name random now = (s', 0, some url))
    (hlater : later ≤ now + invitationValidity) :
    (s'.validateInvitationToken (base64urlEncode random) later).2 =
      some (name, s.allocated random now) := by
  have htokenFits : (base64urlEncode random).length ≤ 255 := by
    rw [length_base64urlEncode, hrandom]
    decide
  have halloc : ∀ a ∈ s.allocated random now, Value a ∧ a.length ≤ 63 := fun a ha =>
    ⟨(value_allocateVpnIp ha).1, (value_allocateVpnIp ha).2.1⟩
  have hread := readInvitation_text (value_of_checkId hname) hnameFits
    (value_base64urlEncode random) htokenFits halloc hnow hexpires
  unfold Site.validateInvitationToken
  simp only [(createInvitation_some h).2, hread]
  rw [if_neg (not_not.mpr rfl), if_neg (by omega)]
  cases halloc : s.allocated random now with
  | none => rfl
  | some a =>
      have hne : a ≠ [] := (value_allocateVpnIp halloc).2.2
      rw [Option.getD_some, if_neg hne]

/-! ## There and back -/

/-- The URL of an invitation leads back to it: on the new node to the address and the port of the
daemon, and to the token, and with the token to the name and the address of the invitation. -/
structure LeadsBack (s s' : Site) (name : Text) (random : List UInt8) (now : ℤ)
    (address url : Text) : Prop where
  place : ∃ port, joinTarget url = some (address, port, base64urlEncode random) ∧
    atoi port = atoi s.daemon.config.myport
  invitation : ∀ later, now ≤ later → later ≤ now + invitationValidity →
    (s'.validateInvitationToken (base64urlEncode random) later).2 =
      some (name, s.allocated random now)

section Joined

variable {address : Text} {random : List UInt8}

lemma token_word (hrandom : random.length = 32) : IsWord (base64urlEncode random) ∧
    (base64urlEncode random).length ≤ 255 := by
  have hlength := length_base64urlEncode random
  rw [hrandom] at hlength
  refine ⟨⟨?_, fun c hc => (base64urlEncode_plain random c hc).2.2⟩, ?_⟩
  · intro hnil
    rw [hnil] at hlength
    cases hlength
  · rw [hlength]
    decide

lemma joinTarget_plain (h : HostAddress address) (hcolon : 58 ∉ address)
    (hrandom : random.length = 32) :
    joinTarget (invitationUrl address (base64urlEncode random)) =
      some (address, ascii "443", base64urlEncode random) := by
  obtain ⟨htoken, hfits⟩ := token_word hrandom
  have hhost : IsWord address := ⟨h.ne_nil, fun c hc => (isAddressByte_plain (h.plain c hc)).2⟩
  have hall : (ascii "443").all (fun c => !isSpace c) = true := by decide
  have hport : IsWord (ascii "443") :=
    ⟨by decide, fun c hc => by simpa using List.all_eq_true.mp hall c hc⟩
  unfold joinTarget
  rw [parseUrl_invitationUrl h htoken.1 hfits, splitHostPort_plain h hcolon, Option.bind_some]
  have hport255 : (ascii "443").length ≤ 255 := by decide
  exact parseJoin_joinRequest hhost hport htoken (h.length_le.trans (by decide)) hport255 hfits

/-- An address with a colon is not what the new node gets. -/
lemma joinTarget_colon (h : HostAddress address) (hcolon : 58 ∈ address)
    (hrandom : random.length = 32) (port token : Text) :
    joinTarget (invitationUrl address (base64urlEncode random)) ≠ some (address, port, token) := by
  obtain ⟨htoken, hfits⟩ := token_word hrandom
  obtain ⟨host, port', hsplit, hnot, hspace, hlength, hport, hportFits⟩ :=
    splitHostPort_colon h hcolon
  have hport255 : port'.length ≤ 255 := hportFits.trans (by decide)
  unfold joinTarget
  rw [parseUrl_invitationUrl h htoken.1 hfits, hsplit, Option.bind_some]
  dsimp only
  by_cases hhost : host = []
  · rw [hhost, parseJoin_noHost hport htoken hport255 hfits]
    simp
  · rw [parseJoin_joinRequest ⟨hhost, hspace⟩ hport htoken hlength hport255 hfits]
    intro heq
    obtain rfl := (Prod.mk.inj (Option.some.inj heq)).1
    exact hnot hcolon

end Joined

/-- **The URL leads back to the invitation** just when the daemon listens on port 443, which is in
every URL, and its address has no colon, which ends the host of every URL. -/
theorem url_leadsBack_iff {s s' : Site} {name : Text} {random : List UInt8} {now : ℤ}
    {address url : Text} {hosts : List Host} {me : Host}
    (hname : checkId name = true) (hnameFits : name.length ≤ 255) (hrandom : random.length = 32)
    (hnow : IsLong now) (hexpires : IsLong (now + invitationValidity))
    (hhosts : s.hosts = some hosts) (hme : hostsDbFind hosts s.daemon.myself = some me)
    (hfirst : me.addresses.head? = some address) (haddress : HostAddress address)
    (h : s.createInvitation name random now = (s', 0, some url)) :
    LeadsBack s s' name random now address url ↔
      atoi s.daemon.config.myport = 443 ∧ 58 ∉ address := by
  have hmyAddress : s.myAddress = address := by
    unfold Site.myAddress
    rw [hhosts, Option.bind_some, hme]
    simp only [List.headD_eq_head?_getD, hfirst, Option.getD_some]
  have hurl : url = invitationUrl address (base64urlEncode random) := by
    rw [(createInvitation_some h).1, hmyAddress]
  have h443 : atoi (ascii "443") = 443 := by decide
  constructor
  · rintro ⟨⟨port, hjoined, hport⟩, -⟩
    rw [hurl] at hjoined
    have hcolon : 58 ∉ address := fun hmem => joinTarget_colon haddress hmem hrandom _ _ hjoined
    refine ⟨?_, hcolon⟩
    rw [joinTarget_plain haddress hcolon hrandom] at hjoined
    obtain rfl := (Prod.mk.inj (Prod.mk.inj (Option.some.inj hjoined)).2).1
    rw [← hport, h443]
  · rintro ⟨hport, hcolon⟩
    refine ⟨⟨ascii "443", ?_, h443.trans hport.symm⟩, fun later _ hlater => ?_⟩
    · rw [hurl]
      exact joinTarget_plain haddress hcolon hrandom
    · exact validate_created hname hnameFits hrandom hnow hexpires h hlater

/-- A daemon that is the authority of its network, with this address and this port. -/
def invitingSite (address port : Text) : Site where
  config :=
    { vpnAddress := ascii "10.0.0.1/24", address := [], hasCaAuthority := true, canWrite := true,
      caCert := none, caKey := true, caSubject := none, readReq := fun _ => none,
      sign := fun _ => true, writeX509 := fun cert => cert.subject, fingerprint := fun _ => none,
      generateCsr := fun _ => none, canSave := fun _ => true }
  daemon := .init { Config.plain (ascii "a") with myport := port } id
  invitations := []
  hosts := some [{ name := ascii "a", addresses := [address], vpnAddress := ascii "10.0.0.1" }]
  validated := []
  signed := []

/-- What an inviting site creates for `b` with thirty-two zero bytes. -/
def invitingSiteAfter (address port : Text) : Site :=
  ((invitingSite address port).createInvitation (ascii "b") (List.replicate 32 0) 0).1

theorem url_leadsBack_hostName :
    LeadsBack (invitingSite (ascii "vpn.example") (ascii "443"))
      (invitingSiteAfter (ascii "vpn.example") (ascii "443")) (ascii "b") (List.replicate 32 0) 0
      (ascii "vpn.example")
      (invitationUrl (ascii "vpn.example") (base64urlEncode (List.replicate 32 0))) := by
  refine (url_leadsBack_iff (by decide) (by decide) (by decide) ?_ ?_ rfl rfl rfl ?_ rfl).mpr
    ⟨by decide, by decide⟩
  · exact ⟨by decide, by decide⟩
  · exact ⟨by decide, by decide⟩
  · exact ⟨by decide, by decide, List.all_eq_true.mp (by decide)⟩

/-- The host in the URL of an IPv6 address is what stands before its first colon. -/
theorem ipv6_url_lost :
    ¬ ∀ (s s' : Site) (name : Text) (random : List UInt8) (now : ℤ) (address url : Text)
      (hosts : List Host) (me : Host), checkId name = true → name.length ≤ 255 →
      random.length = 32 → IsLong now → IsLong (now + invitationValidity) → s.hosts = some hosts →
      hostsDbFind hosts s.daemon.myself = some me → me.addresses.head? = some address →
      HostAddress address → s.createInvitation name random now = (s', 0, some url) →
      LeadsBack s s' name random now address url := by
  intro h
  have hback := h (invitingSite (ascii "2001:db8::1") (ascii "443"))
    (invitingSiteAfter (ascii "2001:db8::1") (ascii "443")) (ascii "b") (List.replicate 32 0) 0
    (ascii "2001:db8::1")
    (invitationUrl (ascii "2001:db8::1") (base64urlEncode (List.replicate 32 0)))
    [{ name := ascii "a", addresses := [ascii "2001:db8::1"], vpnAddress := ascii "10.0.0.1" }]
    { name := ascii "a", addresses := [ascii "2001:db8::1"], vpnAddress := ascii "10.0.0.1" }
    (by decide) (by decide) (by decide) ⟨by decide, by decide⟩ ⟨by decide, by decide⟩ rfl rfl rfl
    ⟨by decide, by decide, List.all_eq_true.mp (by decide)⟩ rfl
  obtain ⟨port, hjoined, -⟩ := hback.place
  have hlost :
      joinTarget (invitationUrl (ascii "2001:db8::1") (base64urlEncode (List.replicate 32 0))) =
        some (ascii "2001", ascii "db8::1:443", base64urlEncode (List.replicate 32 0)) := by
    decide +kernel
  rw [hlost] at hjoined
  exact absurd (Prod.mk.inj (Option.some.inj hjoined)).1 (by decide)

end Tinc
