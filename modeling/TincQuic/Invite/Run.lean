import TincQuic.Daemon.Links
import TincQuic.Invite.Protocol
import TincQuic.Lib.Run

/-!
# Runs of a site

What can happen to a daemon that invites others or joins a network itself, and what each of the
handlers of invitations does, in the few cases that there are.

* `inviteJoinH_cases`: the token is good for nothing, or the file of the invitation is used up and
  the connection belongs to the new node.
* `inviteCsrH_cases`: nothing, or a certificate is signed and the node is entered as a host.
* `inviteDataH_cases`: nothing but sending, or INVITE_CERT is expected next.
-/

namespace Tinc

open Bytes CText Function

variable {s s' : Site}

/-! ## Sending -/

lemma Site.sendRequest_eq (s : Site) (c : ConnId) (request : Text) :
    ∃ d, SameIndexes s.daemon d ∧ (s.sendRequest c request).1 = { s with daemon := d } :=
  ⟨_, SameIndexes.sendRequest s.daemon c request, rfl⟩

/-- A request that is not too long is sent, if the transport takes it. -/
lemma Daemon.sendRequest_ok {d : Daemon} {c : ConnId} {request : Text}
    (hlen : request.length < maxBufSize) (hc : (d.conn c).canSend = true) :
    (d.sendRequest c request).2 = true := by
  unfold Daemon.sendRequest
  rw [if_neg (by omega)]
  split
  · rfl
  · rw [Daemon.sendMeta, if_pos hc]

lemma length_pemBody (skip inBody : Bool) (t : Text) :
    (pemBody skip inBody t).length ≤ t.length := by
  induction t generalizing skip inBody with
  | nil => exact le_refl _
  | cons c t ih =>
      rw [pemBody]
      have hle := fun b b' => (ih b b').trans (Nat.le_succ _)
      split
      · exact hle _ _
      · split
        · exact hle _ _
        · split
          · exact Nat.zero_le _
          · split
            · exact Nat.succ_le_succ (ih _ _)
            · exact hle _ _

lemma sendInviteData_ok {c : ConnId} {name : Text} (hname : name.length ≤ 255)
    (vpnAddress : Option Text) (hca : s.config.caCert ≠ none)
    (hc : (s.daemon.conn c).canSend = true) :
    (s.sendInviteData c name vpnAddress).2 = true := by
  obtain ⟨pem, hpem⟩ := Option.ne_none_iff_exists'.mp hca
  unfold Site.sendInviteData
  rw [hpem]
  refine Daemon.sendRequest_ok ?_ hc
  have hca : (pemToBase64 (pem.take 8191)).length ≤ 8191 :=
    (length_pemBody _ _ _).trans (by simp)
  have hconf : (s.inviteConfig name vpnAddress).length ≤ 2047 := by
    simp [Site.inviteConfig]
  have hnum : (decimal Request.inviteData.number).length = 2 := by decide
  simp only [words, List.intercalate, List.intersperse_cons_cons, List.intersperse_singleton,
    List.flatten_cons, List.flatten_nil, List.length_append, List.length_cons, List.length_nil,
    hnum, maxBufSize]
  omega

/-! ## The handlers -/

/-- The name that an invitation assigns fits into its buffer. -/
lemma StoredInvitation.length_name {r : StoredInvitation} (h : r.name.length ≤ 255) (line : Text) :
    (r.readLine line).name.length ≤ 255 := by
  unfold StoredInvitation.readLine
  dsimp only
  split
  · exact h
  · split
    · simp [entryValue]
    · split
      · exact h
      · split <;> exact h

lemma length_readInvitation (content : Text) : (readInvitation content).name.length ≤ 255 := by
  have hfold : ∀ (lines : List Text) (r : StoredInvitation), r.name.length ≤ 255 →
      (lines.foldl StoredInvitation.readLine r).name.length ≤ 255 := by
    intro lines
    induction lines with
    | nil => exact fun _ h => h
    | cons line lines ih => exact fun r h => ih _ (r.length_name h line)
  exact hfold _ _ (Nat.zero_le _)

/-- The address that a file assigns, or none. -/
def StoredInvitation.address (r : StoredInvitation) : Option Text :=
  if r.vpnAddress = [] then none else some r.vpnAddress

/-- The file of a good token is gone afterwards, and so is one that has expired. -/
lemma validateInvitationToken_cases (s : Site) (token : Text) (now : ℤ) :
    (∃ dir, (dir = s.invitations ∨ dir = s.invitations.unlink (tokenToFilename token)) ∧
      s.validateInvitationToken token now = ({ s with invitations := dir }, none)) ∨
    ∃ content, s.invitations.read (tokenToFilename token) = some content ∧
      token = (readInvitation content).token ∧ s.validateInvitationToken token now =
        ({ s with invitations := s.invitations.unlink (tokenToFilename token) },
          some ((readInvitation content).name, (readInvitation content).address)) := by
  unfold Site.validateInvitationToken
  dsimp only
  split
  · exact .inl ⟨_, .inl rfl, rfl⟩
  · rename_i content hread
    split
    · exact .inl ⟨_, .inl rfl, rfl⟩
    · rename_i htoken
      split
      · exact .inl ⟨_, .inr rfl, rfl⟩
      · exact .inr ⟨content, hread, not_not.mp htoken, rfl⟩

/-- INVITE_JOIN is refused, or the invitation is used up for the new node. -/
lemma inviteJoinH_cases (s : Site) (c : ConnId) (request : Text) (now : ℤ) :
    (∃ dir, (dir = s.invitations ∨ ∃ filename, dir = s.invitations.unlink filename) ∧
      inviteJoinH s c request now = ({ s with invitations := dir }, false)) ∨
    ∃ token content d, s.invitations.read (tokenToFilename token) = some content ∧
      token = (readInvitation content).token ∧
      SameIndexes (s.daemon.setConn c
        (Conn.join (readInvitation content).name (readInvitation content).address)) d ∧
      (inviteJoinH s c request now).1 = { s with
        daemon := d
        invitations := s.invitations.unlink (tokenToFilename token)
        validated := s.validated ++ [(c, token, (readInvitation content).name)] } ∧
      (s.config.caCert ≠ none → (s.daemon.conn c).canSend = true →
        (inviteJoinH s c request now).2 = true) := by
  unfold inviteJoinH
  split
  · exact .inl ⟨_, .inl rfl, rfl⟩
  · rename_i token htoken
    rcases validateInvitationToken_cases s token now with ⟨dir, hdir, hv⟩ | ⟨content, hr, ht, hv⟩
    · rw [hv]
      exact .inl ⟨dir, hdir.imp_right fun h => ⟨_, h⟩, rfl⟩
    · rw [hv]
      dsimp only
      refine .inr ⟨token, content, ?_⟩
      generalize hs₁ : ({ s with
        daemon := s.daemon.setConn c
          (Conn.join (readInvitation content).name (readInvitation content).address)
        invitations := s.invitations.unlink (tokenToFilename token)
        validated := s.validated ++ [(c, token, (readInvitation content).name)] } : Site) = s₁
      have hsend : ∃ d, SameIndexes s₁.daemon d ∧ (s₁.sendInviteData c
          (readInvitation content).name (readInvitation content).address).1 =
            { s₁ with daemon := d } := by
        unfold Site.sendInviteData
        split
        · exact ⟨_, .refl _, rfl⟩
        · exact s₁.sendRequest_eq c _
      obtain ⟨d, hd, heq⟩ := hsend
      refine ⟨d, hr, ht, ?_, ?_, fun hca hc => ?_⟩
      · rw [← hs₁] at hd
        exact hd
      · rw [heq, ← hs₁]
      · refine sendInviteData_ok (length_readInvitation content) _ ?_ ?_
        · rw [← hs₁]
          exact hca
        · rw [← hs₁]
          simpa [Daemon.setConn, Conn.join] using hc

/-- INVITE_CSR is refused, or a certificate is signed and the node is entered as a host. -/
lemma inviteCsrH_cases (s : Site) (c : ConnId) (request : Text) :
    inviteCsrH s c request = (s, false) ∨
    ∃ base64 cert d, parseWord 8000 request = some base64 ∧
      s.config.signCsr (base64ToPem base64 (ascii "CERTIFICATE REQUEST")) = some cert ∧
      SameIndexes s.daemon d ∧ (inviteCsrH s c request).1 = { s with
        daemon := d
        hosts := s.hosts.map (addInvitedHost · (s.daemon.conn c))
        signed := s.signed ++ [(c, cert)] } := by
  unfold inviteCsrH
  split
  · exact .inl rfl
  · rename_i base64 hword
    split
    · exact .inl rfl
    · rename_i cert hcert
      exact .inr ⟨base64, cert, _, hword, hcert, SameIndexes.sendRequest s.daemon c _, rfl⟩

/-- INVITE_DATA is of no consequence but for what is sent, or INVITE_CERT is expected next. -/
lemma inviteDataH_cases (s : Site) (c : ConnId) (request : Text) :
    ∃ d, ((inviteDataH s c request).1 = { s with daemon := d } ∧ SameIndexes s.daemon d) ∨
      ((inviteDataH s c request).1 = { s with
          daemon := d.setConn c ({ · with allowRequest := Request.inviteCert.number }) } ∧
        SameIndexes s.daemon d) := by
  have hrefl : ∃ d, ((s, false).1 = { s with daemon := d } ∧ SameIndexes s.daemon d) ∨
      ((s, false).1 = { s with
          daemon := d.setConn c ({ · with allowRequest := Request.inviteCert.number }) } ∧
        SameIndexes s.daemon d) := ⟨s.daemon, .inl ⟨rfl, .refl _⟩⟩
  unfold inviteDataH
  split
  · exact hrefl
  · split
    · exact hrefl
    · split
      · exact hrefl
      · split
        · exact hrefl
        · dsimp only
          split
          · exact ⟨_, .inr ⟨rfl, SameIndexes.sendRequest s.daemon c _⟩⟩
          · exact ⟨_, .inl ⟨rfl, SameIndexes.sendRequest s.daemon c _⟩⟩

/-! ## The events -/

/-- What happens to a site. -/
inductive SiteEvent where
  /-- A connection is accepted, or opened to a node of the network. -/
  | accept (c : ConnId) (conn : Conn)
  /-- `process_join_request` opens a connection. -/
  | joinNetwork (c : ConnId)
  | createInvitation (name : Text) (random : List UInt8) (now : ℤ)
  | receive (c : ConnId) (request : Text) (now : ℤ)
  | terminate (c : ConnId) (report : Bool)

/-- The connection that `process_join_request` makes. -/
def joiningConn : Conn :=
  { name := ascii "<invitation>", invitation := true, allowRequest := Request.inviteData.number }

/-- `receive_request`: what the handler makes of it, and its result. -/
def Site.receive (s : Site) (c : ConnId) (request : Text) (now : ℤ) : Site × Bool :=
  match s.daemon.gate c request with
  | .skipped => (s, true)
  | .refused => (s, false)
  | .admitted r => s.handler r c request now

/-- One event. -/
def Site.step (s : Site) : SiteEvent → Site
  | .accept c conn => { s with daemon := s.daemon.step (.connectionAdd c conn) }
  | .joinNetwork c => { s with daemon := s.daemon.step (.connectionAdd c joiningConn) }
  | .createInvitation name random now => (s.createInvitation name random now).1
  | .receive c request now => (s.receive c request now).1
  | .terminate c report => { s with daemon := s.daemon.terminateConnection c report }

end Tinc
