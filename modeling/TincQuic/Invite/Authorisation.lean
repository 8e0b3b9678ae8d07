import TincQuic.Invite.Run

/-!
# Who may send what

The only thing that keeps a request from its handler is `c->allow_request`.  Here it is compared
with what has happened on the connection before.

* `Record` is an entry of the history: a connection was opened, or a handler was executed.
* `Lawful` is what one expects of a history: a CSR comes after a successful INVITE_JOIN, INVITE_DATA
  and INVITE_CERT come on connections that were opened in order to join, and requests about the
  network come after the connection was activated.
* **Every run has a lawful history** if the requests of an invitation do not come on an active
  connection, which admits them too, and no INVITE_JOIN fails after its token was found valid:
  `requests_authorised`.  Requests about the network are always authorised, as the proof shows.
-/

namespace Tinc

open Bytes CText Run

/-- An entry of the history. -/
inductive Record where
  /-- A connection was opened; `joining` if `process_join_request` did it. -/
  | opened (c : ConnId) (joining : Bool)
  /-- A handler was executed, with this result; `activated` if all requests are admitted since
  then. -/
  | handled (c : ConnId) (r : Request) (ok activated : Bool)
  deriving DecidableEq

/-- The requests about the network. -/
def Request.aboutNetwork (r : Request) : Bool :=
  r ∈ [Request.addSubnet, .delSubnet, .addEdge, .delEdge, .udpInfo, .mtuInfo]

/-- After this history the entry is as it should be. -/
def Record.Lawful (before : List Record) : Record → Prop
  | .opened _ _ => True
  | .handled c r _ _ =>
      (r = .inviteCsr → ∃ a, .handled c .inviteJoin true a ∈ before) ∧
      (r = .inviteData ∨ r = .inviteCert → .opened c true ∈ before) ∧
      (r.aboutNetwork → ∃ ok, .handled c .ack ok true ∈ before)

/-- Every entry is as it should be, the latest entry first. -/
inductive LawfulLog : List Record → Prop where
  | nil : LawfulLog []
  | cons {r : Record} {before : List Record} :
      r.Lawful before → LawfulLog before → LawfulLog (r :: before)

/-- A site with its history, the latest entry first. -/
structure LoggedSite where
  site : Site
  log : List Record

/-- What an event adds to the history. -/
def Site.record (s : Site) : SiteEvent → List Record
  | .accept c _ => [.opened c false]
  | .joinNetwork c => [.opened c true]
  | .receive c request now =>
      match s.daemon.gate c request with
      | .admitted r =>
          let (s', ok) := s.handler r c request now
          [.handled c r ok ((s.daemon.conn c).allowRequest ≠ allRequests ∧
            (s'.daemon.conn c).allowRequest = allRequests)]
      | _ => []
  | _ => []

def LoggedSite.step (l : LoggedSite) (e : SiteEvent) : LoggedSite :=
  ⟨l.site.step e, l.site.record e ++ l.log⟩

/-- Connections are new when they are opened, they expect an ID then, and only open connections
receive and end. -/
def SiteEvent.Possible (l : LoggedSite) : SiteEvent → Prop
  | .accept c conn => (∀ j, .opened c j ∉ l.log) ∧ conn.allowRequest = Request.id.number
  | .joinNetwork c => ∀ j, .opened c j ∉ l.log
  | .createInvitation _ _ _ => True
  | .receive c _ _ => c ∈ l.site.daemon.connectionList
  | .terminate c _ => c ∈ l.site.daemon.connectionList

/-- No active connection sends INVITE_DATA, INVITE_CSR or INVITE_CERT, and an INVITE_JOIN comes when
INVITE_DATA can be sent: the certificate of the authority can be read and the transport takes the
answer. -/
def SiteEvent.Guarded (l : LoggedSite) : SiteEvent → Prop
  | .receive c request _ =>
      (l.site.daemon.gate c request = .admitted .inviteData ∨
        l.site.daemon.gate c request = .admitted .inviteCsr ∨
        l.site.daemon.gate c request = .admitted .inviteCert →
        (l.site.daemon.conn c).allowRequest ≠ allRequests) ∧
      (l.site.daemon.gate c request = .admitted .inviteJoin →
        l.site.config.caCert ≠ none ∧ (l.site.daemon.conn c).canSend = true)
  | _ => True

/-- The values that `allow_request` takes. -/
def allowed : List ℤ :=
  [allRequests, Request.id.number, Request.ack.number, Request.control.number,
    Request.inviteData.number, Request.inviteCsr.number, Request.inviteCert.number]

/-- What a connection admits is what its history entitles it to. -/
structure Entitled (l : LoggedSite) : Prop where
  range : ∀ c ∈ l.site.daemon.connectionList, (l.site.daemon.conn c).allowRequest ∈ allowed
  csr : ∀ c ∈ l.site.daemon.connectionList,
    (l.site.daemon.conn c).allowRequest = Request.inviteCsr.number →
      ∃ a, .handled c .inviteJoin true a ∈ l.log
  join : ∀ c ∈ l.site.daemon.connectionList,
    (l.site.daemon.conn c).allowRequest = Request.inviteData.number ∨
      (l.site.daemon.conn c).allowRequest = Request.inviteCert.number → .opened c true ∈ l.log
  all : ∀ c ∈ l.site.daemon.connectionList,
    (l.site.daemon.conn c).allowRequest = allRequests → ∃ ok, .handled c .ack ok true ∈ l.log
  lawful : LawfulLog l.log

/-! ## What a handler admits -/

/-- How `c->allow_request` may change when the handler of `r` is executed with result `ok`. -/
inductive Admits (s : Site) (c : ConnId) (ok : Bool) : Request → ℤ → Prop where
  | same (r : Request) : Admits s c ok r (s.daemon.conn c).allowRequest
  | control : Admits s c ok .id Request.control.number
  | ack : Admits s c ok .id Request.ack.number
  | all : Admits s c ok .ack allRequests
  | csr : (s.config.caCert ≠ none → (s.daemon.conn c).canSend = true → ok = true) →
      Admits s c ok .inviteJoin Request.inviteCsr.number
  | cert : Admits s c ok .inviteData Request.inviteCert.number

/-- A connection `c` whose record is replaced. -/
lemma Changes.of_setConn {d d' : Daemon} {c : ConnId} {f : Conn → Conn}
    (h : SameIndexes (d.setConn c f) d') :
    Changes c d d' ∧ (d'.conn c).allowRequest = (f (d.conn c)).allowRequest := by
  obtain ⟨_, _, _, _, _, _, _, rfl⟩ := h
  refine ⟨⟨fun i hi => hi, fun i _ hne => ?_⟩, ?_⟩
  · simp [Daemon.setConn, hne]
  · simp [Daemon.setConn]

/-- Other connections stand as before, and `c` admits what the handler is there for. -/
lemma Site.handler_admits (s : Site) (r : Request) (c : ConnId) (request : Text) (now : ℤ) :
    Changes c s.daemon (s.handler r c request now).1.daemon ∧
      (c ∈ (s.handler r c request now).1.daemon.connectionList →
        ∃ allow, ((s.handler r c request now).1.daemon.conn c).allowRequest = allow ∧
          Admits s c (s.handler r c request now).2 r allow) := by
  have hnarrow : ∀ {s' : Site × Bool}, Narrows s.daemon s'.1.daemon →
      Changes c s.daemon s'.1.daemon ∧ (c ∈ s'.1.daemon.connectionList →
        ∃ allow, (s'.1.daemon.conn c).allowRequest = allow ∧ Admits s c s'.2 r allow) :=
    fun h => ⟨h.changes c, fun hc => ⟨_, congrArg Standing.allowRequest (h c hc).2, .same r⟩⟩
  cases r with
  | id =>
      obtain ⟨hch, hallow⟩ := idH_changes s.daemon c request
      refine ⟨hch, fun _ => ?_⟩
      rcases hallow with h | h | h
      · exact ⟨_, h, .same _⟩
      · exact ⟨_, h, .control⟩
      · exact ⟨_, h, .ack⟩
  | ack =>
      have h := MayActivate.ackH s.daemon c request
      refine ⟨h.toChanges, fun hc => ?_⟩
      rcases h.own hc with hst | hst
      · exact ⟨_, congrArg Standing.allowRequest hst, .same _⟩
      · exact ⟨_, congrArg Standing.allowRequest hst, .all⟩
  | inviteJoin =>
      rcases inviteJoinH_cases s c request now with ⟨_, -, heq⟩ | ⟨_, _, d, -, -, hd, heq, hok⟩
      · refine hnarrow ?_
        rw [Site.handler, heq]
        exact .refl _
      · obtain ⟨hch, hallow⟩ := Changes.of_setConn hd
        rw [Site.handler, heq]
        exact ⟨hch, fun _ => ⟨_, hallow, .csr hok⟩⟩
  | inviteCsr =>
      refine hnarrow ?_
      rw [Site.handler]
      rcases inviteCsrH_cases s c request with heq | ⟨_, _, d, -, -, hd, heq⟩
      · rw [heq]
        exact .refl _
      · rw [heq]
        exact .of_same hd
  | inviteData =>
      obtain ⟨d, ⟨heq, hd⟩ | ⟨heq, hd⟩⟩ := inviteDataH_cases s c request
      · refine hnarrow ?_
        rw [Site.handler, heq]
        exact .of_same hd
      · rw [Site.handler, heq]
        have hset : SameIndexes
            (s.daemon.setConn c ({ · with allowRequest := Request.inviteCert.number }))
            (d.setConn c ({ · with allowRequest := Request.inviteCert.number })) := by
          obtain ⟨_, _, _, _, _, _, _, rfl⟩ := hd
          exact ⟨_, _, _, _, _, _, _, rfl⟩
        obtain ⟨hch, hallow⟩ := Changes.of_setConn hset
        exact ⟨hch, fun _ => ⟨_, hallow, .cert⟩⟩
  | inviteCert => exact hnarrow (.refl _)
  | _ =>
      refine hnarrow ?_
      unfold Site.handler
      exact Narrows.handler s.daemon (by decide) (by decide) c request

/-! ## Every event -/

namespace Entitled

variable {l : LoggedSite}

/-- Nothing happened but that connections ended. -/
lemma mono (h : Entitled l) {s' : Site} (hn : Narrows l.site.daemon s'.daemon) :
    Entitled ⟨s', l.log⟩ := by
  have hallow : ∀ c ∈ s'.daemon.connectionList,
      (s'.daemon.conn c).allowRequest = (l.site.daemon.conn c).allowRequest :=
    fun c hc => congrArg Standing.allowRequest (hn c hc).2
  refine ⟨fun c hc => ?_, fun c hc ha => ?_, fun c hc ha => ?_, fun c hc ha => ?_, h.lawful⟩
  · dsimp only
    rw [hallow c hc]
    exact h.range c (hn c hc).1
  · exact h.csr c (hn c hc).1 ((hallow c hc).symm.trans ha)
  · exact h.join c (hn c hc).1 (ha.imp (hallow c hc).symm.trans (hallow c hc).symm.trans)
  · exact h.all c (hn c hc).1 ((hallow c hc).symm.trans ha)

/-- An entry is added, and all connections but `c` stand as before. -/
lemma cons (h : Entitled l) {s' : Site} {c : ConnId} {r : Record}
    (hother : ∀ i ∈ s'.daemon.connectionList, i ≠ c → i ∈ l.site.daemon.connectionList ∧
      (s'.daemon.conn i).standing = (l.site.daemon.conn i).standing)
    (hr : r.Lawful l.log)
    (hc : c ∈ s'.daemon.connectionList → (s'.daemon.conn c).allowRequest ∈ allowed ∧
      ((s'.daemon.conn c).allowRequest = Request.inviteCsr.number →
        ∃ a, .handled c .inviteJoin true a ∈ r :: l.log) ∧
      ((s'.daemon.conn c).allowRequest = Request.inviteData.number ∨
        (s'.daemon.conn c).allowRequest = Request.inviteCert.number →
          .opened c true ∈ r :: l.log) ∧
      ((s'.daemon.conn c).allowRequest = allRequests →
        ∃ ok, .handled c .ack ok true ∈ r :: l.log)) : Entitled ⟨s', r :: l.log⟩ := by
  have hallow : ∀ i ∈ s'.daemon.connectionList, i ≠ c →
      (s'.daemon.conn i).allowRequest = (l.site.daemon.conn i).allowRequest :=
    fun i hi hne => congrArg Standing.allowRequest (hother i hi hne).2
  refine ⟨fun i hi => ?_, fun i hi ha => ?_, fun i hi ha => ?_, fun i hi ha => ?_,
    .cons hr h.lawful⟩ <;>
    by_cases hic : i = c
  · subst hic
    exact (hc hi).1
  · dsimp only
    rw [hallow i hi hic]
    exact h.range i (hother i hi hic).1
  · subst hic
    exact (hc hi).2.1 ha
  · obtain ⟨a, ha⟩ := h.csr i (hother i hi hic).1 ((hallow i hi hic).symm.trans ha)
    exact ⟨a, List.mem_cons_of_mem _ ha⟩
  · subst hic
    exact (hc hi).2.2.1 ha
  · exact List.mem_cons_of_mem _ (h.join i (hother i hi hic).1
      (ha.imp (hallow i hi hic).symm.trans (hallow i hi hic).symm.trans))
  · subst hic
    exact (hc hi).2.2.2 ha
  · obtain ⟨ok, hok⟩ := h.all i (hother i hi hic).1 ((hallow i hi hic).symm.trans ha)
    exact ⟨ok, List.mem_cons_of_mem _ hok⟩

/-- A connection is opened. -/
lemma opened (h : Entitled l) (c : ConnId) {conn : Conn} {joining : Bool}
    (hallow : conn.allowRequest = Request.id.number ∨
      conn.allowRequest = Request.inviteData.number ∧ joining = true) :
    Entitled ⟨{ l.site with daemon := l.site.daemon.step (.connectionAdd c conn) },
      .opened c joining :: l.log⟩ := by
  refine h.cons (c := c) (fun i hi hne => ?_) trivial fun _ => ?_
  · have hmem : i ∈ l.site.daemon.connectionList := by
      simpa [Daemon.step, hne] using hi
    exact ⟨hmem, by simp [Daemon.step, Daemon.setConn, hne]⟩
  · have hconn : ((l.site.daemon.step (.connectionAdd c conn)).conn c).allowRequest =
        conn.allowRequest := by simp [Daemon.step, Daemon.setConn]
    dsimp only
    rw [hconn]
    rcases hallow with ha | ⟨ha, rfl⟩
    · rw [ha]
      refine ⟨by decide, fun h => absurd h (by decide), fun h => absurd h (by decide),
        fun h => absurd h (by decide)⟩
    · rw [ha]
      refine ⟨by decide, fun h => absurd h (by decide), fun _ => List.mem_cons_self,
        fun h => absurd h (by decide)⟩

/-- A request that is admitted is one that the connection is entitled to. -/
lemma lawful_handled (h : Entitled l) {c : ConnId} (hc : c ∈ l.site.daemon.connectionList)
    {request : Text} {r : Request} (hgate : l.site.daemon.gate c request = .admitted r)
    (hall : r = .inviteData ∨ r = .inviteCsr ∨ r = .inviteCert →
      (l.site.daemon.conn c).allowRequest ≠ allRequests) (ok activated : Bool) :
    (Record.handled c r ok activated).Lawful l.log := by
  have hadm := gate_admitted hgate
  have hrange := h.range c hc
  refine ⟨?_, ?_, fun hr => ?_⟩
  · rintro rfl
    rcases hadm with ha | ha | ⟨-, ha⟩
    · exact absurd ha (hall (.inr (.inl rfl)))
    · exact h.csr c hc ha
    · cases ha
  · rintro (rfl | rfl)
    · rcases hadm with ha | ha | ⟨-, ha⟩
      · exact absurd ha (hall (.inl rfl))
      · exact h.join c hc (.inl ha)
      · cases ha
    · rcases hadm with ha | ha | ⟨-, ha⟩
      · exact absurd ha (hall (.inr (.inr rfl)))
      · exact h.join c hc (.inr ha)
      · cases ha
  · rcases hadm with ha | ha | ⟨-, ha⟩
    · exact h.all c hc ha
    · rw [ha] at hrange
      cases r <;> simp [Request.aboutNetwork] at hr <;> exact absurd hrange (by decide)
    · subst ha
      exact absurd hr (by decide)

/-- A handler is executed. -/
lemma handled (h : Entitled l) {c : ConnId} (hc : c ∈ l.site.daemon.connectionList)
    {request : Text} {r : Request} (hgate : l.site.daemon.gate c request = .admitted r) (now : ℤ)
    (hall : r = .inviteData ∨ r = .inviteCsr ∨ r = .inviteCert →
      (l.site.daemon.conn c).allowRequest ≠ allRequests)
    (hjoin : r = .inviteJoin →
      l.site.config.caCert ≠ none ∧ (l.site.daemon.conn c).canSend = true) :
    Entitled ⟨(l.site.handler r c request now).1,
      .handled c r (l.site.handler r c request now).2
        ((l.site.daemon.conn c).allowRequest ≠ allRequests ∧
          ((l.site.handler r c request now).1.daemon.conn c).allowRequest = allRequests) ::
        l.log⟩ := by
  obtain ⟨hch, hadmits⟩ := l.site.handler_admits r c request now
  have hlaw := h.lawful_handled hc hgate hall
  refine h.cons (c := c) (fun i hi hne => ⟨hch.listed i hi, hch.other i hi hne⟩) (hlaw _ _)
    fun hc' => ?_
  obtain ⟨allow, heq, hadm⟩ := hadmits hc'
  rw [heq]
  cases hadm with
  | same =>
      refine ⟨h.range c hc, fun ha => ?_, fun ha => List.mem_cons_of_mem _ (h.join c hc ha),
        fun ha => ?_⟩
      · exact (h.csr c hc ha).imp fun _ => List.mem_cons_of_mem _
      · exact (h.all c hc ha).imp fun _ => List.mem_cons_of_mem _
  | control =>
      exact ⟨by decide, fun h => absurd h (by decide), fun h => absurd h (by decide),
        fun h => absurd h (by decide)⟩
  | ack =>
      exact ⟨by decide, fun h => absurd h (by decide), fun h => absurd h (by decide),
        fun h => absurd h (by decide)⟩
  | all =>
      refine ⟨by decide, fun h => absurd h (by decide), fun h => absurd h (by decide),
        fun _ => ?_⟩
      by_cases hbefore : (l.site.daemon.conn c).allowRequest = allRequests
      · exact (h.all c hc hbefore).imp fun _ => List.mem_cons_of_mem _
      · exact ⟨_, by simp [hbefore]; exact .inl rfl⟩
  | csr hok =>
      obtain ⟨hca, hsend⟩ := hjoin rfl
      refine ⟨by decide, fun _ => ?_, fun h => absurd h (by decide), fun h => absurd h (by decide)⟩
      rw [hok hca hsend]
      exact ⟨_, List.mem_cons_self⟩
  | cert =>
      refine ⟨by decide, fun h => absurd h (by decide), fun _ => ?_, fun h => absurd h (by decide)⟩
      exact List.mem_cons_of_mem _ ((hlaw true true).2.1 (.inl rfl))

lemma step (h : Entitled l) {e : SiteEvent} (he : e.Possible l) (hg : e.Guarded l) :
    Entitled (l.step e) := by
  cases e with
  | accept c conn => exact h.opened c (.inl he.2)
  | joinNetwork c => exact h.opened c (.inr ⟨rfl, rfl⟩)
  | createInvitation name random now =>
      refine h.mono ?_
      unfold Site.step Site.createInvitation
      dsimp only
      split
      · exact .refl _
      · split
        · exact .refl _
        · split <;> exact .refl _
  | terminate c report => exact h.mono (.of_closes (.terminateConnection _ c report))
  | receive c request now =>
      unfold LoggedSite.step Site.step Site.record Site.receive
      dsimp only
      cases hgate : l.site.daemon.gate c request with
      | skipped => exact h
      | refused => exact h
      | admitted r =>
          refine h.handled he hgate now (fun hr => hg.1 ?_) fun hr => hg.2 ?_
          · rw [hgate]
            exact hr.imp (congrArg _) (Or.imp (congrArg _) (congrArg _))
          · rw [hgate, hr]

end Entitled

/-- In every run of a site that begins without connections, if the requests of an invitation come
on no active connection and INVITE_DATA can be sent when an INVITE_JOIN comes: every handler is
executed only after what entitles the connection to it. -/
theorem requests_authorised (s : Site) (hs : s.daemon.connectionList = []) (events : List SiteEvent)
    (hp : Along LoggedSite.step SiteEvent.Possible ⟨s, []⟩ events)
    (hg : Along LoggedSite.step SiteEvent.Guarded ⟨s, []⟩ events) :
    LawfulLog (events.foldl LoggedSite.step ⟨s, []⟩).log := by
  have hinit : Entitled ⟨s, []⟩ := by
    refine ⟨?_, ?_, ?_, ?_, .nil⟩ <;> simp [hs]
  have hrun : Entitled (events.foldl LoggedSite.step ⟨s, []⟩) :=
    Along.invariant (I := Entitled) (fun _ _ h ha => h.step ha.1 ha.2) hinit (hp.and hg)
  exact hrun.lawful

/-! ## Two runs -/

instance SiteEvent.decidablePossible (l : LoggedSite) (e : SiteEvent) : Decidable (e.Possible l) :=
  match e with
  | .accept _ _ => inferInstanceAs (Decidable (_ ∧ _))
  | .joinNetwork _ => inferInstanceAs (Decidable (∀ _, _))
  | .createInvitation _ _ _ => isTrue trivial
  | .receive _ _ _ => inferInstanceAs (Decidable (_ ∈ _))
  | .terminate _ _ => inferInstanceAs (Decidable (_ ∈ _))

instance SiteEvent.decidableGuarded (l : LoggedSite) (e : SiteEvent) : Decidable (e.Guarded l) :=
  match e with
  | .receive _ _ _ => inferInstanceAs (Decidable (_ ∧ _))
  | .accept _ _ => isTrue trivial
  | .joinNetwork _ => isTrue trivial
  | .createInvitation _ _ _ => isTrue trivial
  | .terminate _ _ => isTrue trivial

/-- A site that is its network's certificate authority, with an OpenSSL that takes every text for
a request whose subject is that text. -/
def authority : Site where
  config :=
    { vpnAddress := ascii "10.0.0.1/24", address := ascii "192.0.2.1", hasCaAuthority := true,
      canWrite := true, caCert := some (ascii "-----BEGIN CERTIFICATE-----\nQUJD\n"),
      caKey := true, caSubject := some (ascii "CA"),
      readReq := fun pem => some ⟨pem, ascii "key"⟩, sign := fun _ => true,
      writeX509 := fun cert => cert.subject, fingerprint := fun _ => none,
      generateCsr := fun name => some (ascii "key", name), canSave := fun _ => true }
  daemon := .init (.plain (ascii "a")) id
  invitations := []
  hosts := some []
  validated := []
  signed := []

lemma authority_connectionList : authority.daemon.connectionList = [] := rfl

/-- The token of thirty-two zero bytes. -/
def zeroToken : Text := base64urlEncode (List.replicate 32 0)

/-- Node `b` is invited, joins and gets its certificate; then `c` connects and is activated, and
announces an edge. -/
def orderlyRun : List SiteEvent :=
  [.createInvitation (ascii "b") (List.replicate 32 0) 0,
    .accept 0 { name := ascii "<unknown>" }, .receive 0 (ascii "23 " ++ zeroToken) 1,
    .receive 0 (ascii "25 QUJD") 2, .accept 1 { name := ascii "<unknown>" },
    .receive 1 (ascii "0 c 17.7") 3, .receive 1 (ascii "4 655 10 c") 3,
    .receive 1 (ascii "12 1 c b unspec unspec c 7") 4]

theorem requests_authorised_orderly :
    (orderlyRun.foldl LoggedSite.step ⟨authority, []⟩).log.length = 7 ∧
      LawfulLog (orderlyRun.foldl LoggedSite.step ⟨authority, []⟩).log := by
  have hlength : (orderlyRun.foldl LoggedSite.step ⟨authority, []⟩).log.length = 7 := by
    decide +kernel
  have hp : Along LoggedSite.step SiteEvent.Possible ⟨authority, []⟩ orderlyRun := by
    decide +kernel
  have hg : Along LoggedSite.step SiteEvent.Guarded ⟨authority, []⟩ orderlyRun := by
    decide +kernel
  exact ⟨hlength, requests_authorised authority authority_connectionList orderlyRun hp hg⟩

/-- Node `c` connects, is activated, and asks for a certificate. -/
def csrOnActive : List SiteEvent :=
  [.accept 1 { name := ascii "<unknown>" }, .receive 1 (ascii "0 c 17.7") 3,
    .receive 1 (ascii "4 655 10 c") 3, .receive 1 (ascii "25 QUJD") 4]

/-- The handler of INVITE_CSR is executed, without any INVITE_JOIN. -/
theorem csr_without_join : ¬ ∀ (s : Site) (events : List SiteEvent),
    s.daemon.connectionList = [] → Along LoggedSite.step SiteEvent.Possible ⟨s, []⟩ events →
      LawfulLog (events.foldl LoggedSite.step ⟨s, []⟩).log := by
  intro h
  have hlog : (csrOnActive.foldl LoggedSite.step ⟨authority, []⟩).log =
      [.handled 1 .inviteCsr true false, .handled 1 .ack true true, .handled 1 .id true false,
        .opened 1 false] := by decide +kernel
  have hp : Along LoggedSite.step SiteEvent.Possible ⟨authority, []⟩ csrOnActive := by
    decide +kernel
  have hlaw := h authority csrOnActive authority_connectionList hp
  rw [hlog] at hlaw
  cases hlaw with
  | cons hr _ =>
      obtain ⟨_, hjoin⟩ := hr.1 rfl
      simp at hjoin

end Tinc
