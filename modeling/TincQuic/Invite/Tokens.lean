import TincQuic.Invite.Authorisation
import TincQuic.Invite.Url

/-!
# Every token once

An invitation is a file that is named after the first characters of its token.  The file is removed
when the token is used, when it turns out to have expired, and when it is old.

* `Issuer` is a site with an account of the invitations that it created and of the tokens that were
  used.
* `Accounted` is the invariant: every file is of one invitation that was created, every token that
  was used has no file, and **an invitation that was not used has its file until it expires**.
* **A token is used once at most, in time, and for the name that it was created for**:
  `tokens_used_once`.
* **A token is good exactly as long as it was not used and has not expired**: `token_good_iff`.
-/

namespace Tinc

open Bytes CText Function Run

/-! ## The account -/

/-- An invitation that was created. -/
structure Issued where
  name : Text
  token : Text
  time : ℤ

/-- A token that was used. -/
structure Redeemed where
  conn : ConnId
  token : Text
  name : Text
  time : ℤ

/-- A site with what it created and what was used, and the time of the latest event. -/
structure Issuer where
  site : Site
  issued : List Issued
  used : List Redeemed
  clock : ℤ

variable (i : Issuer)

/-- What an event adds to the invitations that were created. -/
def Issuer.issues : SiteEvent → List Issued
  | .createInvitation name random now =>
      if (i.site.createInvitation name random now).2.2.isSome then
        [⟨name, base64urlEncode random, now⟩]
      else []
  | _ => []

/-- What an event adds to the tokens that were used. -/
def Issuer.redeems : SiteEvent → List Redeemed
  | .receive c request now =>
      ((i.site.receive c request now).1.validated.drop i.site.validated.length).map fun v =>
        ⟨v.1, v.2.1, v.2.2, now⟩
  | _ => []

/-- The time of an event, if it looks at the clock. -/
def SiteEvent.time : SiteEvent → Option ℤ
  | .createInvitation _ _ now => some now
  | .receive _ _ now => some now
  | _ => none

/-- One event. -/
def Issuer.step (e : SiteEvent) : Issuer where
  site := i.site.step e
  issued := i.issued ++ i.issues e
  used := i.used ++ i.redeems e
  clock := e.time.getD i.clock

/-- The clock does not go back, the names fit into the lines of a file, and the random bytes make
another file than any before. -/
def SiteEvent.Orderly (e : SiteEvent) : Prop :=
  (∀ now ∈ e.time, i.clock ≤ now) ∧
    match e with
    | .createInvitation name random now =>
        Value name ∧ name.length ≤ 255 ∧ random.length = 32 ∧ IsLong now ∧
          IsLong (now + invitationValidity) ∧
          ∀ j ∈ i.issued, tokenToFilename j.token ≠ tokenToFilename (base64urlEncode random)
    | _ => True

/-- The file of an invitation. -/
structure Issued.Wrote (j : Issued) (f : Text × InvitationFile) : Prop where
  filename : f.1 = tokenToFilename j.token
  mtime : f.2.mtime = j.time
  content : ∃ vpnAddress, readInvitation f.2.content =
    ⟨j.token, j.name, vpnAddress, j.time + invitationValidity⟩

/-- Every file and every token that was used belong to one invitation. -/
structure Accounted : Prop where
  distinct : (i.issued.map fun j => tokenToFilename j.token).Nodup
  files : ∀ f ∈ i.site.invitations, ∃ j ∈ i.issued, j.Wrote f
  used : ∀ u ∈ i.used, (∃ j ∈ i.issued, j.token = u.token ∧ j.name = u.name ∧
    u.time ≤ j.time + invitationValidity) ∧
    ∀ f ∈ i.site.invitations, f.1 ≠ tokenToFilename u.token
  once : (i.used.map Redeemed.token).Nodup
  pending : ∀ j ∈ i.issued, (∃ u ∈ i.used, u.token = j.token) ∨
    (∃ f ∈ i.site.invitations, f.1 = tokenToFilename j.token) ∨
    j.time + invitationValidity < i.clock
  validated : i.used.map (fun u => (u.conn, u.token, u.name)) = i.site.validated

variable {i} {s s' : Site} {c : ConnId} {request token : Text} {now : ℤ} {dir : Directory}

/-! ## What an event does to the files -/

/-- Nothing is used, and only files that have expired are removed. -/
structure KeepsTokens (s s' : Site) (now : ℤ) : Prop where
  validated : s'.validated = s.validated
  kept : ∀ f ∈ s'.invitations, f ∈ s.invitations
  expired : ∀ f ∈ s.invitations, f ∉ s'.invitations → ∃ content,
    s.invitations.read f.1 = some content ∧ (readInvitation content).expires < now

/-- A token is used, and its file is removed. -/
structure UsesToken (s s' : Site) (c : ConnId) (token name : Text) (now : ℤ) : Prop where
  validated : s'.validated = s.validated ++ [(c, token, name)]
  invitations : s'.invitations = s.invitations.unlink (tokenToFilename token)
  content : ∃ content, s.invitations.read (tokenToFilename token) = some content ∧
    (readInvitation content).token = token ∧ (readInvitation content).name = name ∧
    now ≤ (readInvitation content).expires

lemma KeepsTokens.of_eq (hv : s'.validated = s.validated) (hi : s'.invitations = s.invitations) :
    KeepsTokens s s' now :=
  ⟨hv, fun _ hf => hi ▸ hf, fun _ hf hnot => absurd (hi ▸ hf) hnot⟩

lemma mem_unlink {f : Text × InvitationFile} {filename : Text} :
    f ∈ dir.unlink filename ↔ f ∈ dir ∧ f.1 ≠ filename := by
  simp [Directory.unlink]

/-- What `validate_invitation_token` makes of a token. -/
lemma validateInvitationToken_spec (s : Site) (token : Text) (now : ℤ) :
    (∃ s', s.validateInvitationToken token now = (s', none) ∧ KeepsTokens s s' now ∧
      ∀ content, s.invitations.read (tokenToFilename token) = some content →
        (readInvitation content).token = token → (readInvitation content).expires < now) ∨
    ∃ content, s.invitations.read (tokenToFilename token) = some content ∧
      (readInvitation content).token = token ∧ now ≤ (readInvitation content).expires ∧
      s.validateInvitationToken token now =
        ({ s with invitations := s.invitations.unlink (tokenToFilename token) },
          some ((readInvitation content).name, (readInvitation content).address)) := by
  unfold Site.validateInvitationToken
  dsimp only
  cases hread : s.invitations.read (tokenToFilename token) with
  | none => exact .inl ⟨_, rfl, .of_eq rfl rfl, nofun⟩
  | some content =>
      dsimp only
      split
      · rename_i htoken
        refine .inl ⟨_, rfl, .of_eq rfl rfl, fun content' hcontent heq => ?_⟩
        obtain rfl := Option.some.inj hcontent
        exact absurd heq.symm htoken
      · rename_i htoken
        split
        · rename_i hexpired
          refine .inl ⟨_, rfl, ⟨rfl, fun f hf => (mem_unlink.mp hf).1, fun f hf hnot => ?_⟩, ?_⟩
          · have hname : f.1 = tokenToFilename token := by
              by_contra hne
              exact hnot (mem_unlink.mpr ⟨hf, hne⟩)
            exact ⟨content, hname ▸ hread, hexpired⟩
          · intro content' hcontent _
            obtain rfl := Option.some.inj hcontent
            exact hexpired
        · rename_i hvalid
          exact .inr ⟨content, rfl, (not_not.mp htoken).symm, not_lt.mp hvalid, rfl⟩

lemma sendInviteData_site (s : Site) (c : ConnId) (name : Text) (vpnAddress : Option Text) :
    (s.sendInviteData c name vpnAddress).1.invitations = s.invitations ∧
      (s.sendInviteData c name vpnAddress).1.validated = s.validated := by
  unfold Site.sendInviteData
  split
  · exact ⟨rfl, rfl⟩
  · exact ⟨rfl, rfl⟩

/-- **A request uses no token, or one that is good.** -/
lemma receive_tokens (s : Site) (c : ConnId) (request : Text) (now : ℤ) :
    KeepsTokens s (s.receive c request now).1 now ∨
      ∃ token name, UsesToken s (s.receive c request now).1 c token name now := by
  unfold Site.receive
  cases s.daemon.gate c request with
  | skipped => exact .inl (.of_eq rfl rfl)
  | refused => exact .inl (.of_eq rfl rfl)
  | admitted r =>
      cases r with
      | inviteJoin =>
          dsimp only [Site.handler]
          unfold inviteJoinH
          split
          · exact .inl (.of_eq rfl rfl)
          · rename_i token _
            rcases validateInvitationToken_spec s token now with
              ⟨s', heq, hkeeps, -⟩ | ⟨content, hread, htoken, htime, heq⟩
            · rw [heq]
              exact .inl hkeeps
            · rw [heq]
              dsimp only
              obtain ⟨hdir, hval⟩ := sendInviteData_site
                { s with
                  daemon := s.daemon.setConn c
                    (Conn.join (readInvitation content).name (readInvitation content).address)
                  invitations := s.invitations.unlink (tokenToFilename token)
                  validated := s.validated ++ [(c, token, (readInvitation content).name)] }
                c (readInvitation content).name (readInvitation content).address
              exact .inr ⟨token, _, hval, hdir, content, hread, htoken, rfl, htime⟩
      | inviteCsr =>
          dsimp only [Site.handler]
          rcases inviteCsrH_cases s c request with heq | ⟨_, _, d, -, -, -, heq⟩ <;> rw [heq]
          · exact .inl (.of_eq rfl rfl)
          · exact .inl (.of_eq rfl rfl)
      | inviteData =>
          dsimp only [Site.handler]
          obtain ⟨d, ⟨heq, -⟩ | ⟨heq, -⟩⟩ := inviteDataH_cases s c request <;> rw [heq]
          · exact .inl (.of_eq rfl rfl)
          · exact .inl (.of_eq rfl rfl)
      | inviteCert => exact .inl (.of_eq rfl rfl)
      | _ => exact .inl (.of_eq rfl rfl)

lemma Directory.exists_of_read {filename content : Text} (h : dir.read filename = some content) :
    ∃ f ∈ dir, f.1 = filename ∧ f.2.content = content := by
  obtain ⟨f, hf, rfl⟩ := Option.map_eq_some_iff.mp h
  have hname := List.find?_some hf
  exact ⟨f, List.mem_of_find?_eq_some hf, of_decide_eq_true hname, rfl⟩

lemma Directory.read_isSome {f : Text × InvitationFile} (h : f ∈ dir) :
    ∃ content, dir.read f.1 = some content := by
  have hfind : (dir.find? (·.1 = f.1)).isSome := by
    rw [List.find?_isSome]
    exact ⟨f, h, decide_eq_true rfl⟩
  obtain ⟨g, hg⟩ := Option.isSome_iff_exists.mp hfind
  exact ⟨g.2.content, by rw [Directory.read, hg]; rfl⟩

/-! ## One step -/

namespace Accounted

/-- There is one invitation for a file. -/
lemma unique (h : Accounted i) {j j' : Issued} (hj : j ∈ i.issued) (hj' : j' ∈ i.issued)
    (heq : tokenToFilename j.token = tokenToFilename j'.token) : j = j' :=
  List.inj_on_of_nodup_map h.distinct hj hj' heq

/-- A file says what its invitation was created for. -/
lemma read (h : Accounted i) {filename content : Text}
    (hread : i.site.invitations.read filename = some content) :
    ∃ j ∈ i.issued, filename = tokenToFilename j.token ∧ ∃ vpnAddress,
      readInvitation content = ⟨j.token, j.name, vpnAddress, j.time + invitationValidity⟩ := by
  obtain ⟨f, hf, rfl, rfl⟩ := Directory.exists_of_read hread
  obtain ⟨j, hj, hwrote⟩ := h.files f hf
  exact ⟨j, hj, hwrote.filename, hwrote.content⟩

/-- A file for which something else is there expires. -/
lemma keeps (h : Accounted i) (hk : KeepsTokens i.site s' now) (hclock : i.clock ≤ now) :
    Accounted ⟨s', i.issued, i.used, now⟩ := by
  refine ⟨h.distinct, fun f hf => h.files f (hk.kept f hf), fun u hu => ?_, h.once, fun j hj => ?_,
    h.validated.trans hk.validated.symm⟩
  · obtain ⟨hissued, hgone⟩ := h.used u hu
    exact ⟨hissued, fun f hf => hgone f (hk.kept f hf)⟩
  · rcases h.pending j hj with hused | ⟨f, hf, hname⟩ | hexpired
    · exact .inl hused
    · by_cases hkept : f ∈ s'.invitations
      · exact .inr (.inl ⟨f, hkept, hname⟩)
      · obtain ⟨content, hread, hexpired⟩ := hk.expired f hf hkept
        obtain ⟨j', hj', hname', _, hcontent⟩ := h.read hread
        obtain rfl := h.unique hj hj' (hname.symm.trans hname')
        rw [hcontent] at hexpired
        exact .inr (.inr hexpired)
    · exact .inr (.inr (hexpired.trans_le hclock))

/-- A token is used. -/
lemma uses (h : Accounted i) {name : Text} (hu : UsesToken i.site s' c token name now)
    (hclock : i.clock ≤ now) :
    Accounted ⟨s', i.issued, i.used ++ [⟨c, token, name, now⟩], now⟩ := by
  obtain ⟨content, hread, htoken, hname, htime⟩ := hu.content
  obtain ⟨j, hj, hfile, vpnAddress, hcontent⟩ := h.read hread
  rw [hcontent] at htoken hname htime
  obtain rfl : j.token = token := htoken
  obtain rfl : j.name = name := hname
  obtain ⟨f, hf, hfilename, -⟩ := Directory.exists_of_read hread
  have hfiles : ∀ g ∈ s'.invitations, g ∈ i.site.invitations ∧ g.1 ≠ tokenToFilename j.token := by
    intro g hg
    rw [hu.invitations] at hg
    exact mem_unlink.mp hg
  refine ⟨h.distinct, fun g hg => h.files g (hfiles g hg).1, fun u hmem => ?_, ?_, fun k hk => ?_,
    ?_⟩
  · rcases List.mem_append.mp hmem with hmem | hmem
    · obtain ⟨hissued, hgone⟩ := h.used u hmem
      exact ⟨hissued, fun g hg => hgone g (hfiles g hg).1⟩
    · obtain rfl := List.mem_singleton.mp hmem
      exact ⟨⟨j, hj, rfl, rfl, htime⟩, fun g hg => (hfiles g hg).2⟩
  · rw [List.map_append, List.nodup_append]
    refine ⟨h.once, List.nodup_singleton _, ?_⟩
    simp only [List.mem_map, List.map_cons, List.map_nil, List.mem_singleton]
    rintro _ ⟨u, hmem, rfl⟩ _ rfl heq
    -- what was used has no file
    refine (h.used u hmem).2 f hf ?_
    rw [hfilename, heq]
  · rcases h.pending k hk with ⟨u, hmem, heq⟩ | ⟨g, hg, hname⟩ | hexpired
    · exact .inl ⟨u, List.mem_append_left _ hmem, heq⟩
    · by_cases hsame : g.1 = tokenToFilename j.token
      · obtain rfl := h.unique hk hj (hname.symm.trans hsame)
        exact .inl ⟨_, List.mem_append_right _ (List.mem_singleton_self _), rfl⟩
      · refine .inr (.inl ⟨g, ?_, hname⟩)
        rw [hu.invitations]
        exact mem_unlink.mpr ⟨hg, hsame⟩
    · exact .inr (.inr (hexpired.trans_le hclock))
  · rw [List.map_append, h.validated, hu.validated]
    rfl

/-- An invitation is created, under a name that no other has. -/
lemma creates (h : Accounted i) {name : Text} {random : List UInt8} {file : InvitationFile}
    (hdir : s'.invitations =
      (((cleanupExpiredInvitations i.site.invitations now).write
        (tokenToFilename (base64urlEncode random)) ⟨[], now⟩).write
          (tokenToFilename (base64urlEncode random)) file))
    (hvalidated : s'.validated = i.site.validated)
    (hwrote : (⟨name, base64urlEncode random, now⟩ : Issued).Wrote
      (tokenToFilename (base64urlEncode random), file)) (hclock : i.clock ≤ now)
    (hfresh : ∀ j ∈ i.issued, tokenToFilename j.token ≠ tokenToFilename (base64urlEncode random)) :
    Accounted ⟨s', i.issued ++ [⟨name, base64urlEncode random, now⟩], i.used, now⟩ := by
  have hmem : ∀ f, f ∈ s'.invitations ↔
      f ∈ cleanupExpiredInvitations i.site.invitations now ∧
        f.1 ≠ tokenToFilename (base64urlEncode random) ∨
      f = (tokenToFilename (base64urlEncode random), file) := by
    intro f
    rw [hdir]
    simp only [Directory.write, List.mem_append, List.mem_filter, List.mem_singleton,
      decide_eq_true_eq]
    constructor
    · rintro (⟨⟨hf, hne⟩ | rfl, hne'⟩ | rfl)
      · exact .inl ⟨hf, hne⟩
      · exact absurd rfl hne'
      · exact .inr rfl
    · rintro (⟨hf, hne⟩ | rfl)
      · exact .inl ⟨.inl ⟨hf, hne⟩, hne⟩
      · exact .inr rfl
  refine ⟨?_, fun f hf => ?_, fun u hu => ?_, h.once, fun j hj => ?_,
    h.validated.trans hvalidated.symm⟩
  · rw [List.map_append, List.nodup_append]
    refine ⟨h.distinct, List.nodup_singleton _, ?_⟩
    simpa using hfresh
  · rcases (hmem f).mp hf with ⟨hf, -⟩ | rfl
    · obtain ⟨j, hj, hwrote⟩ := h.files f (List.mem_of_mem_filter hf)
      exact ⟨j, List.mem_append_left _ hj, hwrote⟩
    · exact ⟨_, List.mem_append_right _ (List.mem_singleton_self _), hwrote⟩
  · obtain ⟨⟨j, hj, htoken, hrest⟩, hgone⟩ := h.used u hu
    refine ⟨⟨j, List.mem_append_left _ hj, htoken, hrest⟩, fun f hf => ?_⟩
    rcases (hmem f).mp hf with ⟨hf, -⟩ | rfl
    · exact hgone f (List.mem_of_mem_filter hf)
    · exact htoken ▸ (hfresh j hj).symm
  · rcases List.mem_append.mp hj with hj | hj
    · rcases h.pending j hj with hused | ⟨f, hf, hname⟩ | hexpired
      · exact .inl hused
      · by_cases hkept : f ∈ cleanupExpiredInvitations i.site.invitations now
        · refine .inr (.inl ⟨f, (hmem f).mpr (.inl ⟨hkept, ?_⟩), hname⟩)
          exact hname ▸ hfresh j hj
        · obtain ⟨j', hj', hwrote⟩ := h.files f hf
          obtain rfl := h.unique hj hj' (hname.symm.trans hwrote.filename)
          have hold : invitationValidity < now - f.2.mtime := by
            by_contra hnew
            exact hkept (List.mem_filter.mpr ⟨hf, decide_eq_true (.inr hnew)⟩)
          rw [hwrote.mtime] at hold
          have hlate : j.time + invitationValidity < now := by omega
          exact .inr (.inr hlate)
      · exact .inr (.inr (hexpired.trans_le hclock))
    · obtain rfl := List.mem_singleton.mp hj
      exact .inr (.inl ⟨_, (hmem _).mpr (.inr rfl), rfl⟩)

/-- The clock goes on. -/
lemma later (h : Accounted i) (hclock : i.clock ≤ now) (hs : s'.invitations = i.site.invitations)
    (hv : s'.validated = i.site.validated) : Accounted ⟨s', i.issued, i.used, now⟩ :=
  h.keeps (.of_eq hv hs) hclock

end Accounted

/-- `create_invitation` fails, or writes its file. -/
lemma createInvitation_cases (s : Site) (name : Text) (random : List UInt8) (now : ℤ) :
    (∃ code, s.createInvitation name random now = (s, code, none)) ∨
    ∃ s' url, s.createInvitation name random now = (s', 0, some url) ∧
      s'.validated = s.validated ∧ s'.invitations =
        (((cleanupExpiredInvitations s.invitations now).write
          (tokenToFilename (base64urlEncode random)) ⟨[], now⟩).write
            (tokenToFilename (base64urlEncode random))
            ⟨invitationText name (base64urlEncode random) now (s.allocated random now), now⟩) := by
  unfold Site.createInvitation
  split
  · exact .inl ⟨_, rfl⟩
  · split
    · exact .inl ⟨_, rfl⟩
    · split
      · exact .inl ⟨_, rfl⟩
      · exact .inr ⟨_, _, rfl, rfl, rfl⟩

/-- **Every event keeps the account.** -/
lemma Accounted.step (h : Accounted i) {e : SiteEvent} (he : e.Orderly i) :
    Accounted (i.step e) := by
  obtain ⟨htime, hnew⟩ := he
  have hstill : ∀ s' : Site, s'.invitations = i.site.invitations →
      s'.validated = i.site.validated → Accounted ⟨s', i.issued, i.used, i.clock⟩ :=
    fun _ => h.later le_rfl
  unfold Issuer.step
  cases e with
  | accept c conn =>
      simpa [Issuer.issues, Issuer.redeems, SiteEvent.time] using
        hstill (i.site.step (.accept c conn)) rfl rfl
  | joinNetwork c =>
      simpa [Issuer.issues, Issuer.redeems, SiteEvent.time] using
        hstill (i.site.step (.joinNetwork c)) rfl rfl
  | terminate c report =>
      simpa [Issuer.issues, Issuer.redeems, SiteEvent.time] using
        hstill (i.site.step (.terminate c report)) rfl rfl
  | createInvitation name random now =>
      have hclock := htime now rfl
      obtain ⟨hname, hfits, hrandom, hnow, hexpires, hfresh⟩ := hnew
      have hstep : i.site.step (.createInvitation name random now) =
          (i.site.createInvitation name random now).1 := rfl
      rw [hstep]
      unfold Issuer.issues Issuer.redeems
      rcases createInvitation_cases i.site name random now with
        ⟨code, heq⟩ | ⟨s', url, heq, hvalidated, hdir⟩
      · simpa [heq, SiteEvent.time] using h.later hclock rfl rfl
      · have htoken : (base64urlEncode random).length ≤ 255 := by
          rw [length_base64urlEncode, hrandom]
          decide
        have hvpn : ∀ a ∈ i.site.allocated random now, Value a ∧ a.length ≤ 63 := fun a ha =>
          ⟨(value_allocateVpnIp ha).1, (value_allocateVpnIp ha).2.1⟩
        have hread := readInvitation_text hname hfits (value_base64urlEncode random) htoken hvpn
          hnow hexpires
        have hcreated := h.creates hdir hvalidated ⟨rfl, rfl, _, hread⟩ hclock hfresh
        simpa [heq, SiteEvent.time] using hcreated
  | receive c request now =>
      have hclock := htime now rfl
      have hstep : i.site.step (.receive c request now) =
          (i.site.receive c request now).1 := rfl
      rw [hstep]
      unfold Issuer.issues Issuer.redeems
      rcases receive_tokens i.site c request now with hkeeps | ⟨token, name, huses⟩
      · simpa [hkeeps.validated, SiteEvent.time] using h.keeps hkeeps hclock
      · simpa [huses.validated, SiteEvent.time] using h.uses huses hclock

/-! ## Every run -/

/-- Before the first invitation. -/
def Issuer.init (s : Site) (clock : ℤ) : Issuer := ⟨s, [], [], clock⟩

lemma Accounted.init {clock : ℤ} (hs : s.invitations = []) (hv : s.validated = []) :
    Accounted (.init s clock) := by
  refine ⟨List.nodup_nil, ?_, nofun, List.nodup_nil, nofun, hv.symm⟩
  intro f hf
  rw [Issuer.init, hs] at hf
  cases hf

lemma Accounted.run {clock : ℤ} {events : List SiteEvent} (hs : s.invitations = [])
    (hv : s.validated = [])
    (ho : Along Issuer.step (fun i e => e.Orderly i) (.init s clock) events) :
    Accounted (events.foldl Issuer.step (.init s clock)) :=
  Along.invariant (I := Accounted) (fun _ _ h he => h.step he) (.init hs hv) ho

/-- **No token is used twice**, in any run with any number of connections.  Every token that was used
is one that was created, it had not expired, and the node got the name that was meant for it. -/
theorem tokens_used_once (s : Site) (clock : ℤ) (events : List SiteEvent)
    (hs : s.invitations = []) (hv : s.validated = [])
    (ho : Along Issuer.step (fun i e => e.Orderly i) (.init s clock) events) :
    let i := events.foldl Issuer.step (.init s clock)
    (i.site.validated.map fun v => v.2.1).Nodup ∧
      i.used.map (fun u => (u.conn, u.token, u.name)) = i.site.validated ∧
      ∀ u ∈ i.used, ∃ j ∈ i.issued, j.token = u.token ∧ j.name = u.name ∧
        u.time ≤ j.time + invitationValidity := by
  have h := Accounted.run hs hv ho
  refine ⟨?_, h.validated, fun u hu => (h.used u hu).1⟩
  rw [← h.validated, List.map_map]
  exact h.once

/-- **A token that was created is good until it is used or expires**, in any state of any run. -/
theorem token_good_iff (s : Site) (clock : ℤ) (events : List SiteEvent)
    (hs : s.invitations = []) (hv : s.validated = [])
    (ho : Along Issuer.step (fun i e => e.Orderly i) (.init s clock) events) (token name : Text)
    (now : ℤ) (hnow : (events.foldl Issuer.step (.init s clock)).clock ≤ now) :
    let i := events.foldl Issuer.step (.init s clock)
    (∃ vpnAddress, (i.site.validateInvitationToken token now).2 = some (name, vpnAddress)) ↔
      (∃ j ∈ i.issued, j.token = token ∧ j.name = name ∧ now ≤ j.time + invitationValidity) ∧
        ∀ u ∈ i.used, u.token ≠ token := by
  have h := Accounted.run hs hv ho
  generalize events.foldl Issuer.step (.init s clock) = i at h hnow
  dsimp only
  constructor
  · rintro ⟨vpnAddress, hgood⟩
    rcases validateInvitationToken_spec i.site token now with
      ⟨s', heq, -⟩ | ⟨content, hread, htoken, htime, heq⟩
    · rw [heq] at hgood
      cases hgood
    · rw [heq] at hgood
      obtain ⟨hname, -⟩ := Prod.mk.inj (Option.some.inj hgood)
      obtain ⟨j, hj, -, _, hcontent⟩ := h.read hread
      rw [hcontent] at htoken hname htime
      refine ⟨⟨j, hj, htoken, hname, htime⟩, fun u hu heq => ?_⟩
      obtain ⟨f, hf, hfile, -⟩ := Directory.exists_of_read hread
      exact (h.used u hu).2 f hf (heq ▸ hfile)
  · rintro ⟨⟨j, hj, rfl, rfl, htime⟩, hunused⟩
    rcases h.pending j hj with ⟨u, hu, heq⟩ | ⟨f, hf, hname⟩ | hexpired
    · exact absurd heq (hunused u hu)
    · obtain ⟨content, hread⟩ := Directory.read_isSome hf
      rw [hname] at hread
      obtain ⟨j', hj', hfile, vpnAddress, hcontent⟩ := h.read hread
      obtain rfl := h.unique hj hj' hfile
      rcases validateInvitationToken_spec i.site j.token now with
        ⟨s', heq, -, hbad⟩ | ⟨content', hread', -, -, heq⟩
      · have hlate := hbad content hread (by rw [hcontent])
        rw [hcontent] at hlate
        exact absurd htime (not_le.mpr hlate)
      · obtain rfl := Option.some.inj (hread.symm.trans hread')
        rw [heq]
        exact ⟨_, by rw [hcontent]⟩
    · exact absurd (hnow.trans htime) (not_le.mpr hexpired)

/-- Node `b` is invited, and it joins. -/
def invitedAndJoined : List SiteEvent :=
  [.createInvitation (ascii "b") (List.replicate 32 0) 0,
    .accept 0 { name := ascii "<unknown>" }, .receive 0 (ascii "23 " ++ zeroToken) 1]

lemma invitedAndJoined_orderly :
    Along Issuer.step (fun i e => e.Orderly i) (.init authority 0) invitedAndJoined := by
  have hname : Value (ascii "b") := value_of_checkId (by decide)
  refine ⟨⟨fun now h => ?_, hname, by decide, rfl, by unfold IsLong; decide,
    by unfold IsLong; decide, nofun⟩, ⟨nofun, trivial⟩, ⟨fun now h => ?_, trivial⟩, trivial⟩
  · obtain rfl := Option.some.inj h
    exact le_rfl
  · obtain rfl := Option.some.inj h
    exact (by decide : (0 : ℤ) ≤ 1)

lemma invitedAndJoined_used :
    (invitedAndJoined.foldl Issuer.step (.init authority 0)).used.map Redeemed.token =
      [zeroToken] := by
  decide +kernel

theorem tokens_used_once_joined :
    ∃ j ∈ (invitedAndJoined.foldl Issuer.step (.init authority 0)).issued,
      j.token = zeroToken := by
  obtain ⟨-, -, hissued⟩ :=
    tokens_used_once authority 0 invitedAndJoined rfl rfl invitedAndJoined_orderly
  have hmem : zeroToken ∈
      (invitedAndJoined.foldl Issuer.step (.init authority 0)).used.map Redeemed.token := by
    rw [invitedAndJoined_used]
    exact List.mem_singleton_self _
  obtain ⟨u, hu, htoken⟩ := List.mem_map.mp hmem
  obtain ⟨j, hj, heq, -⟩ := hissued u hu
  exact ⟨j, hj, heq.trans htoken⟩

/-- The token is not good a second time. -/
theorem token_good_iff_joined : ¬ ∃ vpnAddress,
    ((invitedAndJoined.foldl Issuer.step (.init authority 0)).site.validateInvitationToken
      zeroToken 2).2 = some (ascii "b", vpnAddress) := by
  intro hgood
  obtain ⟨-, hunused⟩ := (token_good_iff authority 0 invitedAndJoined rfl rfl
    invitedAndJoined_orderly zeroToken (ascii "b") 2 (by decide : (1 : ℤ) ≤ 2)).mp hgood
  have hmem : zeroToken ∈
      (invitedAndJoined.foldl Issuer.step (.init authority 0)).used.map Redeemed.token := by
    rw [invitedAndJoined_used]
    exact List.mem_singleton_self _
  obtain ⟨u, hu, htoken⟩ := List.mem_map.mp hmem
  exact hunused u hu htoken

end Tinc
