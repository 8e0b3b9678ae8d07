import TincQuic.Invite.HostsScan

/-!
# The names of hosts

A host is found by its name, whatever its case.  The functions of `hosts_json.c`, the parser of
`hosts.json` and `parse_host_from_invite` add hosts under names of any length; an entry has room for
63 bytes of it.

* `HostsDb` is the database with its number of hosts; `HostsOp` are the ways to change it.
* `Proper` says that no two hosts have one name, and that the number is right; `StepRight` that an
  added host is found, and a removed one is not.
* **They hold along a run exactly if no name is longer than there is room for**:
  `host_names_unique_iff`.  A longer one is cut when it is stored, but not when it is looked for.
-/

namespace Tinc

open Bytes CText

/-! ## The database -/

/-- `hosts_db_t` -/
structure HostsDb where
  hosts : List Host := []
  count : ℤ := 0

namespace HostsDb

variable (db : HostsDb)

/-- `hosts_db_find`: the place of the host. -/
def find (name : Text) : Option ℕ := db.hosts.findIdx? fun h => sameIgnoringCase h.name name

/-- `hosts_db_add`: the database, and the place of the host. -/
def add (name : Text) : HostsDb × ℕ :=
  (⟨(hostsDbAdd db.hosts name).1, if db.find name = none then db.count + 1 else db.count⟩,
    (hostsDbAdd db.hosts name).2)

/-- `hosts_db_remove` -/
def remove (name : Text) : HostsDb :=
  match db.find name with
  | none => db
  | some i => ⟨db.hosts.eraseIdx i, db.count - 1⟩

/-- A host of `hosts.json` -/
def put (name : Text) (host : Host) : HostsDb :=
  ⟨putHost db.hosts name host, (db.add name).1.count⟩

/-- `parse_host_from_invite` -/
def invite (entry : Text) : HostsDb :=
  ⟨parseHostFromInvite db.hosts entry,
    if (cutField entry).1 = [] then db.count else (db.add (cutField entry).1).1.count⟩

end HostsDb

/-- The hosts that the loop of `parse_hosts_json` parses, with their names. -/
def parsedHosts : ℕ → Text → Option (List (Text × Host))
  | 0, _ => none
  | rounds + 1, p =>
      match hostsRound p with
      | .stop => some []
      | .leave => none
      | .go q none => parsedHosts rounds q
      | .go q (some (name, object)) =>
          (parseHostEntry rounds object).bind fun host =>
            (parsedHosts rounds q).map ((name, host) :: ·)

/-- `hosts_db_load` of a file of this content; there is no result if the parser does not come to
its end in so many rounds, or leaves the text. -/
def HostsDb.load (db : HostsDb) (rounds : ℕ) (json : Text) : Option HostsDb :=
  (findKey rounds json (ascii "nodes")).bind fun found =>
    match found.map skipSpace with
    | some (c :: p) =>
        if c ≠ 123 then some db
        else (parsedHosts rounds p).map fun parsed =>
          parsed.foldl (fun db r => db.put r.1 r.2) db
    | _ => some db

/-- The ways to change the database. -/
inductive HostsOp where
  | add (name : Text)
  | remove (name : Text)
  | load (rounds : ℕ) (json : Text)
  | invite (entry : Text)

/-- One change. -/
def HostsDb.step (db : HostsDb) : HostsOp → Option HostsDb
  | .add name => some (db.add name).1
  | .remove name => some (db.remove name)
  | .load rounds json => db.load rounds json
  | .invite entry => some (db.invite entry)

/-- The database is in order. -/
structure HostsDb.Proper (db : HostsDb) : Prop where
  unique : db.hosts.Pairwise fun g h => sameIgnoringCase g.name h.name = false
  count : db.count = db.hosts.length

/-- What was added is found, and what was removed is not. -/
def HostsDb.StepRight (db : HostsDb) : HostsOp → Prop
  | .add name => (db.add name).1.find name = some (db.add name).2
  | .remove name => (db.remove name).find name = none
  | .load .. => True
  | .invite entry => (cutField entry).1 ≠ [] →
      (db.add (cutField entry).1).1.find (cutField entry).1 = some (db.add (cutField entry).1).2

/-- Along a run, the database is in order, and every step does what it is for. -/
def HostsDb.RunRight : HostsDb → List HostsOp → Prop
  | db, [] => db.Proper
  | db, op :: ops => db.Proper ∧ db.StepRight op ∧ ∀ db' ∈ db.step op, db'.RunRight ops

/-- The name under which a host is added is not too long. -/
def HostsOp.Short : HostsOp → Prop
  | .add name => name.length ≤ 63
  | .invite entry => (cutField entry).1.length ≤ 63
  | _ => True

/-- The loop of the parser puts the hosts it parses into the database. -/
lemma hostsLoop_eq_parsedHosts (rounds : ℕ) (hosts : List Host) (p : Text) :
    hostsLoop rounds hosts p = (parsedHosts rounds p).map fun parsed =>
      parsed.foldl (fun hosts r => putHost hosts r.1 r.2) hosts := by
  induction rounds generalizing hosts p with
  | zero => rfl
  | succ rounds ih =>
      rw [hostsLoop_round, parsedHosts]
      cases hostsRound p with
      | stop => rfl
      | leave => rfl
      | go q host =>
          cases host with
          | none => exact ih hosts q
          | some r =>
              obtain ⟨name, object⟩ := r
              dsimp only
              cases parseHostEntry rounds object with
              | none => rfl
              | some host =>
                  simp only [Option.bind_some, ih, Option.map_map]
                  rfl

/-- Loading into an empty database is what `parseHostsJson` does. -/
lemma load_empty (rounds : ℕ) (json : Text) :
    (({} : HostsDb).load rounds json).map HostsDb.hosts =
      (parseHostsJson rounds json).map Prod.fst := by
  have hput : ∀ (parsed : List (Text × Host)) (db : HostsDb),
      (parsed.foldl (fun db r => db.put r.1 r.2) db).hosts =
        parsed.foldl (fun hosts r => putHost hosts r.1 r.2) db.hosts := by
    intro parsed
    induction parsed with
    | nil => exact fun _ => rfl
    | cons r parsed ih => exact fun db => ih (db.put r.1 r.2)
  unfold HostsDb.load parseHostsJson
  cases findKey rounds json (ascii "nodes") with
  | none => rfl
  | some found =>
      cases found with
      | none => rfl
      | some p =>
          rw [Option.bind_some, Option.map_some]
          dsimp only
          cases skipSpace p with
          | nil => rfl
          | cons c t =>
              dsimp only
              split
              · rfl
              · rw [hostsLoop_eq_parsedHosts]
                simp only [Option.map_map, Function.comp_def, hput]

/-! ## Names -/

/-- What a host is found by. -/
def Host.key (h : Host) : Text := h.name.map toLower

variable {db db' : HostsDb} {name : Text} {hosts : List Host} {h host : Host} {op : HostsOp}

lemma sameIgnoringCase_iff {s t : Text} :
    sameIgnoringCase s t = true ↔ s.map toLower = t.map toLower := by
  simp [sameIgnoringCase]

lemma sameIgnoringCase_eq_false_iff {s t : Text} :
    sameIgnoringCase s t = false ↔ s.map toLower ≠ t.map toLower := by
  simp [sameIgnoringCase]

lemma unique_iff : (hosts.Pairwise fun g h => sameIgnoringCase g.name h.name = false) ↔
    (hosts.map Host.key).Nodup := by
  rw [List.Nodup, List.pairwise_map]
  simp only [sameIgnoringCase_eq_false_iff]
  rfl

lemma find_eq_none_iff : db.find name = none ↔ ∀ g ∈ db.hosts, g.key ≠ name.map toLower := by
  unfold HostsDb.find
  rw [List.findIdx?_eq_none_iff]
  simp only [sameIgnoringCase_eq_false_iff]
  rfl

/-- Where `hosts_db_find` finds a host. -/
lemma find_eq_some_iff {i : ℕ} : db.find name = some i ↔ ∃ before h after,
    db.hosts = before ++ h :: after ∧ before.length = i ∧ h.key = name.map toLower ∧
      ∀ g ∈ before, g.key ≠ name.map toLower := by
  unfold HostsDb.find
  constructor
  · intro hfind
    obtain ⟨hi, hkey, hbefore⟩ := List.findIdx?_eq_some_iff_getElem.mp hfind
    refine ⟨db.hosts.take i, db.hosts[i], db.hosts.drop (i + 1), ?_, ?_, ?_, ?_⟩
    · rw [List.getElem_cons_drop, List.take_append_drop]
    · rw [List.length_take]
      omega
    · exact sameIgnoringCase_iff.mp hkey
    · intro g hg
      obtain ⟨j, hj, rfl⟩ := List.mem_take_iff_getElem.mp hg
      have hnot := hbefore j (by omega)
      rw [sameIgnoringCase_iff] at hnot
      exact hnot
  · rintro ⟨before, h, after, hhosts, rfl, hkey, hbefore⟩
    have hnone : before.findIdx? (fun h => sameIgnoringCase h.name name) = none := by
      rw [List.findIdx?_eq_none_iff]
      intro g hg
      exact sameIgnoringCase_eq_false_iff.mpr (hbefore g hg)
    have hsame : sameIgnoringCase h.name name = true := sameIgnoringCase_iff.mpr hkey
    rw [hhosts, List.findIdx?_append, hnone, List.findIdx?_cons, if_pos hsame]
    simp

/-- What `hosts_db_add` leaves: the host is there, and all the others are as they were. -/
lemma add_spec (db : HostsDb) (name : Text) : ∃ before h after,
    (db.add name).1.hosts = before ++ h :: after ∧ before.length = (db.add name).2 ∧
    (db.find name = none ∧ before = [] ∧ h = { name := name.take 63 } ∧ after = db.hosts ∧
        (db.add name).1.count = db.count + 1 ∨
      db.find name = some before.length ∧ db.hosts = before ++ h :: after ∧
        h.key = name.map toLower ∧ (∀ g ∈ before, g.key ≠ name.map toLower) ∧
        (db.add name).1.count = db.count) := by
  unfold HostsDb.add hostsDbAdd
  cases hfind : db.find name with
  | none =>
      refine ⟨[], _, db.hosts, ?_, ?_, .inl ⟨rfl, rfl, rfl, rfl, ?_⟩⟩
      all_goals
        unfold HostsDb.find at hfind
        rw [hfind]
        rfl
  | some i =>
      obtain ⟨before, h, after, hhosts, rfl, hkey, hbefore⟩ := find_eq_some_iff.mp hfind
      refine ⟨before, h, after, ?_, ?_, .inr ⟨rfl, hhosts, hkey, hbefore, rfl⟩⟩
      all_goals
        unfold HostsDb.find at hfind
        rw [hfind]
      exact hhosts

/-- A host that is added under a short name is found. -/
lemma find_add (hname : name.length ≤ 63) : (db.add name).1.find name = some (db.add name).2 := by
  obtain ⟨before, h, after, hhosts, hplace, hcases⟩ := add_spec db name
  refine find_eq_some_iff.mpr ⟨before, h, after, hhosts, hplace, ?_⟩
  rcases hcases with ⟨-, rfl, rfl, -⟩ | ⟨-, -, hkey, hbefore, -⟩
  · refine ⟨?_, by simp⟩
    rw [Host.key, List.take_of_length_le hname]
  · exact ⟨hkey, hbefore⟩

/-- All names are stored in the room there is. -/
def HostsDb.Named (db : HostsDb) : Prop := ∀ h ∈ db.hosts, h.name.length ≤ 63

/-- A host that is added under a long name is not found. -/
lemma not_find_add (hnamed : db.Named) (hname : ¬ name.length ≤ 63) :
    (db.add name).1.find name ≠ some (db.add name).2 := by
  intro hfind
  obtain ⟨before, h, after, hhosts, -, hkey, -⟩ := find_eq_some_iff.mp hfind
  have hlength : h.name.length = name.length := by
    simpa [Host.key] using congrArg List.length hkey
  obtain ⟨before', h', after', hhosts', -, hcases⟩ := add_spec db name
  have hmem : h ∈ (db.add name).1.hosts := by
    rw [hhosts]
    simp
  rcases hcases with ⟨-, rfl, rfl, rfl, -⟩ | ⟨-, hsame, -⟩
  · rw [hhosts', List.nil_append] at hmem
    rcases List.mem_cons.mp hmem with rfl | hmem
    · simp only [List.length_take] at hlength
      omega
    · have := hnamed h hmem
      omega
  · rw [hhosts', ← hsame] at hmem
    have := hnamed h hmem
    omega

/-- A host in the place of one that `hosts_db_add` returned, under the same name. -/
lemma proper_add (change : List Host → ℕ → List Host) (h : db.Proper) (hname : name.length ≤ 63)
    (hchange : ∀ before h after, ∃ h', change (before ++ h :: after) before.length =
      before ++ h' :: after ∧ (h.key = name.map toLower → h'.key = name.map toLower)) :
    HostsDb.Proper ⟨change (db.add name).1.hosts (db.add name).2, (db.add name).1.count⟩ := by
  obtain ⟨before, host, after, hhosts, hplace, hcases⟩ := add_spec db name
  obtain ⟨host', hchanged, hkey'⟩ := hchange before host after
  have hunique := unique_iff.mp h.unique
  rw [hhosts, ← hplace, hchanged]
  rcases hcases with ⟨hnone, rfl, rfl, rfl, hcount⟩ | ⟨-, hsame, hkey, -, hcount⟩
  · have hkey : host'.key = name.map toLower := hkey' (by
      rw [Host.key, List.take_of_length_le hname])
    refine ⟨unique_iff.mpr ?_, ?_⟩
    · rw [List.nil_append, List.map_cons, List.nodup_cons, hkey]
      refine ⟨?_, hunique⟩
      rw [List.mem_map]
      rintro ⟨g, hg, hgkey⟩
      exact find_eq_none_iff.mp hnone g hg hgkey
    · dsimp only
      rw [hcount, h.count]
      simp
  · refine ⟨unique_iff.mpr ?_, ?_⟩
    · rw [hsame] at hunique
      simpa [hkey, hkey' hkey] using hunique
    · dsimp only
      rw [hcount, h.count, hsame]
      simp

lemma HostsDb.Proper.add (h : db.Proper) (hname : name.length ≤ 63) : (db.add name).1.Proper :=
  proper_add (fun hosts _ => hosts) h hname fun _ host _ => ⟨host, rfl, id⟩

/-! ## The writers -/

lemma HostsDb.Proper.put (h : db.Proper) (hname : name.length ≤ 63) (host : Host) :
    (db.put name host).Proper := by
  refine proper_add (fun hosts i => hosts.set i { host with name := name.take 63 }) h
    hname fun before _ after => ⟨{ host with name := name.take 63 }, by simp, fun _ => ?_⟩
  rw [Host.key, List.take_of_length_le hname]

@[simp]
lemma name_addAddress (h : Host) (address : Text) : (h.addAddress address).name = h.name := by
  unfold Host.addAddress
  split <;> rfl

lemma name_addAddresses (h : Host) (addresses : List Text) :
    (addresses.foldl Host.addAddress h).name = h.name := by
  induction addresses generalizing h with
  | nil => rfl
  | cons address addresses ih => rw [List.foldl_cons, ih, name_addAddress]

@[simp]
lemma name_invitePort (h : Host) (port : Option Text) : (h.invitePort port).name = h.name := by
  unfold Host.invitePort
  split
  · rfl
  · split <;> rfl

@[simp]
lemma name_inviteVpn (h : Host) (vpn subnet : Text) : (h.inviteVpn vpn subnet).name = h.name := by
  unfold Host.inviteVpn
  split_ifs <;> rfl

/-- `parse_host_from_invite` adds a host and changes it, but not its name. -/
lemma parseHostFromInvite_eq (hosts : List Host) (entry : Text) (hne : (cutField entry).1 ≠ []) :
    ∃ change : Host → Host, (∀ h, (change h).name = h.name) ∧ parseHostFromInvite hosts entry =
      (hostsDbAdd hosts (cutField entry).1).1.modify (hostsDbAdd hosts (cutField entry).1).2
        change := by
  unfold parseHostFromInvite
  dsimp only
  rw [if_neg hne]
  refine ⟨_, fun h => ?_, rfl⟩
  rw [name_addAddresses]
  simp

lemma modify_append_cons (before after : List Host) (h : Host) (change : Host → Host) :
    (before ++ h :: after).modify before.length change = before ++ change h :: after := by
  induction before with
  | nil => simp
  | cons g before ih => simp [ih]

lemma HostsDb.Proper.invite (h : db.Proper) {entry : Text}
    (hname : (cutField entry).1.length ≤ 63) : (db.invite entry).Proper := by
  unfold HostsDb.invite
  by_cases hne : (cutField entry).1 = []
  · have hsame : parseHostFromInvite db.hosts entry = db.hosts := by
      unfold parseHostFromInvite
      dsimp only
      rw [if_pos hne]
    rw [if_pos hne, hsame]
    exact h
  · obtain ⟨change, hkeep, heq⟩ := parseHostFromInvite_eq db.hosts entry hne
    rw [if_neg hne, heq]
    refine proper_add (fun hosts i => hosts.modify i change) h hname
      fun before host after => ⟨change host, modify_append_cons .., fun hkey => ?_⟩
    rw [Host.key, hkeep]
    exact hkey

/-- What is removed is gone. -/
lemma HostsDb.Proper.remove (h : db.Proper) (name : Text) :
    (db.remove name).Proper ∧ (db.remove name).find name = none := by
  unfold HostsDb.remove
  cases hfind : db.find name with
  | none => exact ⟨h, hfind⟩
  | some i =>
      obtain ⟨before, host, after, hhosts, rfl, hkey, hbefore⟩ := find_eq_some_iff.mp hfind
      have herase : db.hosts.eraseIdx before.length = before ++ after := by
        rw [hhosts, List.eraseIdx_append_of_length_le le_rfl]
        simp
      have hunique := h.unique
      rw [hhosts] at hunique
      dsimp only
      rw [herase]
      refine ⟨⟨?_, ?_⟩, find_eq_none_iff.mpr fun g hg => ?_⟩
      · exact hunique.sublist ((List.Sublist.refl _).append (List.sublist_cons_self ..))
      · dsimp only
        rw [h.count, hhosts]
        simp only [List.length_append, List.length_cons]
        omega
      · rcases List.mem_append.mp hg with hg | hg
        · exact hbefore g hg
        · -- behind the host that was found there is no other of its name
          have hother := (List.pairwise_cons.mp (List.pairwise_append.mp hunique).2.1).1 g hg
          rw [sameIgnoringCase_eq_false_iff] at hother
          intro hsame
          exact hother (hkey.trans hsame.symm)

/-- A string is cut to what there is room for. -/
lemma length_stringLoop (room : ℕ) (p : Text) : (stringLoop room p).1.length ≤ room := by
  induction room generalizing p with
  | zero => simp [stringLoop]
  | succ room ih =>
      cases p with
      | nil => simp [stringLoop]
      | cons c p =>
          rw [stringLoop.eq_def]
          dsimp only
          split_ifs
          · simp
          · cases p with
            | nil => simp
            | cons e p => exact Nat.succ_le_succ (ih p)
          · exact Nat.succ_le_succ (ih p)

lemma length_parseString {size : ℕ} {p out rest : Text}
    (h : parseString size p = some (out, rest)) : out.length ≤ size - 1 := by
  unfold parseString at h
  split at h
  · cases h
  · split at h
    · cases h
    · obtain ⟨rfl, -⟩ := Prod.mk.inj (Option.some.inj h)
      exact length_stringLoop _ _

/-- The names in `hosts.json` are read into the room there is. -/
lemma length_name_hostsRound {p q name object : Text}
    (h : hostsRound p = .go q (some (name, object))) : name.length ≤ 63 := by
  unfold hostsRound at h
  split at h
  · cases h
  split at h
  · cases h
  split at h
  · cases h
  split at h
  · cases h
  split at h
  · cases h
  rename_i name' p₁ hstring
  have hlength := length_parseString hstring
  split at h
  · cases h
  split at h
  · cases h
  split at h
  · cases h
  split at h
  · cases h
  split at h
  · cases h
  obtain ⟨-, hhost⟩ := HostsRound.go.inj h
  obtain ⟨rfl, -⟩ := Prod.mk.inj (Option.some.inj hhost)
  exact hlength

lemma length_name_parsedHosts {rounds : ℕ} {p : Text} {parsed : List (Text × Host)}
    (h : parsedHosts rounds p = some parsed) : ∀ r ∈ parsed, r.1.length ≤ 63 := by
  induction rounds generalizing p parsed with
  | zero => cases h
  | succ rounds ih =>
      rw [parsedHosts] at h
      cases hround : hostsRound p with
      | stop =>
          rw [hround] at h
          obtain rfl := Option.some.inj h
          simp
      | leave =>
          rw [hround] at h
          cases h
      | go q host =>
          rw [hround] at h
          cases host with
          | none => exact ih h
          | some r =>
              obtain ⟨name, object⟩ := r
              obtain ⟨host, -, h⟩ := Option.bind_eq_some_iff.mp h
              obtain ⟨rest, hrest, rfl⟩ := Option.map_eq_some_iff.mp h
              intro r hr
              rcases List.mem_cons.mp hr with rfl | hr
              · exact length_name_hostsRound hround
              · exact ih hrest r hr

/-- What a load does to a database: it puts hosts with short names into it. -/
lemma load_invariant {P : HostsDb → Prop} {rounds : ℕ} {json : Text}
    (hput : ∀ db name host, P db → name.length ≤ 63 → P (db.put name host)) (h : P db)
    (hload : db.load rounds json = some db') : P db' := by
  have hfold : ∀ (parsed : List (Text × Host)) (db : HostsDb), P db →
      (∀ r ∈ parsed, r.1.length ≤ 63) → P (parsed.foldl (fun db r => db.put r.1 r.2) db) := by
    intro parsed
    induction parsed with
    | nil => exact fun _ h _ => h
    | cons r parsed ih =>
        intro db h hshort
        exact ih _ (hput db r.1 r.2 h (hshort r (by simp))) fun r hr => hshort r (by simp [hr])
  unfold HostsDb.load at hload
  obtain ⟨found, -, hload⟩ := Option.bind_eq_some_iff.mp hload
  split at hload
  · split at hload
    · obtain rfl := Option.some.inj hload
      exact h
    · obtain ⟨parsed, hparsed, rfl⟩ := Option.map_eq_some_iff.mp hload
      exact hfold parsed db h (length_name_parsedHosts hparsed)
  · obtain rfl := Option.some.inj hload
    exact h

/-! ## Runs -/

lemma HostsDb.Named.add (h : db.Named) (name : Text) : (db.add name).1.Named := by
  obtain ⟨before, host, after, hhosts, -, hcases⟩ := add_spec db name
  intro g hg
  rw [hhosts] at hg
  rcases hcases with ⟨-, rfl, rfl, rfl, -⟩ | ⟨-, hsame, -⟩
  · rcases List.mem_cons.mp hg with rfl | hg
    · simp
    · exact h g hg
  · rw [← hsame] at hg
    exact h g hg

lemma HostsDb.Named.put (h : db.Named) (name : Text) (host : Host) : (db.put name host).Named := by
  intro g hg
  rcases List.mem_or_eq_of_mem_set hg with hg | rfl
  · exact h.add name g hg
  · simp

lemma HostsDb.Named.invite (h : db.Named) (entry : Text) : (db.invite entry).Named := by
  intro g hg
  by_cases hne : (cutField entry).1 = []
  · have hsame : parseHostFromInvite db.hosts entry = db.hosts := by
      unfold parseHostFromInvite
      dsimp only
      rw [if_pos hne]
    exact h g (hsame ▸ hg)
  · obtain ⟨change, hkeep, heq⟩ := parseHostFromInvite_eq db.hosts entry hne
    obtain ⟨before, host, after, hhosts, hplace, -⟩ := add_spec db (cutField entry).1
    have hnamed := h.add (cutField entry).1
    have hmodified : (db.invite entry).hosts = before ++ change host :: after := by
      unfold HostsDb.invite
      dsimp only
      unfold HostsDb.add at hhosts hplace
      dsimp only at hhosts hplace
      rw [heq, hhosts, ← hplace, modify_append_cons]
    unfold HostsDb.Named at hnamed
    rw [hhosts] at hnamed
    rw [hmodified] at hg
    rcases List.mem_append.mp hg with hg | hg
    · exact hnamed g (by simp [hg])
    · rcases List.mem_cons.mp hg with rfl | hg
      · rw [hkeep]
        exact hnamed host (by simp)
      · exact hnamed g (by simp [hg])

lemma HostsDb.Named.remove (h : db.Named) (name : Text) : (db.remove name).Named := by
  unfold HostsDb.remove
  split
  · exact h
  · exact fun g hg => h g (List.mem_of_mem_eraseIdx hg)

/-- A step under a short name keeps the database in order. -/
lemma HostsDb.Proper.step (h : db.Proper) (hnamed : db.Named) (hshort : op.Short)
    (hstep : db.step op = some db') : db'.Proper ∧ db'.Named := by
  cases op with
  | add name =>
      obtain rfl := Option.some.inj hstep
      exact ⟨h.add hshort, hnamed.add name⟩
  | remove name =>
      obtain rfl := Option.some.inj hstep
      exact ⟨(h.remove name).1, hnamed.remove name⟩
  | load rounds json =>
      exact load_invariant (P := fun db => db.Proper ∧ db.Named)
        (fun db name host hdb hname => ⟨hdb.1.put hname host, hdb.2.put name host⟩) ⟨h, hnamed⟩
        hstep
  | invite entry =>
      obtain rfl := Option.some.inj hstep
      exact ⟨h.invite hshort, hnamed.invite entry⟩

/-- It does what it is for, and under a long name it does not. -/
lemma stepRight_iff (h : db.Proper) (hnamed : db.Named) : db.StepRight op ↔ op.Short := by
  cases op with
  | add name =>
      constructor
      · intro hright
        by_contra hlong
        exact not_find_add hnamed hlong hright
      · exact find_add
  | remove name => exact iff_of_true (h.remove name).2 trivial
  | load rounds json => exact Iff.rfl
  | invite entry =>
      constructor
      · intro hright
        by_contra hlong
        have hlong : ¬ (cutField entry).1.length ≤ 63 := hlong
        refine not_find_add hnamed hlong (hright fun hnil => ?_)
        rw [hnil] at hlong
        exact hlong (Nat.zero_le _)
      · exact fun hshort _ => find_add hshort

/-- A run from a database that is in order. -/
lemma runRight_iff (h : db.Proper) (hnamed : db.Named) (ops : List HostsOp)
    (hrun : (ops.foldlM HostsDb.step db).isSome) :
    db.RunRight ops ↔ ∀ op ∈ ops, op.Short := by
  induction ops generalizing db with
  | nil => exact iff_of_true h (by simp)
  | cons op ops ih =>
      rw [List.foldlM_cons] at hrun
      cases hstep : db.step op with
      | none =>
          rw [hstep] at hrun
          cases hrun
      | some db' =>
          rw [hstep] at hrun
          have hrest : op.Short → (db'.RunRight ops ↔ ∀ op ∈ ops, op.Short) := by
            intro hshort
            obtain ⟨hproper, hnamed'⟩ := h.step hnamed hshort hstep
            exact ih hproper hnamed' hrun
          unfold HostsDb.RunRight
          rw [stepRight_iff h hnamed, List.forall_mem_cons]
          constructor
          · rintro ⟨-, hshort, hnext⟩
            exact ⟨hshort, (hrest hshort).mp (hnext db' hstep)⟩
          · rintro ⟨hshort, hall⟩
            refine ⟨h, hshort, fun db'' hdb'' => ?_⟩
            rw [hstep] at hdb''
            obtain rfl := Option.some.inj hdb''
            exact (hrest hshort).mpr hall

/-- **Names are unique exactly if they are short.**  Along every run whose files can be parsed, no
two hosts have the same name, the number of hosts is right, an added host is found and a removed one
is not, if and only if no host is added, directly or by an invitation, under a name of more than 63
bytes. -/
theorem host_names_unique_iff (ops : List HostsOp)
    (hrun : (ops.foldlM HostsDb.step {}).isSome) :
    HostsDb.RunRight {} ops ↔ ∀ op ∈ ops, op.Short :=
  runRight_iff ⟨.nil, rfl⟩ (by simp [HostsDb.Named]) ops hrun

/-- A host that is added twice, in another case, and removed. -/
theorem host_names_unique_case :
    HostsDb.RunRight {}
      [.add (ascii "Bob"), .invite (ascii "BOB|10.0.0.1"), .remove (ascii "bob")] :=
  (host_names_unique_iff _ rfl).mpr (by
    intro op hop
    fin_cases hop
    · exact (by decide : (ascii "Bob").length ≤ 63)
    · exact (by decide : (cutField (ascii "BOB|10.0.0.1")).1.length ≤ 63)
    · trivial)

/-- A name of 64 bytes, added twice, is there twice. -/
theorem long_name_twice : ¬ HostsDb.RunRight {}
    [.add (List.replicate 64 97), .add (List.replicate 64 97)] := by
  rintro ⟨-, -, h⟩
  obtain ⟨-, -, h⟩ := h _ rfl
  have hunique := (h _ rfl).unique
  have htwice : ¬ ((((({} : HostsDb).add (List.replicate 64 97)).1.add
      (List.replicate 64 97)).1.hosts).Pairwise
        fun g h => sameIgnoringCase g.name h.name = false) := by
    decide +kernel
  exact htwice hunique

end Tinc
