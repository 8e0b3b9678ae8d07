import TincQuic.Invite.Files

/-!
# `hosts.json`

The hosts are kept in a file that a writer of a few lines produces, and a parser that was written by
hand for this file reads.  The writer puts strings into quotes as they are; the parser interprets
backslashes in them, and passes over what it does not look for by counting brackets, also those that
stand in a string.

* `hostsDbSave` is the writer, `parseHostsJson` the parser.  Two of its loops may turn for ever, so
  it has a bound on the rounds.
* `Built` are the databases that the functions of `hosts_json.c` and `parse_host_from_invite` build.
* `Clean` are the hosts whose strings mean nothing to the parser.  **A database of clean hosts with
  different names comes back**: `hosts_json_round_trip`.
-/

namespace Tinc

open Bytes CText Function

/-! ## The parser -/

/-- What stands behind a backslash. -/
def unescape (c : UInt8) : UInt8 := if c = 110 then 10 else if c = 116 then 9 else c

/-- The loop of `parse_string`, with room for so many bytes. -/
def stringLoop : ℕ → Text → Text × Text
  | 0, p => ([], p)
  | _ + 1, [] => ([], [])
  | room + 1, c :: p =>
      if c = 34 then ([], c :: p)
      else if c = 92 then
        match p with
        | [] => ([c], [])
        | e :: p => (unescape e :: (stringLoop room p).1, (stringLoop room p).2)
      else (c :: (stringLoop room p).1, (stringLoop room p).2)

/-- `parse_string`: the string, and what follows. -/
def parseString (outsize : ℕ) (p : Text) : Option (Text × Text) :=
  match skipSpace p with
  | [] => none
  | c :: p =>
      if c ≠ 34 then none
      else
        let (out, rest) := stringLoop (outsize - 1) p
        some (out, if rest.head? = some 34 then rest.tail else rest)

/-- `parse_number`; what follows is not looked at. -/
def parseNumber (p : Text) : ℤ :=
  atoi (((skipSpace p).takeWhile fun c => isDigit c ∨ c = 45).take 31)

/-- The loop of `find_key` that skips to the next key or the end. -/
def skipValue : ℕ → Text → Text
  | _, [] => []
  | depth, c :: p =>
      if c = 123 ∨ c = 91 then skipValue (depth + 1) p
      else if c = 125 ∨ c = 93 then if depth = 0 then c :: p else skipValue (depth - 1) p
      else if c = 44 ∧ depth = 0 then p
      else skipValue depth p

/-- The loop of `find_key`: what follows the key, if there is one.  There is no result if the
rounds do not suffice. -/
def findKeyLoop (key : Text) : ℕ → Text → Option (Option Text)
  | 0, _ => none
  | rounds + 1, p =>
      match skipSpace p with
      | [] => some none
      | c :: t =>
          if c = 125 then some none
          else if c = 34 then
            match parseString 128 (c :: t) with
            | none => some none
            | some (buf, next) =>
                let p := skipSpace next
                if p.head? = some 58 then
                  if buf = key then some (some p.tail)
                  else findKeyLoop key rounds (skipValue 0 p.tail)
                else findKeyLoop key rounds (skipValue 0 p)
          else findKeyLoop key rounds (skipValue 0 (c :: t))

/-- `find_key` -/
def findKey (rounds : ℕ) (p : Text) (key : Text) : Option (Option Text) :=
  let p := skipSpace p
  findKeyLoop key rounds (if p.head? = some 123 then p.tail else p)

/-- The loop of `parse_host_entry` over the addresses. -/
def addressLoop : ℕ → List Text → Text → Option (List Text)
  | 0, _, _ => none
  | rounds + 1, addresses, p =>
      if p = [] ∨ p.head? = some 93 ∨ 8 ≤ addresses.length then some addresses
      else
        let (addresses, p) :=
          match parseString 128 p with
          | some (address, rest) => (addresses ++ [address], rest)
          | none => (addresses, skipSpace p)
        let p := skipSpace p
        addressLoop rounds addresses (if p.head? = some 44 then p.tail else p)

/-- A key with a string in `parse_host_entry`. -/
def stringField (rounds : ℕ) (json key : Text) (outsize : ℕ) : Option Text :=
  (findKey rounds json key).map fun found =>
    ((found.bind (parseString outsize)).map Prod.fst).getD []

/-- `parse_host_entry`, without the name. -/
def parseHostEntry (rounds : ℕ) (json : Text) : Option Host := do
  let found ← findKey rounds json (ascii "addresses")
  let addresses ←
    match found.map skipSpace with
    | some (c :: p) => if c = 91 then addressLoop rounds [] p else some []
    | _ => some []
  let port := (← findKey rounds json (ascii "port")).map parseNumber
  let subnet ← stringField rounds json (ascii "subnet") 64
  let vpnAddress ← stringField rounds json (ascii "vpn_address") 128
  some { name := [], addresses := addresses, port := ((port.getD 443) % 65536).toNat,
         subnet := subnet, vpnAddress := vpnAddress }

/-- The loop that looks for the end of an object: the object, and what follows. -/
def sliceObject : ℕ → Text → Text × Text
  | 0, p => ([], p)
  | _ + 1, [] => ([], [])
  | depth + 1, c :: p =>
      let next := if c = 123 then depth + 2 else if c = 125 then depth else depth + 1
      (c :: (sliceObject next p).1, (sliceObject next p).2)

/-- The host that was found or made gets what was parsed. -/
def putHost (hosts : List Host) (name : Text) (host : Host) : List Host :=
  (hostsDbAdd hosts name).1.set (hostsDbAdd hosts name).2 { host with name := name.take 63 }

/-- The loop of `parse_hosts_json`.  There is no result either if it leaves the text, behind white
space at its end. -/
def hostsLoop : ℕ → List Host → Text → Option (List Host)
  | 0, _, _ => none
  | rounds + 1, hosts, p =>
      if p = [] then some hosts
      else
        match skipSpace p with
        | [] => none
        | c :: t =>
            if c = 125 then some hosts
            else if c ≠ 34 then hostsLoop rounds hosts t
            else
              match parseString 64 (c :: t) with
              | none => none
              | some (name, p) =>
                  if name = [] then hostsLoop rounds hosts p
                  else
                    match skipSpace p with
                    | [] => hostsLoop rounds hosts []
                    | c :: p =>
                        if c ≠ 58 then hostsLoop rounds hosts (c :: p)
                        else
                          match skipSpace p with
                          | [] => hostsLoop rounds hosts []
                          | c :: p =>
                              if c ≠ 123 then hostsLoop rounds hosts (c :: p)
                              else
                                match parseHostEntry rounds (c :: (sliceObject 1 p).1) with
                                | none => none
                                | some host =>
                                    let rest := skipSpace (sliceObject 1 p).2
                                    hostsLoop rounds (putHost hosts name host)
                                      (if rest.head? = some 44 then rest.tail else rest)

/-- `parse_hosts_json` into an empty database: the hosts and the result. -/
def parseHostsJson (rounds : ℕ) (json : Text) : Option (List Host × Bool) :=
  match findKey rounds json (ascii "nodes") with
  | none => none
  | some none => some ([], true)
  | some (some p) =>
      match skipSpace p with
      | [] => some ([], false)
      | c :: p => if c ≠ 123 then some ([], false) else (hostsLoop rounds [] p).map (·, true)

/-! ## The writer -/

def quoted (t : Text) : Text := 34 :: t ++ [34]

def writeAddresses : List Text → Text
  | [] => []
  | [a] => quoted a
  | a :: as => quoted a ++ ascii ", " ++ writeAddresses as

/-- What stands between the braces of a host. -/
def hostBody (h : Host) : Text :=
  ascii "\n      " ++ quoted (ascii "addresses") ++ ascii ": [" ++ writeAddresses h.addresses ++
    ascii "],\n      " ++ quoted (ascii "port") ++ ascii ": " ++ decimal h.port ++
    ascii ",\n      " ++ quoted (ascii "subnet") ++ ascii ": " ++ quoted h.subnet ++
    ascii ",\n      " ++ quoted (ascii "vpn_address") ++ ascii ": " ++ quoted h.vpnAddress ++
    ascii "\n    "

def writeHost (h : Host) : Text :=
  ascii "    " ++ quoted h.name ++ ascii ": \x7b" ++ hostBody h ++ ascii "\x7d"

def writeHosts : List Host → Text
  | [] => []
  | [h] => writeHost h
  | h :: hosts => writeHost h ++ ascii ",\n" ++ writeHosts hosts

/-- `hosts_db_save` -/
def hostsDbSave (hosts : List Host) : Text :=
  ascii "\x7b\n  " ++ quoted (ascii "nodes") ++ ascii ": \x7b\n" ++ writeHosts hosts ++
    ascii "\n  \x7d\n\x7d\n"

/-! ## The databases -/

/-- `host_add_address` -/
def Host.addAddress (h : Host) (address : Text) : Host :=
  if 8 ≤ h.addresses.length ∨ address ∈ h.addresses then h
  else { h with addresses := h.addresses ++ [address.take 127] }

/-- What stands before the first `|`, and what stands behind it. -/
def cutField (p : Text) : Text × Option Text :=
  if 124 ∈ p then (p.takeWhile (· ≠ 124), some ((p.dropWhile (· ≠ 124)).tail)) else (p, none)

/-- The port, if there is one. -/
def Host.invitePort (h : Host) : Option Text → Host
  | none => h
  | some port => if port = [] then h else { h with port := (atoi port % 65536).toNat }

/-- The address in the VPN, or only a subnet. -/
def Host.inviteVpn (h : Host) (vpn subnet : Text) : Host :=
  if vpn ≠ [] then
    h.setVpnAddress vpn
      (if 47 ∈ subnet then atoi ((subnet.dropWhile (· ≠ 47)).tail) else 32)
  else if subnet ≠ [] then { h with subnet := subnet.take 63 }
  else h

/-- `parse_host_from_invite` -/
def parseHostFromInvite (hosts : List Host) (entry : Text) : List Host :=
  let (name, addrs) := cutField entry
  let (addrs, rest) := (addrs.map cutField).getD ([], none)
  let port := rest.map fun p => (cutField p).1
  let (vpn, subnet) := ((rest.bind fun p => (cutField p).2).map cutField).getD ([], none)
  if name = [] then hosts
  else
    let change := fun h : Host =>
      ((addrs.splitOn 59).filter (· ≠ [])).foldl Host.addAddress
        ((h.invitePort port).inviteVpn vpn (subnet.getD []))
    (hostsDbAdd hosts name).1.modify (hostsDbAdd hosts name).2 change

/-- The databases that can be built. -/
inductive Built : List Host → Prop where
  | empty : Built []
  | add {hosts : List Host} (name : Text) : Built hosts → Built (hostsDbAdd hosts name).1
  | addAddress {hosts : List Host} (i : ℕ) (address : Text) :
      Built hosts → Built (hosts.modify i (Host.addAddress · address))
  | setVpnAddress {hosts : List Host} (i : ℕ) (vpnAddress : Text) (prefixLength : ℤ) :
      Built hosts → Built (hosts.modify i (Host.setVpnAddress · vpnAddress prefixLength))
  | invite {hosts : List Host} (entry : Text) : Built hosts → Built (parseHostFromInvite hosts entry)

/-! ## Strings -/

/-- The parser takes each byte of the string as it is. -/
def Plain (t : Text) : Prop := 34 ∉ t ∧ 92 ∉ t

instance (t : Text) : Decidable (Plain t) := inferInstanceAs (Decidable (_ ∧ _))

lemma stringLoop_plain {t : Text} (h : Plain t) {room : ℕ} (hroom : t.length ≤ room)
    (rest : Text) : stringLoop room (t ++ 34 :: rest) = (t, 34 :: rest) := by
  induction t generalizing room with
  | nil =>
      cases room with
      | zero => rfl
      | succ room => simp [stringLoop]
  | cons c t ih =>
      obtain ⟨hquote, hback⟩ := h
      rw [List.mem_cons, not_or] at hquote hback
      cases room with
      | zero => simp at hroom
      | succ room =>
          have hrec := ih ⟨hquote.2, hback.2⟩ (by simpa using hroom : t.length ≤ room)
          rw [List.cons_append, stringLoop.eq_def]
          dsimp only
          rw [if_neg (Ne.symm hquote.1), if_neg (Ne.symm hback.1), hrec]

/-- White space. -/
def Blank (t : Text) : Prop := ∀ c ∈ t, isSpace c = true

lemma skipSpace_blank {t : Text} (h : Blank t) (rest : Text) :
    skipSpace (t ++ rest) = skipSpace rest := by
  induction t with
  | nil => rfl
  | cons c t ih =>
      have hc := h c List.mem_cons_self
      rw [List.cons_append, skipSpace, List.dropWhile_cons_of_pos hc]
      exact ih fun c hc => h c (List.mem_cons_of_mem _ hc)

lemma skipSpace_cons {c : UInt8} (h : isSpace c = false) (t : Text) :
    skipSpace (c :: t) = c :: t := List.dropWhile_cons_of_neg (by simp [h])

/-- A string in quotes is read as it is, if there is room for it. -/
lemma parseString_quoted {blank t : Text} (hb : Blank blank) (h : Plain t) {outsize : ℕ}
    (hsize : t.length < outsize) (rest : Text) :
    parseString outsize (blank ++ quoted t ++ rest) = some (t, rest) := by
  have hskip : skipSpace (blank ++ quoted t ++ rest) = 34 :: (t ++ 34 :: rest) := by
    rw [List.append_assoc, skipSpace_blank hb]
    simp [quoted, skipSpace_cons (by decide : isSpace 34 = false)]
  unfold parseString
  rw [hskip]
  simp [stringLoop_plain h (by omega : t.length ≤ outsize - 1)]

/-! ## Values that are passed over -/

/-- The depth after `skipValue` passed over the text; there is none if it stops in it. -/
def skipDepth : ℕ → Text → Option ℕ
  | depth, [] => some depth
  | depth, c :: t =>
      if c = 123 ∨ c = 91 then skipDepth (depth + 1) t
      else if c = 125 ∨ c = 93 then if depth = 0 then none else skipDepth (depth - 1) t
      else if c = 44 ∧ depth = 0 then none
      else skipDepth depth t

lemma skipValue_of_skipDepth {depth next : ℕ} {t : Text} (h : skipDepth depth t = some next)
    (rest : Text) : skipValue depth (t ++ rest) = skipValue next rest := by
  induction t generalizing depth with
  | nil =>
      obtain rfl := Option.some.inj h
      rfl
  | cons c t ih =>
      rw [skipDepth] at h
      rw [List.cons_append, skipValue]
      split_ifs at h ⊢ with h1 h2 h3 h4
      · exact ih h
      · exact ih h
      · exact ih h

lemma skipDepth_append {depth next : ℕ} {t u : Text} (h : skipDepth depth t = some next) :
    skipDepth depth (t ++ u) = skipDepth next u := by
  induction t generalizing depth with
  | nil =>
      obtain rfl := Option.some.inj h
      rfl
  | cons c t ih =>
      rw [skipDepth] at h
      rw [List.cons_append, skipDepth]
      split_ifs at h ⊢ with h1 h2 h3 h4
      · exact ih h
      · exact ih h
      · exact ih h

/-- The subnet is passed over, if need be in several rounds: a comma ends a round, and then
something must follow it. -/
def resumes : ℕ → Text → Bool
  | depth, [] => depth = 0
  | depth, c :: t =>
      if c = 123 ∨ c = 91 then resumes (depth + 1) t
      else if c = 125 ∨ c = 93 then depth ≠ 0 && resumes (depth - 1) t
      else if c = 44 ∧ depth = 0 then skipSpace t ≠ [] && resumes 0 t
      else resumes depth t

/-- A round ends behind the value, or behind a comma in it. -/
lemma skipValue_resumes {depth : ℕ} {t : Text} (h : resumes depth t = true) (tail : Text) :
    skipValue depth (t ++ 34 :: 44 :: tail) = tail ∨
      ∃ u, skipValue depth (t ++ 34 :: 44 :: tail) = u ++ 34 :: 44 :: tail ∧
        u.length < t.length ∧ u ⊆ t ∧ skipSpace u ≠ [] ∧ resumes 0 u = true := by
  induction t generalizing depth with
  | nil =>
      have hd : depth = 0 := by simpa [resumes] using h
      left
      simp [skipValue, hd]
  | cons c t ih =>
      have hsub : ∀ {u : Text}, u ⊆ t → u ⊆ c :: t := fun hu =>
        List.Subset.trans hu (List.subset_cons_self c t)
      have hrec : ∀ {depth}, resumes depth t = true →
          skipValue depth (t ++ 34 :: 44 :: tail) = tail ∨
          ∃ u, skipValue depth (t ++ 34 :: 44 :: tail) = u ++ 34 :: 44 :: tail ∧
            u.length < (c :: t).length ∧ u ⊆ c :: t ∧ skipSpace u ≠ [] ∧ resumes 0 u = true := by
        intro depth h
        rcases ih h with h | ⟨u, hu, hlen, hmem, hne, hres⟩
        · exact .inl h
        · exact .inr ⟨u, hu, by simp; omega, hsub hmem, hne, hres⟩
      rw [resumes] at h
      rw [List.cons_append, skipValue]
      split_ifs at h ⊢ with h1 h2 h3 h4
      · exact hrec h
      · simp [h3] at h
      · exact hrec (by simpa [h3] using h)
      · have h : skipSpace t ≠ [] ∧ resumes 0 t = true := by simpa using h
        exact .inr ⟨t, rfl, by simp, List.subset_cons_self c t, h.1, h.2⟩
      · exact hrec h

/-! ## Keys -/

/-- `find_key` comes to this result, if there are at least `n` rounds. -/
def Finds (key : Text) (n : ℕ) (p : Text) (result : Option Text) : Prop :=
  ∀ rounds, n ≤ rounds → findKeyLoop key rounds p = some result

variable {key : Text} {n : ℕ} {p rest : Text} {result : Option Text}

/-- One round of the loop, at a key. -/
lemma findKeyLoop_key {blank k : Text} (hb : Blank blank) (hk : Plain k) (hsize : k.length < 128)
    (rounds : ℕ) : findKeyLoop key (rounds + 1) (blank ++ quoted k ++ 58 :: rest) =
      if k = key then some (some rest) else findKeyLoop key rounds (skipValue 0 rest) := by
  have hskip : skipSpace (blank ++ quoted k ++ 58 :: rest) = 34 :: (k ++ 34 :: 58 :: rest) := by
    rw [List.append_assoc, skipSpace_blank hb]
    simp [quoted, skipSpace_cons (by decide : isSpace 34 = false)]
  have hparse : parseString 128 (34 :: (k ++ 34 :: 58 :: rest)) = some (k, 58 :: rest) := by
    have h := parseString_quoted (show Blank [] from nofun) hk hsize (58 :: rest)
    simpa [quoted] using h
  rw [findKeyLoop, hskip]
  simp [hparse, skipSpace_cons (by decide : isSpace 58 = false)]

lemma Finds.here {blank : Text} (hb : Blank blank) (hk : Plain key) (hsize : key.length < 128) :
    Finds key 1 (blank ++ quoted key ++ 58 :: rest) (some rest) := by
  intro rounds hr
  obtain ⟨rounds, rfl⟩ := Nat.exists_eq_add_of_le' hr
  rw [findKeyLoop_key hb hk hsize, if_pos rfl]

/-- Another key: its value is passed over. -/
lemma Finds.next {blank k : Text} (h : Finds key n (skipValue 0 rest) result) (hb : Blank blank)
    (hk : Plain k) (hsize : k.length < 128) (hne : k ≠ key) :
    Finds key (n + 1) (blank ++ quoted k ++ 58 :: rest) result := by
  intro rounds hr
  obtain ⟨rounds, rfl⟩ := Nat.exists_eq_add_of_le' (Nat.le_trans (Nat.le_add_left 1 n) hr)
  rw [findKeyLoop_key hb hk hsize, if_neg hne]
  exact h rounds (by omega)

lemma resumes_skipSpace {t : Text} (h : resumes 0 t = true) : resumes 0 (skipSpace t) = true := by
  induction t with
  | nil => exact h
  | cons c t ih =>
      by_cases hc : isSpace c = true
      · rw [skipSpace, List.dropWhile_cons_of_pos hc]
        refine ih ?_
        have hplain : c ≠ 123 ∧ c ≠ 91 ∧ c ≠ 125 ∧ c ≠ 93 ∧ c ≠ 44 := by
          refine ⟨?_, ?_, ?_, ?_, ?_⟩ <;> rintro rfl <;> revert hc <;> decide
        simpa [resumes, hplain] using h
      · rwa [skipSpace, List.dropWhile_cons_of_neg hc]

/-- A round that begins in a value ends it, or another round does. -/
lemma Finds.resume (h : Finds key n p result) {t : Text} (hres : resumes 0 t = true)
    (hquote : 34 ∉ t) (hne : skipSpace t ≠ []) :
    Finds key (n + t.length) (t ++ 34 :: 44 :: p) result := by
  -- the rounds begin at shorter and shorter rests of the value
  induction hlen : t.length using Nat.strong_induction_on generalizing t with
  | _ m ih =>
      subst hlen
      obtain ⟨c, u, hcu⟩ := List.exists_cons_of_ne_nil hne
      have happend : skipSpace (t ++ 34 :: 44 :: p) = c :: (u ++ 34 :: 44 :: p) := by
        have hdrop : t.dropWhile isSpace = c :: u := hcu
        simp [skipSpace, List.dropWhile_append, hdrop]
      have hsuffix : (c :: u).Sublist t := hcu ▸ (List.dropWhile_suffix _).sublist
      have hres' : resumes 0 (c :: u) = true := hcu ▸ resumes_skipSpace hres
      have hc : c ≠ 34 := fun heq => hquote (hsuffix.subset (by simp [heq]))
      have hc' : c ≠ 125 := by
        rintro rfl
        simp [resumes] at hres'
      intro rounds hr
      have hpos : 0 < t.length := lt_of_lt_of_le (by simp) hsuffix.length_le
      obtain ⟨rounds, rfl⟩ := Nat.exists_eq_add_of_le' (by omega : 1 ≤ rounds)
      have hround : findKeyLoop key (rounds + 1) (t ++ 34 :: 44 :: p) =
          findKeyLoop key rounds (skipValue 0 ((c :: u) ++ 34 :: 44 :: p)) := by
        rw [findKeyLoop, happend]
        simp [hc, hc']
      rw [hround]
      rcases skipValue_resumes hres' p with heq | ⟨v, heq, hlen, hmem, hne', hres''⟩
      · rw [heq]
        exact h rounds (by omega)
      · rw [heq]
        have hlt : v.length < t.length := lt_of_lt_of_le hlen hsuffix.length_le
        refine ih v.length hlt hres'' ?_ hne' rfl rounds (by omega)
        exact fun hm => hquote (hsuffix.subset (hmem hm))

/-- The value of a string that the parser does not look for. -/
lemma Finds.value (h : Finds key n p result) {t : Text} (hres : resumes 0 t = true)
    (hquote : 34 ∉ t) :
    Finds key (n + t.length) (skipValue 0 (32 :: 34 :: (t ++ 34 :: 44 :: p))) result := by
  have hstart : skipValue 0 (32 :: 34 :: (t ++ 34 :: 44 :: p)) =
      skipValue 0 (t ++ 34 :: 44 :: p) := by simp [skipValue]
  rw [hstart]
  rcases skipValue_resumes hres p with heq | ⟨u, heq, hlen, hmem, hne, hres⟩
  · rw [heq]
    exact fun rounds hr => h rounds (by omega)
  · rw [heq]
    have hu := h.resume hres (fun hm => hquote (hmem hm)) hne
    exact fun rounds hr => hu rounds (by omega)

/-! ## Hosts -/

/-- The depth of braces after the text; there is none if the counter comes to 0 in it. -/
def braceDepth : ℕ → Text → Option ℕ
  | depth, [] => some depth
  | depth, c :: t =>
      if c = 123 then braceDepth (depth + 1) t
      else if c = 125 then if depth ≤ 1 then none else braceDepth (depth - 1) t
      else braceDepth depth t

/-- Nothing in the strings of a host means something to the parser. -/
structure Clean (h : Host) : Prop where
  name : h.name ≠ []
  strings : ∀ t ∈ h.name :: h.subnet :: h.vpnAddress :: h.addresses, Plain t
  /-- the end of the object is found by counting braces -/
  braces : braceDepth 1 (h.addresses.flatten ++ h.subnet ++ h.vpnAddress) = some 1
  /-- the list of addresses is passed over by counting brackets -/
  list : skipDepth 1 (writeAddresses h.addresses) = some 1
  /-- and so is the subnet -/
  value : resumes 0 h.subnet = true

/-- What the fields of a `host_entry_t` have room for. -/
structure Fits (h : Host) : Prop where
  name : h.name.length < 64
  count : h.addresses.length ≤ 8
  addresses : ∀ a ∈ h.addresses, a.length < 128
  port : h.port < 65536
  subnet : h.subnet.length < 64
  vpnAddress : h.vpnAddress.length < 128

/-- A line break and the indentation of a key. -/
def indent : Text := ascii "\n      "

lemma blank_indent : Blank indent := by
  have hall : indent.all isSpace = true := by decide
  exact List.all_eq_true.1 hall

/-- What follows the keys. -/
def afterVpnAddress (h : Host) (rest : Text) : Text :=
  32 :: 34 :: (h.vpnAddress ++ 34 :: (ascii "\n    " ++ rest))

def afterSubnet (h : Host) (rest : Text) : Text :=
  32 :: 34 :: (h.subnet ++ 34 :: 44 ::
    (indent ++ quoted (ascii "vpn_address") ++ 58 :: afterVpnAddress h rest))

def afterPort (h : Host) (rest : Text) : Text :=
  32 :: (decimal h.port ++ 44 :: (indent ++ quoted (ascii "subnet") ++ 58 :: afterSubnet h rest))

def afterAddresses (h : Host) (rest : Text) : Text :=
  32 :: 91 :: (writeAddresses h.addresses ++ 93 :: 44 ::
    (indent ++ quoted (ascii "port") ++ 58 :: afterPort h rest))

lemma hostBody_eq (h : Host) (rest : Text) : hostBody h ++ rest =
    indent ++ quoted (ascii "addresses") ++ 58 :: afterAddresses h rest := by
  have h1 : ascii ": [" = [58, 32, 91] := by decide
  have h2 : ascii "],\n      " = 93 :: 44 :: indent := by decide
  have h3 : ascii ": " = [58, 32] := by decide
  have h4 : ascii ",\n      " = 44 :: indent := by decide
  have h5 : ascii "\n      " = indent := rfl
  rw [hostBody, h1, h2, h3, h4, h5]
  simp only [afterAddresses, afterPort, afterSubnet, afterVpnAddress]
  simp only [quoted, List.append_assoc, List.cons_append, List.nil_append]

variable {h : Host}

lemma skipValue_afterAddresses (hc : Clean h) (rest : Text) :
    skipValue 0 (afterAddresses h rest) =
      indent ++ quoted (ascii "port") ++ 58 :: afterPort h rest := by
  have hstart : ∀ t : Text, skipValue 0 (32 :: 91 :: t) = skipValue 1 t := fun t => by
    simp [skipValue]
  rw [afterAddresses, hstart, skipValue_of_skipDepth hc.list]
  simp [skipValue]

/-- Digits are passed over. -/
lemma skipDepth_digits {t : Text} (ht : ∀ c ∈ t, isDigit c = true) (depth : ℕ) :
    skipDepth depth t = some depth := by
  induction t with
  | nil => rfl
  | cons c t ih =>
      have hc := ht c List.mem_cons_self
      have hplain : c ≠ 123 ∧ c ≠ 91 ∧ c ≠ 125 ∧ c ≠ 93 ∧ c ≠ 44 := by
        refine ⟨?_, ?_, ?_, ?_, ?_⟩ <;> rintro rfl <;> revert hc <;> decide
      simpa [skipDepth, hplain] using ih fun c hc => ht c (List.mem_cons_of_mem _ hc)

lemma skipValue_afterPort (h : Host) (rest : Text) :
    skipValue 0 (afterPort h rest) =
      indent ++ quoted (ascii "subnet") ++ 58 :: afterSubnet h rest := by
  have hstart : ∀ t : Text, skipValue 0 (32 :: t) = skipValue 0 t := fun t => by simp [skipValue]
  rw [afterPort, hstart, skipValue_of_skipDepth (skipDepth_digits (decimal_digits h.port) 0)]
  simp [skipValue]

/-- The keys of a host are found. -/
lemma finds_keys (hc : Clean h) (rest : Text) :
    Finds (ascii "addresses") 1 (hostBody h ++ rest) (some (afterAddresses h rest)) ∧
      Finds (ascii "port") 2 (hostBody h ++ rest) (some (afterPort h rest)) ∧
      Finds (ascii "subnet") 3 (hostBody h ++ rest) (some (afterSubnet h rest)) ∧
      Finds (ascii "vpn_address") (4 + h.subnet.length) (hostBody h ++ rest)
        (some (afterVpnAddress h rest)) := by
  have hquote : 34 ∉ h.subnet := (hc.strings h.subnet (by simp)).1
  have hvpn : Finds (ascii "vpn_address") (1 + h.subnet.length) (skipValue 0 (afterSubnet h rest))
      (some (afterVpnAddress h rest)) :=
    (Finds.here blank_indent (by decide) (by decide)).value hc.value hquote
  have hvpn' : Finds (ascii "vpn_address") (1 + h.subnet.length + 1) (skipValue 0 (afterPort h rest))
      (some (afterVpnAddress h rest)) := by
    rw [skipValue_afterPort]
    exact hvpn.next blank_indent (by decide) (by decide) (by decide)
  have hsubnet : Finds (ascii "subnet") 1 (skipValue 0 (afterPort h rest))
      (some (afterSubnet h rest)) := by
    rw [skipValue_afterPort]
    exact Finds.here blank_indent (by decide) (by decide)
  have hstep : ∀ {key : Text} {n : ℕ} {result : Option Text}, ascii "port" ≠ key →
      Finds key n (skipValue 0 (afterPort h rest)) result →
      Finds key (n + 1) (skipValue 0 (afterAddresses h rest)) result := by
    intro key n result hne hf
    rw [skipValue_afterAddresses hc]
    exact hf.next blank_indent (by decide) (by decide) hne
  have hport : Finds (ascii "port") 1 (skipValue 0 (afterAddresses h rest))
      (some (afterPort h rest)) := by
    rw [skipValue_afterAddresses hc]
    exact Finds.here blank_indent (by decide) (by decide)
  rw [hostBody_eq]
  refine ⟨Finds.here blank_indent (by decide) (by decide), ?_, ?_, ?_⟩
  · exact hport.next blank_indent (by decide) (by decide) (by decide)
  · exact (hstep (by decide) hsubnet).next blank_indent (by decide) (by decide) (by decide)
  · have h4 := (hstep (by decide) hvpn').next (k := ascii "addresses") blank_indent (by decide)
      (by decide) (by decide)
    exact fun rounds hr => h4 rounds (by omega)

/-! ## Fields -/

/-- One round of the loop over the addresses, at an address. -/
lemma addressLoop_quoted {blank a : Text} (hb : Blank blank) (ha : Plain a) (hsize : a.length < 128)
    {acc : List Text} (hacc : acc.length < 8) (rounds : ℕ) (tail : Text) :
    addressLoop (rounds + 1) acc (blank ++ quoted a ++ tail) =
      addressLoop rounds (acc ++ [a])
        (if (skipSpace tail).head? = some 44 then (skipSpace tail).tail else skipSpace tail) := by
  have hne : blank ++ quoted a ++ tail ≠ [] := by simp [quoted]
  have hhead : (blank ++ quoted a ++ tail).head? ≠ some 93 := by
    cases blank with
    | nil => simp [quoted]
    | cons c t =>
        have hc : isSpace c = true := hb c List.mem_cons_self
        simp only [List.cons_append, List.head?_cons, ne_eq, Option.some.injEq]
        rintro rfl
        exact absurd hc (by decide)
  have hcond : ¬ (blank ++ quoted a ++ tail = [] ∨ (blank ++ quoted a ++ tail).head? = some 93 ∨
      8 ≤ acc.length) := by
    rintro (h | h | h)
    · exact hne h
    · exact hhead h
    · omega
  rw [addressLoop, if_neg hcond, parseString_quoted hb ha hsize]

lemma addressLoop_end (acc : List Text) (rounds : ℕ) (rest : Text) :
    addressLoop (rounds + 1) acc (93 :: rest) = some acc := by
  simp [addressLoop]

/-- The addresses that were written are read. -/
lemma addressLoop_writeAddresses {as : List Text} (hplain : ∀ a ∈ as, Plain a)
    (hsize : ∀ a ∈ as, a.length < 128) {acc : List Text} (hcount : acc.length + as.length ≤ 8)
    {blank : Text} (hb : Blank blank) (hblank : as = [] → blank = []) {rounds : ℕ}
    (hr : as.length < rounds) (rest : Text) :
    addressLoop rounds acc (blank ++ writeAddresses as ++ 93 :: rest) = some (acc ++ as) := by
  induction as generalizing acc blank rounds with
  | nil =>
      obtain ⟨rounds, rfl⟩ := Nat.exists_eq_add_of_le' (Nat.succ_le_of_lt hr)
      rw [hblank rfl]
      simp [writeAddresses, addressLoop_end]
  | cons a as ih =>
      rw [List.length_cons] at hcount hr
      obtain ⟨rounds, rfl⟩ := Nat.exists_eq_add_of_le' (by omega : 1 ≤ rounds)
      have hrec : ∀ {blank : Text}, Blank blank → (as = [] → blank = []) →
          addressLoop rounds (acc ++ [a]) (blank ++ writeAddresses as ++ 93 :: rest) =
            some (acc ++ a :: as) := by
        intro blank hb hblank
        have hacc : (acc ++ [a]).length + as.length ≤ 8 := by
          rw [List.length_append, List.length_singleton]
          omega
        rw [ih (fun a ha => hplain a (List.mem_cons_of_mem _ ha))
          (fun a ha => hsize a (List.mem_cons_of_mem _ ha)) hacc hb hblank (by omega)]
        simp
      have hone := addressLoop_quoted hb (hplain a List.mem_cons_self) (hsize a List.mem_cons_self)
        (by omega : acc.length < 8) rounds
      cases as with
      | nil =>
          rw [writeAddresses, hone, skipSpace_cons (by decide)]
          exact hrec (show Blank [] from nofun) fun _ => rfl
      | cons b as =>
          have htext : blank ++ writeAddresses (a :: b :: as) ++ 93 :: rest =
              blank ++ quoted a ++ 44 :: (ascii " " ++ writeAddresses (b :: as) ++ 93 :: rest) := by
            have hcomma : ascii ", " = 44 :: ascii " " := by decide
            rw [writeAddresses, hcomma]
            simp only [List.append_assoc, List.cons_append]
            exact nofun
          rw [htext, hone, skipSpace_cons (by decide)]
          have hspace : (ascii " ").all isSpace = true := by decide
          exact hrec (List.all_eq_true.1 hspace) nofun

/-- The port that was written is read. -/
lemma parseNumber_decimal {n : ℕ} (hn : n < 65536) (rest : Text) :
    parseNumber (32 :: (decimal n ++ 44 :: rest)) = n := by
  have hskip : skipSpace (32 :: (decimal n ++ 44 :: rest)) = decimal n ++ 44 :: rest := by
    rw [skipSpace, List.dropWhile_cons_of_pos (by decide)]
    exact skipSpace_decimal n _
  have hdigits : ∀ c ∈ decimal n, decide (isDigit c = true ∨ c = 45) = true := fun c hc => by
    simp [decimal_digits n c hc]
  have hwhile : (decimal n ++ 44 :: rest).takeWhile (fun c => isDigit c ∨ c = 45) = decimal n := by
    rw [List.takeWhile_append_of_pos hdigits]
    simp [show isDigit 44 = false by decide]
  have hlen : (decimal n).length ≤ 31 := (length_decimal_le (k := 4) (by omega)).trans (by omega)
  rw [parseNumber, hskip, hwhile, List.take_of_length_le hlen]
  exact atoi_decimal (by omega)

lemma stringField_found {json key : Text} {rounds outsize : ℕ} {t p : Text} (hplain : Plain t)
    (hsize : t.length < outsize)
    (hfound : findKey rounds json key = some (some (32 :: 34 :: (t ++ 34 :: p)))) :
    stringField rounds json key outsize = some t := by
  have hspace : (ascii " ").all isSpace = true := by decide
  have hparse : parseString outsize (32 :: 34 :: (t ++ 34 :: p)) = some (t, p) := by
    have h := parseString_quoted (List.all_eq_true.1 hspace) hplain hsize p
    have htext : ascii " " ++ quoted t ++ p = 32 :: 34 :: (t ++ 34 :: p) := by
      rw [show ascii " " = [32] by decide]
      simp [quoted]
    rwa [htext] at h
  simp [stringField, hfound, hparse]

lemma length_le_writeAddresses (as : List Text) : as.length ≤ (writeAddresses as).length := by
  induction as with
  | nil => simp
  | cons a as ih =>
      cases as with
      | nil => simp [writeAddresses, quoted]
      | cons b as =>
          rw [writeAddresses]
          · simp only [quoted, List.length_append, List.length_cons] at ih ⊢
            omega
          · exact nofun

/-- A host that was written is read, but for its name. -/
lemma parseHostEntry_hostBody (hc : Clean h) (hf : Fits h) {rounds : ℕ}
    (hr : (hostBody h).length ≤ rounds) :
    parseHostEntry rounds (123 :: (hostBody h ++ [125])) = some { h with name := [] } := by
  have hbody : h.addresses.length + h.subnet.length + 12 ≤ (hostBody h).length := by
    have hlen := length_le_writeAddresses h.addresses
    simp only [hostBody, List.length_append, quoted, List.length_cons]
    have h1 : (ascii "addresses").length = 9 := by decide
    omega
  obtain ⟨haddresses, hport, hsubnet, hvpn⟩ := finds_keys hc [125]
  have hkey : ∀ key, findKey rounds (123 :: (hostBody h ++ [125])) key =
      findKeyLoop key rounds (hostBody h ++ [125]) := fun key => by
    rw [findKey, skipSpace_cons (by decide)]
    rfl
  have hplain : ∀ {t}, t ∈ h.name :: h.subnet :: h.vpnAddress :: h.addresses → Plain t := fun ht =>
    hc.strings _ ht
  have hlist : addressLoop rounds [] (writeAddresses h.addresses ++ 93 :: 44 ::
      (indent ++ quoted (ascii "port") ++ 58 :: afterPort h [125])) = some h.addresses :=
    addressLoop_writeAddresses (fun a ha => hplain (by simp [ha])) hf.addresses
      (by simpa using hf.count) (show Blank [] from nofun) (fun _ => rfl) (by omega) _
  have hskip : skipSpace (afterAddresses h [125]) = 91 :: (writeAddresses h.addresses ++ 93 :: 44 ::
      (indent ++ quoted (ascii "port") ++ 58 :: afterPort h [125])) := by
    rw [afterAddresses, skipSpace, List.dropWhile_cons_of_pos (by decide),
      List.dropWhile_cons_of_neg (by decide)]
  have hs : stringField rounds (123 :: (hostBody h ++ [125])) (ascii "subnet") 64 =
      some h.subnet :=
    stringField_found (hplain (by simp)) hf.subnet
      ((hkey _).trans (hsubnet rounds (by omega)))
  have hv : stringField rounds (123 :: (hostBody h ++ [125])) (ascii "vpn_address") 128 =
      some h.vpnAddress :=
    stringField_found (hplain (by simp)) hf.vpnAddress ((hkey _).trans (hvpn rounds (by omega)))
  have hp : ((h.port : ℤ) % 65536).toNat = h.port := by
    have hlt := hf.port
    omega
  rw [parseHostEntry, hkey, hkey, haddresses rounds (by omega), hport rounds (by omega), hs, hv]
  have hnum : parseNumber (afterPort h [125]) = h.port := parseNumber_decimal hf.port _
  generalize writeAddresses h.addresses ++ 93 :: 44 ::
    (indent ++ quoted (ascii "port") ++ 58 :: afterPort h [125]) = list at hlist hskip
  simp [hskip, hlist, hnum, hp]

/-! ## Objects -/

/-- The object goes on behind a text that does not end it. -/
lemma sliceObject_append {depth next : ℕ} {t : Text} (hd : 0 < depth)
    (ht : braceDepth depth t = some next) (rest : Text) :
    0 < next ∧ sliceObject depth (t ++ rest) =
      (t ++ (sliceObject next rest).1, (sliceObject next rest).2) := by
  induction t generalizing depth with
  | nil =>
      obtain rfl := Option.some.inj ht
      exact ⟨hd, rfl⟩
  | cons c t ih =>
      obtain ⟨depth, rfl⟩ := Nat.exists_eq_add_of_le' (Nat.succ_le_of_lt hd)
      rw [braceDepth] at ht
      rw [List.cons_append, sliceObject]
      split_ifs at ht ⊢ with h1 h2 h3
      · obtain ⟨hnext, heq⟩ := ih (by omega) ht
        exact ⟨hnext, by rw [heq]; rfl⟩
      · obtain ⟨hnext, heq⟩ := ih (by omega) ht
        rw [Nat.add_sub_cancel] at heq
        exact ⟨hnext, by rw [heq]; rfl⟩
      · obtain ⟨hnext, heq⟩ := ih (by omega) ht
        exact ⟨hnext, by rw [heq]; rfl⟩

/-- The braces of a text. -/
def braces (t : Text) : Text := t.filter fun c => c = 123 ∨ c = 125

lemma braceDepth_braces (depth : ℕ) (t : Text) : braceDepth depth (braces t) = braceDepth depth t := by
  induction t generalizing depth with
  | nil => rfl
  | cons c t ih =>
      by_cases hc : c = 123 ∨ c = 125
      · rw [braces, List.filter_cons_of_pos (by simpa using hc), ← braces, braceDepth, braceDepth]
        simp only [ih]
      · have hne := not_or.1 hc
        rw [braces, List.filter_cons_of_neg (by simpa using hc), ← braces, ih, braceDepth,
          if_neg hne.1, if_neg hne.2]

lemma braces_append (t u : Text) : braces (t ++ u) = braces t ++ braces u := List.filter_append ..

lemma braces_quoted (t : Text) : braces (quoted t) = braces t := by
  rw [quoted, List.cons_append, braces, List.filter_cons_of_neg (by decide), ← braces,
    braces_append]
  simp [braces]

lemma braces_decimal (n : ℕ) : braces (decimal n) = [] := by
  refine List.filter_eq_nil_iff.2 fun c hc => ?_
  have hdigit := decimal_digits n c hc
  simp only [decide_eq_true_eq]
  rintro (rfl | rfl)
  · exact absurd hdigit (by decide)
  · exact absurd hdigit (by decide)

lemma braces_writeAddresses (as : List Text) : braces (writeAddresses as) = braces as.flatten := by
  induction as with
  | nil => rfl
  | cons a as ih =>
      rw [List.flatten_cons, braces_append, ← ih]
      cases as with
      | nil =>
          rw [writeAddresses, writeAddresses, braces_quoted]
          exact (List.append_nil _).symm
      | cons b as =>
          rw [writeAddresses, braces_append, braces_append, braces_quoted]
          · rw [show braces (ascii ", ") = [] by decide, List.append_nil]
          · exact nofun

/-- The braces of a host stand in its strings. -/
lemma braces_hostBody (h : Host) :
    braces (hostBody h) = braces (h.addresses.flatten ++ h.subnet ++ h.vpnAddress) := by
  have h1 : braces (ascii "\n      ") = [] := by decide
  have h2 : braces (ascii "addresses") = [] := by decide
  have h3 : braces (ascii ": [") = [] := by decide
  have h4 : braces (ascii "],\n      ") = [] := by decide
  have h5 : braces (ascii "port") = [] := by decide
  have h6 : braces (ascii ": ") = [] := by decide
  have h7 : braces (ascii ",\n      ") = [] := by decide
  have h8 : braces (ascii "subnet") = [] := by decide
  have h9 : braces (ascii "vpn_address") = [] := by decide
  have h10 : braces (ascii "\n    ") = [] := by decide
  simp only [hostBody, braces_append, braces_quoted, braces_writeAddresses, braces_decimal, h1, h2,
    h3, h4, h5, h6, h7, h8, h9, h10, List.nil_append, List.append_nil]

/-- A host is cut out of the text as it was written. -/
lemma sliceObject_hostBody (hc : Clean h) (rest : Text) :
    sliceObject 1 (hostBody h ++ 125 :: rest) = (hostBody h ++ [125], rest) := by
  have hdepth : braceDepth 1 (hostBody h) = some 1 := by
    rw [← braceDepth_braces, braces_hostBody, braceDepth_braces]
    exact hc.braces
  rw [(sliceObject_append (by decide) hdepth _).2]
  simp [sliceObject]

/-! ## The round trip -/

/-- A host with a new name is the first. -/
lemma putHost_new {hosts : List Host} (hnew : ∀ g ∈ hosts, sameIgnoringCase g.name h.name = false)
    (hsize : h.name.length < 64) : putHost hosts h.name { h with name := [] } = h :: hosts := by
  have hnone : hosts.findIdx? (fun g => sameIgnoringCase g.name h.name) = none :=
    List.findIdx?_eq_none_iff.2 hnew
  have hname : h.name.take 63 = h.name := List.take_of_length_le (by omega)
  simp [putHost, hostsDbAdd, hnone, hname]

/-- One round of the loop over the hosts, at a host that was written. -/
lemma hostsLoop_writeHost {blank : Text} (hb : Blank blank) (hc : Clean h) (hf : Fits h)
    {hosts : List Host} (hnew : ∀ g ∈ hosts, sameIgnoringCase g.name h.name = false) {rounds : ℕ}
    (hr : (writeHost h).length ≤ rounds) (tail : Text) :
    hostsLoop (rounds + 1) hosts (blank ++ writeHost h ++ tail) =
      hostsLoop rounds (h :: hosts)
        (if (skipSpace tail).head? = some 44 then (skipSpace tail).tail else skipSpace tail) := by
  have hbody : (hostBody h).length ≤ rounds := by
    refine le_trans ?_ hr
    simp only [writeHost, List.length_append]
    omega
  have hspaces : (ascii "    ").all isSpace = true := by decide
  have htext : writeHost h ++ tail =
      ascii "    " ++ (34 :: (h.name ++ 34 :: 58 :: 32 :: 123 :: (hostBody h ++ 125 :: tail))) := by
    rw [writeHost, show ascii ": \x7b" = [58, 32, 123] by decide,
      show ascii "\x7d" = [125] by decide]
    simp only [quoted, List.append_assoc, List.cons_append, List.nil_append]
  have hskip : skipSpace (blank ++ writeHost h ++ tail) =
      34 :: (h.name ++ 34 :: 58 :: 32 :: 123 :: (hostBody h ++ 125 :: tail)) := by
    rw [List.append_assoc, skipSpace_blank hb, htext,
      skipSpace_blank (List.all_eq_true.1 hspaces), skipSpace_cons (by decide)]
  have hname : parseString 64
      (34 :: (h.name ++ 34 :: 58 :: 32 :: 123 :: (hostBody h ++ 125 :: tail))) =
      some (h.name, 58 :: 32 :: 123 :: (hostBody h ++ 125 :: tail)) := by
    have h := parseString_quoted (show Blank [] from nofun) (hc.strings h.name (by simp)) hf.name
      (58 :: 32 :: 123 :: (hostBody h ++ 125 :: tail))
    simpa only [quoted, List.nil_append, List.cons_append, List.append_assoc] using h
  have hne : blank ++ writeHost h ++ tail ≠ [] := by
    intro heq
    rw [heq] at hskip
    exact absurd hskip (by simp [skipSpace])
  have hcolon : skipSpace (58 :: 32 :: 123 :: (hostBody h ++ 125 :: tail)) =
      58 :: 32 :: 123 :: (hostBody h ++ 125 :: tail) := skipSpace_cons (by decide) _
  have hbrace : skipSpace (32 :: 123 :: (hostBody h ++ 125 :: tail)) =
      123 :: (hostBody h ++ 125 :: tail) := by
    rw [skipSpace, List.dropWhile_cons_of_pos (by decide), List.dropWhile_cons_of_neg (by decide)]
  rw [hostsLoop, if_neg hne, hskip]
  dsimp only
  rw [if_neg (by decide), if_neg (by decide), hname]
  dsimp only
  rw [if_neg hc.name, hcolon]
  dsimp only
  rw [if_neg (by decide), hbrace]
  dsimp only
  rw [if_neg (by decide), sliceObject_hostBody hc, parseHostEntry_hostBody hc hf hbody]
  dsimp only
  rw [putHost_new hnew hf.name]

/-- The loop ends at the brace behind the hosts. -/
lemma hostsLoop_end {blank : Text} (hb : Blank blank) (hosts : List Host) (rounds : ℕ) (rest : Text) :
    hostsLoop (rounds + 1) hosts (blank ++ 125 :: rest) = some hosts := by
  have hskip : skipSpace (blank ++ 125 :: rest) = 125 :: rest := by
    rw [skipSpace_blank hb, skipSpace_cons (by decide)]
  rw [hostsLoop, if_neg (by simp), hskip]
  rfl

/-- The hosts that were written are read, the last of them first. -/
lemma hostsLoop_writeHosts {hosts acc : List Host} (hclean : ∀ h ∈ hosts, Clean h)
    (hfits : ∀ h ∈ hosts, Fits h)
    (hnames : hosts.Pairwise fun g h => sameIgnoringCase g.name h.name = false)
    (hnew : ∀ g ∈ acc, ∀ h ∈ hosts, sameIgnoringCase g.name h.name = false)
    {blank blank' : Text} (hb : Blank blank) (hb' : Blank blank') {rounds : ℕ}
    (hr : (writeHosts hosts).length < rounds) (rest : Text) :
    hostsLoop rounds acc (blank ++ writeHosts hosts ++ (blank' ++ 125 :: rest)) =
      some (hosts.reverse ++ acc) := by
  induction hosts generalizing acc blank rounds with
  | nil =>
      obtain ⟨rounds, rfl⟩ := Nat.exists_eq_add_of_le' (Nat.succ_le_of_lt hr)
      have hblank : Blank (blank ++ blank') := fun c hc =>
        (List.mem_append.1 hc).elim (hb c) (hb' c)
      have hend := hostsLoop_end hblank acc rounds rest
      simpa [writeHosts] using hend
  | cons h hosts ih =>
      obtain ⟨rounds, rfl⟩ := Nat.exists_eq_add_of_le' (by omega : 1 ≤ rounds)
      obtain ⟨hfirst, hnames⟩ := List.pairwise_cons.1 hnames
      have hacc : ∀ g ∈ h :: acc, ∀ h' ∈ hosts, sameIgnoringCase g.name h'.name = false := by
        intro g hg h' hh'
        rcases List.mem_cons.1 hg with rfl | hg
        · exact hfirst h' hh'
        · exact hnew g hg h' (List.mem_cons_of_mem _ hh')
      have hone : (writeHost h).length ≤ rounds → ∀ tail,
          hostsLoop (rounds + 1) acc (blank ++ writeHost h ++ tail) = hostsLoop rounds (h :: acc)
            (if (skipSpace tail).head? = some 44 then (skipSpace tail).tail else skipSpace tail) :=
        hostsLoop_writeHost hb (hclean h List.mem_cons_self) (hfits h List.mem_cons_self)
          fun g hg => hnew g hg h List.mem_cons_self
      have hrec : ∀ {blank : Text}, Blank blank → (writeHosts hosts).length < rounds →
          hostsLoop rounds (h :: acc) (blank ++ writeHosts hosts ++ (blank' ++ 125 :: rest)) =
            some ((h :: hosts).reverse ++ acc) := by
        intro blank hb hr
        rw [ih (fun h hh => hclean h (List.mem_cons_of_mem _ hh))
          (fun h hh => hfits h (List.mem_cons_of_mem _ hh)) hnames hacc hb hr]
        simp
      cases hosts with
      | nil =>
          rw [writeHosts] at hr ⊢
          have hpos : 0 < rounds := by
            simp only [writeHost, quoted, List.length_append, List.length_cons] at hr
            omega
          obtain ⟨m, rfl⟩ := Nat.exists_eq_add_of_le' (Nat.succ_le_of_lt hpos)
          rw [hone (by omega), skipSpace_blank hb', skipSpace_cons (by decide)]
          exact hostsLoop_end (show Blank [] from nofun) (h :: acc) m rest
      | cons g hosts =>
          have htext : writeHosts (h :: g :: hosts) = writeHost h ++ 44 :: (ascii "\n" ++
              writeHosts (g :: hosts)) := by
            rw [writeHosts, show ascii ",\n" = 44 :: ascii "\n" by decide]
            · simp only [List.append_assoc, List.cons_append]
            · exact nofun
          rw [htext] at hr ⊢
          simp only [List.length_append, List.length_cons] at hr
          have hbreak : (ascii "\n").all isSpace = true := by decide
          have hsplit : blank ++ (writeHost h ++ 44 :: (ascii "\n" ++ writeHosts (g :: hosts))) ++
              (blank' ++ 125 :: rest) = blank ++ writeHost h ++
              44 :: (ascii "\n" ++ writeHosts (g :: hosts) ++ (blank' ++ 125 :: rest)) := by
            simp only [List.append_assoc, List.cons_append]
          rw [hsplit, hone (by omega), skipSpace_cons (by decide)]
          exact hrec (List.all_eq_true.1 hbreak) (by omega)

/-! ### The databases fit -/

lemma Fits.new (name : Text) : Fits { name := name.take 63 } where
  name := by simp
  count := by simp
  addresses := nofun
  port := by simp
  subnet := by simp
  vpnAddress := by simp

lemma Fits.addAddress (hf : Fits h) (address : Text) : Fits (h.addAddress address) := by
  unfold Host.addAddress
  split
  · exact hf
  · rename_i hcond
    exact { hf with
      count := by
        simp only [List.length_append, List.length_singleton]
        omega
      addresses := by
        intro a ha
        rcases List.mem_append.1 ha with ha | ha
        · exact hf.addresses a ha
        · rw [List.mem_singleton.1 ha, List.length_take]
          omega }

lemma Fits.setVpnAddress (hf : Fits h) (vpnAddress : Text) (prefixLength : ℤ) :
    Fits (h.setVpnAddress vpnAddress prefixLength) :=
  { hf with
    subnet := by
      simp only [Host.setVpnAddress, List.length_take]
      omega
    vpnAddress := by
      simp only [Host.setVpnAddress, List.length_take]
      omega }

lemma Fits.invitePort (hf : Fits h) (port : Option Text) : Fits (h.invitePort port) := by
  cases port with
  | none => exact hf
  | some port =>
      unfold Host.invitePort
      dsimp only
      split
      · exact hf
      · exact { hf with port := by simp only; omega }

lemma Fits.inviteVpn (hf : Fits h) (vpn subnet : Text) : Fits (h.inviteVpn vpn subnet) := by
  unfold Host.inviteVpn
  split
  · exact hf.setVpnAddress _ _
  split
  · exact { hf with
      subnet := by
        simp only [List.length_take]
        omega }
  · exact hf

lemma Fits.addAddresses (hf : Fits h) (addresses : List Text) :
    Fits (addresses.foldl Host.addAddress h) := by
  induction addresses generalizing h with
  | nil => exact hf
  | cons a as ih => exact ih (hf.addAddress a)

lemma fits_modify {hosts : List Host} (hall : ∀ h ∈ hosts, Fits h) (i : ℕ) {change : Host → Host}
    (hchange : ∀ h, Fits h → Fits (change h)) : ∀ h ∈ hosts.modify i change, Fits h := by
  induction hosts generalizing i with
  | nil => simp
  | cons g hosts ih =>
      obtain ⟨hg, hall⟩ := List.forall_mem_cons.1 hall
      cases i with
      | zero => simpa using ⟨hchange g hg, hall⟩
      | succ i => simpa using ⟨hg, ih hall i⟩

lemma fits_hostsDbAdd {hosts : List Host} (hall : ∀ h ∈ hosts, Fits h) (name : Text) :
    ∀ h ∈ (hostsDbAdd hosts name).1, Fits h := by
  unfold hostsDbAdd
  split
  · exact hall
  · exact List.forall_mem_cons.2 ⟨Fits.new name, hall⟩

/-- Each function cuts what it stores. -/
lemma Built.fits {hosts : List Host} (hb : Built hosts) : ∀ h ∈ hosts, Fits h := by
  induction hb with
  | empty => exact nofun
  | add name _ ih => exact fits_hostsDbAdd ih name
  | addAddress i address _ ih => exact fits_modify ih i fun h hf => hf.addAddress address
  | setVpnAddress i vpnAddress prefixLength _ ih =>
      exact fits_modify ih i fun h hf => hf.setVpnAddress vpnAddress prefixLength
  | invite entry _ ih =>
      unfold parseHostFromInvite
      dsimp only
      split
      · exact ih
      · exact fits_modify (fits_hostsDbAdd ih _) _ fun h hf =>
          ((hf.invitePort _).inviteVpn _ _).addAddresses _

/-- **A database of clean hosts with different names comes back.** -/
theorem hosts_json_round_trip {hosts : List Host} (hb : Built hosts)
    (hclean : ∀ h ∈ hosts, Clean h)
    (hnames : hosts.Pairwise fun g h => sameIgnoringCase g.name h.name = false) {rounds : ℕ}
    (hr : (hostsDbSave hosts).length ≤ rounds) :
    ∃ loaded, parseHostsJson rounds (hostsDbSave hosts) = some (loaded, true) ∧
      ∀ h, h ∈ loaded ↔ h ∈ hosts := by
  refine ⟨hosts.reverse, ?_, fun h => List.mem_reverse⟩
  have hstart : (ascii "\n  ").all isSpace = true := by decide
  have htext : hostsDbSave hosts = 123 :: (ascii "\n  " ++ quoted (ascii "nodes") ++
      58 :: 32 :: 123 :: (ascii "\n" ++ writeHosts hosts ++
        (ascii "\n  " ++ 125 :: ascii "\n\x7d\n"))) := by
    rw [hostsDbSave, show ascii "\x7b\n  " = 123 :: ascii "\n  " by decide,
      show ascii ": \x7b\n" = 58 :: 32 :: 123 :: ascii "\n" by decide,
      show ascii "\n  \x7d\n\x7d\n" = ascii "\n  " ++ 125 :: ascii "\n\x7d\n" by decide]
    simp only [List.append_assoc, List.cons_append]
  have hlen : (writeHosts hosts).length < rounds := by
    refine lt_of_lt_of_le ?_ hr
    rw [htext]
    simp only [List.length_append, List.length_cons]
    omega
  have hkey : findKey rounds (hostsDbSave hosts) (ascii "nodes") = some (some (32 :: 123 ::
      (ascii "\n" ++ writeHosts hosts ++ (ascii "\n  " ++ 125 :: ascii "\n\x7d\n")))) := by
    rw [findKey, htext, skipSpace_cons (by decide)]
    exact Finds.here (List.all_eq_true.1 hstart) (by decide) (by decide) rounds (by omega)
  have hbrace : ∀ t, skipSpace (32 :: 123 :: t) = 123 :: t := fun t => by
    rw [skipSpace, List.dropWhile_cons_of_pos (by decide), List.dropWhile_cons_of_neg (by decide)]
  have hbreak : (ascii "\n").all isSpace = true := by decide
  have hloop : hostsLoop rounds [] (ascii "\n" ++ writeHosts hosts ++ (ascii "\n  " ++
      125 :: ascii "\n\x7d\n")) = some (hosts.reverse ++ []) :=
    hostsLoop_writeHosts hclean hb.fits hnames (fun _ hg => absurd hg List.not_mem_nil)
      (List.all_eq_true.1 hbreak) (List.all_eq_true.1 hstart) hlen _
  rw [parseHostsJson, hkey]
  simp only [hbrace, hloop, List.append_nil, ne_eq, not_true_eq_false, if_false, Option.map_some]

instance (h : Host) : Decidable (Clean h) :=
  decidable_of_iff (h.name ≠ [] ∧
      (∀ t ∈ h.name :: h.subnet :: h.vpnAddress :: h.addresses, Plain t) ∧
      braceDepth 1 (h.addresses.flatten ++ h.subnet ++ h.vpnAddress) = some 1 ∧
      skipDepth 1 (writeAddresses h.addresses) = some 1 ∧ resumes 0 h.subnet = true)
    ⟨fun ⟨h1, h2, h3, h4, h5⟩ => ⟨h1, h2, h3, h4, h5⟩,
      fun hc => ⟨hc.name, hc.strings, hc.braces, hc.list, hc.value⟩⟩

/-- Two hosts, one with an IPv6 address in brackets. -/
def twoHosts : List Host :=
  parseHostFromInvite (parseHostFromInvite [] (ascii "b|192.0.2.1;[2001:db8::1]|655|10.9.0.2|"))
    (ascii "c|198.51.100.7||10.9.0.3|10.9.0.0/24")

theorem hosts_json_round_trip_two : twoHosts.length = 2 ∧
    ∃ loaded, parseHostsJson 500 (hostsDbSave twoHosts) = some (loaded, true) ∧
      ∀ h, h ∈ loaded ↔ h ∈ twoHosts :=
  ⟨by decide +kernel,
    hosts_json_round_trip (.invite _ (.invite _ .empty)) (by decide +kernel) (by decide +kernel)
      (by decide +kernel)⟩

/-! ## More rounds -/

/-- `y` has the result of `x`, if there is one. -/
def Keeps {α : Type} (x y : Option α) : Prop := ∀ a, x = some a → y = some a

lemma Keeps.refl {α : Type} (x : Option α) : Keeps x x := fun _ h => h

lemma Keeps.bind {α β : Type} {x y : Option α} {f g : α → Option β} (hxy : Keeps x y)
    (hfg : ∀ a, Keeps (f a) (g a)) : Keeps (x.bind f) (y.bind g) := by
  intro b hb
  obtain ⟨a, ha, hb⟩ := Option.bind_eq_some_iff.1 hb
  rw [hxy a ha]
  exact hfg a b hb

lemma Keeps.map {α β : Type} {x y : Option α} (hxy : Keeps x y) (f : α → β) :
    Keeps (x.map f) (y.map f) := by
  intro b hb
  obtain ⟨a, ha, rfl⟩ := Option.map_eq_some_iff.1 hb
  rw [hxy a ha]
  rfl

lemma findKeyLoop_succ (key : Text) (n : ℕ) (p : Text) :
    Keeps (findKeyLoop key n p) (findKeyLoop key (n + 1) p) := by
  induction n generalizing p with
  | zero => exact nofun
  | succ n ih =>
      rw [findKeyLoop, findKeyLoop]
      split
      · exact .refl _
      split
      · exact .refl _
      split
      · split
        · exact .refl _
        dsimp only
        split
        · split
          · exact .refl _
          · exact ih _
        · exact ih _
      · exact ih _

lemma addressLoop_succ (n : ℕ) (acc : List Text) (p : Text) :
    Keeps (addressLoop n acc p) (addressLoop (n + 1) acc p) := by
  induction n generalizing acc p with
  | zero => exact nofun
  | succ n ih =>
      rw [addressLoop, addressLoop]
      split
      · exact .refl _
      · exact ih _ _

lemma parseHostEntry_succ (n : ℕ) (p : Text) :
    Keeps (parseHostEntry n p) (parseHostEntry (n + 1) p) := by
  have hkey : ∀ key, Keeps (findKey n p key) (findKey (n + 1) p key) := fun key =>
    findKeyLoop_succ key n _
  refine (hkey _).bind fun found => ?_
  split
  · split
    · exact (addressLoop_succ n [] _).bind fun _ => (hkey _).bind fun _ =>
        ((hkey _).map _).bind fun _ => ((hkey _).map _).bind fun _ => .refl _
    · exact (hkey _).bind fun _ =>
        ((hkey _).map _).bind fun _ => ((hkey _).map _).bind fun _ => .refl _
  · exact (hkey _).bind fun _ =>
      ((hkey _).map _).bind fun _ => ((hkey _).map _).bind fun _ => .refl _

lemma hostsLoop_succ (n : ℕ) (hosts : List Host) (p : Text) :
    Keeps (hostsLoop n hosts p) (hostsLoop (n + 1) hosts p) := by
  induction n generalizing hosts p with
  | zero => exact nofun
  | succ n ih =>
      rw [hostsLoop, hostsLoop]
      split
      · exact .refl _
      split
      · exact .refl _
      split
      · exact .refl _
      split
      · exact ih _ _
      split
      · exact .refl _
      split
      · exact ih _ _
      split
      · exact ih _ _
      split
      · exact ih _ _
      split
      · exact ih _ _
      split
      · exact ih _ _
      -- here a host is parsed, with one round more too
      intro r hr
      split at hr
      · exact absurd hr nofun
      · rename_i host hhost
        rw [parseHostEntry_succ n _ host hhost]
        exact ih _ _ r hr

/-- With more rounds the parser comes to the same result. -/
lemma parseHostsJson_mono {n m : ℕ} (hle : n ≤ m) (json : Text) :
    Keeps (parseHostsJson n json) (parseHostsJson m json) := by
  induction hle with
  | refl => exact .refl _
  | step _ ih =>
      rename_i m _
      refine fun r hr => ?_ 
      have hstep : Keeps (parseHostsJson m json) (parseHostsJson (m + 1) json) := by
        have hbind : ∀ n, parseHostsJson n json = (findKey n json (ascii "nodes")).bind fun found =>
            match found with
            | none => some ([], true)
            | some p =>
                match skipSpace p with
                | [] => some ([], false)
                | c :: p => if c ≠ 123 then some ([], false) else (hostsLoop n [] p).map (·, true) :=
          fun n => by
            unfold parseHostsJson
            rcases findKey n json (ascii "nodes") with _ | _ | _ <;> rfl
        rw [hbind, hbind]
        refine Keeps.bind (findKeyLoop_succ _ m _) fun found => ?_
        split
        · exact .refl _
        split
        · exact .refl _
        split
        · exact .refl _
        · exact (hostsLoop_succ m [] _).map _
      exact hstep r (ih r hr)

lemma parseHostsJson_unique {n m : ℕ} {json : Text} {r s : List Host × Bool}
    (hr : parseHostsJson n json = some r) (hs : parseHostsJson m json = some s) : r = s := by
  rcases Nat.le_total n m with hle | hle
  · have h := parseHostsJson_mono hle json r hr
    exact Option.some.inj (h.symm.trans hs)
  · have h := parseHostsJson_mono hle json s hs
    exact Option.some.inj (hr.symm.trans h)

/-- A host with a backslash in its address. -/
def backslashHosts : List Host := parseHostFromInvite [] (ascii "b|a\\b|655|10.9.0.2|10.9.0.0/24")

/-- It comes back without the backslash. -/
theorem hosts_json_loses_backslash : Built backslashHosts ∧
    ¬ ∃ rounds loaded, parseHostsJson rounds (hostsDbSave backslashHosts) = some (loaded, true) ∧
      ∀ h, h ∈ loaded ↔ h ∈ backslashHosts := by
  refine ⟨.invite _ .empty, ?_⟩
  rintro ⟨rounds, loaded, hloaded, hsame⟩
  have hread : parseHostsJson 200 (hostsDbSave backslashHosts) =
      some ([⟨ascii "b", [ascii "ab"], 655, ascii "10.9.0.2/24", ascii "10.9.0.2"⟩], true) := by
    decide +kernel
  obtain ⟨rfl, -⟩ := Prod.mk.inj (parseHostsJson_unique hloaded hread)
  have hmem := (hsame _).1 (List.mem_singleton_self _)
  exact absurd hmem (by decide +kernel)

end Tinc
