import TincQuic.Invite.HostsJson
import TincQuic.Lib.Loop

/-!
# Where the parser of `hosts.json` hangs

The loops of the parser advance their cursor under conditions of their own, and three of them leave
a case out.

* `find_key` passes over a value up to the bracket that ends it.  A `]` that closes nothing it does
  not pass over, and finds itself where it was: `AtBracket`.
* The loop over the addresses passes over strings and commas.  At anything else it stays: `AtOther`.
* The loop over the hosts steps over what is no string, also over the end of the text: `AtBlank`.

**The parser ends and stays in the text exactly if no cursor comes to such a place**:
`hosts_json_ends_iff`.
-/

namespace Tinc

open Bytes CText

/-! ## Cursors move on -/

lemma length_skipSpace_le (p : Text) : (skipSpace p).length ≤ p.length :=
  (List.dropWhile_suffix _).length_le

lemma skipSpace_idem (p : Text) : skipSpace (skipSpace p) = skipSpace p := by
  induction p with
  | nil => rfl
  | cons c p ih =>
      by_cases hc : isSpace c = true
      · have hskip : skipSpace (c :: p) = skipSpace p := List.dropWhile_cons_of_pos hc
        rw [hskip, ih]
      · have hskip := skipSpace_cons (Bool.eq_false_iff.mpr hc) p
        rw [hskip, hskip]

lemma length_stringLoop_le (room : ℕ) (p : Text) : (stringLoop room p).2.length ≤ p.length := by
  induction room generalizing p with
  | zero => exact le_rfl
  | succ room ih =>
      cases p with
      | nil => exact le_rfl
      | cons c p =>
          rw [stringLoop.eq_def]
          dsimp only
          split_ifs
          · exact le_rfl
          · cases p with
            | nil => simp
            | cons e p => exact (ih p).trans (by simp only [List.length_cons]; omega)
          · exact (ih p).trans (by simp)

/-- A string has a quote at least. -/
lemma length_parseString_lt {size : ℕ} {p out rest : Text}
    (h : parseString size p = some (out, rest)) : rest.length < (skipSpace p).length := by
  unfold parseString at h
  split at h
  · cases h
  · rename_i c t hp
    split at h
    · cases h
    · obtain ⟨-, rfl⟩ := Prod.mk.inj (Option.some.inj h)
      have hloop := length_stringLoop_le (size - 1) t
      rw [hp, List.length_cons]
      split
      · rw [List.length_tail]
        omega
      · omega

/-- There is a string exactly at a quote. -/
lemma parseString_isSome_iff (size : ℕ) {p : Text} :
    (parseString size p).isSome ↔ (skipSpace p).head? = some 34 := by
  unfold parseString
  split
  · rename_i hp
    simp [hp]
  · rename_i c t hp
    rw [hp]
    by_cases hc : c = 34
    · simp [hc]
    · simp [hc]

lemma length_skipValue_le (depth : ℕ) (p : Text) : (skipValue depth p).length ≤ p.length := by
  induction p generalizing depth with
  | nil => exact le_rfl
  | cons c p ih =>
      have hle := fun depth => (ih depth).trans (Nat.le_succ p.length)
      rw [skipValue]
      split_ifs
      · exact hle _
      · exact le_rfl
      · exact hle _
      · exact Nat.le_succ _
      · exact hle _

/-- What is passed over is not empty, unless it is the end of something else. -/
lemma length_skipValue_lt {c : UInt8} (h : ¬ (c = 125 ∨ c = 93)) (p : Text) :
    (skipValue 0 (c :: p)).length < (c :: p).length := by
  have hle := fun depth => Nat.lt_succ_of_le (length_skipValue_le depth p)
  rw [skipValue]
  split_ifs
  · exact hle _
  · exact Nat.lt_succ_self _
  · exact hle _

/-! ## Keys -/

/-- One round of `find_key`: its result, or where its cursor goes. -/
def keyRound (key p : Text) : Option Text ⊕ Text :=
  match skipSpace p with
  | [] => .inl none
  | c :: t =>
      if c = 125 then .inl none
      else if c = 34 then
        match parseString 128 (c :: t) with
        | none => .inl none
        | some (buf, next) =>
            let p := skipSpace next
            if p.head? = some 58 then
              if buf = key then .inl (some p.tail) else .inr (skipValue 0 p.tail)
            else .inr (skipValue 0 p)
      else .inr (skipValue 0 (c :: t))

lemma findKeyLoop_eq_run (key : Text) (rounds : ℕ) (p : Text) :
    findKeyLoop key rounds p = Loop.run (keyRound key) rounds p := by
  induction rounds generalizing p with
  | zero => rfl
  | succ rounds ih =>
      rw [Loop.run, findKeyLoop, keyRound]
      cases hp : skipSpace p with
      | nil => rfl
      | cons c t =>
          dsimp only
          by_cases hbrace : c = 125
          · simp only [hbrace, if_true]
          · by_cases hquote : c = 34
            · rw [if_neg hbrace, if_neg hbrace, if_pos hquote, if_pos hquote]
              cases hstring : parseString 128 (c :: t) with
              | none => rfl
              | some r =>
                  dsimp only
                  by_cases hcolon : (skipSpace r.2).head? = some 58
                  · by_cases hkey : r.1 = key
                    · simp only [hcolon, hkey, if_true]
                    · simp only [hcolon, hkey, if_true, if_false, ih]
                  · simp only [hcolon, if_false, ih]
            · simp only [hbrace, hquote, if_false, ih]

/-- Where `find_key` begins. -/
def keyStart (json : Text) : Text :=
  let p := skipSpace json
  if p.head? = some 123 then p.tail else p

/-- The cursor is at a `]` that closes nothing. -/
def AtBracket (p : Text) : Prop := (skipSpace p).head? = some 93

/-- The search for a key comes to no such place. -/
def KeyFree (json key : Text) : Prop :=
  ∀ p, Loop.Comes (keyRound key) (keyStart json) p → ¬ AtBracket p

/-- The search for a key comes to the key, and `p` is what follows. -/
def KeyFound (json key p : Text) : Prop :=
  ∃ q, Loop.Comes (keyRound key) (keyStart json) q ∧ keyRound key q = .inl (some p)

variable {key json p q : Text} {rounds : ℕ}

/-- A bracket is not passed over. -/
lemma keyRound_bracket (p : Text) (h : AtBracket p) :
    ∃ q, keyRound key p = .inr q ∧ AtBracket q := by
  unfold AtBracket at h
  obtain ⟨t, ht⟩ : ∃ t, skipSpace p = 93 :: t := by
    cases hp : skipSpace p with
    | nil =>
        rw [hp] at h
        cases h
    | cons c t =>
        rw [hp] at h
        obtain rfl := Option.some.inj h
        exact ⟨t, rfl⟩
  have hvalue : skipValue 0 (93 :: t) = 93 :: t := rfl
  refine ⟨93 :: t, ?_, ?_⟩
  · unfold keyRound
    rw [ht]
    simp [hvalue]
  · unfold AtBracket
    rw [skipSpace_cons (by decide)]
    rfl

/-- Everything else is. -/
lemma length_keyRound_lt (p q : Text) (h : ¬ AtBracket p) (hround : keyRound key p = .inr q) :
    q.length < p.length := by
  unfold AtBracket at h
  unfold keyRound at hround
  have hskip := length_skipSpace_le p
  split at hround
  · cases hround
  · rename_i c t hp
    rw [hp] at h hskip
    split_ifs at hround with hbrace hquote
    · split at hround
      · cases hround
      · rename_i buf next hstring
        have hlt := length_parseString_lt hstring
        have hlt' := hlt.trans_le (length_skipSpace_le _)
        have hnext := length_skipSpace_le next
        dsimp only at hround
        split_ifs at hround
        · obtain rfl := Sum.inr.inj hround
          have hle := length_skipValue_le 0 (skipSpace next).tail
          rw [List.length_tail] at hle
          omega
        · obtain rfl := Sum.inr.inj hround
          have hle := length_skipValue_le 0 (skipSpace next)
          omega
    · obtain rfl := Sum.inr.inj hround
      have hne : ¬ (c = 125 ∨ c = 93) := by
        rintro (hc | hc)
        · exact hbrace hc
        · exact h (by rw [hc]; rfl)
      exact (length_skipValue_lt hne t).trans_le hskip

lemma length_keyRound_le (p q : Text) (hround : keyRound key p = .inr q) :
    q.length ≤ p.length := by
  by_cases h : AtBracket p
  · unfold AtBracket at h
    unfold keyRound at hround
    have hskip := length_skipSpace_le p
    cases hp : skipSpace p with
    | nil =>
        rw [hp] at h
        cases h
    | cons c t =>
        rw [hp] at h hround hskip
        obtain rfl := Option.some.inj h
        have hle := length_skipValue_le 0 (93 :: t)
        simp only [(by decide : ¬ (93 : UInt8) = 125), (by decide : ¬ (93 : UInt8) = 34),
          if_false] at hround
        obtain rfl := Sum.inr.inj hround
        omega
  · exact (length_keyRound_lt p q h hround).le

lemma length_keyStart_le (json : Text) : (keyStart json).length ≤ json.length := by
  have hskip := length_skipSpace_le json
  unfold keyStart
  dsimp only
  split
  · rw [List.length_tail]
    omega
  · exact hskip

/-- What follows a key is a part of the text. -/
lemma KeyFound.length_le (h : KeyFound json key p) : p.length ≤ json.length := by
  obtain ⟨q, hcomes, hround⟩ := h
  have hq := hcomes.size_le length_keyRound_le
  have hstart := length_keyStart_le json
  have hskip := length_skipSpace_le q
  unfold keyRound at hround
  split at hround
  · cases hround
  · rename_i c t hp
    rw [hp] at hskip
    split at hround
    · cases hround
    split at hround
    swap
    · cases hround
    split at hround
    · cases hround
    · rename_i buf next hstring
      have hlt := (length_parseString_lt hstring).trans_le (length_skipSpace_le _)
      have hnext := length_skipSpace_le next
      dsimp only at hround
      split_ifs at hround
      obtain rfl := Option.some.inj (Sum.inl.inj hround)
      rw [List.length_tail]
      omega

lemma findKey_eq_run (rounds : ℕ) (json key : Text) :
    findKey rounds json key = Loop.run (keyRound key) rounds (keyStart json) :=
  findKeyLoop_eq_run key rounds _

/-- The search ends if it comes to no bracket, and only then. -/
lemma keyFree_of_findKey {found : Option Text} (h : findKey rounds json key = some found) :
    KeyFree json key := by
  intro p hcomes hheld
  rw [findKey_eq_run, Loop.run_eq_none keyRound_bracket hcomes hheld] at h
  cases h

lemma KeyFree.findKey (h : KeyFree json key) (hrounds : json.length < rounds) :
    ∃ found, findKey rounds json key = some found := by
  rw [findKey_eq_run]
  refine Option.isSome_iff_exists.mp (Loop.isSome_run length_keyRound_lt h ?_)
  exact (length_keyStart_le json).trans_lt hrounds

/-- It finds what there is to find. -/
lemma KeyFound.findKey {found : Option Text} (h : KeyFound json key p)
    (hfind : findKey rounds json key = some found) : found = some p := by
  obtain ⟨q, hcomes, hround⟩ := h
  rw [findKey_eq_run] at hfind
  exact hcomes.result hround hfind

lemma keyFound_of_findKey (h : findKey rounds json key = some (some p)) : KeyFound json key p := by
  rw [findKey_eq_run] at h
  exact Loop.comes_of_run h

/-! ## Addresses -/

/-- One round of the loop over the addresses. -/
def addressRound (s : List Text × Text) : List Text ⊕ (List Text × Text) :=
  if s.2 = [] ∨ s.2.head? = some 93 ∨ 8 ≤ s.1.length then .inl s.1
  else
    let (addresses, p) :=
      match parseString 128 s.2 with
      | some (address, rest) => (s.1 ++ [address], rest)
      | none => (s.1, skipSpace s.2)
    let p := skipSpace p
    .inr (addresses, if p.head? = some 44 then p.tail else p)

lemma addressLoop_eq_run (rounds : ℕ) (addresses : List Text) (p : Text) :
    addressLoop rounds addresses p = Loop.run addressRound rounds (addresses, p) := by
  induction rounds generalizing addresses p with
  | zero => rfl
  | succ rounds ih =>
      rw [Loop.run, addressLoop, addressRound]
      dsimp only
      by_cases hend : p = [] ∨ p.head? = some 93 ∨ 8 ≤ addresses.length
      · rw [if_pos hend, if_pos hend]
      · rw [if_neg hend, if_neg hend]
        exact ih _ _

/-- The cursor is at something that is no string, no comma and not the end. -/
def AtOther (s : List Text × Text) : Prop :=
  s.1.length < 8 ∧ ∃ c ∈ (skipSpace s.2).head?, c ≠ 34 ∧ c ≠ 44 ∧ c ≠ 93

/-- It is not passed over. -/
lemma addressRound_other (s : List Text × Text) (h : AtOther s) :
    ∃ s', addressRound s = .inr s' ∧ AtOther s' := by
  obtain ⟨hlen, c, hc, hquote, hcomma, hbracket⟩ := h
  have hp : skipSpace s.2 ≠ [] := by
    intro hnil
    rw [hnil] at hc
    cases hc
  have hstring : parseString 128 s.2 = none := by
    rw [← Option.not_isSome_iff_eq_none, parseString_isSome_iff, hc]
    exact fun h => hquote (Option.some.inj h)
  have hend : ¬ (s.2 = [] ∨ s.2.head? = some 93 ∨ 8 ≤ s.1.length) := by
    rintro (hnil | hhead | hfull)
    · exact hp (by rw [hnil]; rfl)
    · -- a bracket is no white space
      cases hs : s.2 with
      | nil =>
          rw [hs] at hhead
          cases hhead
      | cons d t =>
          rw [hs] at hhead hc
          obtain rfl := Option.some.inj hhead
          rw [skipSpace_cons (by decide)] at hc
          exact hbracket (Option.some.inj hc).symm
    · omega
  refine ⟨(s.1, skipSpace s.2), ?_, hlen, c, by rwa [skipSpace_idem], hquote, hcomma, hbracket⟩
  rw [addressRound, if_neg hend, hstring]
  dsimp only
  rw [skipSpace_idem, if_neg]
  rw [hc]
  exact fun h => hcomma (Option.some.inj h)

/-- White space in front makes a text longer. -/
lemma length_skipSpace_lt (h : skipSpace p ≠ p) : (skipSpace p).length < p.length :=
  lt_of_le_of_ne (length_skipSpace_le p) fun hlength =>
    h ((List.dropWhile_suffix _).eq_of_length hlength)

/-- Everything else is. -/
lemma length_addressRound_lt (s s' : List Text × Text) (h : ¬ AtOther s)
    (hround : addressRound s = .inr s') : s'.2.length < s.2.length := by
  unfold addressRound at hround
  split at hround
  · cases hround
  · rename_i hend
    rw [not_or, not_or] at hend
    obtain ⟨hnil, hbracket, hfull⟩ := hend
    obtain rfl := Sum.inr.inj hround
    dsimp only
    -- behind a string the cursor is further on
    have hnext : ∀ q : Text, q.length < s.2.length →
        (if (skipSpace q).head? = some 44 then (skipSpace q).tail else skipSpace q).length <
          s.2.length := by
      intro q hq
      have hskip := length_skipSpace_le q
      split
      · rw [List.length_tail]
        omega
      · omega
    cases hstring : parseString 128 s.2 with
    | some r =>
        exact hnext r.2 ((length_parseString_lt hstring).trans_le (length_skipSpace_le _))
    | none =>
        dsimp only
        have hskip := length_skipSpace_le s.2
        rw [skipSpace_idem]
        cases hp : skipSpace s.2 with
        | nil => exact List.length_pos_iff.mpr hnil
        | cons c t =>
            by_cases hcomma : c = 44
            · rw [hp, List.length_cons] at hskip
              simp only [hcomma, List.head?_cons, if_true, List.tail_cons]
              omega
            · -- what is left is a `]` behind white space
              rw [List.head?_cons, if_neg fun h => hcomma (Option.some.inj h), ← hp]
              refine length_skipSpace_lt fun hsame => h ⟨by omega, c, ?_, ?_, hcomma, ?_⟩
              · rw [hp]
                rfl
              · rintro rfl
                have hsome := (parseString_isSome_iff 128).mpr (show
                  (skipSpace s.2).head? = some 34 by rw [hp]; rfl)
                rw [hstring] at hsome
                cases hsome
              · rintro rfl
                exact hbracket (by rw [← hsame, hp]; rfl)

/-! ## Hosts -/

/-- What `parse_host_entry` looks through comes to no place where it hangs. -/
structure HostFree (json : Text) : Prop where
  addresses : KeyFree json (ascii "addresses")
  array : ∀ p t, KeyFound json (ascii "addresses") p → skipSpace p = 91 :: t →
    ∀ s, Loop.Comes addressRound ([], t) s → ¬ AtOther s
  port : KeyFree json (ascii "port")
  subnet : KeyFree json (ascii "subnet")
  vpnAddress : KeyFree json (ascii "vpn_address")

/-- The part of `parse_host_entry` for the addresses. -/
def parseAddresses (rounds : ℕ) (found : Option Text) : Option (List Text) :=
  match found.map skipSpace with
  | some (c :: p) => if c = 91 then addressLoop rounds [] p else some []
  | _ => some []

lemma parseHostEntry_eq (rounds : ℕ) (json : Text) : parseHostEntry rounds json =
    (findKey rounds json (ascii "addresses")).bind fun found =>
      (parseAddresses rounds found).bind fun addresses =>
        (findKey rounds json (ascii "port")).bind fun port =>
          (stringField rounds json (ascii "subnet") 64).bind fun subnet =>
            (stringField rounds json (ascii "vpn_address") 128).bind fun vpnAddress =>
              some { name := [], addresses := addresses,
                     port := (((port.map parseNumber).getD 443) % 65536).toNat,
                     subnet := subnet, vpnAddress := vpnAddress } := by
  unfold parseHostEntry parseAddresses
  simp only [Option.bind_eq_bind]
  congr 1
  funext found
  cases found.map skipSpace with
  | none => rfl
  | some q =>
      cases q with
      | nil => rfl
      | cons c t =>
          by_cases hc : c = 91
          · simp only [hc, if_true]
          · simp only [hc, if_false, Option.bind_some]

lemma parseHostEntry_isSome_iff : (parseHostEntry rounds json).isSome ↔
    (∃ found, findKey rounds json (ascii "addresses") = some found ∧
      (parseAddresses rounds found).isSome) ∧
    (findKey rounds json (ascii "port")).isSome ∧ (findKey rounds json (ascii "subnet")).isSome ∧
      (findKey rounds json (ascii "vpn_address")).isSome := by
  rw [parseHostEntry_eq]
  unfold stringField
  cases findKey rounds json (ascii "addresses") with
  | none => simp
  | some found =>
      simp only [Option.bind_some, Option.some.injEq, exists_eq_left']
      cases parseAddresses rounds found with
      | none => simp
      | some addresses =>
          cases findKey rounds json (ascii "port") with
          | none => simp
          | some port =>
              cases findKey rounds json (ascii "subnet") with
              | none => simp
              | some subnet => cases findKey rounds json (ascii "vpn_address") <;> simp

/-- The loop over the addresses ends if it comes to nothing else, and only then. -/
lemma parseAddresses_isSome {found : Option Text} (hrounds : ∀ p ∈ found, p.length < rounds)
    (h : ∀ p t, found = some p → skipSpace p = 91 :: t →
      ∀ s, Loop.Comes addressRound ([], t) s → ¬ AtOther s) :
    (parseAddresses rounds found).isSome := by
  unfold parseAddresses
  cases found with
  | none => rfl
  | some p =>
      rw [Option.map_some]
      have hskip := length_skipSpace_le p
      cases hp : skipSpace p with
      | nil => rfl
      | cons c t =>
          dsimp only
          split
          · rename_i hc
            subst hc
            rw [addressLoop_eq_run]
            refine Loop.isSome_run length_addressRound_lt (h p t rfl hp) ?_
            have hlt := hrounds p rfl
            rw [hp, List.length_cons] at hskip
            dsimp only
            omega
          · rfl

/-- `parse_host_entry` ends exactly if it comes to no place where it hangs. -/
lemma HostFree.parseHostEntry (h : HostFree json) (hrounds : json.length < rounds) :
    (parseHostEntry rounds json).isSome := by
  rw [parseHostEntry_isSome_iff]
  obtain ⟨found, hfound⟩ := h.addresses.findKey hrounds
  refine ⟨⟨found, hfound, parseAddresses_isSome ?_ ?_⟩, ?_, ?_, ?_⟩
  · rintro p rfl
    exact (keyFound_of_findKey hfound).length_le.trans_lt hrounds
  · rintro p t rfl hp
    exact h.array p t (keyFound_of_findKey hfound) hp
  · exact Option.isSome_iff_exists.mpr (h.port.findKey hrounds)
  · exact Option.isSome_iff_exists.mpr (h.subnet.findKey hrounds)
  · exact Option.isSome_iff_exists.mpr (h.vpnAddress.findKey hrounds)

lemma hostFree_of_parseHostEntry (h : (parseHostEntry rounds json).isSome) : HostFree json := by
  rw [parseHostEntry_isSome_iff] at h
  obtain ⟨⟨found, hfound, haddresses⟩, hport, hsubnet, hvpn⟩ := h
  obtain ⟨_, hport⟩ := Option.isSome_iff_exists.mp hport
  obtain ⟨_, hsubnet⟩ := Option.isSome_iff_exists.mp hsubnet
  obtain ⟨_, hvpn⟩ := Option.isSome_iff_exists.mp hvpn
  refine ⟨keyFree_of_findKey hfound, ?_, keyFree_of_findKey hport, keyFree_of_findKey hsubnet,
    keyFree_of_findKey hvpn⟩
  intro p t hp hbracket s hcomes hheld
  obtain rfl := hp.findKey hfound
  unfold parseAddresses at haddresses
  rw [Option.map_some, hbracket] at haddresses
  dsimp only at haddresses
  rw [if_pos rfl, addressLoop_eq_run, Loop.run_eq_none addressRound_other hcomes hheld]
    at haddresses
  cases haddresses

/-- What a round of the loop over the hosts does with its cursor: it stops, it leaves the text, or
it goes on, behind a host with this name and this object or without one. -/
inductive HostsRound where
  | stop
  | leave
  | go (next : Text) (host : Option (Text × Text))
  deriving DecidableEq

/-- One round of the loop over the hosts. -/
def hostsRound (p : Text) : HostsRound :=
  if p = [] then .stop
  else
    match skipSpace p with
    | [] => .leave
    | c :: t =>
        if c = 125 then .stop
        else if c ≠ 34 then .go t none
        else
          match parseString 64 (c :: t) with
          | none => .leave
          | some (name, p) =>
              if name = [] then .go p none
              else
                match skipSpace p with
                | [] => .go [] none
                | c :: p =>
                    if c ≠ 58 then .go (c :: p) none
                    else
                      match skipSpace p with
                      | [] => .go [] none
                      | c :: p =>
                          if c ≠ 123 then .go (c :: p) none
                          else
                            let rest := skipSpace (sliceObject 1 p).2
                            .go (if rest.head? = some 44 then rest.tail else rest)
                              (some (name, c :: (sliceObject 1 p).1))

/-- The loop parses the hosts it comes to. -/
lemma hostsLoop_round (rounds : ℕ) (hosts : List Host) (p : Text) :
    hostsLoop (rounds + 1) hosts p =
      match hostsRound p with
      | .stop => some hosts
      | .leave => none
      | .go q none => hostsLoop rounds hosts q
      | .go q (some (name, object)) =>
          (parseHostEntry rounds object).bind fun host =>
            hostsLoop rounds (putHost hosts name host) q := by
  rw [hostsLoop, hostsRound]
  by_cases hnil : p = []
  · rw [if_pos hnil, if_pos hnil]
  rw [if_neg hnil, if_neg hnil]
  cases skipSpace p with
  | nil => rfl
  | cons c t =>
      dsimp only
      by_cases hbrace : c = 125
      · rw [if_pos hbrace, if_pos hbrace]
      rw [if_neg hbrace, if_neg hbrace]
      by_cases hquote : c ≠ 34
      · rw [if_pos hquote, if_pos hquote]
      rw [if_neg hquote, if_neg hquote]
      cases parseString 64 (c :: t) with
      | none => rfl
      | some r =>
          obtain ⟨name, p⟩ := r
          dsimp only
          by_cases hname : name = []
          · rw [if_pos hname, if_pos hname]
          rw [if_neg hname, if_neg hname]
          cases skipSpace p with
          | nil => rfl
          | cons c p =>
              dsimp only
              by_cases hcolon : c ≠ 58
              · rw [if_pos hcolon, if_pos hcolon]
              rw [if_neg hcolon, if_neg hcolon]
              cases skipSpace p with
              | nil => rfl
              | cons c p =>
                  dsimp only
                  by_cases hobject : c ≠ 123
                  · rw [if_pos hobject, if_pos hobject]
                  rw [if_neg hobject, if_neg hobject]
                  dsimp only
                  cases parseHostEntry rounds (c :: (sliceObject 1 p).1) with
                  | none => rfl
                  | some host => rfl

lemma length_sliceObject (depth : ℕ) (p : Text) :
    (sliceObject depth p).1.length + (sliceObject depth p).2.length = p.length := by
  induction p generalizing depth with
  | nil => cases depth <;> rfl
  | cons c p ih =>
      cases depth with
      | zero => exact Nat.zero_add _
      | succ depth =>
          rw [sliceObject]
          dsimp only
          rw [List.length_cons, List.length_cons, ← ih, Nat.add_right_comm]

/-- Every round takes something from the text, and a host is a part of it. -/
lemma length_hostsRound {host : Option (Text × Text)} (h : hostsRound p = .go q host) :
    q.length < p.length ∧ ∀ name object, host = some (name, object) → object.length < p.length := by
  have hskip := length_skipSpace_le p
  unfold hostsRound at h
  split at h
  · cases h
  split at h
  · cases h
  rename_i c t hp
  rw [hp, List.length_cons] at hskip
  split at h
  · cases h
  split at h
  · obtain ⟨rfl, rfl⟩ := HostsRound.go.inj h
    exact ⟨by omega, by simp⟩
  split at h
  · cases h
  rename_i name p₁ hstring
  have hlt := (length_parseString_lt hstring).trans_le (length_skipSpace_le _)
  have hskip₁ := length_skipSpace_le p₁
  rw [List.length_cons] at hlt
  split at h
  · obtain ⟨rfl, rfl⟩ := HostsRound.go.inj h
    exact ⟨by omega, by simp⟩
  split at h
  · obtain ⟨rfl, rfl⟩ := HostsRound.go.inj h
    exact ⟨by rw [List.length_nil]; omega, by simp⟩
  rename_i c₂ p₂ hp₂
  rw [hp₂, List.length_cons] at hskip₁
  have hskip₂ := length_skipSpace_le p₂
  split at h
  · obtain ⟨rfl, rfl⟩ := HostsRound.go.inj h
    exact ⟨by rw [List.length_cons]; omega, by simp⟩
  split at h
  · obtain ⟨rfl, rfl⟩ := HostsRound.go.inj h
    exact ⟨by rw [List.length_nil]; omega, by simp⟩
  rename_i c₃ p₃ hp₃
  rw [hp₃, List.length_cons] at hskip₂
  split at h
  · obtain ⟨rfl, rfl⟩ := HostsRound.go.inj h
    exact ⟨by rw [List.length_cons]; omega, by simp⟩
  -- here there is a host
  have hslice := length_sliceObject 1 p₃
  have hrest := length_skipSpace_le (sliceObject 1 p₃).2
  obtain ⟨rfl, rfl⟩ := HostsRound.go.inj h
  refine ⟨?_, ?_⟩
  · split
    · rw [List.length_tail]
      omega
    · omega
  · intro name' object hhost
    obtain ⟨rfl, rfl⟩ := Prod.mk.inj (Option.some.inj hhost)
    rw [List.length_cons]
    omega

/-- There is nothing but white space left, but something. -/
def AtBlank (p : Text) : Prop := p ≠ [] ∧ skipSpace p = []

/-- There the loop steps over the end of the text. -/
lemma hostsRound_eq_leave_iff : hostsRound p = .leave ↔ AtBlank p := by
  unfold hostsRound AtBlank
  constructor
  · intro h
    split at h
    · cases h
    rename_i hnil
    refine ⟨hnil, ?_⟩
    split at h
    · assumption
    rename_i c t hp
    split at h
    · cases h
    split at h
    · cases h
    rename_i hquote
    split at h
    · rename_i hstring
      have hsome := (parseString_isSome_iff 64).mpr (show (skipSpace (c :: t)).head? = some 34 by
        rw [not_not.mp hquote, skipSpace_cons (by decide)]
        rfl)
      rw [hstring] at hsome
      cases hsome
    · dsimp only at h
      split_ifs at h
      split at h
      · cases h
      split_ifs at h
      split at h
      · cases h
      split_ifs at h
  · rintro ⟨hnil, hp⟩
    rw [if_neg hnil, hp]

/-- The loop over the hosts comes from one place to another. -/
def HostsComes : Text → Text → Prop :=
  Relation.ReflTransGen fun p q => ∃ host, hostsRound p = .go q host

/-- The loop over the hosts comes to no place where it leaves the text or hangs. -/
structure HostsFree (p : Text) : Prop where
  inside : ∀ q, HostsComes p q → ¬ AtBlank q
  hosts : ∀ q next name object, HostsComes p q →
    hostsRound q = .go next (some (name, object)) → HostFree object

lemma HostsFree.next (h : HostsFree p) {host : Option (Text × Text)}
    (hround : hostsRound p = .go q host) : HostsFree q where
  inside q' hq' := h.inside q' (.head ⟨host, hround⟩ hq')
  hosts q' next name object hq' := h.hosts q' next name object (.head ⟨host, hround⟩ hq')

/-- The loop ends in the text if it comes to no such place, and only then. -/
lemma HostsFree.hostsLoop (h : HostsFree p) (hrounds : p.length < rounds) (hosts : List Host) :
    (hostsLoop rounds hosts p).isSome := by
  induction rounds generalizing p hosts with
  | zero => omega
  | succ rounds ih =>
      rw [hostsLoop_round]
      cases hround : hostsRound p with
      | stop => rfl
      | leave => exact absurd (hostsRound_eq_leave_iff.mp hround) (h.inside p .refl)
      | go q host =>
          obtain ⟨hlength, hobject⟩ := length_hostsRound hround
          have hrest := ih (h.next hround) (show q.length < rounds by omega)
          cases host with
          | none => exact hrest hosts
          | some r =>
              obtain ⟨name, object⟩ := r
              have hlong := hobject name object rfl
              have hfree := h.hosts p q name object .refl hround
              obtain ⟨host, hhost⟩ := Option.isSome_iff_exists.mp
                (hfree.parseHostEntry (show object.length < rounds by omega))
              simp only [hhost, Option.bind_some]
              exact hrest _

lemma hostsFree_of_hostsLoop {hosts : List Host} (h : (hostsLoop rounds hosts p).isSome) :
    HostsFree p := by
  induction rounds generalizing p hosts with
  | zero => cases h
  | succ rounds ih =>
      rw [hostsLoop_round] at h
      cases hround : hostsRound p with
      | stop =>
          -- nothing comes behind
          have hstay : ∀ q, HostsComes p q → q = p := by
            intro q hq
            obtain rfl | ⟨p', ⟨host, hstep⟩, -⟩ := Relation.ReflTransGen.cases_head hq
            · rfl
            · rw [hround] at hstep
              cases hstep
          constructor
          · intro q hq hblank
            obtain rfl := hstay q hq
            rw [hostsRound_eq_leave_iff.mpr hblank] at hround
            cases hround
          · intro q next name object hq hstep
            obtain rfl := hstay q hq
            rw [hround] at hstep
            cases hstep
      | leave =>
          rw [hround] at h
          cases h
      | go next host =>
          rw [hround] at h
          have hrest : HostsFree next ∧ ∀ name object, host = some (name, object) →
              HostFree object := by
            cases host with
            | none => exact ⟨ih h, by simp⟩
            | some r =>
                obtain ⟨name, object⟩ := r
                dsimp only at h
                cases hentry : parseHostEntry rounds object with
                | none =>
                    rw [hentry] at h
                    cases h
                | some entry =>
                    rw [hentry] at h
                    refine ⟨ih h, fun name' object' heq => ?_⟩
                    obtain ⟨rfl, rfl⟩ := Prod.mk.inj (Option.some.inj heq)
                    exact hostFree_of_parseHostEntry (by rw [hentry]; rfl)
          have hhead : ∀ q, HostsComes p q → q = p ∨ HostsComes next q := by
            intro q hq
            obtain rfl | ⟨p', ⟨host', hstep⟩, hq⟩ := Relation.ReflTransGen.cases_head hq
            · exact .inl rfl
            · rw [hround] at hstep
              obtain ⟨rfl, -⟩ := HostsRound.go.inj hstep
              exact .inr hq
          constructor
          · intro q hq hblank
            rcases hhead q hq with rfl | hq
            · rw [hostsRound_eq_leave_iff.mpr hblank] at hround
              cases hround
            · exact hrest.1.inside q hq hblank
          · intro q next' name object hq hstep
            rcases hhead q hq with rfl | hq
            · rw [hround] at hstep
              obtain ⟨-, rfl⟩ := HostsRound.go.inj hstep
              exact hrest.2 name object rfl
            · exact hrest.1.hosts q next' name object hq hstep

/-! ## The file -/

/-- The parser comes to no place where it hangs or leaves the text. -/
structure ParseFree (json : Text) : Prop where
  nodes : KeyFree json (ascii "nodes")
  hosts : ∀ p t, KeyFound json (ascii "nodes") p → skipSpace p = 123 :: t → HostsFree t

lemma ParseFree.parseHostsJson (h : ParseFree json) :
    (parseHostsJson (json.length + 1) json).isSome := by
  obtain ⟨found, hfound⟩ := h.nodes.findKey (Nat.lt_succ_self _)
  unfold Tinc.parseHostsJson
  rw [hfound]
  cases found with
  | none => rfl
  | some p =>
      have hkey := keyFound_of_findKey hfound
      have hlength := hkey.length_le
      have hskip := length_skipSpace_le p
      dsimp only
      cases hp : skipSpace p with
      | nil => rfl
      | cons c t =>
          rw [hp, List.length_cons] at hskip
          dsimp only
          split
          · rfl
          · rename_i hbrace
            obtain rfl := not_not.mp hbrace
            rw [Option.isSome_map]
            exact (h.hosts p t hkey hp).hostsLoop (by omega) []

lemma parseFree_of_parseHostsJson (h : (parseHostsJson rounds json).isSome) : ParseFree json := by
  unfold parseHostsJson at h
  cases hfound : findKey rounds json (ascii "nodes") with
  | none =>
      rw [hfound] at h
      cases h
  | some found =>
      refine ⟨keyFree_of_findKey hfound, fun p t hp hbrace => ?_⟩
      obtain rfl := hp.findKey hfound
      rw [hfound] at h
      dsimp only at h
      rw [hbrace] at h
      dsimp only at h
      rw [if_neg (by simp), Option.isSome_map] at h
      exact hostsFree_of_hostsLoop h

/-- **When the parser ends and reads nothing behind the text.**  The content of the file is any
bytes; what counts is what stands before the first null. -/
theorem hosts_json_ends_iff (content : List UInt8) :
    (∃ rounds, (parseHostsJson rounds (cstr content)).isSome) ↔ ParseFree (cstr content) := by
  constructor
  · rintro ⟨rounds, h⟩
    exact parseFree_of_parseHostsJson h
  · intro h
    exact ⟨_, h.parseHostsJson⟩

/-- A host with a number among its addresses. -/
def numberFile : List UInt8 :=
  ascii "\x7b\"nodes\": \x7b\"a\": \x7b\"addresses\": [1]\x7d\x7d\x7d\n"

/-- On this file, which is proper JSON, the parser hangs. -/
theorem hosts_json_hangs : ¬ ∃ rounds, (parseHostsJson rounds (cstr numberFile)).isSome := by
  rintro ⟨rounds, h⟩
  have hfree := parseFree_of_parseHostsJson h
  have hnodes : KeyFound (cstr numberFile) (ascii "nodes") (ascii
      " \x7b\"a\": \x7b\"addresses\": [1]\x7d\x7d\x7d\n") := ⟨_, .refl, by decide +kernel⟩
  have hhosts := hfree.hosts _ (ascii "\"a\": \x7b\"addresses\": [1]\x7d\x7d\x7d\n") hnodes
    (by decide +kernel)
  have hhost : HostFree (ascii "\x7b\"addresses\": [1]\x7d") :=
    hhosts.hosts _ (ascii "\x7d\x7d\n") (ascii "a") _ .refl (by decide +kernel)
  have haddresses : KeyFound (ascii "\x7b\"addresses\": [1]\x7d") (ascii "addresses")
      (ascii " [1]\x7d") := ⟨_, .refl, by decide +kernel⟩
  refine hhost.array _ (ascii "1]\x7d") haddresses (by decide +kernel) _ .refl ⟨by decide, 49, ?_⟩
  exact ⟨by decide +kernel, by decide, by decide, by decide⟩

end Tinc
