import TincQuic.Daemon.SubnetBuffer
import TincQuic.Lib.Numeral

/-!
# The numbers of a subnet

`str2net` reads the numbers of an address into 16 bits each.

* `written` is what a text spells: the family of the address and its components, each with the
  value that it is written with.  It takes the text apart at its separators and does not depend on
  how `str2net` reads it.
* `Stores` says that an address holds the components, each in its field.
* `ReadAs` says that `str2net` takes a text for that of these components.
  **`numbers_kept_iff`: what is stored is what was written exactly if every component fits its
  field** and neither the whole text nor a dotted quad at its end is cut off at the end of the
  array.
-/

namespace Tinc

open Bytes CText

/-! ## What a text spells -/

/-- A number of an address: a part of a MAC address, a part of a dotted quad or a group of an IPv6
address. -/
inductive Component where
  | hexPair (value : ℤ)
  | part (value : ℤ)
  | group (value : ℤ)
  deriving DecidableEq

/-- The value is within the field. -/
def Component.Fits : Component → Prop
  | .hexPair v => 0 ≤ v ∧ v ≤ 0xff
  | .part v => 0 ≤ v ∧ v ≤ 255
  | .group v => 0 ≤ v ∧ v ≤ 0xffff

/-- The address holds the components, each in its field; groups are in network order. -/
def Stores : List Component → List UInt8 → Prop
  | [], address => address = []
  | .hexPair v :: cs, a :: address => v = a.toNat ∧ Stores cs address
  | .part v :: cs, a :: address => v = a.toNat ∧ Stores cs address
  | .group v :: cs, a :: b :: address => v = a.toNat * 256 + b.toNat ∧ Stores cs address
  | _ :: _, _ => False

/-- The three kinds of addresses. -/
inductive Family where
  | mac
  | ipv4
  | ipv6

/-- What a text spells. -/
structure Written where
  family : Family
  components : List Component

/-- The numbers between separators, if there are `count` of them. -/
def numbers (base : ℕ) (sep : UInt8) (count : ℕ) (t : Text) : Option (List ℤ) :=
  numerals base count (t.splitOn sep)

/-- The parts between colons before and behind the first double colon. -/
def elision : List Text → Option (List Text × List Text)
  | p :: [] :: q :: rest => some ([p], q :: rest)
  | p :: q :: rest => (elision (q :: rest)).map fun (before, behind) => (p :: before, behind)
  | _ => none

/-- The parts between colons with the zero groups that a double colon stands for; a colon at either
end of such a text belongs to no group. -/
def unelided (pieces : List Text) : Option (List Text) :=
  match elision pieces with
  | none => some pieces
  | some (before, behind) =>
      let count := (pieces.filter (· ≠ [])).length
      if 8 ≤ count then none
      else
        let before := if before.head? = some [] then before.tail else before
        let behind := if behind.getLast? = some [] then behind.dropLast else behind
        some (before ++ List.replicate (8 - count) [48] ++ behind)

/-- The dotted quad behind the last colon. -/
def quadOf (t : Text) : Option (List ℤ) :=
  let pieces := t.splitOn 58
  if pieces.length = 1 then none else numbers 10 46 4 (pieces.getLastD [])

/-- The components of an IPv6 address; a dotted quad takes the place of two groups. -/
def writtenIpv6 (t : Text) : Option (List Component) :=
  let pieces := t.splitOn 58
  match quadOf t with
  | some quad => do
      let quadText := pieces.getLastD []
      let pieces ← unelided (pieces.dropLast ++ [quadText, quadText])
      let groups ← numerals 16 6 pieces.dropLast.dropLast
      some (groups.map .group ++ quad.map .part)
  | none => do
      let pieces ← unelided pieces
      let groups ← numerals 16 8 pieces
      some (groups.map .group)

/-- What the address part of a subnet spells. -/
def written (t : Text) : Option Written :=
  match numbers 16 58 6 t with
  | some x => some ⟨.mac, x.map .hexPair⟩
  | none =>
      match numbers 10 46 4 t with
      | some x => some ⟨.ipv4, x.map .part⟩
      | none => (writtenIpv6 t).map (⟨.ipv6, ·⟩)

example : writtenIpv6 (ascii "fe80::1.2.3.4") =
    some (.group 0xfe80 :: List.replicate 5 (.group 0) ++
      [.part 1, .part 2, .part 3, .part 4]) := by
  decide

/-! ## Reading and spelling -/

lemma scan_shortHex (t : Text) : shortHex.scan t = scanUnsigned 16 none 16 t := rfl

lemma scan_shortDec (t : Text) : shortDec.scan t = scanUnsigned 10 none 16 t := rfl

/-- What a text spells is read, reduced to 16 bits. -/
lemma scanFields_pieces {k : Conversion} {base : ℕ} {sep : UInt8}
    (hk : ∀ t, k.scan t = scanUnsigned base none 16 t) (hsep : Parts sep) {pieces : List Text}
    (hne : pieces ≠ []) (hfree : ∀ p ∈ pieces, sep ∉ p) (n : ℕ) :
    scanFields k sep (n + 1) ([sep].intercalate pieces) =
      (numerals base (n + 1) pieces).map (List.map (kept 16)) := by
  have hwhole : scanFields k sep (n + 1) ([sep].intercalate pieces) =
      (whole (n + 1) (sscanf (separated k sep (n + 1)) ([sep].intercalate pieces))).map uints := by
    unfold scanFields whole
    rw [fields_eq]
    dsimp only
    split_ifs <;> rfl
  rw [hwhole, sscanf_pieces hk hsep hne hfree, Option.map_map]
  refine congrArg (fun f => Option.map f _) (funext fun ws => ?_)
  simpa [Function.comp_def] using uints_map (ws.map (kept 16))

lemma scanFields_numbers {k : Conversion} {base : ℕ} {sep : UInt8}
    (hk : ∀ t, k.scan t = scanUnsigned base none 16 t) (hsep : Parts sep) (n : ℕ) (t : Text) :
    scanFields k sep (n + 1) t = (numbers base sep (n + 1) t).map (List.map (kept 16)) := by
  have hpieces := scanFields_pieces hk hsep (List.splitOn_ne_nil sep t)
    (notMem_of_mem_splitOn t) n
  rwa [List.intercalate_splitOn] at hpieces

/-! ## Elided groups -/

/-- The text of parts with colons between them. -/
def joined (pieces : List Text) : Text := [58].intercalate pieces

lemma joined_cons {p : Text} {pieces : List Text} (h : pieces ≠ []) :
    joined (p :: pieces) = p ++ 58 :: joined pieces := by
  cases pieces with
  | nil => exact absurd rfl h
  | cons q pieces => simp [joined, List.intercalate_cons_cons]

lemma joined_append {pieces pieces' : List Text} (h : pieces ≠ []) (h' : pieces' ≠ []) :
    joined (pieces ++ pieces') = joined pieces ++ 58 :: joined pieces' := by
  induction pieces with
  | nil => exact absurd rfl h
  | cons p pieces ih =>
      cases pieces with
      | nil => simpa [joined] using joined_cons (p := p) h'
      | cons q pieces =>
          rw [List.cons_append, joined_cons (by simp), ih (by simp),
            joined_cons (List.cons_ne_nil q pieces)]
          simp

/-- Parts that hold no colon, and at least one of them. -/
structure Pieces (pieces : List Text) : Prop where
  ne : pieces ≠ []
  free : ∀ p ∈ pieces, 58 ∉ p

lemma pieces_splitOn (t : Text) : Pieces (t.splitOn 58) :=
  ⟨List.splitOn_ne_nil 58 t, notMem_of_mem_splitOn t⟩

lemma Pieces.tail {p q : Text} {pieces : List Text} (h : Pieces (p :: q :: pieces)) :
    Pieces (q :: pieces) :=
  ⟨by simp, fun r hr => h.free r (List.mem_cons_of_mem _ hr)⟩

lemma head?_joined {pieces : List Text} (h : Pieces pieces) :
    (joined pieces).head? = some 58 ↔ pieces.head? = some [] ∧ pieces.tail ≠ [] := by
  obtain ⟨p, pieces, rfl⟩ := List.exists_cons_of_ne_nil h.ne
  have hp := h.free p List.mem_cons_self
  cases pieces with
  | nil =>
      cases p with
      | nil => simp [joined]
      | cons c p => simpa [joined, eq_comm] using fun hc : 58 = c => hp (by simp [hc])
  | cons q pieces =>
      rw [joined_cons (by simp)]
      cases p with
      | nil => simp
      | cons c p => simpa [eq_comm] using fun hc : 58 = c => hp (by simp [hc])

/-- An empty part in the middle, and no empty part between it and the first one. -/
lemma elision_spec {pieces before behind : List Text}
    (h : elision pieces = some (before, behind)) :
    before ≠ [] ∧ behind ≠ [] ∧ pieces = before ++ [] :: behind := by
  induction pieces using elision.induct generalizing before with
  | case1 p q rest =>
      rw [elision] at h
      obtain ⟨rfl, rfl⟩ := Prod.mk.inj (Option.some.inj h)
      simp
  | case2 p q rest hne ih =>
      rw [elision] at h
      · obtain ⟨⟨before', behind'⟩, hrest, heq⟩ := Option.map_eq_some_iff.mp h
        obtain ⟨rfl, rfl⟩ := Prod.mk.inj heq
        obtain ⟨-, hbehind, hpieces⟩ := ih hrest
        exact ⟨by simp, hbehind, by rw [hpieces]; rfl⟩
      · exact hne
  | case3 pieces h1 h2 =>
      rw [elision] at h
      · cases h
      · exact h1
      · exact h2

/-- The first double colon is where an inner part is empty. -/
lemma splitDoubleColon_joined {pieces : List Text} (h : Pieces pieces) :
    splitDoubleColon (joined pieces) =
      (elision pieces).map fun (before, behind) => (joined before, joined behind) := by
  induction pieces using elision.induct with
  | case1 p q rest =>
      have hp := h.free p List.mem_cons_self
      rw [elision, joined_cons (by simp), joined_cons (by simp), splitDoubleColon_word hp]
      simp [splitDoubleColon, joined]
  | case2 p q rest hne ih =>
      have hp := h.free p List.mem_cons_self
      have hhead : (joined (q :: rest)).head? ≠ some 58 := by
        rw [Ne, head?_joined h.tail]
        rintro ⟨hq, hrest⟩
        obtain ⟨r, rest, rfl⟩ := List.exists_cons_of_ne_nil hrest
        exact hne r rest (by simpa using hq) rfl
      rw [elision, joined_cons (by simp), splitDoubleColon_word hp,
        splitDoubleColon_cons (.inr hhead), ih h.tail]
      · cases he : elision (q :: rest) with
        | none => rfl
        | some r => simp [joined_cons (elision_spec he).1]
      · exact hne
  | case3 pieces h1 h2 =>
      rw [elision]
      · obtain ⟨p, pieces, rfl⟩ := List.exists_cons_of_ne_nil h.ne
        cases pieces with
        | nil =>
            have hp := splitDoubleColon_word (h.free p List.mem_cons_self) []
            rw [List.append_nil] at hp
            simp [joined, hp, splitDoubleColon]
        | cons q rest => exact absurd rfl (h2 p q rest)
      · exact h1
      · exact h2

/-- The number of groups is that of the parts with something in them. -/
lemma countGroups_joined {pieces : List Text} (h : Pieces pieces) :
    countGroups (joined pieces) = (pieces.filter (· ≠ [])).length := by
  induction pieces with
  | nil => exact absurd rfl h.ne
  | cons p pieces ih =>
      have hp := h.free p List.mem_cons_self
      have hfirst : ∀ t : Text, t = [] ∨ t.head? = some 58 →
          countGroups (p ++ t) = (if p ≠ [] then 1 else 0) + countGroups t := by
        intro t ht
        by_cases hne : p = []
        · simp [hne]
        · rw [countGroups_word hne hp ht, if_pos hne]
      cases pieces with
      | nil =>
          have hone := hfirst [] (.inl rfl)
          rw [List.append_nil] at hone
          by_cases hne : p = [] <;> simp [joined, hone, hne, countGroups]
      | cons q pieces =>
          rw [joined_cons (by simp), hfirst _ (.inr rfl), countGroups_colon, ih h.tail]
          by_cases hne : p = []
          · simp [hne]
          · simp [hne, Nat.add_comm]

lemma joined_zeros (n : ℕ) {behind : List Text} (h : behind ≠ []) :
    (List.replicate n [48, 58]).flatten ++ joined behind =
      joined (List.replicate n [48] ++ behind) := by
  induction n with
  | zero => rfl
  | succ n ih =>
      rw [List.replicate_succ, List.replicate_succ, List.cons_append, joined_cons (by simp [h]),
        ← ih]
      simp

lemma tail_joined {pieces : List Text} (h : Pieces pieces) (htail : pieces.tail ≠ []) :
    (if (joined pieces).head? = some 58 then (joined pieces).tail else joined pieces) =
      joined (if pieces.head? = some [] then pieces.tail else pieces) := by
  obtain ⟨p, pieces, rfl⟩ := List.exists_cons_of_ne_nil h.ne
  simp only [head?_joined h, htail, ne_eq, not_false_eq_true, and_true]
  split_ifs with hp
  · obtain rfl : p = [] := by simpa using hp
    rw [joined_cons (show pieces ≠ [] from htail)]
    rfl
  · rfl

lemma dropLast_joined {pieces : List Text} (h : Pieces pieces) (hfront : pieces.dropLast ≠ []) :
    (if (joined pieces).getLast? = some 58 then (joined pieces).dropLast else joined pieces) =
      joined (if pieces.getLast? = some [] then pieces.dropLast else pieces) := by
  obtain ⟨front, last, rfl⟩ := List.eq_nil_or_concat pieces |>.resolve_left h.ne
  rw [List.concat_eq_append] at *
  have hlast := h.free last (by simp)
  rw [List.dropLast_concat] at hfront ⊢
  rw [joined_append hfront (by simp), List.getLast?_concat]
  rw [show joined [last] = last by simp [joined]]
  by_cases hnil : last = []
  · simp [hnil]
  · have hend : (joined front ++ 58 :: last).getLast? ≠ some 58 := by
      rw [List.getLast?_append_of_ne_nil _ (by simp), List.getLast?_cons_of_ne_nil hnil]
      exact fun hlast' => hlast (List.mem_of_getLast? hlast')
    rw [if_neg hend, if_neg (by simpa using hnil), joined_append hfront (by simp)]
    simp [joined]

/-- The colons at both ends of the expanded text. -/
lemma trimmed_joined {before zeros behind : List Text} (hbefore : before ≠ []) (hzeros : zeros ≠ [])
    (hbehind : behind ≠ []) (hfree : ∀ p ∈ before ++ zeros ++ behind, 58 ∉ p) :
    let str := joined (before ++ zeros ++ behind)
    let str := if str.head? = some 58 then str.tail else str
    (if str.getLast? = some 58 then str.dropLast else str) =
      joined ((if before.head? = some [] then before.tail else before) ++ zeros ++
        if behind.getLast? = some [] then behind.dropLast else behind) := by
  intro str
  have htail : (before ++ zeros ++ behind).tail = before.tail ++ zeros ++ behind := by
    rw [List.append_assoc, List.tail_append_of_ne_nil hbefore, List.append_assoc]
  have hfront : (if (before ++ zeros ++ behind).head? = some [] then
      (before ++ zeros ++ behind).tail else before ++ zeros ++ behind) =
      (if before.head? = some [] then before.tail else before) ++ zeros ++ behind := by
    rw [List.append_assoc, List.head?_append_of_ne_nil _ hbefore, ← List.append_assoc, htail]
    split_ifs <;> rfl
  rw [tail_joined ⟨by simp [hbefore], hfree⟩ (by rw [htail]; simp [hbehind]), hfront]
  dsimp only
  have hsub : (if before.head? = some [] then before.tail else before) ⊆ before := by
    split_ifs
    · exact List.tail_subset before
    · exact List.Subset.refl before
  generalize (if before.head? = some [] then before.tail else before) = front at hsub
  have hdrop : (front ++ zeros ++ behind).dropLast = front ++ zeros ++ behind.dropLast :=
    List.dropLast_append_of_ne_nil hbehind
  rw [dropLast_joined ⟨by simp [hbehind], fun p hp => hfree p ?_⟩ (by rw [hdrop]; simp [hzeros]),
    hdrop, List.getLast?_append_of_ne_nil _ hbehind]
  · split_ifs <;> rfl
  · simp only [List.mem_append] at hp ⊢
    exact hp.imp_left (Or.imp_left (@hsub p))

/-- The expansion of a double colon, in terms of the parts. -/
lemma expandZeros_joined {pieces : List Text} (h : Pieces pieces) :
    expandZeros (joined pieces) = (unelided pieces).map joined := by
  unfold expandZeros unelided
  rw [splitDoubleColon_joined h, countGroups_joined h]
  cases he : elision pieces with
  | none => rfl
  | some r =>
      obtain ⟨before, behind⟩ := r
      obtain ⟨hbefore, hbehind, hpieces⟩ := elision_spec he
      generalize (pieces.filter (· ≠ [])).length = count
      dsimp only [Option.map_some]
      by_cases hcount : 8 ≤ count
      · rw [if_pos (by omega), if_pos hcount]
        rfl
      · have hzeros : List.replicate (8 - count) ([48] : Text) ≠ [] := by
          rw [Ne, List.replicate_eq_nil_iff]
          omega
        have hfree : ∀ p ∈ before ++ List.replicate (8 - count) [48] ++ behind, 58 ∉ p := by
          intro p hp
          simp only [List.mem_append, List.mem_replicate] at hp
          rcases hp with (hp | ⟨-, rfl⟩) | hp
          · exact h.free p (by simp [hpieces, hp])
          · decide
          · exact h.free p (by simp [hpieces, hp])
        have htext : joined before ++ 58 :: (List.replicate (8 - count) [48, 58]).flatten ++
            joined behind = joined (before ++ List.replicate (8 - count) [48] ++ behind) := by
          rw [List.append_assoc before, joined_append hbefore (by simp [hbehind]),
            ← joined_zeros _ hbehind]
          simp
        rw [if_neg (by omega), if_neg hcount, htext, trimmed_joined hbefore hzeros hbehind hfree]
        rfl

/-- The parts are still without colons. -/
lemma pieces_unelided {pieces groups : List Text} (h : Pieces pieces)
    (hgroups : unelided pieces = some groups) : Pieces groups := by
  unfold unelided at hgroups
  cases he : elision pieces with
  | none =>
      rw [he] at hgroups
      exact Option.some.inj hgroups ▸ h
  | some r =>
      obtain ⟨before, behind⟩ := r
      obtain ⟨-, -, hpieces⟩ := elision_spec he
      rw [he] at hgroups
      dsimp only at hgroups
      split at hgroups
      · cases hgroups
      · next hcount =>
        obtain rfl := Option.some.inj hgroups
        refine ⟨?_, fun p hp => ?_⟩
        · intro hnil
          simp only [List.append_eq_nil_iff, List.replicate_eq_nil_iff] at hnil
          omega
        · simp only [List.mem_append, List.mem_replicate] at hp
          rcases hp with (hp | ⟨-, rfl⟩) | hp
          · refine h.free p ?_
            split_ifs at hp
            · simp [hpieces, List.mem_of_mem_tail hp]
            · simp [hpieces, hp]
          · decide
          · refine h.free p ?_
            split_ifs at hp
            · simp [hpieces, List.mem_of_mem_dropLast hp]
            · simp [hpieces, hp]

/-! ## A dotted quad at the end -/

lemma splitLastColon_joined {front : List Text} {last : Text} (hfront : front ≠ [])
    (hlast : 58 ∉ last) :
    splitLastColon (joined (front ++ [last])) = some (joined front, 58 :: last) := by
  rw [joined_append hfront (by simp), show joined [last] = last by simp [joined]]
  have htail : ((joined front ++ 58 :: last).reverse.takeWhile (· ≠ 58)).reverse = last := by
    rw [List.reverse_append, List.reverse_cons, List.append_assoc, List.takeWhile_append_of_pos]
    · simp
    · intro c hc
      simpa using fun h : c = 58 => hlast (h ▸ List.mem_reverse.mp hc)
  unfold splitLastColon
  rw [htail]
  have hlen : (joined front ++ 58 :: last).length - last.length - 1 = (joined front).length := by
    simp only [List.length_append, List.length_cons]
    omega
  rw [if_neg (by simp only [List.length_append, List.length_cons]; omega)]
  simp only [hlen, List.take_left', List.drop_left']

lemma splitLastColon_single {p : Text} (hp : 58 ∉ p) : splitLastColon p = none := by
  have htail : p.reverse.takeWhile (· ≠ 58) = p.reverse := by
    rw [List.takeWhile_eq_self_iff]
    intro c hc
    simpa using fun h : c = 58 => hp (h ▸ List.mem_reverse.mp hc)
  unfold splitLastColon
  rw [htail]
  simp

/-- Without a dotted quad the text stays as it is. -/
lemma expandQuad_none {t : Text} (h : quadOf t = none) : expandQuad t = some t := by
  have hp := pieces_splitOn t
  have ht : t = joined (t.splitOn 58) := (List.intercalate_splitOn 58).symm
  unfold quadOf at h
  generalize t.splitOn 58 = pieces at h hp ht
  obtain ⟨front, last, rfl⟩ := List.eq_nil_or_concat pieces |>.resolve_left hp.ne
  rw [List.concat_eq_append] at *
  have hlast := hp.free last (by simp)
  unfold expandQuad
  by_cases hfront : front = []
  · subst hfront
    have htext : t = last := by simpa [joined] using ht
    rw [htext, splitLastColon_single hlast]
  · have hquad : numbers 10 46 4 last = none := by
      rw [if_neg] at h
      · simpa using h
      · simpa using hfront
    rw [ht, splitLastColon_joined hfront hlast]
    simp only [List.tail_cons]
    rw [scanFields_numbers scan_shortDec (by decide), hquad]
    rfl

/-- A text that ends in a dotted quad. -/
lemma quadOf_some {t : Text} {quad : List ℤ} (h : quadOf t = some quad) :
    ∃ front last, front ≠ [] ∧ t.splitOn 58 = front ++ [last] ∧
      numbers 10 46 4 last = some quad := by
  unfold quadOf at h
  obtain ⟨front, last, hpieces⟩ :=
    List.eq_nil_or_concat (t.splitOn 58) |>.resolve_left (List.splitOn_ne_nil 58 t)
  rw [List.concat_eq_append] at hpieces
  rw [hpieces] at h
  dsimp only at h
  split at h
  · cases h
  · next hlength => exact ⟨front, last, by simpa using hlength, hpieces, by simpa using h⟩

lemma length_numerals {base count : ℕ} {pieces : List Text} {ws : List ℤ}
    (h : numerals base count pieces = some ws) : pieces.length = count ∧ ws.length = count := by
  induction pieces generalizing count ws with
  | nil =>
      unfold numerals at h
      split at h
      · next hcount =>
        obtain rfl : [] = ws := by simpa using h
        exact ⟨hcount, hcount⟩
      · cases h
  | cons p pieces ih =>
      cases count with
      | zero => simp [numerals] at h
      | succ count =>
          rw [numerals_cons] at h
          obtain ⟨w, -, hrest⟩ := Option.bind_eq_some_iff.mp h
          obtain ⟨ws', hws', rfl⟩ := Option.map_eq_some_iff.mp hrest
          obtain ⟨h₁, h₂⟩ := ih hws'
          exact ⟨by rw [List.length_cons, h₁], by rw [List.length_cons, h₂]⟩

lemma numeral_nil (base : ℕ) : numeral base [] = none := by
  simp [numeral, scanNumber, skipSpace]

/-- Each number takes a byte at least, and so does each separator. -/
lemma le_length_of_numerals {base count : ℕ} (sep : UInt8) {pieces : List Text} {ws : List ℤ}
    (h : numerals base count pieces = some ws) :
    2 * count ≤ ([sep].intercalate pieces).length + 1 := by
  induction pieces generalizing count ws with
  | nil =>
      have := (length_numerals h).1
      simp at this
      omega
  | cons p pieces ih =>
      cases count with
      | zero => omega
      | succ count =>
          rw [numerals_cons] at h
          obtain ⟨w, hw, hrest⟩ := Option.bind_eq_some_iff.mp h
          obtain ⟨ws', hws', -⟩ := Option.map_eq_some_iff.mp hrest
          have hp : p ≠ [] := by
            rintro rfl
            rw [numeral_nil] at hw
            cases hw
          have hp := List.length_pos_of_ne_nil hp
          have ih := ih hws'
          cases pieces with
          | nil =>
              have := (length_numerals hws').1
              simp at this
              simp
              omega
          | cons q pieces =>
              rw [List.intercalate_cons_cons]
              simp only [List.length_append, List.length_singleton]
              omega

/-- Four numbers and the dots between them. -/
lemma seven_le_length {last : Text} {quad : List ℤ} (h : numbers 10 46 4 last = some quad) :
    7 ≤ last.length := by
  have hlength := le_length_of_numerals 46 h
  rw [List.intercalate_splitOn] at hlength
  omega

lemma numeral_digits {ds : List ℕ} (hne : ds ≠ []) (hds : ∀ d ∈ ds, d < 16) :
    numeral 16 (ds.map digitByte) = some (ofBase 16 ds : ℤ) := by
  have hskip := skipSpace_digits hne hds []
  have hscan := scanNumber_digits (le_refl 16) hne hds stops_nil
  rw [List.append_nil] at hskip hscan
  rw [numeral, hskip, hscan]
  simp [signed]

/-- Two bytes as a group, of which some digits at the end are cut off. -/
lemma numeral_hexBytes {c d : ℕ} (hc : c ≤ 255) (hd : d ≤ 255) {cut : ℕ} (hcut : cut ≤ 2) :
    numeral 16 ((hexByte c ++ hexByte d).take (4 - cut)) =
      some (((c * 256 + d) / 16 ^ cut : ℕ) : ℤ) := by
  have htext : hexByte c ++ hexByte d = [c / 16, c % 16, d / 16, d % 16].map digitByte := rfl
  rw [htext, ← List.map_take, numeral_digits]
  · interval_cases cut <;> simp [ofBase] <;> omega
  · interval_cases cut <;> simp
  · intro x hx
    have hx := List.mem_of_mem_take hx
    simp only [List.mem_cons, List.not_mem_nil, or_false] at hx
    omega

/-- How many digits of the second group of a dotted quad do not fit into the array. -/
def quadCut (t : Text) : ℕ := t.length - ((t.splitOn 58).getLastD []).length + 9 - 1023

lemma expandQuad_some {t : Text} (ht : t.length ≤ 1023) {front : List Text} {last : Text}
    (hfront : front ≠ []) (hpieces : t.splitOn 58 = front ++ [last]) {a b c d : ℤ}
    (hquad : numbers 10 46 4 last = some [a, b, c, d]) :
    quadCut t ≤ 2 ∧
    expandQuad t =
      if 255 < kept 16 a ∨ 255 < kept 16 b ∨ 255 < kept 16 c ∨ 255 < kept 16 d then none
      else some (joined (front ++ [hexByte (kept 16 a) ++ hexByte (kept 16 b),
        (hexByte (kept 16 c) ++ hexByte (kept 16 d)).take (4 - quadCut t)])) := by
  have hlast : 58 ∉ last := notMem_of_mem_splitOn t last (by simp [hpieces])
  have htext : t = joined (front ++ [last]) := by
    rw [← hpieces]
    exact (List.intercalate_splitOn 58).symm
  have hsplit : t = joined front ++ 58 :: last := by
    rw [htext, joined_append hfront (by simp)]
    simp [joined]
  have hlength : t.length = (joined front).length + 1 + last.length := by
    rw [hsplit, List.length_append, List.length_cons]
    omega
  have hseven := seven_le_length hquad
  have hcut : quadCut t = (joined front).length + 10 - 1023 := by
    unfold quadCut
    rw [hpieces]
    simp only [List.getLastD_eq_getLast?, List.getLast?_concat, Option.getD_some]
    omega
  refine ⟨by omega, ?_⟩
  unfold expandQuad
  rw [htext, splitLastColon_joined hfront hlast, ← htext]
  simp only [List.tail_cons]
  rw [scanFields_numbers scan_shortDec (by decide), hquad]
  simp only [Option.map_some, List.map_cons, List.map_nil]
  split
  · rfl
  · have htake : ∀ g₁ g₂ : Text, g₁.length = 4 → g₂.length = 4 →
        (joined front ++ 58 :: g₁ ++ 58 :: g₂).take 1023 =
          joined (front ++ [g₁, g₂.take (4 - quadCut t)]) := by
      intro g₁ g₂ h₁ h₂
      have hfirst : (joined front ++ 58 :: g₁ ++ [58]).length = (joined front).length + 6 := by
        simp only [List.length_append, List.length_cons, List.length_nil, h₁]
      have hsecond : g₂.take (1023 - ((joined front).length + 6)) = g₂.take (4 - quadCut t) := by
        rcases Nat.le_total ((joined front).length + 10) 1023 with hroom | hroom
        · rw [List.take_of_length_le (by omega), List.take_of_length_le (by omega)]
        · rw [show 1023 - ((joined front).length + 6) = 4 - quadCut t by omega]
      have hsplit' : joined front ++ 58 :: g₁ ++ 58 :: g₂ =
          joined front ++ 58 :: g₁ ++ [58] ++ g₂ := by
        simp
      rw [hsplit', List.take_append, hfirst,
        List.take_of_length_le (by rw [hfirst]; omega), hsecond,
        joined_append hfront (by simp), joined_cons (by simp)]
      simp [joined]
    have htext' := htake (hexByte (kept 16 a) ++ hexByte (kept 16 b))
      (hexByte (kept 16 c) ++ hexByte (kept 16 d)) rfl rfl
    rw [← htext']
    simp

/-! ## What is stored -/

/-- The bytes that are stored for a component. -/
def Component.stored : Component → List UInt8
  | .hexPair v => [UInt8.ofNat (kept 16 v)]
  | .part v => [UInt8.ofNat (kept 16 v)]
  | .group v => [UInt8.ofNat (kept 16 v / 256), UInt8.ofNat (kept 16 v % 256)]

/-- The range check, which is only made for decimal numbers. -/
def Component.Passes : Component → Prop
  | .part v => kept 16 v ≤ 255
  | _ => True

/-- The address that is stored for a text: the second group of a dotted quad may have been cut. -/
def Written.address (w : Written) (t : Text) : List UInt8 :=
  match w.family, quadOf t with
  | .ipv6, some [_, _, c, d] =>
      let rest := (kept 16 c * 256 + kept 16 d) / 16 ^ quadCut t
      (w.components.take 8).flatMap Component.stored ++
        [UInt8.ofNat (rest / 256), UInt8.ofNat (rest % 256)]
  | _, _ => w.components.flatMap Component.stored

/-- Which prefix lengths are allowed. -/
def Family.Allows : Family → Option ℕ → Prop
  | .mac, len => len = none
  | .ipv4, len => len.getD 32 ≤ 32
  | .ipv6, len => len.getD 128 ≤ 128

/-- A network of the family. -/
def Family.net : Family → List UInt8 → Option ℕ → Net
  | .mac, address, _ => .mac address
  | .ipv4, address, len => .ipv4 address (len.getD 32)
  | .ipv6, address, len => .ipv6 address (len.getD 128)

lemma kept_lt (w : ℤ) : kept 16 w < 65536 := Nat.mod_lt _ (by decide)

lemma groupBytes_kept (ws : List ℤ) :
    groupBytes (ws.map (kept 16)) = (ws.map Component.group).flatMap Component.stored := by
  simp [groupBytes, List.flatMap_map, Component.stored]

lemma numbers_four {t : Text} {quad : List ℤ} (h : numbers 10 46 4 t = some quad) :
    ∃ a b c d, quad = [a, b, c, d] := by
  have hlength := (length_numerals h).2
  obtain _ | ⟨a, _ | ⟨b, _ | ⟨c, _ | ⟨d, _ | ⟨e, quad⟩⟩⟩⟩⟩ := quad
  all_goals simp at hlength
  exact ⟨a, b, c, d, rfl⟩

/-- An IPv6 address without a dotted quad. -/
lemma ipv6_plain {t : Text} (h : quadOf t = none) :
    ((expandQuad t).bind expandZeros).bind (scanFields shortHex 58 8) =
      ((unelided (t.splitOn 58)).bind (numerals 16 8)).map (List.map (kept 16)) := by
  have hp := pieces_splitOn t
  have ht : t = joined (t.splitOn 58) := (List.intercalate_splitOn 58).symm
  rw [expandQuad_none h, Option.bind_some]
  nth_rewrite 1 [ht]
  rw [expandZeros_joined hp]
  cases hu : unelided (t.splitOn 58) with
  | none => rfl
  | some groups =>
      have hg := pieces_unelided hp hu
      simp only [Option.map_some, Option.bind_some]
      exact scanFields_pieces scan_shortHex (by decide) hg.ne hg.free 7

/-- Two parts with something in them at the end do not change where a double colon is. -/
lemma elision_append {front : List Text} (h : front ≠ []) :
    ∃ e : Option (List Text × List Text), ∀ x y : Text, x ≠ [] → y ≠ [] →
      elision (front ++ [x, y]) = e.map fun (before, behind) => (before, behind ++ [x, y]) := by
  induction front with
  | nil => exact absurd rfl h
  | cons p front ih =>
      cases front with
      | nil =>
          refine ⟨none, fun x y hx hy => ?_⟩
          rw [List.cons_append, List.nil_append, elision, elision]
          · simp [elision]
          · simp
          · exact fun q rest hx' => absurd hx' hx
      | cons q front =>
          by_cases hq : q = []
          · refine ⟨some ([p], front), fun x y _ _ => ?_⟩
            subst hq
            cases front with
            | nil => rfl
            | cons r front => rfl
          · obtain ⟨e, he⟩ := ih (by simp)
            refine ⟨e.map fun (before, behind) => (p :: before, behind), fun x y hx hy => ?_⟩
            have hrest := he x y hx hy
            rw [List.cons_append] at hrest
            rw [List.cons_append, List.cons_append, elision, hrest, Option.map_map, Option.map_map]
            · rfl
            · exact fun r rest hq' => absurd hq' hq

lemma unelided_append {front : List Text} (h : front ≠ []) :
    ∃ u : Option (List Text), ∀ x y : Text, x ≠ [] → y ≠ [] →
      unelided (front ++ [x, y]) = u.map (· ++ [x, y]) := by
  obtain ⟨e, he⟩ := elision_append h
  cases e with
  | none =>
      refine ⟨some front, fun x y hx hy => ?_⟩
      simp [unelided, he x y hx hy]
  | some r =>
      obtain ⟨before, behind⟩ := r
      refine ⟨if 8 ≤ (front.filter (· ≠ [])).length + 2 then none else
        some ((if before.head? = some [] then before.tail else before) ++
          List.replicate (8 - ((front.filter (· ≠ [])).length + 2)) [48] ++ behind),
        fun x y hx hy => ?_⟩
      have hcount : ((front ++ [x, y]).filter (· ≠ [])).length =
          (front.filter (· ≠ [])).length + 2 := by
        simp [hx, hy]
      have hlast : (behind ++ [x, y]).getLast? ≠ some [] := by
        simpa using hy
      rw [unelided, he x y hx hy, hcount]
      simp only [Option.map_some, if_neg hlast]
      split_ifs <;> simp

lemma numerals_append {base : ℕ} {p q : Text} {x y : ℤ} (hp : numeral base p = some x)
    (hq : numeral base q = some y) (n : ℕ) (u : List Text) :
    numerals base (n + 2) (u ++ [p, q]) = (numerals base n u).map (· ++ [x, y]) := by
  unfold numerals
  simp only [List.length_append, List.length_cons, List.length_nil, Nat.add_right_cancel_iff]
  split
  · rw [List.mapM_append]
    cases u.mapM (numeral base) with
    | none => rfl
    | some ws => simp [hp, hq]
  · rfl

lemma colon_notMem_hexByte {n : ℕ} (h : n ≤ 255) : 58 ∉ hexByte n := by
  have hcolon : ∀ d, d < 16 → (58 : UInt8) ≠ digitByte d := by decide
  simp only [hexByte, List.mem_cons, List.not_mem_nil, or_false, not_or]
  exact ⟨hcolon _ (by omega), hcolon _ (by omega)⟩

/-- Groups that end in two that are known. -/
lemma scan_known {front : List Text} (hfree : ∀ p ∈ front, 58 ∉ p) {u : Option (List Text)}
    (hu : ∀ x y : Text, x ≠ [] → y ≠ [] → unelided (front ++ [x, y]) = u.map (· ++ [x, y]))
    {g₁ g₂ : Text} (h₁ : 58 ∉ g₁) (h₂ : 58 ∉ g₂) {x y : ℤ} (hx : numeral 16 g₁ = some x)
    (hy : numeral 16 g₂ = some y) :
    (expandZeros (joined (front ++ [g₁, g₂]))).bind (scanFields shortHex 58 8) =
      (u.bind (numerals 16 6)).map fun groups =>
        groups.map (kept 16) ++ [kept 16 x, kept 16 y] := by
  have hne : ∀ {g : Text} {w : ℤ}, numeral 16 g = some w → g ≠ [] := by
    rintro g w hw rfl
    rw [numeral_nil] at hw
    cases hw
  have hp : Pieces (front ++ [g₁, g₂]) := by
    refine ⟨by simp, fun p hp => ?_⟩
    simp only [List.mem_append, List.mem_cons, List.not_mem_nil, or_false] at hp
    rcases hp with hp | rfl | rfl
    · exact hfree p hp
    · exact h₁
    · exact h₂
  have hgroups := hu g₁ g₂ (hne hx) (hne hy)
  rw [expandZeros_joined hp, hgroups]
  cases u with
  | none => rfl
  | some u =>
      have hg := pieces_unelided hp hgroups
      have hscan := scanFields_pieces scan_shortHex (by decide) hg.ne hg.free 7
      rw [numerals_append hx hy 6 u] at hscan
      simp only [Option.map_some, Option.bind_some]
      refine hscan.trans ?_
      rw [Option.map_map]
      refine congrArg (fun f => Option.map f _) (funext fun groups => ?_)
      simp

lemma kept_group {a b : ℕ} (ha : a ≤ 255) (hb : b ≤ 255) (cut : ℕ) :
    kept 16 (((a * 256 + b) / 16 ^ cut : ℕ) : ℤ) = (a * 256 + b) / 16 ^ cut := by
  have hle := Nat.div_le_self (a * 256 + b) (16 ^ cut)
  exact kept_of_lt (by decide) (by norm_num; omega)

/-- An IPv6 address with a dotted quad. -/
lemma ipv6_quad {t : Text} (ht : t.length ≤ 1023) {a b c d : ℤ}
    (h : quadOf t = some [a, b, c, d]) :
    ∃ u : Option (List ℤ),
      writtenIpv6 t = u.map (fun groups =>
        groups.map .group ++ [a, b, c, d].map .part) ∧
      (∀ groups ∈ u, groups.length = 6) ∧
      ((expandQuad t).bind expandZeros).bind (scanFields shortHex 58 8) =
        if 255 < kept 16 a ∨ 255 < kept 16 b ∨ 255 < kept 16 c ∨ 255 < kept 16 d then none
        else u.map fun groups => groups.map (kept 16) ++
          [kept 16 a * 256 + kept 16 b, (kept 16 c * 256 + kept 16 d) / 16 ^ quadCut t] := by
  obtain ⟨front, last, hfront, hpieces, hquad⟩ := quadOf_some h
  obtain ⟨hcut, hexpand⟩ := expandQuad_some ht hfront hpieces hquad
  obtain ⟨u, hu⟩ := unelided_append hfront
  have hfree : ∀ p ∈ front, 58 ∉ p := fun p hp =>
    notMem_of_mem_splitOn t p (by simp [hpieces, hp])
  have hlast : last ≠ [] := by
    rintro rfl
    simpa using seven_le_length hquad
  refine ⟨u.bind (numerals 16 6), ?_, ?_, ?_⟩
  · unfold writtenIpv6
    simp only [h, hpieces, List.getLastD_concat, List.dropLast_concat]
    rw [hu last last hlast hlast]
    cases u with
    | none => rfl
    | some u =>
        have hdrop : (u ++ [last, last]).dropLast.dropLast = u := by
          rw [List.dropLast_append_of_ne_nil (by simp)]
          simp
        simp only [Option.map_some, Option.bind_eq_bind, Option.bind_some, hdrop]
        cases numerals 16 6 u <;> rfl
  · intro groups hgroups
    obtain ⟨pieces, -, hpieces'⟩ := Option.bind_eq_some_iff.mp hgroups
    exact (length_numerals hpieces').2
  · rw [hexpand]
    split
    · rfl
    · next hsmall =>
      simp only [not_or, not_lt] at hsmall
      obtain ⟨ha, hb, hc, hd⟩ := hsmall
      have hfirst := numeral_hexBytes ha hb (Nat.zero_le 2)
      have hsecond := numeral_hexBytes hc hd hcut
      rw [List.take_of_length_le (by simp [hexByte])] at hfirst
      have hcolon : 58 ∉ (hexByte (kept 16 c) ++ hexByte (kept 16 d)).take (4 - quadCut t) := by
        intro hmem
        rcases List.mem_append.mp (List.mem_of_mem_take hmem) with hmem | hmem
        · exact colon_notMem_hexByte hc hmem
        · exact colon_notMem_hexByte hd hmem
      have hcolon' : 58 ∉ hexByte (kept 16 a) ++ hexByte (kept 16 b) := by
        rw [List.mem_append, not_or]
        exact ⟨colon_notMem_hexByte ha, colon_notMem_hexByte hb⟩
      rw [Option.bind_some, scan_known hfree hu hcolon' hcolon hfirst hsecond]
      rw [kept_group ha hb, kept_group hc hd, pow_zero, Nat.div_one]

/-- Components of a byte each. -/
lemma flatMap_stored {f : ℤ → Component} (hf : ∀ v, (f v).stored = [UInt8.ofNat (kept 16 v)])
    (x : List ℤ) : (x.map f).flatMap Component.stored = (x.map (kept 16)).map UInt8.ofNat := by
  induction x with
  | nil => rfl
  | cons v x ih => simp [hf, ih]

lemma address_plain {t : Text} (h : quadOf t = none) (groups : List ℤ) :
    Written.address ⟨.ipv6, groups.map .group⟩ t = groupBytes (groups.map (kept 16)) := by
  simp only [Written.address, h, groupBytes_kept]

lemma address_quad {t : Text} {a b c d : ℤ} (h : quadOf t = some [a, b, c, d])
    (hb : kept 16 b ≤ 255) {groups : List ℤ} (hgroups : groups.length = 6) :
    Written.address ⟨.ipv6, groups.map .group ++ [a, b, c, d].map .part⟩ t =
      groupBytes (groups.map (kept 16) ++
        [kept 16 a * 256 + kept 16 b, (kept 16 c * 256 + kept 16 d) / 16 ^ quadCut t]) := by
  have htake : (groups.map Component.group ++ [a, b, c, d].map Component.part).take 8 =
      groups.map .group ++ [.part a, .part b] := by
    rw [List.take_append, List.length_map, hgroups, List.take_of_length_le (by simp [hgroups])]
    rfl
  have hbytes : (kept 16 a * 256 + kept 16 b) / 256 = kept 16 a ∧
      (kept 16 a * 256 + kept 16 b) % 256 = kept 16 b := by
    omega
  simp only [Written.address, h, htake]
  rw [groupBytes, List.flatMap_append, List.flatMap_append, ← groupBytes_kept]
  simp [groupBytes, Component.stored, hbytes]

/-- The numbers of an IPv6 address are kept as they are stored. -/
lemma ipv6_iff {t : Text} (ht : t.length ≤ 1023) (address : List UInt8) :
    (((expandQuad t).bind expandZeros).bind (scanFields shortHex 58 8)).map groupBytes =
        some address ↔
      ∃ cs, writtenIpv6 t = some cs ∧ (∀ c ∈ cs, c.Passes) ∧
        address = Written.address ⟨.ipv6, cs⟩ t := by
  cases hquad : quadOf t with
  | none =>
      have hwritten : writtenIpv6 t =
          ((unelided (t.splitOn 58)).bind (numerals 16 8)).map (List.map .group) := by
        unfold writtenIpv6
        simp only [hquad, Option.bind_eq_bind]
        cases unelided (t.splitOn 58) with
        | none => rfl
        | some pieces => cases h : numerals 16 8 pieces <;> simp [h]
      rw [ipv6_plain hquad, hwritten, Option.map_map]
      cases (unelided (t.splitOn 58)).bind (numerals 16 8) with
      | none => simp
      | some groups =>
          simp only [Option.map_some, Function.comp_apply, Option.some.injEq, exists_eq_left',
            address_plain hquad]
          rw [eq_comm, iff_and_self]
          intro _ c hc
          obtain ⟨v, -, rfl⟩ := List.mem_map.mp hc
          trivial
  | some quad =>
      obtain ⟨-, last, -, -, hnumbers⟩ := quadOf_some hquad
      obtain ⟨a, b, c, d, rfl⟩ := numbers_four hnumbers
      obtain ⟨u, hwritten, hsix, hscan⟩ := ipv6_quad ht hquad
      have hpasses : ∀ groups : List ℤ,
          (∀ k ∈ groups.map .group ++ [a, b, c, d].map .part, Component.Passes k) ↔
            kept 16 a ≤ 255 ∧ kept 16 b ≤ 255 ∧ kept 16 c ≤ 255 ∧ kept 16 d ≤ 255 := by
        intro groups
        simp [Component.Passes, or_imp, forall_and]
      rw [hscan, hwritten]
      cases u with
      | none => split <;> simp
      | some groups =>
          simp only [Option.map_some, Option.some.injEq, exists_eq_left', hpasses]
          split
          · next hlarge =>
            simp only [Option.map_none, reduceCtorEq, false_iff, not_and]
            omega
          · next hsmall =>
            simp only [not_or, not_lt] at hsmall
            simp only [Option.map_some, Option.some.injEq,
              address_quad hquad hsmall.2.1 (hsix groups rfl)]
            rw [eq_comm, iff_and_self]
            exact fun _ => hsmall

/-- A text is accepted if it spells an address whose decimal numbers pass the range check. -/
lemma str2address_iff {t : Text} (ht : t.length ≤ 1023) (len : Option ℕ) (net : Net) :
    str2address t len = some net ↔ ∃ w, written t = some w ∧ w.family.Allows len ∧
      (∀ c ∈ w.components, c.Passes) ∧ net = w.family.net (w.address t) len := by
  unfold str2address written
  rw [scanFields_numbers scan_shortHex (by decide), scanFields_numbers scan_shortDec (by decide)]
  cases hmac : numbers 16 58 6 t with
  | some x =>
      have haddress : Written.address ⟨.mac, x.map .hexPair⟩ t =
          (x.map (kept 16)).map UInt8.ofNat := by
        exact flatMap_stored (fun _ => rfl) x
      have hpasses : ∀ c ∈ x.map Component.hexPair, c.Passes := by simp [Component.Passes]
      simp only [Option.map_some, Option.some.injEq, exists_eq_left', haddress, Family.Allows,
        Family.net]
      cases len with
      | none => simpa [eq_comm] using fun _ => hpasses
      | some len => simp
  | none =>
      cases hipv4 : numbers 10 46 4 t with
      | some x =>
          have haddress : Written.address ⟨.ipv4, x.map .part⟩ t =
              (x.map (kept 16)).map UInt8.ofNat := by
            exact flatMap_stored (fun _ => rfl) x
          have hpasses : (∀ c ∈ x.map Component.part, c.Passes) ↔
              ¬ (x.map (kept 16)).any (255 < ·) := by
            simp [Component.Passes]
          simp only [Option.map_some, Option.map_none, Option.some.injEq, exists_eq_left',
            haddress, Family.Allows, Family.net, hpasses]
          split
          · next h =>
            simp only [reduceCtorEq, false_iff]
            rintro ⟨hlen, hsmall, -⟩
            rcases h with h | h
            · omega
            · exact hsmall h
          · next h =>
            rw [not_or, not_lt] at h
            rw [Option.some.injEq, eq_comm]
            exact ⟨fun hnet => ⟨h.1, h.2, hnet⟩, fun hnet => hnet.2.2⟩
      | none =>
          have hread : ((expandQuad t).bind fun str => (expandZeros str).bind fun str =>
              (scanFields shortHex 58 8 str).bind fun x =>
                if 128 < len.getD 128 then none
                else some (Net.ipv6 (groupBytes x) (len.getD 128))) =
              ((((expandQuad t).bind expandZeros).bind (scanFields shortHex 58 8)).map
                groupBytes).bind fun address =>
                  if 128 < len.getD 128 then none else some (.ipv6 address (len.getD 128)) := by
            rw [Option.bind_map, Option.bind_assoc, Option.bind_assoc]
            rfl
          simp only [Option.map_none, Option.bind_eq_bind]
          rw [hread, Option.bind_eq_some_iff]
          simp only [ipv6_iff ht]
          constructor
          · rintro ⟨_, ⟨cs, hcs, hpasses, rfl⟩, hnet⟩
            split at hnet
            · cases hnet
            · next hlen =>
              exact ⟨⟨.ipv6, cs⟩, by rw [hcs]; rfl, not_lt.mp hlen, hpasses,
                (Option.some.inj hnet).symm⟩
          · rintro ⟨w, hw, hlen, hpasses, rfl⟩
            obtain ⟨cs, hcs, rfl⟩ := Option.map_eq_some_iff.mp hw
            exact ⟨_, ⟨cs, hcs, hpasses, rfl⟩, if_neg (not_lt.mpr hlen)⟩

/-! ## The numbers of a subnet -/

/-- The address part of a subnet, before its prefix length and weight. -/
def addressText (t : Text) : Text := (t.takeWhile (· ≠ 35)).takeWhile (· ≠ 47)

/-- The prefix length of a subnet whose weight and prefix length are numbers. -/
def prefixLength (t : Text) : Option (Option ℕ) := do
  let (str, _) ← cutInt 35 t
  let (_, prefixlength) ← cutInt 47 str
  if prefixlength.any (· < 0) then none else some (prefixlength.map Int.toNat)

/-- `str2net` takes the text for that of the address. -/
structure ReadAs (subnetstr : Text) (w : Written) : Prop where
  room : FitsArray subnetstr
  spells : written (addressText ((cstr subnetstr).take 1023)) = some w
  suffix : ∃ len, prefixLength ((cstr subnetstr).take 1023) = some len ∧ w.family.Allows len
  passes : ∀ c ∈ w.components, c.Passes

/-- The kind and the bytes of the address of a network. -/
def Net.family : Net → Family
  | .mac _ => .mac
  | .ipv4 _ _ => .ipv4
  | .ipv6 _ _ => .ipv6

def Net.bytes : Net → List UInt8
  | .mac address => address
  | .ipv4 address _ => address
  | .ipv6 address _ => address

/-- `str2net` changes no number: what it stores is what the text spells, and it refuses a text with
a number that does not fit. -/
def NumbersKept (subnetstr : Text) : Prop :=
  (∀ s, str2netIn subnetstr = .ok s →
    ∃ w, written (addressText (cstr subnetstr)) = some w ∧ s.net.family = w.family ∧
      Stores w.components s.net.bytes) ∧
  ∀ w, written (addressText (cstr subnetstr)) = some w → (∃ c ∈ w.components, ¬ c.Fits) →
    ∀ s, str2netIn subnetstr ≠ .ok s

/-- All digits of a dotted quad fit into the array once it is written as two groups, or the digits
that do not are zeros. -/
def QuadFits (t : Text) : Prop :=
  ∀ a b c d, quadOf t = some [a, b, c, d] →
    t.length + 9 ≤ 1023 + ((t.splitOn 58).getLastD []).length ∨ (c = 0 ∧ d = 0)

/-- What is read from the text is what the text spells. -/
def Kept (subnetstr : Text) (w : Written) : Prop :=
  let t := addressText (cstr subnetstr)
  if t.length ≤ 1023 then (∀ c ∈ w.components, c.Fits) ∧ (w.family = .ipv6 → QuadFits t)
  else
    ∃ w', written t = some w' ∧ w'.family = w.family ∧
      Stores w'.components (w.address (t.take 1023))

lemma takeWhile_take {α : Type*} (p : α → Bool) (n : ℕ) (l : List α) :
    (l.take n).takeWhile p = (l.takeWhile p).take n := by
  induction l generalizing n with
  | nil => simp
  | cons a l ih =>
      cases n with
      | zero => simp
      | succ n =>
          rw [List.take_succ_cons, List.takeWhile_cons, List.takeWhile_cons, ih]
          split <;> simp

lemma addressText_take (n : ℕ) (t : Text) :
    addressText (t.take n) = (addressText t).take n := by
  rw [addressText, takeWhile_take, takeWhile_take, addressText]

lemma cutInt_fst {sep : UInt8} {t str : Text} {n : Option ℤ} (h : cutInt sep t = some (str, n)) :
    str = t.takeWhile (· ≠ sep) := by
  unfold cutInt at h
  dsimp only at h
  split at h
  · exact (Prod.mk.inj (Option.some.inj h)).1.symm
  · obtain ⟨m, -, heq⟩ := Option.map_eq_some_iff.mp h
    exact (Prod.mk.inj heq).1.symm

/-- The suffixes are read first, and then the address. -/
lemma str2net_iff (t : Text) (net : Net) :
    (∃ s, str2net t = some s ∧ s.net = net) ↔
      ∃ len, prefixLength (t.take 1023) = some len ∧
        str2address (addressText (t.take 1023)) len = some net := by
  unfold str2net prefixLength addressText
  simp only [Option.bind_eq_bind]
  cases hweight : cutInt 35 (t.take 1023) with
  | none => simp
  | some r =>
      obtain ⟨str, weight⟩ := r
      obtain rfl := cutInt_fst hweight
      simp only [Option.bind_some]
      cases hlen : cutInt 47 ((t.take 1023).takeWhile (· ≠ 35)) with
      | none => simp
      | some r =>
          obtain ⟨str, len⟩ := r
          obtain rfl := cutInt_fst hlen
          simp only [Option.bind_some]
          split
          · simp
          · simp only [Option.some.injEq, exists_eq_left', Option.bind_eq_some_iff]
            constructor
            · rintro ⟨s, ⟨net', hnet, rfl⟩, rfl⟩
              exact hnet
            · exact fun hnet => ⟨_, ⟨net, hnet, rfl⟩, rfl⟩

lemma family_net (f : Family) (address : List UInt8) (len : Option ℕ) :
    (f.net address len).family = f ∧ (f.net address len).bytes = address := by
  cases f <;> exact ⟨rfl, rfl⟩

/-- **A subnet is read exactly from a text that is taken for one.** -/
lemma readAs_of_read {subnetstr : Text} {s : Subnet} (h : str2netIn subnetstr = .ok s) :
    ∃ w, ReadAs subnetstr w ∧ s.net.family = w.family ∧
      s.net.bytes = w.address (addressText ((cstr subnetstr).take 1023)) := by
  have hroom : FitsArray subnetstr := by
    refine (str2net_inside_iff subnetstr).1.mp ?_
    rw [h]
    simp
  have hread : str2net (cstr subnetstr) = some s := by
    rw [(str2netIn_eq subnetstr).1 hroom] at h
    cases hs : str2net (cstr subnetstr) with
    | none =>
        rw [hs] at h
        cases h
    | some s' =>
        rw [hs] at h
        exact congrArg some (Except.ok.inj h)
  obtain ⟨len, hlen, haddress⟩ := (str2net_iff _ _).mp ⟨s, hread, rfl⟩
  have hlength : (addressText ((cstr subnetstr).take 1023)).length ≤ 1023 := by
    rw [addressText_take, List.length_take]
    omega
  obtain ⟨w, hw, hallows, hpasses, hnet⟩ := (str2address_iff hlength len s.net).mp haddress
  obtain ⟨hfamily, hbytes⟩ := family_net w.family
    (w.address (addressText ((cstr subnetstr).take 1023))) len
  exact ⟨w, ⟨hroom, hw, ⟨len, hlen, hallows⟩, hpasses⟩, hnet ▸ hfamily, hnet ▸ hbytes⟩

lemma read_of_readAs {subnetstr : Text} {w : Written} (h : ReadAs subnetstr w) :
    ∃ s, str2netIn subnetstr = .ok s ∧ s.net.family = w.family ∧
      s.net.bytes = w.address (addressText ((cstr subnetstr).take 1023)) := by
  obtain ⟨len, hlen, hallows⟩ := h.suffix
  have hlength : (addressText ((cstr subnetstr).take 1023)).length ≤ 1023 := by
    rw [addressText_take, List.length_take]
    omega
  have haddress := (str2address_iff hlength len _).mpr ⟨w, h.spells, hallows, h.passes, rfl⟩
  obtain ⟨s, hread, hnet⟩ := (str2net_iff _ _).mpr ⟨len, hlen, haddress⟩
  obtain ⟨hfamily, hbytes⟩ := family_net w.family
    (w.address (addressText ((cstr subnetstr).take 1023))) len
  refine ⟨s, ?_, hnet ▸ hfamily, hnet ▸ hbytes⟩
  rw [(str2netIn_eq subnetstr).1 h.room, hread]
  rfl

lemma kept_nat {n : ℕ} (h : n < 65536) : kept 16 n = n := kept_of_lt (by decide) h

lemma toNat_ofNat (n : ℕ) : (UInt8.ofNat n).toNat = n % 256 := rfl

lemma eq_byte_iff (v : ℤ) : v = (UInt8.ofNat (kept 16 v)).toNat ↔ 0 ≤ v ∧ v ≤ 255 := by
  rw [toNat_ofNat]
  constructor
  · omega
  · rintro ⟨hpos, hle⟩
    obtain ⟨n, rfl⟩ := Int.eq_ofNat_of_zero_le hpos
    rw [kept_nat (by omega)]
    omega

lemma eq_group_iff (v : ℤ) :
    v = (UInt8.ofNat (kept 16 v / 256)).toNat * 256 + (UInt8.ofNat (kept 16 v % 256)).toNat ↔
      0 ≤ v ∧ v ≤ 0xffff := by
  have hlt := kept_lt v
  rw [toNat_ofNat, toNat_ofNat]
  constructor
  · omega
  · rintro ⟨hpos, hle⟩
    obtain ⟨n, rfl⟩ := Int.eq_ofNat_of_zero_le hpos
    rw [kept_nat (by omega)]
    omega

/-- What is stored for components is what was written if they fit, and only then. -/
lemma stores_stored (cs cs' : List Component) (address : List UInt8) :
    Stores (cs ++ cs') (cs.flatMap Component.stored ++ address) ↔
      (∀ c ∈ cs, c.Fits) ∧ Stores cs' address := by
  induction cs with
  | nil => simp
  | cons c cs ih =>
      rw [List.flatMap_cons, List.cons_append, List.append_assoc, List.forall_mem_cons, and_assoc,
        ← ih]
      cases c with
      | hexPair v => exact and_congr_left fun _ => eq_byte_iff v
      | part v => exact and_congr_left fun _ => eq_byte_iff v
      | group v => exact and_congr_left fun _ => eq_group_iff v

lemma fits_of_stores {cs : List Component} {address : List UInt8} (h : Stores cs address) :
    ∀ c ∈ cs, c.Fits := by
  have hbyte : ∀ a : UInt8, a.toNat ≤ 255 := fun a => Nat.le_of_lt_succ a.toNat_lt
  induction cs generalizing address with
  | nil => simp
  | cons c cs ih =>
      rw [List.forall_mem_cons]
      cases c with
      | hexPair v =>
          cases address with
          | nil => exact h.elim
          | cons a address =>
              have := hbyte a
              exact ⟨by rw [h.1]; exact ⟨by omega, by omega⟩, ih h.2⟩
      | part v =>
          cases address with
          | nil => exact h.elim
          | cons a address =>
              have := hbyte a
              exact ⟨by rw [h.1]; exact ⟨by omega, by omega⟩, ih h.2⟩
      | group v =>
          obtain _ | ⟨a, _ | ⟨b, address⟩⟩ := address
          · exact h.elim
          · exact h.elim
          · have := hbyte a
            have := hbyte b
            exact ⟨by rw [h.1]; exact ⟨by omega, by omega⟩, ih h.2⟩

/-- Two bytes of which the last digits are cut off. -/
lemma eq_cut_iff {c d : ℤ} (hc : kept 16 c ≤ 255) (hd : kept 16 d ≤ 255) {cut : ℕ}
    (hcut : cut ≤ 2) :
    Stores [.part c, .part d] [UInt8.ofNat ((kept 16 c * 256 + kept 16 d) / 16 ^ cut / 256),
        UInt8.ofNat ((kept 16 c * 256 + kept 16 d) / 16 ^ cut % 256)] ↔
      ((0 ≤ c ∧ c ≤ 255) ∧ 0 ≤ d ∧ d ≤ 255) ∧ (cut = 0 ∨ c = 0 ∧ d = 0) := by
  have hkept : ∀ v : ℤ, 0 ≤ v → v ≤ 255 → (kept 16 v : ℤ) = v := by
    intro v hpos hle
    obtain ⟨n, rfl⟩ := Int.eq_ofNat_of_zero_le hpos
    rw [kept_nat (by omega)]
  have hstores : Stores [.part c, .part d]
      [UInt8.ofNat ((kept 16 c * 256 + kept 16 d) / 16 ^ cut / 256),
        UInt8.ofNat ((kept 16 c * 256 + kept 16 d) / 16 ^ cut % 256)] ↔
      c = ((kept 16 c * 256 + kept 16 d) / 16 ^ cut / 256 % 256 : ℕ) ∧
        d = ((kept 16 c * 256 + kept 16 d) / 16 ^ cut % 256 % 256 : ℕ) := by
    simp [Stores]
  rw [hstores]
  clear hstores
  constructor
  · rintro ⟨hc', hd'⟩
    have hle := Nat.div_le_self (kept 16 c * 256 + kept 16 d) (16 ^ cut)
    have hm := hkept c (by omega) (by omega)
    have hn := hkept d (by omega) (by omega)
    refine ⟨⟨⟨by omega, by omega⟩, by omega, by omega⟩, ?_⟩
    have hrest : (kept 16 c * 256 + kept 16 d) / 16 ^ cut = kept 16 c * 256 + kept 16 d := by
      generalize (kept 16 c * 256 + kept 16 d) / 16 ^ cut = rest at hc' hd' hle ⊢
      omega
    clear hc' hd' hle
    interval_cases cut
    · exact .inl rfl
    · rw [show (16 : ℕ) ^ 1 = 16 from rfl] at hrest
      exact .inr (by omega)
    · rw [show (16 : ℕ) ^ 2 = 256 from rfl] at hrest
      exact .inr (by omega)
  · rintro ⟨⟨hc', hd'⟩, hzero⟩
    have hm := hkept c hc'.1 hc'.2
    have hn := hkept d hd'.1 hd'.2
    rcases hzero with rfl | ⟨rfl, rfl⟩
    · rw [pow_zero, Nat.div_one]
      omega
    · have hzero : kept 16 0 = 0 := by omega
      simp [hzero]

lemma quadCut_eq_zero_iff (t : Text) :
    quadCut t = 0 ↔ t.length + 9 ≤ 1023 + ((t.splitOn 58).getLastD []).length := by
  have hle : ((t.splitOn 58).getLastD []).length ≤ t.length := by
    have ht : joined (t.splitOn 58) = t := List.intercalate_splitOn 58
    obtain ⟨front, last, hpieces⟩ :=
      List.eq_nil_or_concat (t.splitOn 58) |>.resolve_left (List.splitOn_ne_nil 58 t)
    rw [List.concat_eq_append] at hpieces
    rw [hpieces] at ht ⊢
    rw [List.getLastD_concat, ← ht]
    by_cases hfront : front = []
    · simp [hfront, joined]
    · rw [joined_append hfront (by simp)]
      simp only [joined, List.intercalate_singleton, List.length_append, List.length_cons]
      omega
  unfold quadCut
  omega

lemma writtenIpv6_of_written {t : Text} {w : Written} (h : written t = some w)
    (hfamily : w.family = .ipv6) : writtenIpv6 t = some w.components := by
  unfold written at h
  split at h
  · obtain rfl := Option.some.inj h
    cases hfamily
  · split at h
    · obtain rfl := Option.some.inj h
      cases hfamily
    · obtain ⟨cs, hcs, rfl⟩ := Option.map_eq_some_iff.mp h
      exact hcs

/-- It is stored what is written exactly if the numbers fit. -/
lemma stores_address {t : Text} {w : Written} (ht : t.length ≤ 1023) (hw : written t = some w)
    (hpasses : ∀ c ∈ w.components, c.Passes) :
    Stores w.components (w.address t) ↔
      (∀ c ∈ w.components, c.Fits) ∧ (w.family = .ipv6 → QuadFits t) := by
  have hplain := stores_stored w.components [] []
  simp only [List.append_nil, Stores, and_true] at hplain
  cases hfamily : w.family with
  | mac => simpa [Written.address, hfamily] using hplain
  | ipv4 => simpa [Written.address, hfamily] using hplain
  | ipv6 =>
      cases hquad : quadOf t with
      | none => simpa [Written.address, hfamily, hquad, QuadFits] using hplain
      | some quad =>
          obtain ⟨front, last, hfront, hpieces, hnumbers⟩ := quadOf_some hquad
          obtain ⟨a, b, c, d, rfl⟩ := numbers_four hnumbers
          obtain ⟨u, hwritten, hsix, -⟩ := ipv6_quad ht hquad
          obtain ⟨hcut, -⟩ := expandQuad_some ht hfront hpieces hnumbers
          rw [writtenIpv6_of_written hw hfamily] at hwritten
          obtain ⟨groups, rfl, hcs⟩ := Option.map_eq_some_iff.mp hwritten.symm
          have hsplit : w.components =
              (groups.map .group ++ [.part a, .part b]) ++ [.part c, .part d] := by
            rw [← hcs]
            simp
          have hlength :
              (groups.map Component.group ++ [Component.part a, .part b]).length = 8 := by
            simp [hsix groups rfl]
          have hpart : ∀ v, Component.part v ∈ w.components → kept 16 v ≤ 255 :=
            fun v hv => hpasses _ hv
          have hfits : QuadFits t ↔ quadCut t = 0 ∨ (c = 0 ∧ d = 0) := by
            have hroom := quadCut_eq_zero_iff t
            constructor
            · exact fun h => (h a b c d hquad).imp_left hroom.mpr
            · intro h a' b' c' d' hquad'
              obtain ⟨-, -, rfl, rfl⟩ : _ ∧ _ ∧ c = c' ∧ d = d' := by
                simpa using hquad.symm.trans hquad'
              exact h.imp_left hroom.mp
          simp only [Written.address, hfamily, hquad, true_imp_iff, hfits]
          rw [hsplit, List.take_left' hlength, stores_stored,
            eq_cut_iff (hpart c (by simp [hsplit])) (hpart d (by simp [hsplit])) hcut]
          simp [or_imp, forall_and, Component.Fits, and_assoc]

/-- **When a subnet keeps the numbers of its text.** -/
theorem numbers_kept_iff (subnetstr : Text) :
    NumbersKept subnetstr ↔ ∀ w, ReadAs subnetstr w → Kept subnetstr w := by
  constructor
  · rintro ⟨hkept, -⟩ w hw
    obtain ⟨s, hread, hfamily, hbytes⟩ := read_of_readAs hw
    obtain ⟨w', hw', hfamily', hstores⟩ := hkept s hread
    rw [hbytes] at hstores
    unfold Kept
    dsimp only
    have hspells := hw.spells
    rw [addressText_take] at hstores hspells
    split
    · next hlength =>
      rw [List.take_of_length_le hlength] at hstores hspells
      obtain rfl : w' = w := Option.some.inj (hw'.symm.trans hspells)
      exact (stores_address hlength hspells hw.passes).mp hstores
    · exact ⟨w', hw', hfamily'.symm.trans hfamily, hstores⟩
  · intro h
    have hkept : ∀ s, str2netIn subnetstr = .ok s →
        ∃ w, written (addressText (cstr subnetstr)) = some w ∧ s.net.family = w.family ∧
          Stores w.components s.net.bytes := by
      intro s hread
      obtain ⟨w, hw, hfamily, hbytes⟩ := readAs_of_read hread
      have hkept := h w hw
      have hspells := hw.spells
      unfold Kept at hkept
      dsimp only at hkept
      rw [addressText_take] at hbytes hspells
      split at hkept
      · next hlength =>
        rw [List.take_of_length_le hlength] at hbytes hspells
        exact ⟨w, hspells, hfamily, hbytes ▸ (stores_address hlength hspells hw.passes).mpr hkept⟩
      · obtain ⟨w', hw', hfamily', hstores⟩ := hkept
        exact ⟨w', hw', hfamily.trans hfamily'.symm, hbytes ▸ hstores⟩
    refine ⟨hkept, ?_⟩
    rintro w hw ⟨c, hc, hfits⟩ s hread
    obtain ⟨w', hw', -, hstores⟩ := hkept s hread
    obtain rfl : w' = w := Option.some.inj (hw'.symm.trans hw)
    exact hfits (fits_of_stores hstores c hc)

/-- The first part of this MAC address does not fit into a byte, and becomes zero. -/
theorem number_wraps : ¬ NumbersKept (ascii "100:0:0:0:0:0") := by
  rintro ⟨-, h⟩
  have hnumbers : numbers 16 58 6 (ascii "100:0:0:0:0:0") = some [256, 0, 0, 0, 0, 0] := by decide
  have hwritten : written (ascii "100:0:0:0:0:0") =
      some ⟨.mac, [256, 0, 0, 0, 0, 0].map .hexPair⟩ := by
    rw [written, hnumbers]
  have hread : str2netIn (ascii "100:0:0:0:0:0") =
      .ok ⟨none, .mac [0, 0, 0, 0, 0, 0], defaultWeight, 0⟩ := by
    decide +kernel
  exact h _ hwritten ⟨.hexPair 256, by simp, by simp [Component.Fits]⟩ _ hread

end Tinc
