import TincQuic.Daemon.SubnetText
import TincQuic.Lib.CBuffer

/-!
# `str2net` and `net2str` in their buffers

`str2net` works in a local array of 1024 bytes, which it changes in place, and `net2str` prints
piece by piece into the array it is given.  Here every access to these arrays is checked.

* `str2netIn` is `str2net` with its array; it ends with `outside` at the first access outside of
  it.
* `FitsArray` says that the array has room for the expansion of a double colon.
  **`str2net_inside_iff`: `str2net` stays inside its array exactly then**, and `str2netIn_eq` says
  that it then computes what the model on texts computes.
* `net2strIn` is `net2str` with the array of its caller; `net2strIn_print` says what it holds in
  the end.
* **`net2str_round_trip`**: `str2net` undoes `net2str`.
-/

namespace Tinc

open Bytes CText CBuffer Comparison

/-! ## `str2net` -/

/-- Why `str2net` ends without a subnet. -/
inductive Stop where
  /-- A position outside the array is read or written. -/
  | outside
  /-- The text is not that of a subnet. -/
  | rejected
  deriving DecidableEq

/-- An access to the array. -/
def inside {α : Type} : Option α → Except Stop α
  | none => .error .outside
  | some a => .ok a

/-- A condition of the grammar. -/
def accepted {α : Type} : Option α → Except Stop α
  | none => .error .rejected
  | some a => .ok a

/-- The number behind a separator; the string is cut before the separator. -/
def cutIntIn (separator : UInt8) (str : List UInt8) : Except Stop (List UInt8 × Option ℤ) := do
  let text ← inside (string str 0)
  let k := (text.takeWhile (· ≠ separator)).length
  if k = text.length then pure (str, none)
  else
    let rest ← inside (string str (k + 1))
    let n ← accepted (scanWholeInt rest)
    let str ← inside (store str k [0])
    pure (str, some n)

/-- The dotted quad behind the last colon, written over as two groups. -/
def expandQuadIn (str : List UInt8) : Except Stop (List UInt8) := do
  let text ← inside (string str 0)
  match splitLastColon text with
  | none => pure str
  | some (before, _) =>
      let lastColon ← inside (string str before.length)
      match scanFields shortDec 46 4 lastColon.tail with
      | some [a, b, c, d] =>
          if 255 < a ∨ 255 < b ∨ 255 < c ∨ 255 < d then .error .rejected
          else
            inside (snprintf str before.length (str.length - before.length)
              (58 :: hexByte a ++ hexByte b ++ 58 :: hexByte c ++ hexByte d))
      | _ => pure str

/-- A leading colon is moved over. -/
def dropLeadingColon (str : List UInt8) : Except Stop (List UInt8) := do
  let first ← inside str[0]?
  if first = 58 then
    let rest ← inside (string str 1)
    inside (memmove str 0 1 (rest.length + 1))
  else pure str

/-- A trailing colon is cut off. -/
def dropTrailingColon (str : List UInt8) : Except Stop (List UInt8) := do
  let text ← inside (string str 0)
  let last ← inside (if text.length = 0 then none else str[text.length - 1]?)
  if last = 58 then inside (store str (text.length - 1) [0]) else pure str

/-- The double colon expanded in place. -/
def expandZerosIn (str : List UInt8) : Except Stop (List UInt8) := do
  let text ← inside (string str 0)
  match splitDoubleColon text with
  | none => pure str
  | some (before, _) =>
      let zeroGroupCount := 8 - countGroups text
      if 8 < countGroups text + 1 then .error .rejected
      else
        let doubleColon := before.length + 1
        let rest ← inside (string str doubleColon)
        let str ← inside
          (memmove str (doubleColon + (zeroGroupCount * 2 - 1)) doubleColon (rest.length + 1))
        let str ← inside
          ((List.range zeroGroupCount).foldlM
            (fun str i => store str (doubleColon + i * 2) [48, 58]) str)
        let str ← dropLeadingColon str
        dropTrailingColon str

/-- The address that the array holds. -/
def str2addressIn (str : List UInt8) (prefixlength : Option ℕ) : Except Stop Net := do
  let text ← inside (string str 0)
  match scanFields shortHex 58 6 text with
  | some x => if prefixlength.isSome then .error .rejected else pure (.mac (x.map UInt8.ofNat))
  | none =>
      match scanFields shortDec 46 4 text with
      | some x =>
          if 32 < prefixlength.getD 32 ∨ x.any (255 < ·) then .error .rejected
          else pure (.ipv4 (x.map UInt8.ofNat) (prefixlength.getD 32))
      | none =>
          let str ← expandQuadIn str
          let str ← expandZerosIn str
          let text ← inside (string str 0)
          let x ← accepted (scanFields shortHex 58 8 text)
          if 128 < prefixlength.getD 128 then .error .rejected
          else pure (.ipv6 (groupBytes x) (prefixlength.getD 128))

/-- `str2net` with its array of 1024 bytes. -/
def str2netIn (subnetstr : Text) : Except Stop Subnet := do
  let str ← inside (store (strncpy 1024 subnetstr) 1023 [0])
  let (str, weight) ← cutIntIn 35 str
  let (str, prefixlength) ← cutIntIn 47 str
  if prefixlength.any (· < 0) then .error .rejected
  else
    let net ← str2addressIn str (prefixlength.map Int.toNat)
    pure { owner := none, net := net, weight := weight.getD defaultWeight, expires := 0 }

/-! ## The stages -/

@[simp] lemma inside_some {α : Type} (a : α) : inside (some a) = .ok a := rfl

@[simp] lemma inside_none {α : Type} : inside (none : Option α) = .error .outside := rfl

@[simp] lemma accepted_some {α : Type} (a : α) : accepted (some a) = .ok a := rfl

@[simp] lemma accepted_none {α : Type} : accepted (none : Option α) = .error .rejected := rfl

@[simp] lemma ok_bind {α β : Type} (a : α) (f : α → Except Stop β) : (.ok a >>= f) = f a := rfl

@[simp] lemma error_bind {α β : Type} (e : Stop) (f : α → Except Stop β) :
    (.error e >>= f) = .error e := rfl

/-- The array holds what the stage of `str2net` returns. -/
def Tracks (r : Except Stop (List UInt8)) (size : ℕ) : Option Text → Prop
  | none => r = .error .rejected
  | some t => ∃ b, r = .ok b ∧ Holds b t ∧ b.length = size

variable {b : List UInt8} {t : Text}

/-- The text before the separator, and the number behind it. -/
lemma cutIntIn_holds (sep : UInt8) (h : Holds b t) :
    (cutInt sep t = none ∧ cutIntIn sep b = .error .rejected) ∨
    ∃ t' n b', cutInt sep t = some (t', n) ∧ cutIntIn sep b = .ok (b', n) ∧ Holds b' t' ∧
      b'.length = b.length := by
  have htake : t.take (t.takeWhile (· ≠ sep)).length = t.takeWhile (· ≠ sep) :=
    (List.prefix_iff_eq_take.mp (List.takeWhile_prefix _)).symm
  have hle : (t.takeWhile (· ≠ sep)).length ≤ t.length := (List.takeWhile_prefix _).length_le
  unfold cutIntIn cutInt
  rw [h.string (Nat.zero_le _)]
  simp only [List.drop_zero, inside_some, ok_bind]
  generalize hk : (t.takeWhile (· ≠ sep)).length = k at htake hle
  by_cases hend : k = t.length
  · right
    refine ⟨t, none, b, ?_, by rw [if_pos hend]; rfl, h, rfl⟩
    rw [hend, List.take_length] at htake
    rw [hend, List.drop_length, ← htake]
  · obtain ⟨c, rest, hrest⟩ : ∃ c rest, t.drop k = c :: rest :=
      List.exists_cons_of_ne_nil (by rw [Ne, List.drop_eq_nil_iff]; omega)
    have htail : t.drop (k + 1) = rest := by rw [← List.drop_drop, hrest]; rfl
    obtain ⟨b', hstore, hholds, hlength⟩ := h.cut hle
    rw [if_neg hend, h.string (show k + 1 ≤ t.length by omega), htail, hrest]
    simp only [inside_some, ok_bind]
    cases hn : scanWholeInt rest with
    | none => exact .inl ⟨rfl, rfl⟩
    | some n =>
        right
        rw [htake] at hholds
        refine ⟨_, some n, b', rfl, ?_, hholds, hlength⟩
        rw [hstore]
        rfl

lemma splitLastColon_take {before fromColon : Text}
    (h : splitLastColon t = some (before, fromColon)) :
    before.length ≤ t.length ∧ t.take before.length = before ∧
      t.drop before.length = fromColon := by
  rw [splitLastColon] at h
  split at h
  · cases h
  · obtain ⟨rfl, rfl⟩ := Prod.mk.inj (Option.some.inj h)
    rw [List.length_take, Nat.min_eq_left (by omega)]
    exact ⟨by omega, rfl, rfl⟩

lemma zero_notMem_hexByte {n : ℕ} (h : n ≤ 255) : 0 ∉ hexByte n := by
  intro hmem
  exact absurd ((word_hexByte (show n < 256 by omega)).digits 0 hmem) (by decide)

/-- The quad is printed over the text behind the last colon. -/
lemma expandQuadIn_holds (h : Holds b t) (hb : b.length = 1024) :
    Tracks (expandQuadIn b) 1024 (expandQuad t) := by
  unfold expandQuadIn expandQuad
  rw [h.string (Nat.zero_le _)]
  simp only [List.drop_zero, inside_some, ok_bind]
  cases hsplit : splitLastColon t with
  | none => exact ⟨b, rfl, h, hb⟩
  | some r =>
      obtain ⟨before, fromColon⟩ := r
      obtain ⟨hle, htake, hdrop⟩ := splitLastColon_take hsplit
      have hlt := h.length_lt
      simp only [h.string hle, hdrop, inside_some, ok_bind]
      split
      · rename_i x y z w hscan
        by_cases hbytes : 255 < x ∨ 255 < y ∨ 255 < z ∨ 255 < w
        · simp only [hscan, if_pos hbytes]
          rfl
        · simp only [hscan, if_neg hbytes]
          have hzero : 0 ∉ 58 :: hexByte x ++ hexByte y ++ 58 :: hexByte z ++ hexByte w := by
            simp only [List.mem_append, List.mem_cons, not_or]
            exact ⟨⟨⟨⟨by decide, zero_notMem_hexByte (by omega)⟩, zero_notMem_hexByte (by omega)⟩,
              by decide, zero_notMem_hexByte (by omega)⟩, zero_notMem_hexByte (by omega)⟩
          obtain ⟨b', hprint, hholds, hlength⟩ := h.snprintf hle
            (show 0 < b.length - before.length by omega) (by omega) hzero
          refine ⟨b', by rw [hprint]; rfl, ?_, hlength.trans hb⟩
          have hcut : (before ++ (58 :: hexByte x ++ hexByte y ++ 58 :: hexByte z ++
              hexByte w)).take 1023 = before ++ (58 :: hexByte x ++ hexByte y ++ 58 :: hexByte z ++
              hexByte w).take (b.length - before.length - 1) := by
            rw [List.take_append, List.take_of_length_le (by omega),
              show 1023 - before.length = b.length - before.length - 1 by omega]
          rw [htake, ← hcut] at hholds
          simpa using hholds
      · rename_i hno
        -- the same `match` stands on both sides, and `split` may have taken both
        first
          | exact ⟨b, rfl, h, hb⟩
          | split
            · rename_i x y z w hscan
              exact absurd hscan (hno x y z w)
            · exact ⟨b, rfl, h, hb⟩

lemma dropLeadingColon_holds (h : Holds b t) (hne : t ≠ []) :
    ∃ b', dropLeadingColon b = .ok b' ∧
      Holds b' (if t.head? = some 58 then t.tail else t) ∧ b'.length = b.length := by
  obtain ⟨c, t, rfl⟩ := List.exists_cons_of_ne_nil hne
  have hfirst : b[0]? = some c := by rw [h.getElem? (by simp)]; rfl
  unfold dropLeadingColon
  rw [hfirst]
  simp only [inside_some, ok_bind, List.head?_cons, Option.some.injEq, List.tail_cons]
  split
  · obtain ⟨b', hmove, hholds, hlength⟩ := h.shiftLeft
    rw [h.string (show 1 ≤ (c :: t).length by simp)]
    exact ⟨b', by simpa using congrArg inside hmove, hholds, hlength⟩
  · exact ⟨b, rfl, h, rfl⟩

lemma dropTrailingColon_holds (h : Holds b t) (hne : t ≠ []) :
    ∃ b', dropTrailingColon b = .ok b' ∧
      Holds b' (if t.getLast? = some 58 then t.dropLast else t) ∧ b'.length = b.length := by
  have hpos : 0 < t.length := List.length_pos_of_ne_nil hne
  have hlast : b[t.length - 1]? = t.getLast? := by
    rw [h.getElem? (by omega), List.getLast?_eq_getElem?]
  have hc := List.getLast?_eq_some_getLast hne
  unfold dropTrailingColon
  rw [h.string (Nat.zero_le _)]
  simp only [List.drop_zero, inside_some, ok_bind, if_neg (Nat.ne_of_gt hpos), hlast, hc,
    Option.some.injEq]
  split
  · obtain ⟨b', hstore, hholds, hlength⟩ := h.cut (Nat.sub_le t.length 1)
    rw [← List.dropLast_eq_take] at hholds
    exact ⟨b', by rw [hstore]; rfl, hholds, hlength⟩
  · exact ⟨b, rfl, h, rfl⟩

/-! ## The expansion of the double colon -/

/-- Two bytes for each group that the double colon stands for fit behind the text. -/
def Roomy (t : Text) : Prop :=
  (splitDoubleColon t).isSome → countGroups t < 8 → t.length + 2 * (8 - countGroups t) ≤ 1024

lemma splitDoubleColon_some : ∀ {t before rest : Text},
    splitDoubleColon t = some (before, rest) → t = before ++ 58 :: 58 :: rest
  | [], _, _, h => by simp [splitDoubleColon] at h
  | [_], _, _, h => by simp [splitDoubleColon] at h
  | c :: c' :: t, before, rest, h => by
      rw [splitDoubleColon] at h
      split at h
      · rename_i hc
        obtain ⟨rfl, rfl⟩ := Prod.mk.inj (Option.some.inj h)
        rw [hc.1, hc.2]
        rfl
      · obtain ⟨r, hr, heq⟩ := Option.map_eq_some_iff.mp h
        obtain ⟨rfl, rfl⟩ := Prod.mk.inj heq
        rw [splitDoubleColon_some hr]
        rfl

/-- The two writes of the expansion, where there is room for them. -/
lemma expansion_holds {before rest : Text} (h : Holds b (before ++ 58 :: 58 :: rest)) {z : ℕ}
    (hz : 1 ≤ z) (hroom : (before ++ 58 :: 58 :: rest).length + 2 * z ≤ b.length) :
    ∃ b₁ b₂, memmove b (before.length + 1 + (z * 2 - 1)) (before.length + 1)
        ((58 :: rest).length + 1) = some b₁ ∧
      (List.range z).foldlM (fun str i => store str (before.length + 1 + i * 2) [48, 58]) b₁ =
        some b₂ ∧
      Holds b₂ (before ++ 58 :: (List.replicate z [48, 58]).flatten ++ rest) ∧
      b₂.length = b.length := by
  obtain ⟨h0, junk, hb⟩ := h
  have hlength : (before ++ [58]).length = before.length + 1 := by simp
  have hsplit : b = (before ++ [58]) ++ 58 :: rest ++ 0 :: junk := by simp [hb]
  obtain ⟨filler, junk', hfiller, hmove⟩ := memmove_gap (z * 2 - 1) hsplit (by
    simp only [List.length_append, List.length_cons, List.length_nil] at hroom ⊢
    omega)
  have hfill : (filler ++ [58]).length = z * [(48 : UInt8), 58].length := by
    simp only [List.length_append, List.length_cons, List.length_nil]
    omega
  have hstores := foldlM_store (before ++ [58]) [48, 58] hfill (rest ++ 0 :: junk')
  have hbytes : (before ++ [58]) ++ filler ++ 58 :: rest ++ 0 :: junk' =
      (before ++ [58]) ++ (filler ++ [58]) ++ (rest ++ 0 :: junk') := by simp
  rw [hlength] at hmove hstores
  refine ⟨_, _, hmove, by rw [hbytes]; exact hstores, ⟨?_, junk', by simp⟩, ?_⟩
  · simp only [List.mem_append, List.mem_cons, not_or] at h0 ⊢
    refine ⟨⟨h0.1, by decide, ?_⟩, h0.2.2.2⟩
    rw [List.mem_flatten]
    rintro ⟨piece, hpiece, hzero⟩
    rw [List.eq_of_mem_replicate hpiece] at hzero
    exact absurd hzero (by decide)
  · have hmoved := length_memmove hmove
    simp only [List.length_append, List.length_cons, List.length_nil, List.length_flatten,
      List.map_replicate, List.sum_replicate, smul_eq_mul] at hmoved ⊢
    omega

lemma expansion_outside {before rest : Text} (h : Holds b (before ++ 58 :: 58 :: rest)) {z : ℕ}
    (hz : 1 ≤ z) (hroom : ¬ (before ++ 58 :: 58 :: rest).length + 2 * z ≤ b.length) :
    memmove b (before.length + 1 + (z * 2 - 1)) (before.length + 1) ((58 :: rest).length + 1) =
      none := by
  obtain ⟨h0, junk, hb⟩ := h
  have hlength : (before ++ [58]).length = before.length + 1 := by simp
  have hsplit : b = (before ++ [58]) ++ 58 :: rest ++ 0 :: junk := by simp [hb]
  rw [← hlength]
  refine memmove_gap_eq_none hsplit ?_
  simp only [List.length_append, List.length_cons, List.length_nil] at hroom ⊢
  omega

/-- A zero group is left when a leading colon is gone. -/
lemma expanded_ne_nil (before rest : Text) {z : ℕ} (hz : 1 ≤ z) :
    (if (before ++ 58 :: (List.replicate z [48, 58]).flatten ++ rest).head? = some 58 then
      (before ++ 58 :: (List.replicate z [48, 58]).flatten ++ rest).tail
      else before ++ 58 :: (List.replicate z [48, 58]).flatten ++ rest) ≠ [] := by
  have hlength : 2 ≤
      (before ++ 58 :: (List.replicate z [(48 : UInt8), 58]).flatten ++ rest).length := by
    simp only [List.length_append, List.length_cons, List.length_nil, List.length_flatten,
      List.map_replicate, List.sum_replicate, smul_eq_mul]
    omega
  rw [← List.length_pos_iff]
  split
  · rw [List.length_tail]
    omega
  · omega

/-- With room the array holds the expanded text, and without it the array is left. -/
lemma expandZerosIn_holds (h : Holds b t) (hb : b.length = 1024) :
    (Roomy t → Tracks (expandZerosIn b) 1024 (expandZeros t)) ∧
    (¬ Roomy t → expandZerosIn b = .error .outside) := by
  unfold expandZerosIn expandZeros Roomy
  rw [h.string (Nat.zero_le _)]
  simp only [List.drop_zero, inside_some, ok_bind]
  cases hsplit : splitDoubleColon t with
  | none => exact ⟨fun _ => ⟨b, rfl, h, hb⟩, fun hno => absurd (fun h => absurd h (by simp)) hno⟩
  | some r =>
      obtain ⟨before, rest⟩ := r
      have ht := splitDoubleColon_some hsplit
      by_cases hcount : 8 < countGroups t + 1
      · simp only [if_pos hcount]
        exact ⟨fun _ => rfl, fun hno => absurd (fun _ h => absurd h (by omega)) hno⟩
      · have hz : 1 ≤ 8 - countGroups t := by omega
        have hrest : string b (before.length + 1) = some (58 :: rest) := by
          rw [h.string (by simp [ht]), ht]
          simp [List.drop_append]
        simp only [if_neg hcount, hrest, inside_some, ok_bind, Option.isSome_some, forall_const]
        constructor
        · intro hroom
          have hroom : (before ++ 58 :: 58 :: rest).length + 2 * (8 - countGroups t) ≤
              b.length := by
            rw [← ht, hb]
            exact hroom (by omega)
          obtain ⟨b₁, b₂, hmove, hstores, hholds, hlength₂⟩ := expansion_holds (ht ▸ h) hz hroom
          have hlead := dropLeadingColon_holds hholds (by simp)
          obtain ⟨b₃, hb₃, hholds₃, hlength₃⟩ := hlead
          have hne₃ := expanded_ne_nil before rest hz
          obtain ⟨b₄, hb₄, hholds₄, hlength₄⟩ := dropTrailingColon_holds hholds₃ hne₃
          refine ⟨b₄, ?_, hholds₄, by omega⟩
          simp only [hmove, hstores, hb₃, hb₄, inside_some, ok_bind]
        · intro hroom
          have hroom : ¬ (before ++ 58 :: 58 :: rest).length + 2 * (8 - countGroups t) ≤
              b.length := by
            rw [← ht, hb]
            exact fun hle => hroom fun _ => hle
          simp only [expansion_outside (ht ▸ h) hz hroom, inside_none, error_bind]

/-! ## The whole of `str2net` -/

/-- What is expanded as an IPv6 address: a text that is neither a MAC nor an IPv4 address, with a
dotted quad at its end written as two groups. -/
def ipv6Part (str : Text) : Option Text :=
  if (scanFields shortHex 58 6 str).isSome ∨ (scanFields shortDec 46 4 str).isSome then none
  else expandQuad str

/-- The IPv6 address in the text of a subnet, before its prefix length and weight. -/
def ipv6Text (subnetstr : Text) : Option Text := do
  let (str, _) ← cutInt 35 (subnetstr.take 1023)
  let (str, prefixlength) ← cutInt 47 str
  if prefixlength.any (· < 0) then none else ipv6Part str

/-- The array has room for the expansion of a double colon. -/
def FitsArray (subnetstr : Text) : Prop := ∀ t ∈ ipv6Text (cstr subnetstr), Roomy t

/-- The address is read as `str2address` reads it, or the array is left. -/
lemma str2addressIn_holds (h : Holds b t) (hb : b.length = 1024) (prefixlength : Option ℕ) :
    ((∀ t' ∈ ipv6Part t, Roomy t') →
      str2addressIn b prefixlength = accepted (str2address t prefixlength)) ∧
    (¬ (∀ t' ∈ ipv6Part t, Roomy t') → str2addressIn b prefixlength = .error .outside) := by
  unfold ipv6Part
  unfold str2addressIn str2address
  rw [h.string (Nat.zero_le _)]
  simp only [List.drop_zero, inside_some, ok_bind]
  cases hmac : scanFields shortHex 58 6 t with
  | some x =>
      refine ⟨fun _ => ?_, fun hno => absurd (by simp) hno⟩
      dsimp only
      split <;> rfl
  | none =>
      cases hipv4 : scanFields shortDec 46 4 t with
      | some x =>
          refine ⟨fun _ => ?_, fun hno => absurd (by simp) hno⟩
          dsimp only
          split <;> rfl
      | none =>
          have hquad := expandQuadIn_holds h hb
          simp only [Option.isSome_none, Bool.false_eq_true, or_self, if_false]
          cases ht' : expandQuad t with
          | none =>
              rw [ht'] at hquad
              refine ⟨fun _ => ?_, fun hno => absurd (by simp) hno⟩
              simp only [show expandQuadIn b = _ from hquad, error_bind, Option.bind_eq_bind,
                Option.bind_none, accepted_none]
          | some t' =>
              rw [ht'] at hquad
              obtain ⟨b', hb', hholds, hlength⟩ := hquad
              obtain ⟨hroomy, hleft⟩ := expandZerosIn_holds hholds hlength
              simp only [hb', ok_bind, Option.bind_eq_bind, Option.bind_some, Option.mem_def,
                Option.some.injEq, forall_eq']
              constructor
              · intro hroom
                have hzeros := hroomy hroom
                cases ht'' : expandZeros t' with
                | none =>
                    rw [ht''] at hzeros
                    simp only [show expandZerosIn b' = _ from hzeros, error_bind,
                      Option.bind_none, accepted_none]
                | some t'' =>
                    rw [ht''] at hzeros
                    obtain ⟨b'', hb'', hholds'', -⟩ := hzeros
                    simp only [hb'', ok_bind, hholds''.string (Nat.zero_le _), List.drop_zero,
                      inside_some, Option.bind_some]
                    cases scanFields shortHex 58 8 t'' with
                    | none => rfl
                    | some x =>
                        simp only [accepted_some, ok_bind, Option.bind_some]
                        split <;> rfl
              · intro hroom
                simp only [hleft hroom, error_bind]

/-- **With room for the expansion `str2net` stays in its array and returns what it should, and
without room it leaves the array.** -/
lemma str2netIn_eq (subnetstr : Text) :
    (FitsArray subnetstr → str2netIn subnetstr = accepted (str2net (cstr subnetstr))) ∧
    (¬ FitsArray subnetstr → str2netIn subnetstr = .error .outside) := by
  obtain ⟨b, hstore, hholds, hlength⟩ := holds_strncpy 1023 subnetstr
  unfold FitsArray ipv6Text str2netIn str2net
  simp only [hstore, inside_some, ok_bind, Option.bind_eq_bind]
  obtain ⟨hcut, hcut'⟩ | ⟨t₁, weight, b₁, hcut, hcut', hholds₁, hlength₁⟩ :=
    cutIntIn_holds 35 hholds
  · simp [hcut, hcut']
  · simp only [hcut, hcut', ok_bind, Option.bind_some]
    obtain ⟨hcut, hcut'⟩ | ⟨t₂, len, b₂, hcut, hcut', hholds₂, hlength₂⟩ :=
      cutIntIn_holds 47 hholds₁
    · simp [hcut, hcut']
    · simp only [hcut, hcut', ok_bind, Option.bind_some]
      by_cases hneg : len.any (· < 0) = true
      · simp [hneg]
      · simp only [if_neg hneg]
        obtain ⟨hfits, hleft⟩ := str2addressIn_holds hholds₂ (by omega) (len.map Int.toNat)
        refine ⟨fun hroom => ?_, fun hroom => ?_⟩
        · rw [hfits hroom]
          cases str2address t₂ (len.map Int.toNat) <;> rfl
        · rw [hleft hroom]
          rfl

/-- **`str2net` stays inside its array exactly as long as the array has room for the expansion**,
and it then returns what the text says. -/
theorem str2net_inside_iff (subnetstr : Text) :
    (str2netIn subnetstr ≠ .error .outside ↔ FitsArray subnetstr) ∧
      (FitsArray subnetstr → str2netIn subnetstr = accepted (str2net (cstr subnetstr))) := by
  obtain ⟨hfits, hleft⟩ := str2netIn_eq subnetstr
  refine ⟨⟨fun h => ?_, fun h => ?_⟩, hfits⟩
  · by_contra hno
    exact h (hleft hno)
  · rw [hfits h]
    cases str2net (cstr subnetstr) <;> simp

/-- A double colon and one group of 1021 digits fill the array, and 14 bytes more are written. -/
theorem str2net_leaves_array :
    ¬ ∀ subnetstr : Text, str2netIn subnetstr ≠ .error .outside := by
  intro h
  exact h (ascii "::" ++ List.replicate 1021 49) (by decide +kernel)

lemma length_cutInt {sep : UInt8} {t t' : Text} {n : Option ℤ} (h : cutInt sep t = some (t', n)) :
    t'.length ≤ t.length := by
  have hle : (t.takeWhile (· ≠ sep)).length ≤ t.length := (List.takeWhile_prefix _).length_le
  rw [cutInt] at h
  split at h
  · obtain ⟨rfl, -⟩ := Prod.mk.inj (Option.some.inj h)
    exact hle
  · obtain ⟨m, -, hm⟩ := Option.map_eq_some_iff.mp h
    obtain ⟨rfl, -⟩ := Prod.mk.inj hm
    exact hle

lemma length_expandQuad {t t' : Text} (h : expandQuad t = some t') : t'.length ≤ t.length + 10 := by
  rw [expandQuad] at h
  split at h
  · obtain rfl := Option.some.inj h
    omega
  · rename_i before fromColon hsplit
    have hle := (splitLastColon_take hsplit).1
    split at h
    · split at h
      · cases h
      · obtain rfl := Option.some.inj h
        simp only [List.length_take, List.length_append, List.length_cons, hexByte, List.length_nil]
        omega
    · obtain rfl := Option.some.inj h
      omega

/-- A text that leaves room for eight groups more is expanded inside the array. -/
lemma fitsArray_of_length {subnetstr : Text} (h : (cstr subnetstr).length ≤ 998) :
    FitsArray subnetstr := by
  intro t ht
  simp only [ipv6Text, Option.mem_def, Option.bind_eq_bind, Option.bind_eq_some_iff] at ht
  obtain ⟨⟨t₁, weight⟩, hcut₁, ⟨t₂, len⟩, hcut₂, ht⟩ := ht
  dsimp only at hcut₁ hcut₂ ht
  have h₁ := length_cutInt hcut₁
  have h₂ := length_cutInt hcut₂
  rw [List.length_take] at h₁
  split at ht
  · cases ht
  · rw [ipv6Part] at ht
    split at ht
    · cases ht
    · have h₃ := length_expandQuad ht
      intro _ _
      omega

/-! ## `net2str` -/

/-- Where `net2str` prints next, and how much room it believes to have. -/
structure Printer where
  buffer : List UInt8
  netstr : ℕ
  len : ℤ

/-- One call of `snprintf`; its size is the `int` converted to a `size_t`. -/
def Printer.print (p : Printer) (t : Text) : Option Printer := do
  let buffer ← snprintf p.buffer p.netstr (p.len % 2 ^ 64).toNat t
  some { buffer := buffer, netstr := p.netstr + t.length, len := p.len - t.length }

/-- The trailing colon is cut off. -/
def Printer.back (p : Printer) : Option Printer := do
  let buffer ← store p.buffer (p.netstr - 1) [0]
  some { buffer := buffer, netstr := p.netstr - 1, len := p.len + 1 }

/-- What the loop over the groups prints. -/
def ipv6Pieces (groups : List ℕ) : List Text :=
  let print := List.map fun x => hex x ++ [58]
  let (i, len) := longestZeros 0 groups (0, 0) (0, 0)
  if len ≤ 1 then print groups
  else
    let colons := 1 + (if i = 0 then 1 else 0) + (if i + len = 8 then 1 else 0)
    print (groups.take i) ++ List.replicate colons 58 :: print (groups.drop (i + len))

/-- The address in the array. -/
def Printer.address (p : Printer) : Net → Option Printer
  | .mac address => p.print (Net.print (.mac address))
  | .ipv4 address _ => p.print (printIpv4 address)
  | .ipv6 address _ => do
      let p ← (ipv6Pieces (groupsOf address)).foldlM Printer.print p
      p.back

/-- The prefix length; a MAC address has none, and the greatest one is not printed. -/
def Net.prefixText : Net → Option Text
  | .mac _ => none
  | .ipv4 _ len => if len = 32 then none else some (47 :: decimal len)
  | .ipv6 _ len => if len = 128 then none else some (47 :: decimal len)

/-- `net2str` with the array of its caller. -/
def net2strIn (buffer : List UInt8) (s : Subnet) : Option (List UInt8) := do
  let p ← (Printer.mk buffer 0 buffer.length).address s.net
  let p ← s.net.prefixText.elim (some p) p.print
  let p ← if s.weight = defaultWeight then some p else p.print (35 :: decimal s.weight)
  some p.buffer

/-- The printer stands behind `t`, with the rest of the array before it. -/
structure Printer.Behind (p : Printer) (size : ℕ) (t : Text) : Prop where
  front : ∃ junk, p.buffer = t ++ junk
  zero : 0 ∉ t
  netstr : p.netstr = t.length
  len : p.len = size - t.length
  size : p.buffer.length = size

namespace Printer

variable {p : Printer} {size : ℕ} {t text : Text}

lemma Behind.print (h : p.Behind size t) (hzero : 0 ∉ text) (hroom : t.length + text.length < size)
    (hsize : size < 2 ^ 64) :
    ∃ p', p.print text = some p' ∧ p'.Behind size (t ++ text) ∧ Holds p'.buffer (t ++ text) := by
  have hlen : (p.len % 2 ^ 64).toNat = p.buffer.length - t.length := by
    rw [h.len, h.size, Int.emod_eq_of_lt (by omega) (by omega)]
    omega
  obtain ⟨junk, hjunk⟩ := h.front
  obtain ⟨b, hprint, hholds, hlength⟩ := snprintf_behind hjunk h.zero hzero
    (by rw [h.size]; exact hroom)
  have hprinted : p.print text =
      some { buffer := b, netstr := p.netstr + text.length, len := p.len - text.length } := by
    rw [Printer.print, hlen, h.netstr, hprint]
    rfl
  refine ⟨_, hprinted, ⟨?_, hholds.1, ?_, ?_, hlength.trans h.size⟩, hholds⟩
  · obtain ⟨-, junk, hb⟩ := hholds
    exact ⟨_, hb⟩
  · dsimp only
    rw [List.length_append, h.netstr]
  · dsimp only
    rw [h.len, List.length_append]
    omega

/-- The pieces that a loop prints. -/
lemma Behind.foldlM_print {pieces : List Text} (h : p.Behind size t)
    (hzero : ∀ w ∈ pieces, 0 ∉ w) (hroom : t.length + pieces.flatten.length < size)
    (hsize : size < 2 ^ 64) :
    ∃ p', pieces.foldlM Printer.print p = some p' ∧ p'.Behind size (t ++ pieces.flatten) := by
  induction pieces generalizing p t with
  | nil => exact ⟨p, rfl, by simpa using h⟩
  | cons w pieces ih =>
      rw [List.flatten_cons, List.length_append] at hroom
      obtain ⟨p', hprint, hbehind, -⟩ := h.print (hzero w (by simp)) (by omega) hsize
      obtain ⟨p'', hfold, hbehind'⟩ := ih hbehind (fun v hv => hzero v (by simp [hv]))
        (by rw [List.length_append]; omega)
      refine ⟨p'', ?_, by simpa using hbehind'⟩
      rw [List.foldlM_cons, hprint]
      exact hfold

lemma Behind.back (h : p.Behind size t) (hne : t ≠ []) :
    ∃ p', p.back = some p' ∧ p'.Behind size t.dropLast ∧ Holds p'.buffer t.dropLast := by
  obtain ⟨front, c, rfl⟩ : ∃ front c, t = front ++ [c] :=
    ⟨_, _, (List.dropLast_append_getLast hne).symm⟩
  obtain ⟨junk, hjunk⟩ := h.front
  have hzero : 0 ∉ front := fun hmem => h.zero (by simp [hmem])
  have hlt : front.length < p.buffer.length := by
    rw [hjunk]
    simp only [List.length_append, List.length_singleton]
    omega
  obtain ⟨b, hstore, hholds, hlength⟩ := store_behind
    (show p.buffer = front ++ (c :: junk) by simp [hjunk]) hzero (show 0 ∉ [] by simp)
    (by rw [List.length_nil]; omega)
  rw [List.nil_append, List.append_nil] at *
  have hnetstr : p.netstr - 1 = front.length := by simp [h.netstr]
  have hback : p.back = some { buffer := b, netstr := p.netstr - 1, len := p.len + 1 } := by
    rw [Printer.back, hnetstr, hstore]
    rfl
  rw [List.dropLast_concat]
  refine ⟨_, hback, ⟨?_, hzero, hnetstr, ?_, hlength.trans h.size⟩, hholds⟩
  · obtain ⟨-, junk, hb⟩ := hholds
    exact ⟨_, hb⟩
  · dsimp only
    rw [h.len, List.length_append, List.length_singleton]
    omega

end Printer

/-! ### The pieces of an IPv6 address -/

lemma flatten_ipv6Pieces (address : List UInt8) :
    (ipv6Pieces (groupsOf address)).flatten.dropLast = printIpv6 address := by
  unfold ipv6Pieces printIpv6
  dsimp only
  split
  · rw [List.flatMap_def]
  · rw [List.flatten_append, List.flatten_cons, List.append_assoc, List.flatMap_def,
      List.flatMap_def]

lemma length_hex_le {n k : ℕ} (h : n < 16 ^ (k + 1)) : (hex n).length ≤ k + 1 := by
  rw [hex, List.length_map]
  exact length_toBase_le (by decide) h

lemma length_printed_le {groups : List ℕ} (h : ∀ x ∈ groups, x < 65536) :
    (groups.map fun x => hex x ++ [58]).flatten.length ≤ 5 * groups.length := by
  induction groups with
  | nil => simp
  | cons x groups ih =>
      have hx : (hex x).length ≤ 4 := length_hex_le (h x (by simp))
      have ih := ih fun y hy => h y (by simp [hy])
      simp only [List.map_cons, List.flatten_cons, List.length_append, List.length_cons,
        List.length_nil] at ih ⊢
      omega

lemma length_ipv6Pieces {address : List UInt8} (h : address.length = 16) :
    (ipv6Pieces (groupsOf address)).flatten.length ≤ 43 := by
  have hlength := length_groupsOf (show address.length = 2 * 8 from h)
  have hlt := groupsOf_lt address
  unfold ipv6Pieces
  generalize longestZeros 0 (groupsOf address) (0, 0) (0, 0) = r
  dsimp only
  split
  · have := length_printed_le hlt
    omega
  · have hbefore := length_printed_le fun x hx =>
      hlt x (List.mem_of_mem_take (show x ∈ (groupsOf address).take r.1 from hx))
    have hbehind := length_printed_le fun x hx =>
      hlt x (List.mem_of_mem_drop (show x ∈ (groupsOf address).drop (r.1 + r.2) from hx))
    rw [List.length_take] at hbefore
    rw [List.length_drop] at hbehind
    rw [List.flatten_append, List.flatten_cons, List.length_append, List.length_append,
      List.length_replicate]
    have hcolons : 1 + (if r.1 = 0 then 1 else 0) + (if r.1 + r.2 = 8 then 1 else 0) ≤ 3 := by
      split <;> split <;> omega
    omega

lemma zero_notMem_hex (n : ℕ) : 0 ∉ hex n := notMem_hex n (by decide)

lemma zero_notMem_ipv6Pieces (groups : List ℕ) : ∀ w ∈ ipv6Pieces groups, 0 ∉ w := by
  have hprint : ∀ l : List ℕ, ∀ w ∈ l.map fun x => hex x ++ [58], 0 ∉ w := by
    intro l w hw
    obtain ⟨x, -, rfl⟩ := List.mem_map.mp hw
    simp [zero_notMem_hex]
  unfold ipv6Pieces
  dsimp only
  intro w hw
  split at hw
  · exact hprint _ w hw
  · rcases List.mem_append.mp hw with hw | hw
    · exact hprint _ w hw
    · rcases List.mem_cons.mp hw with rfl | hw
      · simp [List.mem_replicate]
      · exact hprint _ w hw

lemma colon_mem_ipv6Pieces {groups : List ℕ} (h : groups ≠ []) :
    58 ∈ (ipv6Pieces groups).flatten := by
  unfold ipv6Pieces
  dsimp only
  rw [List.mem_flatten]
  split
  · obtain ⟨x, groups, rfl⟩ := List.exists_cons_of_ne_nil h
    exact ⟨hex x ++ [58], by simp, by simp⟩
  · refine ⟨_, List.mem_append_right _ List.mem_cons_self, ?_⟩
    rw [List.mem_replicate]
    exact ⟨by omega, rfl⟩

/-! ### The text in the array -/

/-- The address without the prefix length. -/
def Net.addressText : Net → Text
  | .mac address => Net.print (.mac address)
  | .ipv4 address _ => printIpv4 address
  | .ipv6 address _ => printIpv6 address

lemma print_eq (net : Net) : net.print = net.addressText ++ net.prefixText.getD [] := by
  cases net with
  | mac address => simp [Net.addressText, Net.prefixText]
  | ipv4 address len =>
      rw [Net.print, Net.addressText, Net.prefixText, printIpv4]
      split <;> rfl
  | ipv6 address len =>
      rw [Net.print, Net.addressText, Net.prefixText]
      split <;> rfl

lemma length_intercalate_le (sep : UInt8) {ws : List Text} {n : ℕ} (h : ∀ w ∈ ws, w.length ≤ n) :
    ([sep].intercalate ws).length ≤ (n + 1) * ws.length := by
  have hterminated : (terminated sep ws).length ≤ (n + 1) * ws.length := by
    induction ws with
    | nil => simp [terminated]
    | cons w ws ih =>
        have hw := h w (by simp)
        have ih := ih fun v hv => h v (by simp [hv])
        rw [terminated] at ih ⊢
        rw [List.flatMap_cons, List.length_append, List.length_append, List.length_singleton,
          List.length_cons, Nat.mul_succ]
        omega
  rw [intercalate_eq_dropLast, List.length_dropLast]
  omega

/-- The text of an address ends well before the end of the array. -/
lemma length_addressText {net : Net} (h : net.Sized) : net.addressText.length ≤ 42 := by
  cases net with
  | mac address =>
      have hwords : ∀ w ∈ address.map fun b => hexByte b.toNat, w.length ≤ 2 := by
        intro w hw
        obtain ⟨b, -, rfl⟩ := List.mem_map.mp hw
        simp [hexByte]
      have hle := length_intercalate_le 58 hwords
      rw [List.length_map, show address.length = 6 from h] at hle
      exact hle.trans (by decide)
  | ipv4 address len =>
      have hwords : ∀ w ∈ address.map fun b => decimal b.toNat, w.length ≤ 3 := by
        intro w hw
        obtain ⟨b, -, rfl⟩ := List.mem_map.mp hw
        exact length_decimal_le (b.toNat_lt.trans (by decide))
      have hle := length_intercalate_le 46 hwords
      rw [List.length_map, h.1] at hle
      exact hle.trans (by decide)
  | ipv6 address len =>
      have hle := length_ipv6Pieces h.1
      rw [Net.addressText, ← flatten_ipv6Pieces, List.length_dropLast]
      omega

lemma length_prefixText {net : Net} (h : net.Sized) : (net.prefixText.getD []).length ≤ 4 := by
  have hdecimal : ∀ {len : ℕ}, len ≤ 128 → (decimal len).length ≤ 3 := fun hlen =>
    length_decimal_le (show _ < 10 ^ (2 + 1) by omega)
  cases net with
  | mac address => simp [Net.prefixText]
  | ipv4 address len =>
      have := hdecimal (h.2.trans (by decide))
      rw [Net.prefixText]
      split
      · simp
      · exact Nat.succ_le_succ this
  | ipv6 address len =>
      have := hdecimal h.2
      rw [Net.prefixText]
      split
      · simp
      · exact Nat.succ_le_succ this

/-- The text of a subnet leaves room for its terminator in an array of `MAXNETSTR` bytes. -/
lemma length_net2str {s : Subnet} (h : s.net.Sized) (hweight : IsInt s.weight) :
    (net2str s).length ≤ 58 := by
  have haddress := length_addressText h
  have hlenText := length_prefixText h
  have hdecimal := length_decimal_int_le hweight
  rw [net2str, print_eq, List.length_append, List.length_append]
  split
  · rw [List.length_nil]
    omega
  · rw [List.length_cons]
    omega

lemma zero_notMem_decimal (n : ℤ) : 0 ∉ decimal n := by
  have hdigits : 0 ∉ (toBase 10 n.natAbs n.natAbs).map digitByte := by
    intro hmem
    have hlt := toBase_lt (by decide) (lt_ten_pow n.natAbs)
    exact absurd (digitByte_isSome (fun d hd => (hlt d hd).trans (by decide)) 0 hmem) (by decide)
  rw [decimal]
  split
  · rw [List.mem_cons, not_or]
    exact ⟨by decide, hdigits⟩
  · exact hdigits

lemma zero_notMem_prefixText (net : Net) : ∀ text ∈ net.prefixText, 0 ∉ text := by
  intro text htext
  obtain ⟨len, rfl⟩ : ∃ len : ℕ, text = 47 :: decimal len := by
    cases net with
    | mac address => simp [Net.prefixText] at htext
    | ipv4 address len =>
        exact ⟨len, Option.some.inj (Option.ite_none_left_eq_some.mp htext).2.symm⟩
    | ipv6 address len =>
        exact ⟨len, Option.some.inj (Option.ite_none_left_eq_some.mp htext).2.symm⟩
  rw [List.mem_cons, not_or]
  exact ⟨by decide, zero_notMem_decimal len⟩

open Printer in
/-- The address is printed whole. -/
lemma address_behind {net : Net} (h : net.Sized) {p : Printer} (hp : p.Behind 64 []) :
    ∃ p', p.address net = some p' ∧ p'.Behind 64 net.addressText ∧
      Holds p'.buffer net.addressText := by
  have hlength := length_addressText h
  cases net with
  | mac address =>
      have hzero : 0 ∉ Net.print (.mac address) :=
        notMem_intercalate (digits_of_words fun b _ => word_macByte b) (by decide) (by decide)
      rw [Net.addressText] at hlength
      exact hp.print hzero (by rw [List.length_nil]; omega) (by decide)
  | ipv4 address len =>
      have hzero : 0 ∉ printIpv4 address :=
        notMem_intercalate (digits_ipv4 address) (by decide) (by decide)
      rw [Net.addressText] at hlength
      exact hp.print hzero (by rw [List.length_nil]; omega) (by decide)
  | ipv6 address len =>
      have hle := length_ipv6Pieces h.1
      have hgroups := length_groupsOf (show address.length = 2 * 8 from h.1)
      obtain ⟨p₁, hfold, hbehind⟩ := hp.foldlM_print (zero_notMem_ipv6Pieces (groupsOf address))
        (by rw [List.length_nil]; omega) (by decide)
      have hne : [] ++ (ipv6Pieces (groupsOf address)).flatten ≠ [] := by
        have := colon_mem_ipv6Pieces (show groupsOf address ≠ [] by
          rw [Ne, ← List.length_eq_zero_iff]
          omega)
        rw [List.nil_append]
        exact List.ne_nil_of_mem this
      obtain ⟨p₂, hback, hbehind₂, hholds⟩ := hbehind.back hne
      rw [List.nil_append, flatten_ipv6Pieces] at hbehind₂ hholds
      refine ⟨p₂, ?_, hbehind₂, hholds⟩
      rw [Printer.address, hfold]
      exact hback

/-- **`net2str` writes the whole text and its terminator into an array of `MAXNETSTR` bytes.** -/
lemma net2strIn_print {s : Subnet} (h : s.net.Sized) (hweight : IsInt s.weight)
    {buffer : List UInt8} (hbuffer : buffer.length = 64) :
    ∃ buffer', net2strIn buffer s = some buffer' ∧ Holds buffer' (net2str s) ∧
      buffer'.length = 64 := by
  have htotal := length_net2str h hweight
  have hstart : (Printer.mk buffer 0 buffer.length).Behind 64 [] :=
    ⟨⟨buffer, rfl⟩, by simp, rfl, by simp [hbuffer], hbuffer⟩
  rw [net2str, print_eq, List.length_append, List.length_append] at htotal
  obtain ⟨p₁, hp₁, hbehind₁, hholds₁⟩ := address_behind h hstart
  -- the prefix length
  obtain ⟨p₂, hp₂, hbehind₂, hholds₂⟩ : ∃ p₂, s.net.prefixText.elim (some p₁) p₁.print = some p₂ ∧
      p₂.Behind 64 s.net.print ∧ Holds p₂.buffer s.net.print := by
    rw [print_eq]
    cases hlenText : s.net.prefixText with
    | none => exact ⟨p₁, rfl, by simpa using hbehind₁, by simpa using hholds₁⟩
    | some text =>
        rw [hlenText] at htotal
        exact hbehind₁.print (zero_notMem_prefixText s.net text hlenText)
          (by rw [Option.getD_some] at htotal; omega) (by decide)
  -- the weight
  obtain ⟨p₃, hp₃, hbehind₃, hholds₃⟩ : ∃ p₃,
      (if s.weight = defaultWeight then some p₂ else p₂.print (35 :: decimal s.weight)) = some p₃ ∧
      p₃.Behind 64 (net2str s) ∧ Holds p₃.buffer (net2str s) := by
    rw [net2str]
    split
    · exact ⟨p₂, rfl, by simpa using hbehind₂, by simpa using hholds₂⟩
    · rename_i hdefault
      rw [if_neg hdefault, ← List.length_append, ← print_eq] at htotal
      refine hbehind₂.print ?_ (by omega) (by decide)
      rw [List.mem_cons, not_or]
      exact ⟨by decide, zero_notMem_decimal s.weight⟩
  refine ⟨p₃.buffer, ?_, hholds₃, hbehind₃.size⟩
  simp only [net2strIn, hp₁, hp₂, Option.bind_eq_bind, Option.bind_some]
  split at hp₃
  · rename_i hdefault
    rw [if_pos hdefault, Option.some.inj hp₃]
  · rename_i hdefault
    rw [if_neg hdefault, hp₃, Option.bind_some]

/-! ## The round trip -/

/-- **`str2net` undoes `net2str`**: the text is complete and terminated in an array of `MAXNETSTR`
bytes, and `str2net` reads from it the same network and weight. -/
theorem net2str_round_trip (s : Subnet) (h : s.net.Sized) (hweight : IsInt s.weight)
    (buffer : List UInt8) (hbuffer : buffer.length = 64) :
    ∃ buffer', net2strIn buffer s = some buffer' ∧ buffer'.length = 64 ∧ 0 ∈ buffer' ∧
      cstr buffer' = net2str s ∧
      str2netIn (cstr buffer') = .ok { s with owner := none, expires := 0 } := by
  obtain ⟨buffer', hprint, hholds, hlength⟩ := net2strIn_print h hweight hbuffer
  have htotal := length_net2str h hweight
  have hcstr := hholds.cstr_eq
  have htwice : cstr (net2str s) = net2str s := by
    rw [cstr, List.takeWhile_eq_self_iff]
    intro c hc
    simpa using fun h0 : c = 0 => hholds.1 (h0 ▸ hc)
  have hfits : FitsArray (net2str s) := fitsArray_of_length (by rw [htwice]; omega)
  refine ⟨buffer', hprint, hlength, ?_, hcstr, ?_⟩
  · obtain ⟨-, junk, rfl⟩ := hholds
    simp
  · rw [hcstr, (str2netIn_eq _).1 hfits, htwice, str2net_net2str h hweight (by omega)]
    rfl

/-- An address with a run of zeros at its end, an odd prefix length and a negative weight. -/
theorem net2str_round_trip_elided :
    (Net.ipv6 [254, 128, 0, 7, 0, 0, 0, 0, 0, 0, 0, 0, 0, 0, 0, 0] 53).Sized ∧
    IsInt (-2147483648) ∧
    ∃ buffer', net2strIn (List.replicate 64 255)
        ⟨none, .ipv6 [254, 128, 0, 7, 0, 0, 0, 0, 0, 0, 0, 0, 0, 0, 0, 0] 53, -2147483648, 0⟩ =
          some buffer' ∧ buffer'.length = 64 ∧ 0 ∈ buffer' ∧
      cstr buffer' = net2str
        ⟨none, .ipv6 [254, 128, 0, 7, 0, 0, 0, 0, 0, 0, 0, 0, 0, 0, 0, 0] 53, -2147483648, 0⟩ ∧
      str2netIn (cstr buffer') =
        .ok ⟨none, .ipv6 [254, 128, 0, 7, 0, 0, 0, 0, 0, 0, 0, 0, 0, 0, 0, 0] 53, -2147483648, 0⟩ :=
  ⟨by decide, by unfold IsInt; omega, net2str_round_trip
    ⟨none, .ipv6 [254, 128, 0, 7, 0, 0, 0, 0, 0, 0, 0, 0, 0, 0, 0, 0] 53, -2147483648, 0⟩
    (by decide) (by unfold IsInt; dsimp only; omega) (List.replicate 64 255) rfl⟩

end Tinc
