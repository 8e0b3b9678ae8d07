import TincQuic.Invite.Base64
import TincQuic.Invite.Run
import TincQuic.Lib.TextLines

/-!
# PEM bodies in requests

A certificate travels as the bare body of its PEM text.  `pem_to_base64` drops the two marker lines
and the line breaks; `base64_to_pem` puts markers of a given type around the body and breaks it into
lines of 64 characters, in a buffer whose size it estimates beforehand.

* `base64ToPemIn` works on the memory that was allocated, with checked accesses, and
  `base64ToPemIn_eq` says that it leaves the text of `base64ToPem`.
* **The estimate is enough for both types**: `length_brokenFrom` counts the line breaks.
* `pemToBase64_block` reads the body of a block whatever its line breaks are, and
  `base64ToPem_eq_block` says which block is written.
-/

namespace Tinc

open Bytes CText CBuffer

variable {base64 type front junk t eol : Text} {i : ℕ}

/-! ## The buffer of `base64_to_pem` -/

/-- `b64_len + 100 + (b64_len / 64) * 2` -/
def pemRoom (base64 : Text) : ℕ := base64.length + 100 + base64.length / 64 * 2

/-- `-----BEGIN %s-----\n` -/
def pemHeader (type : Text) : Text := ascii "-----BEGIN " ++ type ++ ascii "-----\n"

/-- `-----END %s-----\n` -/
def pemFooter (type : Text) : Text := ascii "-----END " ++ type ++ ascii "-----\n"

/-- The loop of `base64_to_pem`; `i` counts the characters and `p` is where the next one goes. -/
def pemLoop : Text → ℕ → ℕ → List UInt8 → Option (List UInt8 × ℕ)
  | [], _, p, result => some (result, p)
  | c :: base64, i, p, result => do
      let result ← store result p [c]
      if (i + 1) % 64 = 0 then do
        let result ← store result (p + 1) [10]
        pemLoop base64 (i + 1) (p + 2) result
      else pemLoop base64 (i + 1) (p + 1) result

/-- The newline behind a last line that is not full. -/
def pemLastBreak (length p : ℕ) (result : List UInt8) : Option (List UInt8 × ℕ) :=
  if length % 64 ≠ 0 then do
    let result ← store result p [10]
    some (result, p + 1)
  else some (result, p)

/-- `base64_to_pem` in the memory `result` that `xmalloc` gave. -/
def base64ToPemIn (result : List UInt8) (base64 type : Text) : Option (List UInt8) := do
  let result ← snprintf result 0 (pemRoom base64) (pemHeader type)
  let header ← string result 0
  let (result, p) ← pemLoop base64 0 header.length result
  let (result, p) ← pemLastBreak base64.length p result
  snprintf result p (pemRoom base64 - p) (pemFooter type)

/-- What the loop writes from the character `i` on. -/
def brokenFrom (i : ℕ) (base64 : Text) : Text :=
  (base64.zipIdx i).flatMap fun (c, i) => if (i + 1) % 64 = 0 then [c, 10] else [c]

lemma brokenFrom_cons (i : ℕ) (c : UInt8) (t : Text) :
    brokenFrom i (c :: t) =
      (if (i + 1) % 64 = 0 then [c, 10] else [c]) ++ brokenFrom (i + 1) t := rfl

/-- One break for every 64 characters. -/
lemma length_brokenFrom (i : ℕ) (t : Text) :
    (brokenFrom i t).length + i / 64 = t.length + (i + t.length) / 64 := by
  induction t generalizing i with
  | nil => rw [brokenFrom, List.zipIdx_nil, List.flatMap_nil, List.length_nil, Nat.add_zero]
  | cons c t ih =>
      have ih := ih (i + 1)
      rw [brokenFrom_cons, List.length_append, List.length_cons]
      split
      · rw [List.length_cons, List.length_singleton]
        omega
      · rw [List.length_singleton]
        omega

lemma pemLoop_eq (h : (brokenFrom i t).length ≤ junk.length) :
    pemLoop t i front.length (front ++ junk) =
      some (front ++ brokenFrom i t ++ junk.drop (brokenFrom i t).length,
        front.length + (brokenFrom i t).length) := by
  induction t generalizing i front junk with
  | nil => simp [pemLoop, brokenFrom]
  | cons c t ih =>
      rw [brokenFrom_cons] at h ⊢
      obtain ⟨j, junk, rfl⟩ : ∃ j junk', junk = j :: junk' := by
        refine List.exists_cons_of_length_pos (lt_of_lt_of_le ?_ h)
        split <;> simp
      rw [pemLoop, store_byte, Option.bind_eq_bind, Option.bind_some]
      split
      · rename_i hfull
        rw [if_pos hfull] at h
        obtain ⟨j', junk, rfl⟩ : ∃ j junk', junk = j :: junk' := by
          refine List.exists_cons_of_length_pos ?_
          simp only [List.length_append, List.length_cons, List.length_nil] at h
          omega
        have ih := @ih (front ++ [c] ++ [10]) junk (i + 1) (by
          simp only [List.length_append, List.length_cons, List.length_nil] at h
          omega)
        have hbreak := store_byte (front ++ [c]) junk j' 10
        simp only [List.length_append, List.length_singleton, Nat.add_assoc] at ih hbreak
        rw [hbreak, Option.bind_some, ih]
        refine congrArg some (Prod.ext ?_ ?_)
        · simp only [List.append_assoc, List.cons_append, List.nil_append, List.length_cons,
            List.drop_succ_cons]
        · simp
          omega
      · rename_i hfull
        rw [if_neg hfull] at h
        have ih := @ih (front ++ [c]) junk (i + 1) (by
          simp only [List.length_append, List.length_cons, List.length_nil] at h
          omega)
        rw [List.length_append, List.length_singleton] at ih
        rw [ih]
        refine congrArg some (Prod.ext ?_ ?_)
        · simp
        · simp
          omega

/-! ## What it leaves in the buffer -/

/-- The types of the texts that are sent. -/
def IsPemType (type : Text) : Prop :=
  type = ascii "CERTIFICATE" ∨ type = ascii "CERTIFICATE REQUEST"

lemma base64ToPem_eq (base64 type : Text) :
    base64ToPem base64 type = pemHeader type ++ (brokenFrom 0 base64 ++
      (if base64.length % 64 ≠ 0 then [10] else [])) ++ pemFooter type := by
  rw [base64ToPem, pemHeader, pemFooter, brokenFrom]
  simp only [List.append_assoc]

lemma IsPemType.length_markers (h : IsPemType type) :
    (pemHeader type).length + (pemFooter type).length ≤ 70 := by
  rcases h with rfl | rfl <;> decide

lemma IsPemType.notMem_markers (h : IsPemType type) :
    0 ∉ pemHeader type ∧ 0 ∉ pemFooter type := by
  rcases h with rfl | rfl <;> decide

lemma pemLastBreak_eq (length : ℕ) (h : junk ≠ []) :
    pemLastBreak length front.length (front ++ junk) =
      some (front ++ (if length % 64 ≠ 0 then [10] else []) ++
          junk.drop (if length % 64 ≠ 0 then [10] else ([] : Text)).length,
        front.length + (if length % 64 ≠ 0 then [10] else ([] : Text)).length) := by
  obtain ⟨j, junk, rfl⟩ := List.exists_cons_of_ne_nil h
  rw [pemLastBreak]
  split
  · rw [store_byte]
    rfl
  · simp

lemma notMem_brokenFrom (h0 : 0 ∉ t) (i : ℕ) : 0 ∉ brokenFrom i t := by
  induction t generalizing i with
  | nil => simp [brokenFrom]
  | cons c t ih =>
      rw [List.mem_cons, not_or] at h0
      rw [brokenFrom_cons, List.mem_append, not_or]
      refine ⟨?_, ih h0.2 (i + 1)⟩
      split
      · simp [h0.1]
      · simp [h0.1]

/-- The text with its terminator fits, and it is what the pure function says. -/
lemma base64ToPemIn_eq {result : List UInt8} (hroom : result.length = pemRoom base64)
    (htype : IsPemType type) (h0 : 0 ∉ base64) :
    ∃ result', base64ToPemIn result base64 type = some result' ∧
      Holds result' (base64ToPem base64 type) := by
  have hmarkers := htype.length_markers
  obtain ⟨hh0, hf0⟩ := htype.notMem_markers
  have hbreaks := length_brokenFrom 0 base64
  rw [pemRoom] at hroom
  obtain ⟨mem, hheader, hholds, hlength⟩ := snprintf_behind (List.nil_append result).symm
    List.not_mem_nil hh0 (by rw [hroom, List.length_nil]; omega)
  rw [List.length_nil, Nat.sub_zero, hroom] at hheader
  have hstring : string mem 0 = some (pemHeader type) := by
    simpa using hholds.string (Nat.zero_le _)
  obtain ⟨-, junk, rfl⟩ := hholds
  have hjunk : (0 :: junk).length + (pemHeader type).length =
      base64.length + 100 + base64.length / 64 * 2 := by
    rw [← hroom, ← hlength, List.nil_append, List.length_append, Nat.add_comm]
  have hloop := @pemLoop_eq (pemHeader type) (0 :: junk) base64 0 (by omega)
  have hbreak := @pemLastBreak_eq (pemHeader type ++ brokenFrom 0 base64)
    ((0 :: junk).drop (brokenFrom 0 base64).length) base64.length (by
      rw [ne_eq, List.drop_eq_nil_iff]
      omega)
  generalize hlast : (if base64.length % 64 ≠ 0 then [10] else ([] : Text)) = last at hbreak
  have hlast0 : 0 ∉ last ∧ last.length ≤ 1 := by
    rw [← hlast]
    split <;> simp
  generalize hrest : ((0 :: junk).drop (brokenFrom 0 base64).length).drop last.length = rest
    at hbreak
  have hrestLen :
      rest.length + last.length + (brokenFrom 0 base64).length = (0 :: junk).length := by
    rw [← hrest, List.length_drop, List.length_drop]
    omega
  obtain ⟨result', hfooter, hholds', -⟩ := snprintf_behind
    (rfl : pemHeader type ++ brokenFrom 0 base64 ++ last ++ rest = _) (by
      simp only [List.mem_append, not_or]
      exact ⟨⟨hh0, notMem_brokenFrom h0 0⟩, hlast0.1⟩) hf0 (by
      simp only [List.length_append]
      omega)
  refine ⟨result', ?_, ?_⟩
  · rw [base64ToPemIn, pemRoom, hheader]
    rw [List.nil_append] at hstring ⊢
    simp only [Option.bind_eq_bind, Option.bind_some, hstring, hloop]
    rw [← List.length_append, hbreak, Option.bind_some]
    rw [← List.length_append, ← hfooter]
    congr 1
    simp only [List.length_append]
    omega
  · rwa [base64ToPem_eq, hlast, ← List.append_assoc (pemHeader type)]

/-! ## Blocks -/

/-- A character of the body. -/
def IsPemChar (c : UInt8) : Prop := c ∈ base64Original ∨ c = 61

lemma IsPemChar.ne {c : UInt8} (h : IsPemChar c) : c ≠ 0 ∧ c ≠ 10 ∧ c ≠ 13 ∧ c ≠ 45 := by
  have hall : ∀ c ∈ base64Original, c ≠ 0 ∧ c ≠ 10 ∧ c ≠ 13 ∧ c ≠ 45 := by
    rw [base64Original_eq]
    decide +kernel
  rcases h with h | rfl
  · exact hall c h
  · decide

/-- A line break. -/
def IsLineBreak (eol : Text) : Prop := eol = [10] ∨ eol = [13, 10]

/-- The marker line in front of a block. -/
def pemBegin (type : Text) : Text := ascii "-----BEGIN " ++ type ++ ascii "-----"

/-- The marker line behind a block. -/
def pemEnd (type : Text) : Text := ascii "-----END " ++ type ++ ascii "-----"

/-- A block of the given type with the given lines, each of which ends with `eol`. -/
def pemBlock (eol type : Text) (lines : List Text) : Text :=
  pemBegin type ++ eol ++ (lines.flatMap (· ++ eol) ++ (pemEnd type ++ eol))

/-- The rest of a line is skipped. -/
lemma pemBody_skip (h : 10 ∉ t) (inBody : Bool) (rest : Text) :
    pemBody true inBody (t ++ 10 :: rest) = pemBody false inBody rest := by
  induction t with
  | nil => simp [pemBody]
  | cons c t ih =>
      rw [List.mem_cons, not_or] at h
      rw [List.cons_append, pemBody, if_pos rfl, ← ih h.2]
      simp [Ne.symm h.1]

/-- In the body everything but line breaks is taken. -/
lemma pemBody_collect (h : 45 ∉ t) (rest : Text) :
    pemBody false true (t ++ rest) =
      t.filter (fun c => decide (c ≠ 10 ∧ c ≠ 13)) ++ pemBody false true rest := by
  induction t with
  | nil => rfl
  | cons c t ih =>
      rw [List.mem_cons, not_or] at h
      have hmark : ∀ word : Text, word.head? = some 45 → ¬ word <+: c :: (t ++ rest) := by
        rintro (_ | ⟨d, word⟩) hhead hprefix
        · cases hhead
        · exact h.1 ((Option.some.inj hhead).symm.trans (List.cons_prefix_cons.mp hprefix).1)
      rw [List.cons_append, pemBody, if_neg (by simp), if_neg (hmark _ (by decide)),
        if_neg (hmark _ (by decide)), ih h.2]
      by_cases hc : c ≠ 10 ∧ c ≠ 13
      · simp [hc]
      · rw [List.filter_cons_of_neg (by simpa using hc), if_neg (by simpa using hc)]

lemma filter_lines {lines : List Text} (hlines : ∀ line ∈ lines, ∀ c ∈ line, IsPemChar c)
    (heol : IsLineBreak eol) :
    (lines.flatMap (· ++ eol)).filter (fun c => decide (c ≠ 10 ∧ c ≠ 13)) = lines.flatten := by
  induction lines with
  | nil => rfl
  | cons line lines ih =>
      rw [List.forall_mem_cons] at hlines
      have hline : line.filter (fun c => decide (c ≠ 10 ∧ c ≠ 13)) = line := by
        refine List.filter_eq_self.mpr fun c hc => decide_eq_true ?_
        exact ⟨(hlines.1 c hc).ne.2.1, (hlines.1 c hc).ne.2.2.1⟩
      have hbreak : eol.filter (fun c => decide (c ≠ 10 ∧ c ≠ 13)) = [] := by
        rcases heol with rfl | rfl <;> decide
      rw [List.flatMap_cons, List.filter_append, List.filter_append, hline, hbreak,
        List.append_nil, ih hlines.2, List.flatten_cons]

lemma pemBody_begin (htype : 10 ∉ type) (heol : IsLineBreak eol) (rest : Text) :
    pemBody false false (pemBegin type ++ eol ++ rest) = pemBody false true rest := by
  obtain ⟨front, hfront, hfront10⟩ : ∃ front, eol = front ++ [10] ∧ 10 ∉ front := by
    rcases heol with rfl | rfl
    · exact ⟨[], rfl, by simp⟩
    · exact ⟨[13], rfl, by simp⟩
  have hmark : ascii "-----BEGIN" = 45 :: ascii "----BEGIN" := by decide
  have hname : ascii "-----BEGIN " = 45 :: (ascii "----BEGIN" ++ [32]) := by decide
  have hline : 10 ∉ ascii "----BEGIN" ++ [32] ++ type ++ ascii "-----" ++ front := by
    have h1 : 10 ∉ ascii "----BEGIN" ++ [32] := by decide
    have h2 : 10 ∉ ascii "-----" := by decide
    simp only [List.mem_append, not_or] at h1 ⊢
    exact ⟨⟨⟨h1, htype⟩, h2⟩, hfront10⟩
  have hskip := pemBody_skip hline true rest
  rw [pemBegin, hname, hfront]
  simp only [List.cons_append, List.append_assoc, List.nil_append] at hskip ⊢
  rw [pemBody, if_neg (by simp), hmark,
    if_pos (List.cons_prefix_cons.mpr ⟨rfl, List.prefix_append _ _⟩), hskip]

lemma pemBody_end (type rest : Text) : pemBody false true (pemEnd type ++ rest) = [] := by
  have hname : ascii "-----END " = [45, 45, 45, 45, 45, 69, 78, 68, 32] := by decide
  have hmark : ascii "-----END" = [45, 45, 45, 45, 45, 69, 78, 68] := by decide
  have hother : ascii "-----BEGIN" = [45, 45, 45, 45, 45, 66, 69, 71, 73, 78] := by decide
  rw [pemEnd, hname]
  simp [pemBody, hmark, hother]

/-- The body of a block, whatever its line breaks are. -/
lemma pemToBase64_block {lines : List Text} (htype : 10 ∉ type) (heol : IsLineBreak eol)
    (hlines : ∀ line ∈ lines, ∀ c ∈ line, IsPemChar c) :
    pemToBase64 (pemBlock eol type lines) = lines.flatten := by
  have hbody : 45 ∉ lines.flatMap (· ++ eol) := by
    rw [List.mem_flatMap]
    rintro ⟨line, hline, hmem⟩
    rcases List.mem_append.mp hmem with hc | hc
    · exact (hlines line hline 45 hc).ne.2.2.2 rfl
    · rcases heol with rfl | rfl <;> simp at hc
  rw [pemToBase64, pemBlock, pemBody_begin htype heol, pemBody_collect hbody,
    filter_lines hlines heol, pemBody_end, List.append_nil]

/-! ## Lines of 64 characters -/

/-- Less than a line is not broken. -/
lemma brokenFrom_short (h : i % 64 + t.length < 64) : brokenFrom i t = t := by
  induction t generalizing i with
  | nil => rfl
  | cons c t ih =>
      rw [List.length_cons] at h
      rw [brokenFrom_cons, if_neg (by omega), ih (by omega), List.singleton_append]

/-- A full line is broken behind its last character. -/
lemma brokenFrom_full (ht : t ≠ []) (h : i % 64 + t.length = 64) : brokenFrom i t = t ++ [10] := by
  induction t generalizing i with
  | nil => exact absurd rfl ht
  | cons c t ih =>
      rw [List.length_cons] at h
      rw [brokenFrom_cons]
      cases t with
      | nil =>
          rw [List.length_nil] at h
          rw [if_pos (by omega)]
          rfl
      | cons d t =>
          rw [List.length_cons] at h ih
          rw [if_neg (by omega), ih (by simp) (by omega)]
          rfl

lemma brokenFrom_append (i : ℕ) (s t : Text) :
    brokenFrom i (s ++ t) = brokenFrom i s ++ brokenFrom (i + s.length) t := by
  rw [brokenFrom, List.zipIdx_append, List.flatMap_append]
  rfl

/-- With the last break the lines are the rows of 64 characters. -/
lemma brokenFrom_rows (hi : i % 64 = 0) (t : Text) :
    brokenFrom i t ++ (if t.length % 64 ≠ 0 then [10] else []) =
      (rows 64 t).flatMap (· ++ [10]) := by
  induction hn : t.length using Nat.strong_induction_on generalizing i t with
  | _ n ih =>
      by_cases ht : t = []
      · subst hn
        simp [ht, brokenFrom]
      have hpos := List.length_pos_iff.mpr ht
      rw [rows_of_ne_nil (by omega) ht, List.flatMap_cons]
      by_cases hlt : t.length < 64
      · rw [List.take_of_length_le (by omega), List.drop_of_length_le (by omega), rows_nil,
          brokenFrom_short (by omega), if_pos (by omega), List.flatMap_nil, List.append_nil]
      · have hlen : (t.take 64).length = 64 := by
          rw [List.length_take]
          omega
        have hne : t.take 64 ≠ [] := List.ne_nil_of_length_pos (by omega)
        have ih := ih (t.drop 64).length (by rw [List.length_drop]; omega) (i := i + 64) (by omega)
          (t.drop 64) rfl
        have hmod : (t.drop 64).length % 64 = n % 64 := by
          rw [List.length_drop]
          omega
        rw [hmod] at ih
        have hsplit := brokenFrom_append i (t.take 64) (t.drop 64)
        rw [List.take_append_drop, hlen] at hsplit
        rw [hsplit, brokenFrom_full hne (by omega), List.append_assoc, ih]

/-- The text that is written is a block. -/
lemma base64ToPem_eq_block (base64 type : Text) :
    base64ToPem base64 type = pemBlock [10] type (rows 64 base64) := by
  have hdashes : ascii "-----\n" = ascii "-----" ++ [10] := by decide
  rw [base64ToPem_eq, brokenFrom_rows rfl, pemHeader, pemFooter, hdashes, pemBlock, pemBegin,
    pemEnd]
  simp only [List.append_assoc]

lemma IsPemType.notMem_newline (h : IsPemType type) : 10 ∉ type := by
  rcases h with rfl | rfl <;> decide

/-- **The text fits into the buffer and is read back as it was, and a block comes back with the same
body in rows of 64 characters.** -/
theorem pem_transport (type : Text) (htype : IsPemType type) :
    (∀ base64 : Text, (∀ c ∈ base64, IsPemChar c) →
      ∀ result : List UInt8, result.length = pemRoom base64 →
        ∃ result' pem, base64ToPemIn result base64 type = some result' ∧
          string result' 0 = some pem ∧ pemToBase64 pem = base64) ∧
    (∀ (eol : Text) (lines : List Text), IsLineBreak eol →
      (∀ line ∈ lines, ∀ c ∈ line, IsPemChar c) →
      ∀ result : List UInt8, result.length = pemRoom (pemToBase64 (pemBlock eol type lines)) →
        ∃ result',
          base64ToPemIn result (pemToBase64 (pemBlock eol type lines)) type = some result' ∧
          string result' 0 = some (pemBlock [10] type (rows 64 lines.flatten))) := by
  have hwritten : ∀ base64 : Text, (∀ c ∈ base64, IsPemChar c) →
      ∀ result : List UInt8, result.length = pemRoom base64 →
        ∃ result', base64ToPemIn result base64 type = some result' ∧
          string result' 0 = some (pemBlock [10] type (rows 64 base64)) := by
    intro base64 hchars result hroom
    obtain ⟨result', heq, hholds⟩ := base64ToPemIn_eq hroom htype fun h0 => (hchars 0 h0).ne.1 rfl
    refine ⟨result', heq, ?_⟩
    simpa [base64ToPem_eq_block] using hholds.string (Nat.zero_le _)
  constructor
  · intro base64 hchars result hroom
    obtain ⟨result', heq, hstring⟩ := hwritten base64 hchars result hroom
    refine ⟨result', _, heq, hstring, ?_⟩
    have hflat := rows_flatten (show 64 ≠ 0 by decide) base64
    have hrows : ∀ line ∈ rows 64 base64, ∀ c ∈ line, IsPemChar c := by
      intro line hline c hc
      refine hchars c ?_
      rw [← hflat]
      exact List.mem_flatten_of_mem hline hc
    rw [pemToBase64_block htype.notMem_newline (Or.inl rfl) hrows, hflat]
  · intro eol lines heol hlines result hroom
    rw [pemToBase64_block htype.notMem_newline heol hlines] at hroom ⊢
    refine hwritten lines.flatten ?_ result hroom
    intro c hc
    obtain ⟨line, hline, hc⟩ := List.mem_flatten.mp hc
    exact hlines line hline c hc

/-- The body `QR==` of a certificate, and a block that has it in two lines. -/
theorem pem_transport_certificate :
    (∃ result' pem, base64ToPemIn (List.replicate 104 0) (ascii "QR==") (ascii "CERTIFICATE") =
        some result' ∧ string result' 0 = some pem ∧ pemToBase64 pem = ascii "QR==") ∧
    ∃ result', base64ToPemIn (List.replicate 104 0)
        (pemToBase64 (pemBlock [13, 10] (ascii "CERTIFICATE") [ascii "QR", ascii "=="]))
        (ascii "CERTIFICATE") = some result' ∧
      string result' 0 = some (pemBlock [10] (ascii "CERTIFICATE") (rows 64 (ascii "QR=="))) := by
  obtain ⟨hbody, hblock⟩ := pem_transport (ascii "CERTIFICATE") (Or.inl rfl)
  have hchars : ∀ c ∈ ascii "QR==", IsPemChar c := by
    have hall : ∀ c ∈ ascii "QR==", c ∈ base64Original ∨ c = 61 := by
      rw [base64Original_eq]
      decide +kernel
    exact hall
  have hlines : ∀ line ∈ [ascii "QR", ascii "=="], ∀ c ∈ line, IsPemChar c := by
    have hall : ∀ line ∈ [ascii "QR", ascii "=="], ∀ c ∈ line, c ∈ base64Original ∨ c = 61 := by
      rw [base64Original_eq]
      decide +kernel
    exact hall
  refine ⟨hbody _ hchars _ (by decide), hblock _ _ (Or.inr rfl) hlines _ ?_⟩
  rw [pemToBase64_block (by decide) (Or.inr rfl) hlines]
  decide

end Tinc
