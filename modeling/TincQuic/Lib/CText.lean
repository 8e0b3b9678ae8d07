import Mathlib.Data.Int.Notation
import Mathlib.Data.List.Lex
import Mathlib.Data.List.TakeWhile
import TincQuic.Lib.Bytes

/-!
# Text as the C library reads and writes it

A `Text` is the bytes of a C string before its terminating null.

* `strtol` and `atoi` convert a prefix of a text, and `strcmp` orders texts.
* `sscanf` is the function of that name on formats made of white space, literal bytes and the
  conversions `%d`, `%x`, `%u` and `%s`.
* `decimal` and `hex` are the conversions `%d` and `%x` of `printf`.

The conversions follow the GNU library where the standard leaves a case open: a number that does
not fit is clamped to a `long` and then cut to an `int`.
-/

namespace CText

open Bytes

/-- The bytes of a C string. -/
abbrev Text := List UInt8

/-- Membership in a list of texts is decided by comparing them. -/
instance lawfulBEqText : LawfulBEq Text := List.instLawfulBEq

/-- What a C function sees of a buffer: the bytes before the first null. -/
def cstr (buffer : List UInt8) : Text := buffer.takeWhile (· ≠ 0)

/-- `isspace` -/
def isSpace (c : UInt8) : Bool := c = 32 ∨ (9 ≤ c ∧ c ≤ 13)

/-- `isdigit` -/
def isDigit (c : UInt8) : Bool := 48 ≤ c ∧ c ≤ 57

/-- The value of a hexadecimal digit. -/
def hexValue (c : UInt8) : Option ℕ :=
  if isDigit c then some (c.toNat - 48)
  else if 97 ≤ c ∧ c ≤ 102 then some (c.toNat - 87)
  else if 65 ≤ c ∧ c ≤ 70 then some (c.toNat - 55)
  else none

/-- `tolower` -/
def toLower (c : UInt8) : UInt8 := if 65 ≤ c ∧ c ≤ 90 then c + 32 else c

/-- Skips white space. -/
def skipSpace (t : Text) : Text := t.dropWhile isSpace

/-- The number a digit string spells. -/
def ofDigits (t : Text) : ℕ := t.foldl (fun n c => n * 10 + (c.toNat - 48)) 0

/-- The cast of a `long` to an `int`. -/
def toInt32 (n : ℤ) : ℤ := (n + 2 ^ 31) % 2 ^ 32 - 2 ^ 31

/-- A `long` keeps what fits and clamps the rest. -/
def clampLong (n : ℤ) : ℤ := max (-2 ^ 63) (min (2 ^ 63 - 1) n)

/-- The number at the front of `t` after white space, with a sign: what it is, and what follows.
No digit is no number. -/
def strtol (t : Text) : Option (ℤ × Text) :=
  let t := skipSpace t
  let neg := t.head? = some 45
  let t := if neg ∨ t.head? = some 43 then t.tail else t
  let digits := t.takeWhile isDigit
  if digits = [] then none
  else
    let n : ℤ := ofDigits digits
    some (clampLong (if neg then -n else n), t.drop digits.length)

/-- `atoi` -/
def atoi (t : Text) : ℤ :=
  match strtol t with
  | none => 0
  | some (n, _) => toInt32 n

example : atoi (ascii " -12x") = -12 ∧ atoi (ascii "x") = 0 ∧ atoi (ascii "4294967308") = 12 := by
  decide

/-- `strcmp`, of which only the sign counts. -/
def strcmp : Text → Text → ℤ
  | [], [] => 0
  | [], b :: _ => -(b.toNat : ℤ) - 1
  | a :: _, [] => (a.toNat : ℤ) + 1
  | a :: s, b :: t => if a = b then strcmp s t else (a.toNat : ℤ) - b.toNat

/-- The bytes as numbers, which order texts as `strcmp` does. -/
def textKey (t : Text) : List ℕ := t.map UInt8.toNat

lemma textKey_inj {s t : Text} : textKey s = textKey t ↔ s = t := by
  constructor
  · exact fun h => (List.map_injective_iff.mpr fun a b => UInt8.toNat_inj.mp) h
  · rintro rfl
    rfl

lemma strcmp_eq_zero {s t : Text} : strcmp s t = 0 ↔ s = t := by
  induction s generalizing t with
  | nil =>
      cases t with
      | nil => simp [strcmp]
      | cons b t => simp only [strcmp, reduceCtorEq, iff_false]; omega
  | cons a s ih =>
      cases t with
      | nil => simp only [strcmp, reduceCtorEq, iff_false]; omega
      | cons b t =>
          rw [strcmp]
          split
          · rename_i h
            rw [ih, h]
            simp
          · rename_i h
            have : a.toNat ≠ b.toNat := fun h' => h (UInt8.toNat_inj.mp h')
            simp only [List.cons.injEq, h, false_and, iff_false]
            omega

lemma strcmp_neg {s t : Text} : strcmp s t < 0 ↔ textKey s < textKey t := by
  induction s generalizing t with
  | nil =>
      cases t with
      | nil => simp [strcmp, textKey]
      | cons b t => simp [strcmp, textKey]; omega
  | cons a s ih =>
      cases t with
      | nil => simp [strcmp, textKey]; omega
      | cons b t =>
          rw [strcmp]
          simp only [textKey, List.map_cons, List.cons_lt_cons_iff] at ih ⊢
          split
          · rename_i h
            rw [ih, h]
            simp
          · rename_i h
            have : a.toNat ≠ b.toNat := fun h' => h (UInt8.toNat_inj.mp h')
            simp only [this, false_and, or_false]
            omega
/-! ## `sscanf` -/

/-- A conversion, with the greatest number of bytes it may take. -/
inductive Conversion where
  | d (width : Option ℕ)
  | x (width : Option ℕ) (bits : ℕ)
  | u (width : Option ℕ) (bits : ℕ)
  | s (width : ℕ)

/-- A part of a format.  `skip` is a conversion whose result is not stored. -/
inductive Directive where
  | space
  | lit (c : UInt8)
  | conv (k : Conversion)
  | skip (k : Conversion)

/-- A stored result. -/
inductive Item where
  | int (n : ℤ)
  | uint (n : ℕ)
  | str (t : Text)
  deriving DecidableEq

/-- A number in a field: its sign, its digits, and how many bytes it takes.  A leading `0x` is
skipped when the base is 16. -/
def scanNumber (base : ℕ) (field : Text) : Option (Bool × List ℕ × ℕ) :=
  let neg := field.head? = some 45
  let signed := neg ∨ field.head? = some 43
  let t := if signed then field.tail else field
  let pre := base = 16 ∧ t.head? = some 48 ∧ (t.drop 1).head?.map toLower = some 120
  let body := if pre then t.drop 2 else t
  let isDigitOf := fun c => (hexValue c).any (· < base)
  let digits := (body.takeWhile isDigitOf).filterMap hexValue
  if digits = [] ∧ ¬ pre then none
  else some (neg, digits,
    (if signed then 1 else 0) + (if pre then 2 else 0) + digits.length)

/-- The value of digits, the most significant first. -/
def ofBase (base : ℕ) (digits : List ℕ) : ℕ := digits.foldl (fun n d => n * base + d) 0

/-- `strtoul`: what does not fit becomes the greatest `unsigned long`. -/
def toULong (neg : Bool) (n : ℕ) : ℕ :=
  if 2 ^ 64 ≤ n then 2 ^ 64 - 1 else if neg then (2 ^ 64 - n) % 2 ^ 64 else n

/-- The bytes a conversion may look at. -/
def limit (width : Option ℕ) (t : Text) : Text :=
  match width with
  | none => t
  | some w => t.take w

/-- An unsigned conversion, cut to `bits` bits. -/
def scanUnsigned (base : ℕ) (width : Option ℕ) (bits : ℕ) (t : Text) : Option (Item × Text) :=
  (scanNumber base (limit width (skipSpace t))).map fun (neg, digits, n) =>
    (.uint (toULong neg (ofBase base digits) % 2 ^ bits), (skipSpace t).drop n)

/-- One conversion: the item it reads and the text behind it. -/
def Conversion.scan (t : Text) : Conversion → Option (Item × Text)
  | .d width =>
      (scanNumber 10 (limit width (skipSpace t))).map fun (neg, digits, n) =>
        let m : ℤ := ofBase 10 digits
        (.int (toInt32 (clampLong (if neg then -m else m))), (skipSpace t).drop n)
  | .x width bits => scanUnsigned 16 width bits t
  | .u width bits => scanUnsigned 10 width bits t
  | .s width =>
      let word := ((skipSpace t).take width).takeWhile (fun c => !isSpace c)
      if word = [] then none else some (.str word, (skipSpace t).drop word.length)

/-- `sscanf`: the items stored before the first directive that does not match, and the text that
was not read. -/
def sscanf : List Directive → Text → List Item × Text
  | [], t => ([], t)
  | .space :: f, t => sscanf f (skipSpace t)
  | .lit c :: f, t => if t.head? = some c then sscanf f t.tail else ([], t)
  | .conv k :: f, t =>
      match k.scan t with
      | none => ([], t)
      | some (item, t') => (item :: (sscanf f t').1, (sscanf f t').2)
  | .skip k :: f, t =>
      match k.scan t with
      | none => ([], t)
      | some (_, t') => sscanf f t'

/-! ## Files -/

/-- `atol` -/
def atol (t : Text) : ℤ := (strtol t).elim 0 Prod.fst

/-- `strncasecmp (t, pattern, strlen (pattern)) == 0` -/
def hasPrefixCase (pattern t : Text) : Bool :=
  (t.take pattern.length).map toLower = pattern.map toLower

/-- `strcasecmp (s, t) == 0` -/
def sameIgnoringCase (s t : Text) : Bool := s.map toLower = t.map toLower

/-- What repeated calls of `fgets` with a buffer of `size` bytes return: `line` was read already,
and it ends with a newline or when the buffer is full. -/
def fgetsFrom (size : ℕ) (line : Text) : Text → List Text
  | [] => if line = [] then [] else [line]
  | c :: t =>
      if c = 10 ∨ line.length + 2 = size then (line ++ [c]) :: fgetsFrom size [] t
      else fgetsFrom size (line ++ [c]) t

/-- The lines of a file as `fgets` returns them. -/
def fgets (size : ℕ) (file : Text) : List Text := fgetsFrom size [] file

lemma fgetsFrom_line {size : ℕ} {pre line : Text} (h : 10 ∉ line)
    (hsize : pre.length + line.length + 2 ≤ size) (rest : Text) :
    fgetsFrom size pre (line ++ 10 :: rest) = (pre ++ line ++ [10]) :: fgetsFrom size [] rest := by
  induction line generalizing pre with
  | nil => simp [fgetsFrom]
  | cons c line ih =>
      rw [List.mem_cons, not_or] at h
      rw [List.length_cons] at hsize
      rw [List.cons_append, fgetsFrom, if_neg]
      · rw [ih h.2 (by simp; omega)]
        simp
      · rintro (hc | hc)
        · exact h.1 hc.symm
        · omega

/-- A line that fits into the buffer is returned as it is. -/
lemma fgets_line {size : ℕ} {line : Text} (h : 10 ∉ line) (hsize : line.length + 2 ≤ size)
    (rest : Text) : fgets size (line ++ 10 :: rest) = (line ++ [10]) :: fgets size rest := by
  rw [fgets, fgetsFrom_line h (by simpa using hsize)]
  rfl

lemma fgetsFrom_append (size : ℕ) (line pre : Text) :
    ∃ lines, ∀ rest, fgetsFrom size line (pre ++ 10 :: rest) = lines ++ fgetsFrom size [] rest := by
  induction pre generalizing line with
  | nil => exact ⟨[line ++ [10]], fun rest => by simp [fgetsFrom]⟩
  | cons c pre ih =>
      by_cases hc : c = 10 ∨ line.length + 2 = size
      · obtain ⟨lines, hlines⟩ := ih []
        refine ⟨(line ++ [c]) :: lines, fun rest => ?_⟩
        rw [List.cons_append, fgetsFrom, if_pos hc, hlines, List.cons_append]
      · obtain ⟨lines, hlines⟩ := ih (line ++ [c])
        refine ⟨lines, fun rest => ?_⟩
        rw [List.cons_append, fgetsFrom, if_neg hc, hlines]

/-- Whatever a file begins with, after a newline a new line begins. -/
lemma fgets_append (size : ℕ) (pre : Text) :
    ∃ lines, ∀ rest, fgets size (pre ++ 10 :: rest) = lines ++ fgets size rest :=
  fgetsFrom_append size [] pre

/-! ## `printf` -/

/-- The byte of a digit. -/
def digitByte (d : ℕ) : UInt8 := UInt8.ofNat (if d < 10 then 48 + d else 87 + d)

/-- The digits of `n`, the most significant first.  `fuel` bounds their number. -/
def toBase (base : ℕ) : ℕ → ℕ → List ℕ
  | 0, n => [n]
  | fuel + 1, n => if n < base then [n] else toBase base fuel (n / base) ++ [n % base]

/-- `%x` -/
def hex (n : ℕ) : Text := (toBase 16 n n).map digitByte

/-- `%d` -/
def decimal (n : ℤ) : Text :=
  if n < 0 then 45 :: (toBase 10 n.natAbs n.natAbs).map digitByte
  else (toBase 10 n.natAbs n.natAbs).map digitByte

/-! ## Numbers come back -/

lemma length_toBase_le {base : ℕ} (hbase : 0 < base) {fuel n k : ℕ} (h : n < base ^ (k + 1)) :
    (toBase base fuel n).length ≤ k + 1 := by
  induction fuel generalizing n k with
  | zero => simp [toBase]
  | succ fuel ih =>
      rw [toBase]
      split
      · simp
      · rename_i hlarge
        cases k with
        | zero => exact absurd (by simpa using h) hlarge
        | succ k =>
            have hdiv : n / base < base ^ (k + 1) := by
              rw [Nat.div_lt_iff_lt_mul hbase, ← pow_succ]
              exact h
            have := ih hdiv
            rw [List.length_append, List.length_singleton]
            omega

lemma toBase_lt {base : ℕ} (hbase : 0 < base) {fuel n : ℕ} (h : n < base ^ (fuel + 1)) :
    ∀ d ∈ toBase base fuel n, d < base := by
  induction fuel generalizing n with
  | zero => simpa [toBase] using h
  | succ fuel ih =>
      rw [toBase]
      split
      · rename_i hsmall
        simpa using hsmall
      · intro d hd
        rcases List.mem_append.mp hd with hd | hd
        · refine ih ?_ d hd
          rw [Nat.div_lt_iff_lt_mul hbase, ← pow_succ]
          exact h
        · rw [List.mem_singleton.mp hd]
          exact Nat.mod_lt _ hbase

lemma digitByte_digit {d : ℕ} (h : d < 10) :
    isDigit (digitByte d) = true ∧ (digitByte d).toNat = 48 + d := by
  revert h
  revert d
  decide

lemma ofDigits_toBase {fuel n : ℕ} (h : n < 10 ^ (fuel + 1)) :
    ofDigits ((toBase 10 fuel n).map digitByte) = n := by
  induction fuel generalizing n with
  | zero =>
      have := (digitByte_digit (by simpa using h : n < 10)).2
      simp [toBase, ofDigits, this]
  | succ fuel ih =>
      rw [toBase]
      split
      · rename_i hsmall
        simp [ofDigits, (digitByte_digit hsmall).2]
      · have hdiv := ih (n := n / 10) (by omega)
        unfold ofDigits at hdiv ⊢
        rw [List.map_append, List.foldl_append, hdiv]
        simp [(digitByte_digit (Nat.mod_lt n (by decide : 0 < 10))).2]
        omega

lemma lt_ten_pow (n : ℕ) : n < 10 ^ (n + 1) :=
  (Nat.lt_succ_self n).trans (Nat.lt_pow_self (by decide))

lemma decimal_digits (n : ℕ) : ∀ c ∈ decimal n, isDigit c = true := by
  intro c hc
  have hn : ¬ (n : ℤ) < 0 := by omega
  rw [decimal, if_neg hn, List.mem_map] at hc
  obtain ⟨d, hd, rfl⟩ := hc
  exact (digitByte_digit (toBase_lt (by decide) (lt_ten_pow _) d hd)).1

lemma decimal_ne_nil (n : ℕ) : decimal n ≠ [] := by
  have hn : ¬ (n : ℤ) < 0 := by omega
  rw [decimal, if_neg hn]
  cases h : (n : ℤ).natAbs with
  | zero => simp [toBase]
  | succ m =>
      rw [toBase]
      split <;> simp

lemma isSpace_of_isDigit {c : UInt8} (hc : isDigit c = true) : isSpace c = false := by
  simp only [isDigit, decide_eq_true_eq, UInt8.le_iff_toNat_le] at hc
  simp only [isSpace, decide_eq_false_iff_not, UInt8.le_iff_toNat_le]
  rintro (rfl | ⟨-, hle⟩)
  · exact absurd hc.1 (by decide)
  · exact absurd (Nat.le_trans hc.1 hle) (by decide)

/-- No white space stands before a number. -/
lemma skipSpace_decimal (n : ℕ) (rest : Text) :
    skipSpace (decimal n ++ rest) = decimal n ++ rest := by
  obtain ⟨c, t, hct⟩ := List.exists_cons_of_ne_nil (decimal_ne_nil n)
  have hc : isSpace c = false := isSpace_of_isDigit (decimal_digits n c (by simp [hct]))
  rw [hct, List.cons_append, skipSpace, List.dropWhile_cons_of_neg (by simp [hc])]

/-- What `printf` wrote, `atoi` reads. -/
lemma atoi_decimal {n : ℕ} (h : n < 2 ^ 31) : atoi (decimal n) = n := by
  have hdigits := decimal_digits n
  have hall : (decimal n).takeWhile isDigit = decimal n := List.takeWhile_eq_self_iff.mpr hdigits
  obtain ⟨c, t, hct⟩ := List.exists_cons_of_ne_nil (decimal_ne_nil n)
  have hc : isDigit c = true := hdigits c (by simp [hct])
  have hskip : skipSpace (decimal n) = decimal n := by simpa using skipSpace_decimal n []
  have hsign : ¬ (decimal n).head? = some 45 ∧ ¬ (decimal n).head? = some 43 := by
    rw [hct]
    constructor
    · rintro h
      rw [Option.some.inj h] at hc
      exact absurd hc (by decide)
    · rintro h
      rw [Option.some.inj h] at hc
      exact absurd hc (by decide)
  have hvalue : (ofDigits (decimal n) : ℤ) = n := by
    have hn : ¬ (n : ℤ) < 0 := by omega
    rw [decimal, if_neg hn]
    exact congrArg Nat.cast (ofDigits_toBase (lt_ten_pow n))
  unfold atoi strtol
  simp only [hskip, hsign, or_self, if_false, hall, decimal_ne_nil]
  rw [hvalue]
  simp [clampLong, toInt32]
  omega

lemma length_decimal_le {n k : ℕ} (h : n < 10 ^ (k + 1)) : (decimal n).length ≤ k + 1 := by
  have hn : ¬ (n : ℤ) < 0 := by omega
  rw [decimal, if_neg hn, List.length_map]
  exact length_toBase_le (by decide) (by simpa using h)

end CText
