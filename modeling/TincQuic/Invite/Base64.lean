import TincQuic.Invite.Files
import TincQuic.Lib.CBuffer

/-!
# The two base64 codecs

The control program encodes three bytes as a number with the first byte lowest, and writes its four
digits lowest first, without padding; it works backwards so that it can encode in place.  The
invitations use a codec of their own with the first byte highest and with padding.

* `b64encodeInternal` and `b64decode` work on memory with checked accesses.  What they compute is
  `encoded` and `decoded`, and `decoded_encoded` is the round trip of these.
* **Encoding in place is like encoding elsewhere**: `b64encodeLoop_spec`, by induction over the
  groups that are left in front.
* **A character outside the alphabet sets the sign bit of its triplet, at any position, and nothing
  clears it again**: `b64decodeText_spoiled`.
* `base64_codecs` is what both codecs promise.
-/

namespace Tinc

open Bytes CText CBuffer

/-! ## The codec of the control program -/

/-- `base64_original` -/
def base64Original : Text :=
  ascii "ABCDEFGHIJKLMNOPQRSTUVWXYZabcdefghijklmnopqrstuvwxyz0123456789+/"

/-- `base64_urlsafe` -/
def base64Urlsafe : Text :=
  ascii "ABCDEFGHIJKLMNOPQRSTUVWXYZabcdefghijklmnopqrstuvwxyz0123456789-_"

/-- `base64_decode` -/
def base64Decode : List ℤ :=
  List.replicate 32 (-1) ++
    [-1, -1, -1, -1, -1, -1, -1, -1, -1, -1, -1, 62, -1, 62, -1, 63,
      52, 53, 54, 55, 56, 57, 58, 59, 60, 61, -1, -1, -1, -1, -1, -1,
      -1, 0, 1, 2, 3, 4, 5, 6, 7, 8, 9, 10, 11, 12, 13, 14,
      15, 16, 17, 18, 19, 20, 21, 22, 23, 24, 25, -1, -1, -1, -1, 63,
      -1, 26, 27, 28, 29, 30, 31, 32, 33, 34, 35, 36, 37, 38, 39, 40,
      41, 42, 43, 44, 45, 46, 47, 48, 49, 50, 51, -1, -1, -1, -1, -1] ++
    List.replicate 128 (-1)

/-- The entry of a character. -/
def base64Entry (c : UInt8) : ℤ := base64Decode.getD c.toNat 0

/-- `triplet |= base64_decode[src[i] & 0xff] << (6 * (i & 3))` -/
def addDigit (triplet : BitVec 32) (i : ℕ) (c : UInt8) : BitVec 32 :=
  triplet ||| (BitVec.ofInt 32 (base64Entry c) <<< (6 * (i % 4)))

/-- `triplet & 0xff000000U` -/
def overflows (triplet : BitVec 32) : Bool := triplet &&& 0xff000000#32 ≠ 0

/-- `triplet & 0xff` -/
def lowByte (triplet : BitVec 32) : UInt8 := UInt8.ofNat triplet.toNat

/-- What comes after the loop of `b64decode`; `udst` are the bytes that were written. -/
def b64decodeEnd (i : ℕ) (triplet : BitVec 32) (udst : List UInt8) : ℕ × List UInt8 :=
  if overflows triplet then (0, udst)
  else if i % 4 = 3 then (i / 4 * 3 + 2, udst ++ [lowByte triplet, lowByte (triplet >>> 8)])
  else if i % 4 = 2 then (i / 4 * 3 + 1, udst ++ [lowByte triplet])
  else (i / 4 * 3, udst)

/-- The loop of `b64decode`. -/
def b64decodeLoop (src : List UInt8) (length i : ℕ) (triplet : BitVec 32) (udst : List UInt8) :
    Option (ℕ × List UInt8) :=
  if i < length then do
    let c ← src[i]?
    if c = 0 then some (b64decodeEnd i triplet udst)
    else
      let triplet := addDigit triplet i c
      if i % 4 = 3 then
        if overflows triplet then some (0, udst)
        else
          b64decodeLoop src length (i + 1) 0
            (udst ++ [lowByte triplet, lowByte (triplet >>> 8), lowByte (triplet >>> 16)])
      else b64decodeLoop src length (i + 1) triplet udst
  else some (b64decodeEnd i triplet udst)
termination_by length - i

/-- `b64decode`: what it returns, and the bytes it writes. -/
def b64decode (src : List UInt8) (length : ℕ) : Option (ℕ × List UInt8) :=
  b64decodeLoop src length 0 0 []

/-- The character of a digit. -/
def digitChar (alphabet : Text) (n : ℕ) : UInt8 := alphabet.getD n 0

/-- The loop of `b64encode_internal`, which goes from the last group to the first. -/
def b64encodeLoop (alphabet : Text) (src dst si di : ℕ) (mem : List UInt8) : Option (List UInt8) :=
  if 0 < si then do
    let di := di - 4
    let si' := si - 3
    let u0 ← mem[src + si']?
    let u1 ← mem[src + si' + 1]?
    let u2 ← mem[src + si' + 2]?
    let triplet := u0.toNat + u1.toNat * 2 ^ 8 + u2.toNat * 2 ^ 16
    let mem ← store mem (dst + di)
      [digitChar alphabet (triplet % 64), digitChar alphabet (triplet / 64 % 64),
        digitChar alphabet (triplet / 64 / 64 % 64), digitChar alphabet (triplet / 64 / 64 / 64)]
    b64encodeLoop alphabet src dst si' di mem
  else some mem
termination_by si

/-- The part of `b64encode_internal` before the loop: the last one or two bytes if
they are no whole group, and the terminator. -/
def b64encodeTail (alphabet : Text) (mem : List UInt8) (src dst length : ℕ) :
    Option (List UInt8 × ℕ) :=
  let si := length / 3 * 3
  let di := length / 3 * 4
  if length % 3 = 2 then do
    let u0 ← mem[src + si]?
    let u1 ← mem[src + si + 1]?
    let triplet := u0.toNat + u1.toNat * 2 ^ 8
    let mem ← store mem (dst + di)
      [digitChar alphabet (triplet % 64), digitChar alphabet (triplet / 64 % 64),
        digitChar alphabet (triplet / 64 / 64), 0]
    some (mem, di + 3)
  else if length % 3 = 1 then do
    let u0 ← mem[src + si]?
    let triplet := u0.toNat
    let mem ← store mem (dst + di)
      [digitChar alphabet (triplet % 64), digitChar alphabet (triplet / 64), 0]
    some (mem, di + 2)
  else do
    let mem ← store mem (dst + di) [0]
    some (mem, di)

/-- `b64encode_internal` within one memory: the memory, and what it returns. -/
def b64encodeInternal (alphabet : Text) (mem : List UInt8) (src dst length : ℕ) :
    Option (List UInt8 × ℕ) := do
  let (mem, n) ← b64encodeTail alphabet mem src dst length
  let mem ← b64encodeLoop alphabet src dst (length / 3 * 3) (length / 3 * 4) mem
  some (mem, n)

/-! ## What is encoded and decoded -/

/-- The text of some bytes. -/
def encoded (alphabet : Text) : List UInt8 → Text
  | a :: b :: c :: x =>
      let n := a.toNat + b.toNat * 2 ^ 8 + c.toNat * 2 ^ 16
      digitChar alphabet (n % 64) :: digitChar alphabet (n / 64 % 64) ::
        digitChar alphabet (n / 64 / 64 % 64) :: digitChar alphabet (n / 64 / 64 / 64) ::
          encoded alphabet x
  | [a, b] =>
      let n := a.toNat + b.toNat * 2 ^ 8
      [digitChar alphabet (n % 64), digitChar alphabet (n / 64 % 64),
        digitChar alphabet (n / 64 / 64)]
  | [a] => [digitChar alphabet (a.toNat % 64), digitChar alphabet (a.toNat / 64)]
  | [] => []

/-- The digit that a character stands for. -/
def digitOf (c : UInt8) : ℕ := (base64Entry c).toNat

/-- The bytes of a text. -/
def decoded : Text → List UInt8
  | a :: b :: c :: d :: t =>
      let n := digitOf a + digitOf b * 2 ^ 6 + digitOf c * 2 ^ 12 + digitOf d * 2 ^ 18
      UInt8.ofNat n :: UInt8.ofNat (n / 2 ^ 8) :: UInt8.ofNat (n / 2 ^ 16) :: decoded t
  | [a, b, c] =>
      let n := digitOf a + digitOf b * 2 ^ 6 + digitOf c * 2 ^ 12
      [UInt8.ofNat n, UInt8.ofNat (n / 2 ^ 8)]
  | [a, b] => [UInt8.ofNat (digitOf a + digitOf b * 2 ^ 6)]
  | _ => []

/-- A character is valid if the table has a digit for it. -/
def IsBase64 (c : UInt8) : Prop := 0 ≤ base64Entry c

instance (c : UInt8) : Decidable (IsBase64 c) := by unfold IsBase64; infer_instance

variable {alphabet s t : Text} {x y : List UInt8} {c : UInt8}

/-- The letters and the digits, which both alphabets have. -/
def alphanumerics : List ℕ := List.range' 65 26 ++ List.range' 97 26 ++ List.range' 48 10

lemma base64Original_eq : base64Original = (alphanumerics ++ [43, 47]).map UInt8.ofNat := by
  rfl

lemma base64Urlsafe_eq : base64Urlsafe = (alphanumerics ++ [45, 95]).map UInt8.ofNat := by
  rfl

lemma base64urlTable_eq : base64urlTable = (alphanumerics ++ [45, 95]).map UInt8.ofNat :=
  base64Urlsafe_eq

lemma mem_map_ofNat {l : List ℕ} (hl : ∀ n ∈ l, n < 256) (c : UInt8) :
    c ∈ l.map UInt8.ofNat ↔ c.toNat ∈ l := by
  rw [List.mem_map]
  constructor
  · rintro ⟨n, hn, rfl⟩
    rwa [UInt8.toNat_ofNat', Nat.mod_eq_of_lt (hl n hn)]
  · exact fun h => ⟨_, h, UInt8.ofNat_toNat⟩

/-- The table as a formula. -/
def digitEntry (n : ℕ) : ℤ :=
  if 65 ≤ n ∧ n < 91 then n - 65
  else if 97 ≤ n ∧ n < 123 then n - 71
  else if 48 ≤ n ∧ n < 58 then n + 4
  else if n = 43 ∨ n = 45 then 62
  else if n = 47 ∨ n = 95 then 63
  else -1

set_option maxRecDepth 4000 in
lemma base64Entry_eq (c : UInt8) : base64Entry c = digitEntry c.toNat := by
  have htable : base64Decode = (List.range 256).map digitEntry := by decide
  have hc := c.toNat_lt
  rw [base64Entry, htable, List.getD_eq_getElem?_getD, List.getElem?_map,
    List.getElem?_range (by omega)]
  rfl

/-- The table knows exactly the characters of the two alphabets. -/
lemma isBase64_iff (c : UInt8) : IsBase64 c ↔ c ∈ base64Original ∨ c ∈ base64Urlsafe := by
  rw [base64Original_eq, base64Urlsafe_eq, mem_map_ofNat (by decide), mem_map_ofNat (by decide),
    IsBase64, base64Entry_eq, digitEntry]
  simp only [alphanumerics, List.mem_append, List.mem_range'_1, List.mem_cons, List.not_mem_nil,
    or_false]
  split_ifs <;> omega

lemma digitOf_lt (c : UInt8) : digitOf c < 64 := by
  rw [digitOf, base64Entry_eq, digitEntry]
  split_ifs <;> omega

/-- One of the two alphabets. -/
def IsAlphabet (alphabet : Text) : Prop := alphabet = base64Original ∨ alphabet = base64Urlsafe

set_option maxRecDepth 4000 in
/-- **The table inverts both alphabets.** -/
lemma IsAlphabet.digit (h : IsAlphabet alphabet) {n : ℕ} (hn : n < 64) :
    base64Entry (digitChar alphabet n) = n ∧ digitChar alphabet n ≠ 0 := by
  have horiginal : ∀ n < 64, base64Entry (digitChar base64Original n) = n ∧
      digitChar base64Original n ≠ 0 := by
    simp only [base64Entry_eq, base64Original_eq]
    decide
  have hurlsafe : ∀ n < 64, base64Entry (digitChar base64Urlsafe n) = n ∧
      digitChar base64Urlsafe n ≠ 0 := by
    simp only [base64Entry_eq, base64Urlsafe_eq]
    decide
  rcases h with rfl | rfl
  · exact horiginal n hn
  · exact hurlsafe n hn

lemma IsAlphabet.digitOf (h : IsAlphabet alphabet) {n : ℕ} (hn : n < 64) :
    digitOf (digitChar alphabet n) = n := by
  rw [Tinc.digitOf, (h.digit hn).1, Int.toNat_natCast]

/-- What is encoded are valid characters. -/
lemma IsAlphabet.encoded_valid (h : IsAlphabet alphabet) (x : List UInt8) :
    ∀ c ∈ encoded alphabet x, IsBase64 c ∧ c ≠ 0 := by
  have hdigit : ∀ n < 64, IsBase64 (digitChar alphabet n) ∧ digitChar alphabet n ≠ 0 := by
    intro n hn
    refine ⟨?_, (h.digit hn).2⟩
    rw [IsBase64, (h.digit hn).1]
    omega
  induction x using encoded.induct with
  | case1 a b c x ih =>
      have ha := a.toNat_lt
      have hb := b.toNat_lt
      have hc := c.toNat_lt
      simp only [encoded, List.forall_mem_cons]
      exact ⟨hdigit _ (by omega), hdigit _ (by omega), hdigit _ (by omega), hdigit _ (by omega), ih⟩
  | case2 a b =>
      have ha := a.toNat_lt
      have hb := b.toNat_lt
      simp only [encoded, List.forall_mem_cons]
      exact ⟨hdigit _ (by omega), hdigit _ (by omega), hdigit _ (by omega), by simp⟩
  | case3 a =>
      have ha := a.toNat_lt
      simp only [encoded, List.forall_mem_cons]
      exact ⟨hdigit _ (by omega), hdigit _ (by omega), by simp⟩
  | case4 => simp [encoded]

/-- The byte of a number. -/
lemma ofNat_of_mod {n : ℕ} {a : UInt8} (h : n % 256 = a.toNat) : UInt8.ofNat n = a := by
  refine UInt8.toNat_inj.mp ?_
  rw [UInt8.toNat_ofNat']
  exact h

/-- **The round trip.** -/
lemma IsAlphabet.decoded_encoded (h : IsAlphabet alphabet) (x : List UInt8) :
    decoded (encoded alphabet x) = x := by
  induction x using encoded.induct with
  | case1 a b c x ih =>
      have ha := a.toNat_lt
      have hb := b.toNat_lt
      have hc := c.toNat_lt
      simp only [encoded, decoded]
      rw [h.digitOf (by omega), h.digitOf (by omega), h.digitOf (by omega), h.digitOf (by omega),
        ih, ofNat_of_mod (a := a) (by omega), ofNat_of_mod (a := b) (by omega),
        ofNat_of_mod (a := c) (by omega)]
  | case2 a b =>
      have ha := a.toNat_lt
      have hb := b.toNat_lt
      simp only [encoded, decoded]
      rw [h.digitOf (by omega), h.digitOf (by omega), h.digitOf (by omega),
        ofNat_of_mod (a := a) (by omega), ofNat_of_mod (a := b) (by omega)]
  | case3 a =>
      have ha := a.toNat_lt
      simp only [encoded, decoded]
      rw [h.digitOf (by omega), h.digitOf (by omega), ofNat_of_mod (a := a) (by omega)]
  | case4 => rfl

/-! ## Decoding -/

/-- The loop of `b64decode` on the text that it reads. -/
def b64decodeText (i : ℕ) (triplet : BitVec 32) (udst : List UInt8) : Text → ℕ × List UInt8
  | [] => b64decodeEnd i triplet udst
  | c :: s =>
      let triplet := addDigit triplet i c
      if i % 4 = 3 then
        if overflows triplet then (0, udst)
        else
          b64decodeText (i + 1) 0
            (udst ++ [lowByte triplet, lowByte (triplet >>> 8), lowByte (triplet >>> 16)]) s
      else b64decodeText (i + 1) triplet udst s

/-- The loop reads up to the terminator. -/
lemma b64decodeLoop_eq {front junk udst : List UInt8} {triplet : BitVec 32} {length : ℕ}
    (h0 : 0 ∉ s) (hlength : front.length + s.length ≤ length) :
    b64decodeLoop (front ++ s ++ 0 :: junk) length front.length triplet udst =
      some (b64decodeText front.length triplet udst s) := by
  induction s generalizing front triplet udst with
  | nil =>
      rw [b64decodeLoop, List.append_nil, List.getElem?_append_right le_rfl, Nat.sub_self]
      simp [b64decodeText]
  | cons c s ih =>
      rw [List.mem_cons, not_or] at h0
      rw [List.length_cons] at hlength
      have hread : (front ++ c :: s ++ 0 :: junk)[front.length]? = some c := by
        rw [List.append_assoc, List.getElem?_append_right le_rfl, Nat.sub_self]
        rfl
      have hnext : front ++ c :: s ++ 0 :: junk = (front ++ [c]) ++ s ++ 0 :: junk := by simp
      have ih := fun triplet udst => @ih (front ++ [c]) udst triplet h0.2 (by simp; omega)
      rw [List.length_append, List.length_singleton] at ih
      rw [b64decodeLoop, if_pos (by omega), hread, b64decodeText]
      simp only [Option.bind_eq_bind, Option.bind_some]
      rw [if_neg (Ne.symm h0.1), hnext]
      split
      · split
        · rfl
        · exact ih _ _
      · exact ih _ _

lemma b64decode_eq {src : List UInt8} {length : ℕ} (h : Holds src s) (hlength : s.length ≤ length) :
    b64decode src length = some (b64decodeText 0 0 [] s) := by
  obtain ⟨h0, junk, rfl⟩ := h
  exact @b64decodeLoop_eq s [] junk [] 0 length h0 (by simpa using hlength)

variable {triplet : BitVec 32} {i : ℕ} {udst : List UInt8}

/-- A valid character is put above what is there. -/
lemma toNat_addDigit (hc : IsBase64 c) (ht : triplet.toNat < 2 ^ (6 * (i % 4))) :
    (addDigit triplet i c).toNat = triplet.toNat + digitOf c * 2 ^ (6 * (i % 4)) := by
  have hdigit := digitOf_lt c
  have hentry : BitVec.ofInt 32 (base64Entry c) = BitVec.ofNat 32 (digitOf c) := by
    rw [digitOf, ← BitVec.ofInt_natCast, Int.toNat_of_nonneg hc]
  have hpow : 2 ^ (6 * (i % 4)) ≤ 2 ^ 18 := Nat.pow_le_pow_right (by decide) (by omega)
  have hsmall : digitOf c * 2 ^ (6 * (i % 4)) < 2 ^ 32 := by nlinarith
  rw [addDigit, hentry, BitVec.toNat_or, BitVec.toNat_shiftLeft, BitVec.toNat_ofNat,
    Nat.mod_eq_of_lt (by omega : digitOf c < 2 ^ 32), Nat.shiftLeft_eq, Nat.mod_eq_of_lt hsmall,
    Nat.or_comm, ← Nat.shiftLeft_eq, shiftLeft_or_eq _ ht, Nat.shiftLeft_eq, Nat.add_comm]

lemma overflows_eq_false (h : triplet.toNat < 2 ^ 24) : overflows triplet = false := by
  have hmask : ∀ j < 24, Nat.testBit 0xff000000 j = false := by decide
  rw [overflows, decide_eq_false_iff_not, not_not]
  refine BitVec.eq_of_toNat_eq (Nat.eq_of_testBit_eq fun j => ?_)
  rw [BitVec.toNat_and, Nat.testBit_and]
  by_cases hj : j < 24
  · rw [show (0xff000000#32).toNat = 0xff000000 from rfl, hmask j hj]
    simp
  · have hbit : triplet.toNat.testBit j = false :=
      Nat.testBit_lt_two_pow (h.trans_le (Nat.pow_le_pow_right (by decide) (by omega)))
    rw [hbit]
    simp

/-- The sign bit is set. -/
def Spoiled (triplet : BitVec 32) : Prop := triplet.getLsbD 31 = true

lemma Spoiled.overflows (h : Spoiled triplet) : overflows triplet = true := by
  rw [Tinc.overflows, decide_eq_true_iff]
  intro hzero
  have hbit : (triplet &&& 0xff000000#32).getLsbD 31 = true := by
    rw [BitVec.getLsbD_and, h]
    rfl
  rw [hzero] at hbit
  simp at hbit

lemma Spoiled.addDigit (h : Spoiled triplet) (i : ℕ) (c : UInt8) :
    Spoiled (addDigit triplet i c) := by
  rw [Spoiled, Tinc.addDigit, BitVec.getLsbD_or, h, Bool.true_or]

/-- **A character outside the alphabet sets the sign bit**, wherever it stands. -/
lemma spoiled_of_invalid (h : ¬ IsBase64 c) (triplet : BitVec 32) (i : ℕ) :
    Spoiled (addDigit triplet i c) := by
  have hentry : base64Entry c = -1 := by
    rw [IsBase64, base64Entry_eq, digitEntry] at h
    rw [base64Entry_eq, digitEntry]
    split_ifs at h ⊢ <;> omega
  have hshift : ∀ r < 4, (BitVec.ofInt 32 (-1) <<< (6 * r)).getLsbD 31 = true := by decide
  rw [Spoiled, addDigit, BitVec.getLsbD_or, hentry, hshift (i % 4) (Nat.mod_lt _ (by decide)),
    Bool.or_true]

/-- **What is spoiled stays so**, and nothing is returned. -/
lemma b64decodeText_spoiled (h : Spoiled triplet ∨ ∃ c ∈ s, ¬ IsBase64 c) :
    (b64decodeText i triplet udst s).1 = 0 := by
  induction s generalizing i triplet udst with
  | nil =>
      rcases h with h | ⟨c, hc, -⟩
      · rw [b64decodeText, b64decodeEnd, if_pos h.overflows]
      · simp at hc
  | cons c s ih =>
      have hnext : Spoiled (addDigit triplet i c) ∨ ∃ c ∈ s, ¬ IsBase64 c := by
        rcases h with h | ⟨d, hd, hinvalid⟩
        · exact .inl (h.addDigit i c)
        · rcases List.mem_cons.mp hd with rfl | hd
          · exact .inl (spoiled_of_invalid hinvalid triplet i)
          · exact .inr ⟨d, hd, hinvalid⟩
      rw [b64decodeText]
      split
      · split
        · rfl
        · rename_i hfits
          exact ih (.inr (hnext.resolve_left fun hspoiled => hfits hspoiled.overflows))
      · exact ih hnext

lemma lowByte_eq (triplet : BitVec 32) : lowByte triplet = UInt8.ofNat triplet.toNat := rfl

lemma lowByte_shift (triplet : BitVec 32) (k : ℕ) :
    lowByte (triplet >>> k) = UInt8.ofNat (triplet.toNat / 2 ^ k) := by
  rw [lowByte, BitVec.toNat_ushiftRight, Nat.shiftRight_eq_div_pow]

variable {a b d : UInt8}

/-- Two characters at the beginning of a group. -/
lemma toNat_two_digits (ha : IsBase64 a) (hb : IsBase64 b) (hi : i % 4 = 0) :
    (addDigit (addDigit 0 i a) (i + 1) b).toNat = digitOf a + digitOf b * 2 ^ 6 := by
  have hda := digitOf_lt a
  have h1 : (addDigit 0 i a).toNat = digitOf a := by
    rw [toNat_addDigit ha (by simp), hi]
    simp
  rw [toNat_addDigit hb, h1, show (i + 1) % 4 = 1 by omega]
  rw [h1, show (i + 1) % 4 = 1 by omega]
  omega

lemma toNat_three_digits (ha : IsBase64 a) (hb : IsBase64 b) (hc : IsBase64 c) (hi : i % 4 = 0) :
    (addDigit (addDigit (addDigit 0 i a) (i + 1) b) (i + 1 + 1) c).toNat =
      digitOf a + digitOf b * 2 ^ 6 + digitOf c * 2 ^ 12 := by
  have hda := digitOf_lt a
  have hdb := digitOf_lt b
  have h2 := toNat_two_digits ha hb hi
  rw [toNat_addDigit hc, h2, show (i + 1 + 1) % 4 = 2 by omega]
  rw [h2, show (i + 1 + 1) % 4 = 2 by omega]
  omega

lemma toNat_four_digits (ha : IsBase64 a) (hb : IsBase64 b) (hc : IsBase64 c) (hd : IsBase64 d)
    (hi : i % 4 = 0) :
    (addDigit (addDigit (addDigit (addDigit 0 i a) (i + 1) b) (i + 1 + 1) c)
      (i + 1 + 1 + 1) d).toNat =
      digitOf a + digitOf b * 2 ^ 6 + digitOf c * 2 ^ 12 + digitOf d * 2 ^ 18 := by
  have hda := digitOf_lt a
  have hdb := digitOf_lt b
  have hdc := digitOf_lt c
  have h3 := toNat_three_digits ha hb hc hi
  rw [toNat_addDigit hd, h3, show (i + 1 + 1 + 1) % 4 = 3 by omega]
  rw [h3, show (i + 1 + 1 + 1) % 4 = 3 by omega]
  omega

/-- **Valid text is decoded group by group.** -/
lemma b64decodeText_valid (hs : ∀ c ∈ s, IsBase64 c) (hi : i % 4 = 0) :
    b64decodeText i 0 udst s = (i / 4 * 3 + (decoded s).length, udst ++ decoded s) := by
  induction s using decoded.induct generalizing i udst with
  | case1 a b c d t ih =>
      simp only [List.forall_mem_cons] at hs
      obtain ⟨ha, hb, hc, hd, ht⟩ := hs
      have h4 := toNat_four_digits ha hb hc hd hi
      have hda := digitOf_lt a
      have hdb := digitOf_lt b
      have hdc := digitOf_lt c
      have hdd := digitOf_lt d
      have hfits : overflows (addDigit (addDigit (addDigit (addDigit 0 i a) (i + 1) b)
          (i + 1 + 1) c) (i + 1 + 1 + 1) d) = false := overflows_eq_false (by rw [h4]; omega)
      rw [b64decodeText, if_neg (by omega), b64decodeText, if_neg (by omega), b64decodeText,
        if_neg (by omega), b64decodeText, if_pos (by omega), hfits]
      simp only [Bool.false_eq_true, if_false]
      rw [ih ht (by omega), lowByte_eq, lowByte_shift, lowByte_shift, h4, decoded]
      simp
      omega
  | case2 a b c =>
      simp only [List.forall_mem_cons] at hs
      obtain ⟨ha, hb, hc, -⟩ := hs
      have h3 := toNat_three_digits ha hb hc hi
      have hda := digitOf_lt a
      have hdb := digitOf_lt b
      have hdc := digitOf_lt c
      have hfits : overflows (addDigit (addDigit (addDigit 0 i a) (i + 1) b)
          (i + 1 + 1) c) = false := overflows_eq_false (by rw [h3]; omega)
      rw [b64decodeText, if_neg (by omega), b64decodeText, if_neg (by omega), b64decodeText,
        if_neg (by omega), b64decodeText, b64decodeEnd, hfits, if_neg (by simp),
        if_pos (by omega), lowByte_eq, lowByte_shift, h3, decoded]
      simp
      omega
  | case3 a b =>
      simp only [List.forall_mem_cons] at hs
      obtain ⟨ha, hb, -⟩ := hs
      have h2 := toNat_two_digits ha hb hi
      have hda := digitOf_lt a
      have hdb := digitOf_lt b
      have hfits : overflows (addDigit (addDigit 0 i a) (i + 1) b) = false :=
        overflows_eq_false (by rw [h2]; omega)
      rw [b64decodeText, if_neg (by omega), b64decodeText, if_neg (by omega), b64decodeText,
        b64decodeEnd, hfits, if_neg (by simp), if_neg (by omega), if_pos (by omega), lowByte_eq, h2,
        decoded]
      simp
      omega
  | case4 t h4 h3 h2 =>
      -- a single character is no byte
      match t, h4, h3, h2 with
      | [], _, _, _ =>
          rw [b64decodeText, b64decodeEnd, overflows_eq_false (by decide), if_neg (by simp),
            if_neg (by omega), if_neg (by omega)]
          simp [decoded]
      | [a], _, _, _ =>
          have ha := hs a (by simp)
          have hda := digitOf_lt a
          have h1 : (addDigit 0 i a).toNat = digitOf a := by
            rw [toNat_addDigit ha (by simp), hi]
            simp
          rw [b64decodeText, if_neg (by omega), b64decodeText, b64decodeEnd,
            overflows_eq_false (by rw [h1]; omega), if_neg (by simp), if_neg (by omega),
            if_neg (by omega)]
          simp [decoded]
          omega
      | [a, b], _, _, h2 => exact absurd rfl (h2 a b)
      | [a, b, c], _, h3, _ => exact absurd rfl (h3 a b c)
      | a :: b :: c :: d :: t, h4, _, _ => exact absurd rfl (h4 a b c d t)

/-! ## Encoding in a memory -/

/-- Whole groups are encoded by themselves. -/
lemma encoded_append (alphabet : Text) (hx : x.length % 3 = 0) (y : List UInt8) :
    encoded alphabet (x ++ y) = encoded alphabet x ++ encoded alphabet y := by
  induction x using encoded.induct with
  | case1 a b c x ih =>
      have hx' : x.length % 3 = 0 := by
        simp only [List.length_cons] at hx
        omega
      simp only [List.cons_append, encoded, ih hx']
  | case2 a b => simp at hx
  | case3 a => simp at hx
  | case4 => rfl

/-- How long the text is. -/
def encodedLength (n : ℕ) : ℕ := n / 3 * 4 + if n % 3 = 0 then 0 else n % 3 + 1

lemma length_encoded (alphabet : Text) (x : List UInt8) :
    (encoded alphabet x).length = encodedLength x.length := by
  induction x using encoded.induct with
  | case1 a b c x ih =>
      simp only [encoded, List.length_cons, ih, encodedLength]
      rw [show (x.length + 1 + 1 + 1) / 3 = x.length / 3 + 1 by omega,
        show (x.length + 1 + 1 + 1) % 3 = x.length % 3 by omega]
      omega
  | case2 a b => simp [encoded, encodedLength]
  | case3 a => simp [encoded, encodedLength]
  | case4 => rfl

variable {mem mem' : List UInt8} {src dst n : ℕ}

/-- The text may be written where it does not run into bytes that are still to be read: behind the
beginning of the source, or wholly in front of it. -/
def Writable (src dst length : ℕ) : Prop := src ≤ dst ∨ dst + encodedLength length + 1 ≤ src

/-- `y` stands at the position `k`. -/
def StandsAt (mem : List UInt8) (k : ℕ) (y : List UInt8) : Prop :=
  ∀ j < y.length, mem[k + j]? = y[j]?

/-- **The loop encodes the groups in front of it**, and touches nothing else. -/
lemma b64encodeLoop_spec (hy : y.length = 3 * n) (hread : StandsAt mem src y)
    (hroom : dst + 4 * n ≤ mem.length) (hwrite : src ≤ dst ∨ dst + 4 * n ≤ src) :
    ∃ mem', b64encodeLoop alphabet src dst (3 * n) (4 * n) mem = some mem' ∧
      mem'.length = mem.length ∧ ∀ j, mem'[j]? =
        if dst ≤ j ∧ j < dst + 4 * n then (encoded alphabet y)[j - dst]? else mem[j]? := by
  induction n generalizing mem y with
  | zero =>
      refine ⟨mem, ?_, rfl, fun j => ?_⟩
      · rw [b64encodeLoop, if_neg (by omega)]
      · rw [if_neg (by omega)]
  | succ n ih =>
      obtain ⟨z, a, b, c, rfl, hz⟩ : ∃ z a b c, y = z ++ [a, b, c] ∧ z.length = 3 * n := by
        have hdrop : (y.drop (3 * n)).length = 3 := by
          rw [List.length_drop]
          omega
        obtain ⟨a, b, c, habc⟩ := List.length_eq_three.mp hdrop
        refine ⟨y.take (3 * n), a, b, c, ?_, by rw [List.length_take]; omega⟩
        rw [← habc, List.take_append_drop]
      have hlast : ∀ j < 3, mem[src + 3 * n + j]? = [a, b, c][j]? := by
        intro j hj
        have h := hread (3 * n + j) (by simp; omega)
        rw [List.getElem?_append_right (by omega), hz, Nat.add_sub_cancel_left] at h
        rw [Nat.add_assoc]
        exact h
      have hfirst : StandsAt mem src z := by
        intro j hj
        rw [hread j (by simp; omega), List.getElem?_append_left hj]
      have h0 := hlast 0 (by decide)
      have h1 := hlast 1 (by decide)
      have h2 := hlast 2 (by decide)
      rw [b64encodeLoop, if_pos (by omega), show 4 * (n + 1) - 4 = 4 * n by omega,
        show 3 * (n + 1) - 3 = 3 * n by omega]
      simp only [Nat.add_zero, List.getElem?_cons_zero, List.getElem?_cons_succ] at h0 h1 h2
      simp only [h0, h1, h2, Option.bind_eq_bind, Option.bind_some]
      have hgroup : encoded alphabet (z ++ [a, b, c]) =
          encoded alphabet z ++ encoded alphabet [a, b, c] := encoded_append alphabet (by omega) _
      have hlen : (encoded alphabet z).length = 4 * n := by
        rw [length_encoded, encodedLength, hz, Nat.mul_mod_right, Nat.mul_div_cancel_left _
          (by decide), if_pos rfl]
        omega
      rw [hgroup]
      simp only [encoded]
      generalize hbytes : [digitChar alphabet _, digitChar alphabet _, digitChar alphabet _,
        digitChar alphabet _] = bytes
      have hfour : bytes.length = 4 := by rw [← hbytes]; rfl
      obtain ⟨mem₁, hmem₁⟩ : ∃ mem₁, store mem (dst + 4 * n) bytes = some mem₁ :=
        ⟨_, store_of_le (by omega)⟩
      have hlength := length_store hmem₁
      have hget := getElem?_store hmem₁
      rw [hmem₁, Option.bind_some]
      -- the groups in front are still to be read
      have hfirst₁ : StandsAt mem₁ src z := by
        intro j hj
        rw [hget, if_neg (by omega), hfirst j hj]
      obtain ⟨mem', hloop, hlen', hget'⟩ := ih hz hfirst₁ (by omega) (by omega)
      refine ⟨mem', hloop, hlen'.trans hlength, fun j => ?_⟩
      rw [hget' j]
      by_cases hj : dst ≤ j ∧ j < dst + 4 * n
      · rw [if_pos hj, if_pos (by omega), List.getElem?_append_left (by omega)]
      · rw [if_neg hj, hget j, hfour]
        by_cases hj' : dst + 4 * n ≤ j ∧ j < dst + 4 * n + 4
        · rw [if_pos hj', if_pos (by omega), List.getElem?_append_right (by omega), hlen]
          congr 1
          omega
        · rw [if_neg hj', if_neg (by omega)]

lemma b64encodeTail_eq (hy : y.length = 3 * n) (hx : x.length < 3)
    (hread : StandsAt mem (src + 3 * n) x) :
    b64encodeTail alphabet mem src dst (y ++ x).length =
      (store mem (dst + 4 * n) (encoded alphabet x ++ [0])).map fun mem =>
        (mem, 4 * n + (encoded alphabet x).length) := by
  have hdiv : (y ++ x).length / 3 = n := by
    rw [List.length_append]
    omega
  have hmod : (y ++ x).length % 3 = x.length := by
    rw [List.length_append]
    omega
  unfold b64encodeTail
  simp only [hdiv, hmod, Nat.mul_comm n]
  match x, hx, hread with
  | [], _, _ =>
      rw [if_neg (by simp), if_neg (by simp)]
      cases h : store mem (dst + 4 * n) [0] <;> simp [encoded, h]
  | [a], _, hread =>
      have h0 : mem[src + 3 * n]? = some a := hread 0 (by simp)
      rw [if_neg (by simp), if_pos (by simp), h0]
      simp only [Option.bind_eq_bind, Option.bind_some, encoded, List.cons_append, List.nil_append]
      cases store mem (dst + 4 * n) _ <;> rfl
  | [a, b], _, hread =>
      have h0 : mem[src + 3 * n]? = some a := hread 0 (by simp)
      have h1 : mem[src + 3 * n + 1]? = some b := hread 1 (by simp)
      rw [if_pos (by simp), h0, h1]
      simp only [Option.bind_eq_bind, Option.bind_some, encoded, List.cons_append, List.nil_append]
      cases store mem (dst + 4 * n) _ <;> rfl

/-- **The text stands at `dst` with its terminator**, and nothing else is touched. -/
lemma b64encodeInternal_spec (hread : StandsAt mem src x)
    (hroom : dst + encodedLength x.length + 1 ≤ mem.length) (hwrite : Writable src dst x.length) :
    ∃ mem', b64encodeInternal alphabet mem src dst x.length =
        some (mem', encodedLength x.length) ∧ mem'.length = mem.length ∧
      ∀ j, mem'[j]? =
        if dst ≤ j ∧ j < dst + encodedLength x.length + 1 then
          (encoded alphabet x ++ [0])[j - dst]?
        else mem[j]? := by
  obtain ⟨y, z, n, rfl, hy, hz⟩ : ∃ y z n, x = y ++ z ∧ y.length = 3 * n ∧ z.length < 3 := by
    refine ⟨x.take (3 * (x.length / 3)), x.drop (3 * (x.length / 3)), x.length / 3,
      (List.take_append_drop _ _).symm, ?_, ?_⟩
    · rw [List.length_take]
      omega
    · rw [List.length_drop]
      omega
  have hencoded : encoded alphabet (y ++ z) = encoded alphabet y ++ encoded alphabet z :=
    encoded_append alphabet (by omega) z
  have hlength : encodedLength (y ++ z).length = 4 * n + (encoded alphabet z).length := by
    rw [length_encoded, encodedLength, encodedLength, List.length_append]
    split_ifs <;> omega
  have hfour : (encoded alphabet y).length = 4 * n := by
    rw [length_encoded, encodedLength, if_pos (by omega)]
    omega
  have hready : StandsAt mem src y := by
    intro j hj
    rw [hread j (by rw [List.length_append]; omega), List.getElem?_append_left hj]
  have hreadz : StandsAt mem (src + 3 * n) z := by
    intro j hj
    have h := hread (3 * n + j) (by rw [List.length_append]; omega)
    rw [List.getElem?_append_right (by omega), hy, Nat.add_sub_cancel_left] at h
    rw [Nat.add_assoc]
    exact h
  rw [Writable, hlength] at hwrite
  rw [hlength] at hroom ⊢
  obtain ⟨mem₁, hmem₁⟩ : ∃ mem₁, store mem (dst + 4 * n) (encoded alphabet z ++ [0]) = some mem₁ :=
    ⟨_, store_of_le (by rw [List.length_append, List.length_singleton]; omega)⟩
  have hget := getElem?_store hmem₁
  rw [List.length_append, List.length_singleton] at hget
  have hready₁ : StandsAt mem₁ src y := by
    intro j hj
    rw [hget, if_neg (by omega), hready j hj]
  obtain ⟨mem', hloop, hlen', hget'⟩ := @b64encodeLoop_spec alphabet y mem₁ src dst n hy hready₁
    (by rw [length_store hmem₁]; omega) (by omega)
  refine ⟨mem', ?_, hlen'.trans (length_store hmem₁), fun j => ?_⟩
  · have hdiv : (y ++ z).length / 3 = n := by
      rw [List.length_append]
      omega
    rw [b64encodeInternal, b64encodeTail_eq hy hz hreadz, hmem₁, hdiv, Nat.mul_comm n,
      Nat.mul_comm n]
    simp only [Option.map_some, Option.bind_eq_bind, Option.bind_some, hloop]
  · rw [hget' j, hencoded, List.append_assoc]
    by_cases hj : dst ≤ j ∧ j < dst + 4 * n
    · rw [if_pos hj, if_pos (by omega), List.getElem?_append_left (by omega)]
    · rw [if_neg hj, hget j]
      by_cases hj' : dst + 4 * n ≤ j ∧ j < dst + 4 * n + ((encoded alphabet z).length + 1)
      · have hbehind : (encoded alphabet y ++ (encoded alphabet z ++ [0]))[j - dst]? =
            (encoded alphabet z ++ [0])[j - dst - 4 * n]? := by
          rw [List.getElem?_append_right (by omega), hfour]
        rw [if_pos hj', if_pos (by omega), hbehind]
        congr 1
        omega
      · rw [if_neg hj', if_neg (by omega)]

/-- **Encoding and decoding again gives the bytes and their number**, in place as elsewhere. -/
lemma b64decode_b64encode (h : IsAlphabet alphabet) (hread : StandsAt mem src x)
    (hroom : dst + encodedLength x.length + 1 ≤ mem.length) (hwrite : Writable src dst x.length) :
    ∃ mem' n, b64encodeInternal alphabet mem src dst x.length = some (mem', n) ∧
      ∀ length, n ≤ length → b64decode (mem'.drop dst) length = some (x.length, x) := by
  obtain ⟨mem', hencode, hlength, hget⟩ :=
    @b64encodeInternal_spec alphabet x mem src dst hread hroom hwrite
  refine ⟨mem', _, hencode, fun length hle => ?_⟩
  have hvalid := h.encoded_valid x
  have hsame : mem'.drop dst = encoded alphabet x ++ 0 ::
      mem'.drop (dst + encodedLength x.length + 1) := by
    have hlen : (encoded alphabet x ++ [0]).length = encodedLength x.length + 1 := by
      rw [List.length_append, length_encoded, List.length_singleton]
    have hterminated : encoded alphabet x ++ 0 :: mem'.drop (dst + encodedLength x.length + 1) =
        (encoded alphabet x ++ [0]) ++ mem'.drop (dst + encodedLength x.length + 1) := by simp
    rw [hterminated]
    refine List.ext_getElem? fun j => ?_
    rw [List.getElem?_drop]
    by_cases hj : j < encodedLength x.length + 1
    · rw [hget, if_pos (by omega), Nat.add_sub_cancel_left]
      exact (List.getElem?_append_left (by omega)).symm
    · rw [List.getElem?_append_right (by omega), List.getElem?_drop, hlen]
      congr 1
      omega
  have hholds : Holds (mem'.drop dst) (encoded alphabet x) :=
    ⟨fun h0 => (hvalid 0 h0).2 rfl, _, hsame⟩
  rw [b64decode_eq hholds (by rw [length_encoded]; exact hle),
    b64decodeText_valid (fun c hc => (hvalid c hc).1) rfl, h.decoded_encoded]
  simp

/-! ## The codec of the invitations -/

/-- The digit of a character in `base64url_decode`; the padding counts as zero. -/
def base64urlValue (c : UInt8) : Option ℕ :=
  if 65 ≤ c ∧ c ≤ 90 then some (c.toNat - 65)
  else if 97 ≤ c ∧ c ≤ 122 then some (c.toNat - 97 + 26)
  else if 48 ≤ c ∧ c ≤ 57 then some (c.toNat - 48 + 52)
  else if c = 45 then some 62
  else if c = 95 then some 63
  else if c = 61 then some 0
  else none

/-- `if(p - out < *outlen) *p++ = b` -/
def pushByte (outlen : ℕ) (out : List UInt8) (b : ℕ) : List UInt8 :=
  if out.length < outlen then out ++ [UInt8.ofNat b] else out

/-- The loop of `base64url_decode`. -/
def base64urlLoop (outlen : ℕ) : Text → List UInt8 → Option (List UInt8)
  | c0 :: c1 :: c2 :: c3 :: str, out => do
      let n0 ← base64urlValue c0
      let n1 ← base64urlValue c1
      let n2 ← base64urlValue c2
      let n3 ← base64urlValue c3
      let val := n0 * 2 ^ 18 + n1 * 2 ^ 12 + n2 * 2 ^ 6 + n3
      let out := pushByte outlen out (val / 2 ^ 16)
      let out := pushByte outlen out (val / 2 ^ 8)
      let out := pushByte outlen out val
      base64urlLoop outlen str out
  | _, out => some out

/-- `base64url_decode` -/
def base64urlDecode (str : Text) : Option (List UInt8) :=
  let len := str.length
  if len % 4 ≠ 0 then none
  else
    let outlen := len / 4 * 3
    let outlen := if 0 < len ∧ str[len - 1]? = some 61 then outlen - 1 else outlen
    let outlen := if 1 < len ∧ str[len - 2]? = some 61 then outlen - 1 else outlen
    base64urlLoop outlen str []

set_option maxRecDepth 4000 in
lemma base64urlChar_mod (n : ℕ) :
    base64urlValue (base64urlChar n) = some (n % 64) ∧ base64urlChar n ≠ 61 := by
  have hall : ∀ m < 64, base64urlValue (base64urlTable.getD m 0) = some m ∧
      base64urlTable.getD m 0 ≠ 61 := by
    rw [base64urlTable_eq]
    decide
  exact hall (n % 64) (Nat.mod_lt n (by decide))

/-- Of three bytes those are written that the result has room for. -/
lemma pushByte_three (outlen : ℕ) (out : List UInt8) (a b c : ℕ) :
    pushByte outlen (pushByte outlen (pushByte outlen out a) b) c =
      out ++ [UInt8.ofNat a, UInt8.ofNat b, UInt8.ofNat c].take (outlen - out.length) := by
  have hpush : ∀ (k : ℕ) (out : List UInt8) (n : ℕ), k = outlen - out.length →
      pushByte outlen out n = if k = 0 then out else out ++ [UInt8.ofNat n] := by
    intro k out n hk
    unfold pushByte
    split_ifs <;> first | rfl | omega
  match h : outlen - out.length with
  | 0 =>
      have h0 := hpush 0 out
      rw [h0 a h.symm, if_pos rfl, h0 b h.symm, if_pos rfl, h0 c h.symm, if_pos rfl]
      simp
  | 1 =>
      have h0 := hpush 0 (out ++ [UInt8.ofNat a])
      rw [hpush 1 out a h.symm, if_neg (by decide), h0 b (by simp; omega), if_pos rfl,
        h0 c (by simp; omega), if_pos rfl]
      rfl
  | 2 =>
      rw [hpush 2 out a h.symm, if_neg (by decide), hpush 1 _ b (by simp; omega),
        if_neg (by decide), hpush 0 _ c (by simp; omega), if_pos rfl]
      simp
  | k + 3 =>
      rw [hpush (k + 3) out a h.symm, if_neg (by omega), hpush (k + 2) _ b (by simp; omega),
        if_neg (by omega), hpush (k + 1) _ c (by simp; omega), if_neg (by omega)]
      simp

/-- **The loop gives the bytes back**, once the length of the result is known. -/
lemma base64urlLoop_encode {out : List UInt8} {outlen : ℕ} (h : outlen = out.length + x.length) :
    base64urlLoop outlen (base64urlEncode x) out = some (out ++ x) := by
  have hpad : base64urlValue 61 = some 0 := rfl
  induction x using base64urlEncode.induct generalizing out with
  | case1 =>
      rw [base64urlEncode, base64urlLoop, List.append_nil]
      simp
  | case2 a =>
      have ha := a.toNat_lt
      simp only [base64urlEncode, base64urlLoop, (base64urlChar_mod _).1, hpad,
        Option.bind_eq_bind, Option.bind_some]
      rw [pushByte_three, h, Nat.add_sub_cancel_left, ofNat_of_mod (a := a) (by omega)]
      rfl
  | case3 a b =>
      have ha := a.toNat_lt
      have hb := b.toNat_lt
      simp only [base64urlEncode, base64urlLoop, (base64urlChar_mod _).1, hpad,
        Option.bind_eq_bind, Option.bind_some]
      rw [pushByte_three, h, Nat.add_sub_cancel_left, ofNat_of_mod (a := a) (by omega),
        ofNat_of_mod (a := b) (by omega)]
      rfl
  | case4 a b c x ih =>
      have ha := a.toNat_lt
      have hb := b.toNat_lt
      have hc := c.toNat_lt
      have hroom : outlen - out.length = x.length + 3 := by
        rw [h]
        simp
      simp only [base64urlEncode, base64urlLoop, (base64urlChar_mod _).1,
        Option.bind_eq_bind, Option.bind_some]
      rw [pushByte_three, hroom, ofNat_of_mod (a := a) (by omega),
        ofNat_of_mod (a := b) (by omega), ofNat_of_mod (a := c) (by omega)]
      simp only [List.take_succ_cons, List.take_nil]
      rw [ih (by rw [h]; simp; omega)]
      simp

lemma length_base64urlEncode (data : List UInt8) :
    (base64urlEncode data).length = 4 * ((data.length + 2) / 3) := by
  induction data using base64urlEncode.induct with
  | case1 => rfl
  | case2 a => simp [base64urlEncode]
  | case3 a b => simp [base64urlEncode]
  | case4 a b c data ih =>
      simp only [base64urlEncode, List.length_cons, ih]
      omega

/-- Whole groups are encoded by themselves, without padding. -/
lemma base64urlEncode_append (hx : x.length % 3 = 0) (y : List UInt8) :
    base64urlEncode (x ++ y) = base64urlEncode x ++ base64urlEncode y ∧
      61 ∉ base64urlEncode x := by
  induction x using base64urlEncode.induct with
  | case1 => simp [base64urlEncode]
  | case2 a => simp at hx
  | case3 a b => simp at hx
  | case4 a b c x ih =>
      have hx' : x.length % 3 = 0 := by
        simp only [List.length_cons] at hx
        omega
      have hchar := fun n => Ne.symm (base64urlChar_mod n).2
      simp [base64urlEncode, ih hx', hchar]

/-- **The padding at the end says how long the last group is.** -/
lemma base64urlEncode_padding (x : List UInt8) :
    ((base64urlEncode x)[(base64urlEncode x).length - 1]? = some 61 ↔ x.length % 3 ≠ 0) ∧
      ((base64urlEncode x)[(base64urlEncode x).length - 2]? = some 61 ↔ x.length % 3 = 1) := by
  obtain ⟨y, z, rfl, hy, hz⟩ : ∃ y z, x = y ++ z ∧ y.length % 3 = 0 ∧ z.length < 3 := by
    refine ⟨x.take (3 * (x.length / 3)), x.drop (3 * (x.length / 3)),
      (List.take_append_drop _ _).symm, ?_, ?_⟩
    · rw [List.length_take]
      omega
    · rw [List.length_drop]
      omega
  obtain ⟨happend, hplain⟩ := base64urlEncode_append hy z
  have hmod : (y ++ z).length % 3 = z.length := by
    rw [List.length_append]
    omega
  rw [happend, hmod]
  match z, hz with
  | [], _ =>
      have hno : ∀ i : ℕ, (base64urlEncode y)[i]? ≠ some (61 : UInt8) :=
        fun i h => hplain (List.mem_of_getElem? h)
      simp [base64urlEncode, hno]
  | [a], _ => simp [base64urlEncode]
  | [a, b], _ => simp [base64urlEncode, (base64urlChar_mod _).2]

/-- **The round trip of the invitations' codec.** -/
lemma base64urlDecode_encode (x : List UInt8) : base64urlDecode (base64urlEncode x) = some x := by
  obtain ⟨hlast, hsecond⟩ := base64urlEncode_padding x
  have hlength := length_base64urlEncode x
  unfold base64urlDecode
  simp only [hlast, hsecond]
  rw [if_neg (by omega)]
  refine (base64urlLoop_encode ?_).trans (by rw [List.nil_append])
  rw [hlength, List.length_nil]
  split_ifs <;> omega

set_option maxRecDepth 4000 in
lemma base64urlValue_eq_none : base64urlValue c = none ↔ c ∉ base64urlTable ∧ c ≠ 61 := by
  have hall : ∀ n < 256, base64urlValue (UInt8.ofNat n) = none ↔
      ¬ (65 ≤ n ∧ n < 91 ∨ 97 ≤ n ∧ n < 123 ∨ 48 ≤ n ∧ n < 58 ∨ n = 45 ∨ n = 95) ∧ n ≠ 61 := by
    decide
  have hc := hall c.toNat c.toNat_lt
  rw [UInt8.ofNat_toNat] at hc
  have hpad : c = 61 ↔ c.toNat = 61 := by
    rw [← UInt8.toNat_inj]
    rfl
  rw [hc, base64urlTable_eq, mem_map_ofNat (by decide), ne_eq, ne_eq, hpad]
  simp only [alphanumerics, List.mem_append, List.mem_range'_1, List.mem_cons, List.not_mem_nil,
    or_false]
  omega

/-- **A character that the codec does not know stops it.** -/
lemma base64urlLoop_invalid {outlen : ℕ} {out : List UInt8} (h4 : s.length % 4 = 0)
    (h : ∃ c ∈ s, base64urlValue c = none) : base64urlLoop outlen s out = none := by
  induction s using decoded.induct generalizing out with
  | case1 a b c d t ih =>
      rw [base64urlLoop]
      cases ha : base64urlValue a with
      | none => rfl
      | some n0 =>
          cases hb : base64urlValue b with
          | none => rfl
          | some n1 =>
              cases hc : base64urlValue c with
              | none => rfl
              | some n2 =>
                  cases hd : base64urlValue d with
                  | none => rfl
                  | some n3 =>
                      simp only [List.mem_cons, exists_eq_or_imp, ha, hb, hc, hd, reduceCtorEq,
                        false_or] at h
                      simp only [List.length_cons] at h4
                      exact ih (by omega) h
  | case2 a b c => simp at h4
  | case3 a b => simp at h4
  | case4 t hfour hthree htwo =>
      match t, hfour, hthree, htwo with
      | [], _, _, _ => simp at h
      | [a], _, _, _ => simp at h4
      | [a, b], _, _, htwo => exact absurd rfl (htwo a b)
      | [a, b, c], _, hthree, _ => exact absurd rfl (hthree a b c)
      | a :: b :: c :: d :: t, hfour, _, _ => exact absurd rfl (hfour a b c d t)

lemma base64urlDecode_invalid (h : ∃ c ∈ s, base64urlValue c = none) :
    base64urlDecode s = none := by
  unfold base64urlDecode
  by_cases h4 : s.length % 4 = 0
  · simp only
    rw [if_neg (by omega)]
    exact base64urlLoop_invalid h4 h
  · simp only
    rw [if_pos (by omega)]

/-- **The two codecs**: what was encoded is decoded, in place as elsewhere, and a character outside
the alphabet is noticed wherever it stands. -/
theorem base64_codecs (alphabet : Text)
    (halphabet : alphabet = base64Original ∨ alphabet = base64Urlsafe) :
    (∀ (mem x : List UInt8) (src dst : ℕ), StandsAt mem src x →
      dst + encodedLength x.length + 1 ≤ mem.length → Writable src dst x.length →
      ∃ mem' n, b64encodeInternal alphabet mem src dst x.length = some (mem', n) ∧
        ∀ length, n ≤ length → b64decode (mem'.drop dst) length = some (x.length, x)) ∧
    (∀ x, base64urlDecode (base64urlEncode x) = some x) ∧
    (∀ (src : List UInt8) (s : Text) (length : ℕ), Holds src s → s.length ≤ length →
      (∃ c ∈ s, c ∉ base64Original ∧ c ∉ base64Urlsafe) →
      ∃ udst, b64decode src length = some (0, udst)) ∧
    ∀ s : Text, (∃ c ∈ s, c ∉ base64urlTable ∧ c ≠ 61) → base64urlDecode s = none := by
  refine ⟨fun mem x src dst => b64decode_b64encode halphabet, base64urlDecode_encode, ?_, ?_⟩
  · intro src s length hholds hlength hinvalid
    obtain ⟨c, hc, houtside⟩ := hinvalid
    have hspoiled : (b64decodeText 0 0 [] s).1 = 0 :=
      b64decodeText_spoiled (.inr ⟨c, hc, fun hvalid => by
        rcases (isBase64_iff c).mp hvalid with h | h
        · exact houtside.1 h
        · exact houtside.2 h⟩)
    refine ⟨(b64decodeText 0 0 [] s).2, ?_⟩
    rw [b64decode_eq hholds hlength]
    exact congrArg some (Prod.ext hspoiled rfl)
  · rintro s ⟨c, hc, houtside⟩
    exact base64urlDecode_invalid ⟨c, hc, base64urlValue_eq_none.mpr houtside⟩

/-- Four bytes are encoded in place with the characters that are safe in a URL. -/
theorem base64_codecs_inPlace : ∃ mem' n,
    b64encodeInternal base64Urlsafe ([1, 2, 250, 255] ++ List.replicate 3 9) 0 0 4 =
      some (mem', n) ∧
    ∀ length, n ≤ length → b64decode (mem'.drop 0) length = some (4, [1, 2, 250, 255]) :=
  (base64_codecs base64Urlsafe (.inr rfl)).1 ([1, 2, 250, 255] ++ List.replicate 3 9)
    [1, 2, 250, 255] 0 0 (by unfold StandsAt; decide) (by decide) (.inl le_rfl)

end Tinc
