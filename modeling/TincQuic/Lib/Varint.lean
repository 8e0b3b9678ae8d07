import TincQuic.Lib.Bytes

/-!
# Variable-length integers

The integers of QUIC: the two top bits of the first byte give the length as a power of two, the
other bits are the value, the most significant first.

* `Encodes bs v` says that the bytes `bs` are such an integer, and that `v` is its value.  Nothing
  is said about its being the shortest.
* **No encoding is the beginning of another**: `Encodes.unique`.
* `CanHold n v` says that the value has an encoding of `n` bytes; `canHold_iff` are the bounds.
-/

namespace Varint

/-- The bytes behind a number that is known already. -/
def extend (n : ℕ) (bs : List UInt8) : ℕ := bs.foldl (fun n b => n * 256 + b.toNat) n

/-- A complete integer and its value. -/
def Encodes : List UInt8 → ℕ → Prop
  | [], _ => False
  | b :: bs, v => bs.length + 1 = 2 ^ (b.toNat / 64) ∧ v = extend (b.toNat % 64) bs

/-- The value has an encoding of `n` bytes. -/
def CanHold (n v : ℕ) : Prop := ∃ bs, bs.length = n ∧ Encodes bs v

variable {bs bs' rest rest' : List UInt8} {n m v v' : ℕ}

@[simp] lemma extend_nil (n : ℕ) : extend n [] = n := rfl

@[simp] lemma extend_cons (n : ℕ) (b : UInt8) (bs : List UInt8) :
    extend n (b :: bs) = extend (n * 256 + b.toNat) bs := rfl

lemma extend_lt (h : n < m) : extend n bs < m * 256 ^ bs.length := by
  induction bs generalizing n m with
  | nil => simpa using h
  | cons b bs ih =>
      have hb := b.toNat_lt
      have hstep := ih (show n * 256 + b.toNat < m * 256 by omega)
      rw [extend_cons, List.length_cons, pow_succ', ← mul_assoc]
      exact hstep

/-- Every number with room for so many bytes can be written behind another. -/
lemma exists_extend (k : ℕ) (v : ℕ) (h : v < m * 256 ^ k) :
    ∃ n bs, bs.length = k ∧ n < m ∧ v = extend n bs := by
  induction k generalizing m with
  | zero => exact ⟨v, [], rfl, by simpa using h, rfl⟩
  | succ k ih =>
      obtain ⟨n, bs, hlength, hn, rfl⟩ := ih (m := m * 256) (by rwa [mul_assoc, ← pow_succ'])
      refine ⟨n / 256, UInt8.ofNat (n % 256) :: bs, by simp [hlength], by omega, ?_⟩
      have hbyte : (UInt8.ofNat (n % 256)).toNat = n % 256 := by
        simp
      rw [extend_cons, hbyte, Nat.div_add_mod']

/-- The four lengths. -/
lemma Encodes.length (h : Encodes bs v) :
    bs.length = 1 ∨ bs.length = 2 ∨ bs.length = 4 ∨ bs.length = 8 := by
  cases bs with
  | nil => exact absurd h id
  | cons b bs =>
      have hlt := b.toNat_lt
      have htag : b.toNat / 64 = 0 ∨ b.toNat / 64 = 1 ∨ b.toNat / 64 = 2 ∨ b.toNat / 64 = 3 := by
        omega
      rw [List.length_cons, h.1]
      rcases htag with htag | htag | htag | htag <;> simp [htag]

lemma Encodes.pos (h : Encodes bs v) : 1 ≤ bs.length := by
  rcases h.length with h | h | h | h <;> omega

lemma Encodes.le (h : Encodes bs v) : bs.length ≤ 8 := by
  rcases h.length with h | h | h | h <;> omega

lemma Encodes.lt (h : Encodes bs v) : v < 64 * 256 ^ (bs.length - 1) := by
  cases bs with
  | nil => exact absurd h id
  | cons b bs =>
      obtain ⟨-, rfl⟩ := h
      exact extend_lt (Nat.mod_lt _ (by decide))

lemma Encodes.lt_top (h : Encodes bs v) : v < 2 ^ 62 := by
  have hlt := h.lt
  have hle : 256 ^ (bs.length - 1) ≤ 256 ^ 7 :=
    Nat.pow_le_pow_right (by decide) (by have := h.le; omega)
  omega

/-- The first byte decides how long an integer is. -/
lemma Encodes.unique (h : Encodes bs v) (h' : Encodes bs' v')
    (happend : bs ++ rest = bs' ++ rest') : bs = bs' ∧ v = v' ∧ rest = rest' := by
  cases bs with
  | nil => exact absurd h id
  | cons b bs =>
      cases bs' with
      | nil => exact absurd h' id
      | cons b' bs' =>
          obtain ⟨rfl, htail⟩ := List.cons.inj happend
          have hlength : bs.length = bs'.length := by
            have := h.1.trans h'.1.symm
            omega
          obtain ⟨rfl, rfl⟩ := List.append_inj htail hlength
          exact ⟨rfl, h.2.trans h'.2.symm, rfl⟩

/-- What fits into six bits and `k` bytes has an encoding. -/
lemma canHold_of_lt {i : ℕ} (hi : i < 4) (h : v < 64 * 256 ^ (2 ^ i - 1)) : CanHold (2 ^ i) v := by
  obtain ⟨n, bs, hlength, hn, rfl⟩ := exists_extend (2 ^ i - 1) v h
  have hb : (UInt8.ofNat (i * 64 + n)).toNat = i * 64 + n := by
    rw [UInt8.toNat_ofNat']
    exact Nat.mod_eq_of_lt (by omega)
  have hpos := Nat.two_pow_pos i
  refine ⟨UInt8.ofNat (i * 64 + n) :: bs, ?_, ?_, ?_⟩
  · rw [List.length_cons, hlength]
    omega
  · rw [hb, hlength, show (i * 64 + n) / 64 = i by omega]
    omega
  · rw [hb, show (i * 64 + n) % 64 = n by omega]

/-- The bounds of the four lengths. -/
lemma canHold_iff : CanHold n v ↔
    n = 1 ∧ v < 2 ^ 6 ∨ n = 2 ∧ v < 2 ^ 14 ∨ n = 4 ∧ v < 2 ^ 30 ∨ n = 8 ∧ v < 2 ^ 62 := by
  constructor
  · rintro ⟨bs, rfl, h⟩
    have hlt := h.lt
    rcases h.length with hlength | hlength | hlength | hlength <;> rw [hlength] at hlt ⊢ <;>
      simpa using hlt
  · rintro (⟨rfl, h⟩ | ⟨rfl, h⟩ | ⟨rfl, h⟩ | ⟨rfl, h⟩)
    · exact canHold_of_lt (i := 0) (by decide) (by omega)
    · exact canHold_of_lt (i := 1) (by decide) (by omega)
    · exact canHold_of_lt (i := 2) (by decide) (by omega)
    · exact canHold_of_lt (i := 3) (by decide) (by omega)

end Varint
