import TincQuic.Lib.Checksum
import TincQuic.Network.Route

/-!
# The bytes of a packet

What `memcpy` and single assignments do to the bytes of a packet, and the checksums in its headers.

* `slice_set` and `slice_write` say how a part of a packet changes.
* `addCarries_eq` and `inetSum_eq` connect the sums of `route.c` with the library of checksums.
* `Packet.ofBytes` is a packet that was put together, and `putWord` and `putSum` fill in a field of
  a header, in network order or as the machine has it.
* **A header that gets the checksum of `inet_checksum` verifies**: `verifies_putSum`.
-/

namespace Tinc

open Bytes Checksum Function

namespace Packet

variable (p : Packet) {q : Packet}

/-! ## Parts of a packet -/

@[simp] lemma length_slice (i n : ℕ) : (p.slice i n).length = n := by simp [slice]

@[simp] lemma getElem_slice (i n k : ℕ) (h : k < (p.slice i n).length) :
    (p.slice i n)[k] = p.data (i + k) := by simp [slice]

lemma mem_slice {i n : ℕ} {b : UInt8} : b ∈ p.slice i n ↔ ∃ k < n, p.data (i + k) = b := by
  simp [slice]

lemma slice_add (i m n : ℕ) : p.slice i (m + n) = p.slice i m ++ p.slice (i + m) n := by
  simp [slice, List.range_add, Nat.add_assoc]

lemma slice_congr {i n : ℕ} (h : ∀ k < n, p.data (i + k) = q.data (i + k)) :
    p.slice i n = q.slice i n := by
  unfold slice
  exact List.map_congr_left fun k hk => h k (List.mem_range.mp hk)

/-! ## Assignments -/

@[simp] lemma len_set (j n : ℕ) : (p.set j n).len = p.len := rfl

@[simp] lemma data_set_self (j n : ℕ) : (p.set j n).data j = UInt8.ofNat n := update_self ..

lemma data_set_of_ne {i j : ℕ} (h : i ≠ j) (n : ℕ) : (p.set j n).data i = p.data i :=
  update_of_ne h ..

lemma byte_set_self {n : ℕ} (h : n < 256) (j : ℕ) : (p.set j n).byte j = n := by
  rw [byte, data_set_self, UInt8.toNat_ofNat']
  omega

lemma byte_set_of_ne {i j : ℕ} (h : i ≠ j) (n : ℕ) : (p.set j n).byte i = p.byte i := by
  rw [byte, data_set_of_ne _ h, byte]

lemma byte_lt (i : ℕ) : p.byte i < 256 := (p.data i).toNat_lt

lemma word_lt (i : ℕ) : p.word i < 65536 := by
  have h := p.byte_lt i
  have h' := p.byte_lt (i + 1)
  unfold word
  omega

/-- An assignment to a byte of the part. -/
lemma slice_set {i j : ℕ} (h : i ≤ j) (n b : ℕ) :
    (p.set j b).slice i n = (p.slice i n).set (j - i) (UInt8.ofNat b) := by
  refine List.ext_getElem (by simp) fun k hk _ => ?_
  rw [getElem_slice, List.getElem_set]
  by_cases hkj : j - i = k
  · have hj : i + k = j := by omega
    rw [if_pos hkj, hj, data_set_self]
  · rw [if_neg hkj, getElem_slice, data_set_of_ne _ (by omega)]

/-- An assignment to a byte in front of the part, or behind it. -/
lemma slice_set_of_disjoint {i j n : ℕ} (h : j < i ∨ i + n ≤ j) (b : ℕ) :
    (p.set j b).slice i n = p.slice i n :=
  slice_congr _ fun k hk => data_set_of_ne _ (by omega) _

end Packet

/-! ## Sums -/

lemma addCarries_eq (n : ℕ) : addCarries n = fold n := rfl

lemma inetSum_eq (data : List UInt8) : inetSum data = weigh 1 256 data := by
  induction data using inetSum.induct with
  | case1 a b data ih => simp [inetSum, ih, Nat.add_assoc]
  | case2 a => simp [inetSum]
  | case3 => rfl

/-- A byte that is assigned, changes the sum of the part with its weight. -/
lemma weigh_slice_set (p : Packet) (x y : ℕ) {i j n b : ℕ} (hj : i ≤ j ∧ j < i + n) (hb : b < 256) :
    weigh x y ((p.set j b).slice i n) + p.byte j * weight x y (j - i) =
      weigh x y (p.slice i n) + b * weight x y (j - i) := by
  have hlength : j - i < (p.slice i n).length := by
    rw [Packet.length_slice]
    omega
  have hset := weigh_set x y hlength (UInt8.ofNat b)
  have hbyte : (UInt8.ofNat b).toNat = b := by
    rw [UInt8.toNat_ofNat']
    omega
  have hold : (p.slice i n)[j - i].toNat = p.byte j := by
    rw [Packet.getElem_slice, Nat.add_sub_cancel' hj.1, Packet.byte]
  rw [hbyte, hold] at hset
  rw [Packet.slice_set _ hj.1]
  exact hset

/-- `inet_checksum` for a sum that fits into 32 bits. -/
lemma inetChecksum_eq (data : List UInt8) (prevsum : ℕ) :
    inetChecksum data prevsum = 65535 - fold (65535 - prevsum + weigh 1 256 data) := by
  rw [inetChecksum, addCarries_eq, inetSum_eq]

/-- A checksum that goes on with a sum that was complemented before. -/
lemma inetChecksum_complement (data : List UInt8) {sum : ℕ} (h : sum < 65536) :
    inetChecksum data (65535 - sum) = 65535 - fold (sum + weigh 1 256 data) := by
  rw [inetChecksum_eq, Nat.sub_sub_self (by omega)]

/-! ## Headers -/

/-- Two bytes in network order. -/
def wordAt (t : List UInt8) (i : ℕ) : ℕ := (t.getD i 0).toNat * 256 + (t.getD (i + 1) 0).toNat

/-- The field at `i` is given a value with `htons`. -/
def putWord (t : List UInt8) (i n : ℕ) : List UInt8 :=
  (t.set i (UInt8.ofNat (n / 256))).set (i + 1) (UInt8.ofNat (n % 256))

/-- The field at `i` is given a value as it is, by a little-endian machine. -/
def putSum (t : List UInt8) (i n : ℕ) : List UInt8 :=
  (t.set i (UInt8.ofNat (n % 256))).set (i + 1) (UInt8.ofNat (n / 256))

section Fields

variable (t : List UInt8) {i j n : ℕ}

@[simp] lemma length_putWord : (putWord t i n).length = t.length := by simp [putWord]

@[simp] lemma length_putSum : (putSum t i n).length = t.length := by simp [putSum]

lemma getD_putWord_of_ne (h : j ≠ i) (h' : j ≠ i + 1) : (putWord t i n).getD j 0 = t.getD j 0 := by
  simp [putWord, List.getD_eq_getElem?_getD, List.getElem?_set_ne h.symm,
    List.getElem?_set_ne h'.symm]

lemma getD_putSum_of_ne (h : j ≠ i) (h' : j ≠ i + 1) : (putSum t i n).getD j 0 = t.getD j 0 := by
  simp [putSum, List.getD_eq_getElem?_getD, List.getElem?_set_ne h.symm,
    List.getElem?_set_ne h'.symm]

lemma wordAt_putWord (h : i + 1 < t.length) (hn : n < 65536) : wordAt (putWord t i n) i = n := by
  have hlt : i < t.length := by omega
  have hfirst : (putWord t i n).getD i 0 = UInt8.ofNat (n / 256) := by
    simp [putWord, List.getD_eq_getElem?_getD, hlt]
  have hsecond : (putWord t i n).getD (i + 1) 0 = UInt8.ofNat (n % 256) := by
    simp [putWord, List.getD_eq_getElem?_getD, h]
  rw [wordAt, hfirst, hsecond, UInt8.toNat_ofNat', UInt8.toNat_ofNat']
  omega

lemma wordAt_putWord_of_disjoint (h : j + 1 < i ∨ i + 1 < j) :
    wordAt (putWord t i n) j = wordAt t j := by
  rw [wordAt, getD_putWord_of_ne t (by omega) (by omega), getD_putWord_of_ne t (by omega) (by omega),
    wordAt]

lemma wordAt_putSum_of_disjoint (h : j + 1 < i ∨ i + 1 < j) :
    wordAt (putSum t i n) j = wordAt t j := by
  rw [wordAt, getD_putSum_of_ne t (by omega) (by omega), getD_putSum_of_ne t (by omega) (by omega),
    wordAt]

/-- What a little-endian machine writes into an empty field, it finds in the sum. -/
lemma weigh_putSum (hi : i % 2 = 0) (h : i + 1 < t.length) (hzero : t.getD i 0 = 0)
    (hzero' : t.getD (i + 1) 0 = 0) (hn : n < 65536) :
    weigh 1 256 (putSum t i n) = weigh 1 256 t + n := by
  have hlt : i < t.length := by omega
  have hw : weight 1 256 i = 1 ∧ weight 1 256 (i + 1) = 256 := ⟨if_pos hi, if_neg (by omega)⟩
  have hfirst := weigh_set 1 256 hlt (UInt8.ofNat (n % 256))
  have hsecond := weigh_set 1 256 (t := t.set i (UInt8.ofNat (n % 256))) (i := i + 1)
    (by simpa using h) (UInt8.ofNat (n / 256))
  have h0 : t[i] = 0 := by rwa [List.getD_eq_getElem _ _ hlt] at hzero
  have h1 : t[i + 1] = 0 := by rwa [List.getD_eq_getElem _ _ h] at hzero'
  rw [hw.1, h0, UInt8.toNat_ofNat', UInt8.toNat_zero] at hfirst
  rw [hw.2, List.getElem_set_ne (by omega), h1, UInt8.toNat_ofNat', UInt8.toNat_zero] at hsecond
  unfold putSum
  omega

/-- **What gets its checksum verifies**: the field is in `t`, between an even number of bytes and the
rest, and the checksum is made from a number that stands for the sum of all. -/
lemma verifies_append_putSum {a b : List UInt8} (ha : a.length % 2 = 0) (ht : t.length % 2 = 0)
    (hi : i % 2 = 0) (h : i + 1 < t.length) (hzero : t.getD i 0 = 0)
    (hzero' : t.getD (i + 1) 0 = 0) (hlength : (a ++ t ++ b).length < 65536) {m : ℕ}
    (hm : m < 2 ^ 32)
    (hmod : m ≡ weigh 1 256 a + weigh 1 256 t + weigh 1 256 b [MOD 65535])
    (hmzero : m = 0 ↔ weigh 1 256 a + weigh 1 256 t + weigh 1 256 b = 0)
    (hn : n = 65535 - fold m) : Verifies (a ++ putSum t i n ++ b) := by
  have heven : (a ++ putSum t i n).length % 2 = 0 := by
    rw [List.length_append, length_putSum]
    omega
  have hsum := complement_mod hm hmod hmzero hn
  have hall : weigh 1 256 (a ++ putSum t i n ++ b) =
      weigh 1 256 a + weigh 1 256 t + weigh 1 256 b + n := by
    rw [weigh_append_even 1 256 heven, weigh_append_even 1 256 ha,
      weigh_putSum t hi h hzero hzero' (by omega)]
    omega
  rw [← hall, Ne, weigh_eq_zero (by decide) (by decide)] at hsum
  rw [verifies_iff_le (by simpa using hlength)]
  push Not at hsum
  exact hsum.symm

/-- **A header that gets its checksum verifies.** -/
lemma verifies_putSum (ht : t.length % 2 = 0) (hi : i % 2 = 0) (h : i + 1 < t.length)
    (hzero : t.getD i 0 = 0) (hzero' : t.getD (i + 1) 0 = 0) (hlength : t.length < 65536) :
    Verifies (putSum t i (inetChecksum t 65535)) := by
  have hm := weigh_lt (by decide : 1 ≤ 256) le_rfl hlength
  have hverifies := verifies_append_putSum t (a := []) (b := []) rfl ht hi h hzero hzero'
    (by simpa using hlength) (m := weigh 1 256 t) hm (by simp [Nat.ModEq]) (by simp)
    (n := inetChecksum t 65535) (by simp [inetChecksum_eq])
  simpa using hverifies

end Fields

/-! ## Packets that are put together -/

/-- The packet of these bytes; what stands behind them is not looked at. -/
def Packet.ofBytes (bytes : List UInt8) : Packet where
  data i := bytes.getD i 0
  len := bytes.length

@[simp] lemma Packet.len_ofBytes (bytes : List UInt8) : (ofBytes bytes).len = bytes.length := rfl

lemma Packet.slice_ofBytes {bytes : List UInt8} {i n : ℕ} (h : i + n ≤ bytes.length) :
    (ofBytes bytes).slice i n = (bytes.drop i).take n := by
  refine List.ext_getElem (by simp; omega) fun k hk _ => ?_
  rw [length_slice] at hk
  rw [getElem_slice, List.getElem_take, List.getElem_drop]
  exact List.getD_eq_getElem _ _ (by omega)

/-- The part in the middle. -/
lemma Packet.slice_ofBytes_eq {bytes a b c : List UInt8} {i n : ℕ} (h : bytes = a ++ (b ++ c))
    (ha : a.length = i) (hb : b.length = n) : (ofBytes bytes).slice i n = b := by
  subst h ha hb
  rw [slice_ofBytes (by simp), List.drop_left, List.take_left]

section Middle

variable {bytes a b c : List UInt8} {i k : ℕ}

/-- A byte of the part in the middle. -/
lemma Packet.byte_ofBytes_eq (h : bytes = a ++ (b ++ c)) (ha : a.length = i) (hk : k < b.length) :
    (ofBytes bytes).byte (i + k) = (b.getD k 0).toNat := by
  subst h ha
  have hget : (a ++ (b ++ c)).getD (a.length + k) 0 = b.getD k 0 := by
    rw [List.getD_eq_getElem?_getD, List.getElem?_append_right (by omega),
      Nat.add_sub_cancel_left, List.getElem?_append_left hk, List.getD_eq_getElem?_getD]
  exact congrArg UInt8.toNat hget

lemma Packet.word_ofBytes_eq (h : bytes = a ++ (b ++ c)) (ha : a.length = i)
    (hk : k + 1 < b.length) : (ofBytes bytes).word (i + k) = wordAt b k := by
  rw [word, byte_ofBytes_eq h ha (by omega), Nat.add_assoc, byte_ofBytes_eq h ha hk, wordAt]

end Middle

end Tinc
