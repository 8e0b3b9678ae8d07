import TincQuic.Lib.CText
import Mathlib.Tactic.Common

/-!
# Arrays of characters

An array of bytes whose accesses are checked: an operation returns nothing if it reads or writes a
position outside the array.

* `string` is what a C function sees that is given a pointer into the array.  It runs past the end
  if no terminator follows.
* `store`, `memmove` and `snprintf` write; `strncpy` fills the whole array.
* `Holds b t` says that the array `b` holds the string `t`.  **Each operation on a held string is
  described by the string it leaves**: `Holds.string`, `Holds.cut`, `Holds.snprintf`,
  `Holds.shiftLeft`.
* `memmove_gap` and `foldlM_store` open a gap in a string and fill it.
-/

namespace CBuffer

open CText

/-- The string that begins at the position `k`. -/
def string (b : List UInt8) (k : ℕ) : Option Text :=
  if 0 ∈ b.drop k then some (cstr (b.drop k)) else none

/-- The `n` bytes from the position `k` on. -/
def load (b : List UInt8) (k n : ℕ) : Option (List UInt8) :=
  if k + n ≤ b.length then some ((b.drop k).take n) else none

/-- `bytes` written at the position `k`. -/
def store (b : List UInt8) (k : ℕ) (bytes : List UInt8) : Option (List UInt8) :=
  if k + bytes.length ≤ b.length then some (b.take k ++ bytes ++ b.drop (k + bytes.length))
  else none

/-- `memmove` within the array; the parts may overlap. -/
def memmove (b : List UInt8) (dst src n : ℕ) : Option (List UInt8) :=
  (load b src n).bind (store b dst)

/-- What `strncpy` leaves in an array of `size` bytes: behind the string it is filled with nulls. -/
def strncpy (size : ℕ) (t : Text) : List UInt8 :=
  (cstr t).take size ++ List.replicate (size - (cstr t).length) 0

/-- `snprintf` to the position `k`: at most `size` bytes with the terminator. -/
def snprintf (b : List UInt8) (k size : ℕ) (t : Text) : Option (List UInt8) :=
  if size = 0 then some b else store b k (t.take (size - 1) ++ [0])

/-- The array holds the string `t`. -/
def Holds (b : List UInt8) (t : Text) : Prop := 0 ∉ t ∧ ∃ junk, b = t ++ 0 :: junk

variable {b : List UInt8} {t : Text}

lemma store_of_le {k : ℕ} {bytes : List UInt8} (h : k + bytes.length ≤ b.length) :
    store b k bytes = some (b.take k ++ bytes ++ b.drop (k + bytes.length)) := if_pos h

lemma length_store {k : ℕ} {bytes b' : List UInt8} (h : store b k bytes = some b') :
    b'.length = b.length := by
  rw [store] at h
  split at h
  · obtain rfl := Option.some.inj h
    rw [List.length_append, List.length_append, List.length_take, List.length_drop]
    omega
  · cases h

/-- What is read after a write. -/
lemma getElem?_store {k : ℕ} {bytes b' : List UInt8} (h : store b k bytes = some b') (j : ℕ) :
    b'[j]? = if k ≤ j ∧ j < k + bytes.length then bytes[j - k]? else b[j]? := by
  rw [store] at h
  split at h
  · rename_i hle
    obtain rfl := Option.some.inj h
    have htake : (b.take k).length = k := by
      rw [List.length_take]
      omega
    split
    · rename_i hj
      rw [List.getElem?_append_left (by rw [List.length_append, htake]; omega),
        List.getElem?_append_right (by omega), htake]
    · rename_i hj
      by_cases hlt : j < k
      · rw [List.append_assoc, List.getElem?_append_left (by omega), List.getElem?_take_of_lt hlt]
      · rw [List.getElem?_append_right (by rw [List.length_append, htake]; omega),
          List.length_append, htake, List.getElem?_drop]
        congr 1
        omega
  · cases h

lemma length_memmove {dst src n : ℕ} {b' : List UInt8} (h : memmove b dst src n = some b') :
    b'.length = b.length := by
  obtain ⟨bytes, -, hstore⟩ := Option.bind_eq_some_iff.mp h
  exact length_store hstore

/-- What stands between a front and the rest. -/
lemma load_append (front mid rest : List UInt8) :
    load (front ++ mid ++ rest) front.length mid.length = some mid := by
  have hlength : front.length + mid.length ≤ (front ++ mid ++ rest).length := by
    simp only [List.length_append]
    omega
  rw [load, if_pos hlength, List.append_assoc, List.drop_left, List.take_left]

/-- It is replaced by as many bytes. -/
lemma store_append (front mid rest : List UInt8) {bytes : List UInt8}
    (h : bytes.length = mid.length) :
    store (front ++ mid ++ rest) front.length bytes = some (front ++ bytes ++ rest) := by
  have hlength : front.length + bytes.length ≤ (front ++ mid ++ rest).length := by
    simp only [List.length_append]
    omega
  rw [store_of_le hlength, h, ← List.length_append, List.drop_left, List.append_assoc front mid,
    List.take_left]

/-- One byte is replaced. -/
lemma store_byte (front rest : List UInt8) (d c : UInt8) :
    store (front ++ d :: rest) front.length [c] = some (front ++ [c] ++ rest) := by
  have h := @store_append front [d] rest [c] rfl
  rwa [List.append_assoc, List.singleton_append] at h

/-- The tail of a string with its terminator. -/
lemma load_tail (front tail junk : List UInt8) :
    load (front ++ tail ++ 0 :: junk) front.length (tail.length + 1) = some (tail ++ [0]) := by
  have hlength : front.length + (tail.length + 1) ≤ (front ++ tail ++ 0 :: junk).length := by
    simp only [List.length_append, List.length_cons]
    omega
  rw [load, if_pos hlength, List.append_assoc, List.drop_left, List.take_append,
    List.take_of_length_le (Nat.le_succ _)]
  simp

lemma cstr_append {t : Text} (h : 0 ∉ t) (junk : List UInt8) : cstr (t ++ 0 :: junk) = t := by
  rw [cstr, List.takeWhile_append_of_pos, List.takeWhile_cons_of_neg (by simp), List.append_nil]
  intro c hc
  simpa using fun h0 : c = 0 => h (h0 ▸ hc)

lemma zero_notMem_cstr (b : List UInt8) : 0 ∉ cstr b := by
  intro h
  simpa using List.mem_takeWhile_imp h

/-- An array with a terminator holds what a C function sees of it. -/
lemma holds_cstr (h : 0 ∈ b) : Holds b (cstr b) := by
  refine ⟨zero_notMem_cstr b, ?_⟩
  induction b with
  | nil => simp at h
  | cons c b ih =>
      by_cases hc : c = 0
      · exact ⟨b, by simp [hc, cstr]⟩
      · have hmem : 0 ∈ b := (List.mem_cons.mp h).resolve_left (Ne.symm hc)
        obtain ⟨junk, hjunk⟩ := ih hmem
        refine ⟨junk, ?_⟩
        rw [cstr] at hjunk ⊢
        rw [List.takeWhile_cons_of_pos (by simpa using hc), List.cons_append, ← hjunk]

/-- With a terminator at the end of the array the string is cut to what fits. -/
lemma holds_strncpy (size : ℕ) (t : Text) :
    ∃ b, store (strncpy (size + 1) t) size [0] = some b ∧ Holds b ((cstr t).take size) ∧
      b.length = size + 1 := by
  have hlength : (strncpy (size + 1) t).length = size + 1 := by
    rw [strncpy, List.length_append, List.length_take, List.length_replicate]
    omega
  have hstore : store (strncpy (size + 1) t) size [0] = some ((strncpy (size + 1) t).take size ++
      [0] ++ (strncpy (size + 1) t).drop (size + [0].length)) :=
    store_of_le (by rw [hlength, List.length_singleton])
  have h0 : 0 ∉ (cstr t).take size := fun hmem => zero_notMem_cstr t (List.mem_of_mem_take hmem)
  have htake : (strncpy (size + 1) t).take size =
      (cstr t).take size ++ List.replicate (size - (cstr t).length) 0 := by
    rw [strncpy, List.take_append, List.take_take, List.take_replicate, List.length_take]
    congr 2 <;> omega
  refine ⟨_, hstore, ⟨h0, ?_⟩, (length_store hstore).trans hlength⟩
  rw [htake]
  generalize (strncpy (size + 1) t).drop (size + [0].length) = junk
  cases size - (cstr t).length with
  | zero => exact ⟨junk, by simp⟩
  | succ n => exact ⟨List.replicate n 0 ++ 0 :: junk, by rw [List.replicate_succ]; simp⟩

/-- Text with a terminator, written behind what the array begins with. -/
lemma store_behind {front junk : List UInt8} (hb : b = front ++ junk) (h0 : 0 ∉ front)
    {text : Text} (htext : 0 ∉ text) (hroom : front.length + text.length < b.length) :
    ∃ b', store b front.length (text ++ [0]) = some b' ∧ Holds b' (front ++ text) ∧
      b'.length = b.length := by
  have hstore : store b front.length (text ++ [0]) = some (b.take front.length ++ (text ++ [0]) ++
      b.drop (front.length + (text ++ [0]).length)) :=
    store_of_le (by rw [List.length_append, List.length_singleton]; omega)
  refine ⟨_, hstore, ⟨?_, b.drop (front.length + (text ++ [0]).length), ?_⟩, length_store hstore⟩
  · rw [List.mem_append, not_or]
    exact ⟨h0, htext⟩
  · rw [show b.take front.length = front by rw [hb, List.take_left]]
    simp

/-- Text that fits is printed whole behind what the array begins with. -/
lemma snprintf_behind {front junk : List UInt8} (hb : b = front ++ junk) (h0 : 0 ∉ front)
    {text : Text} (htext : 0 ∉ text) (hroom : front.length + text.length < b.length) :
    ∃ b', snprintf b front.length (b.length - front.length) text = some b' ∧
      Holds b' (front ++ text) ∧ b'.length = b.length := by
  rw [snprintf, if_neg (by omega), List.take_of_length_le (by omega)]
  exact store_behind hb h0 htext hroom

namespace Holds

lemma cstr_eq (h : Holds b t) : cstr b = t := by
  obtain ⟨h0, junk, rfl⟩ := h
  exact cstr_append h0 junk

lemma length_lt (h : Holds b t) : t.length < b.length := by
  obtain ⟨-, junk, rfl⟩ := h
  simp

lemma string (h : Holds b t) {k : ℕ} (hk : k ≤ t.length) : string b k = some (t.drop k) := by
  obtain ⟨h0, junk, rfl⟩ := h
  have hdrop : (t ++ 0 :: junk).drop k = t.drop k ++ 0 :: junk := List.drop_append_of_le_length hk
  rw [CBuffer.string, hdrop, if_pos (by simp),
    cstr_append fun hmem => h0 (List.mem_of_mem_drop hmem)]

lemma getElem? (h : Holds b t) {k : ℕ} (hk : k < t.length) : b[k]? = t[k]? := by
  obtain ⟨-, junk, rfl⟩ := h
  exact List.getElem?_append_left hk

/-- What is written at a position within a string, with a terminator, replaces the rest of it. -/
lemma store (h : Holds b t) {k : ℕ} (hk : k ≤ t.length) {text : Text} (htext : 0 ∉ text)
    (hroom : k + text.length < b.length) :
    ∃ b', store b k (text ++ [0]) = some b' ∧ Holds b' (t.take k ++ text) ∧
      b'.length = b.length := by
  obtain ⟨h0, junk, hb⟩ := h
  have hfront : b = t.take k ++ (t.drop k ++ 0 :: junk) := by
    rw [hb, ← List.append_assoc, List.take_append_drop]
  have hstore := store_behind hfront (fun hmem => h0 (List.mem_of_mem_take hmem)) htext
    (by rw [List.length_take, Nat.min_eq_left hk]; exact hroom)
  rwa [List.length_take, Nat.min_eq_left hk] at hstore

/-- A terminator written into a string cuts it. -/
lemma cut (h : Holds b t) {k : ℕ} (hk : k ≤ t.length) :
    ∃ b', CBuffer.store b k [0] = some b' ∧ Holds b' (t.take k) ∧ b'.length = b.length := by
  have hlt := h.length_lt
  have hstore := h.store hk (show 0 ∉ [] by simp) (by rw [List.length_nil]; omega)
  rwa [List.nil_append, List.append_nil] at hstore

/-- What is printed at a position within a string replaces the rest of it. -/
lemma snprintf (h : Holds b t) {k : ℕ} (hk : k ≤ t.length) {size : ℕ} (hsize : 0 < size)
    (hroom : k + size ≤ b.length) {text : Text} (htext : 0 ∉ text) :
    ∃ b', snprintf b k size text = some b' ∧ Holds b' (t.take k ++ text.take (size - 1)) ∧
      b'.length = b.length := by
  rw [CBuffer.snprintf, if_neg (by omega)]
  refine h.store hk (fun hmem => htext (List.mem_of_mem_take hmem)) ?_
  rw [List.length_take]
  omega

/-- A string moved one place to the front, over its first byte. -/
lemma shiftLeft {c : UInt8} (h : Holds b (c :: t)) :
    ∃ b', memmove b 0 1 (t.length + 1) = some b' ∧ Holds b' t ∧ b'.length = b.length := by
  have hlt := h.length_lt
  have h0 : 0 ∉ t := fun hmem => h.1 (by simp [hmem])
  rw [List.length_cons] at hlt
  have hload : load b 1 (t.length + 1) = some (t ++ [0]) := by
    obtain ⟨-, junk, rfl⟩ := h
    exact load_tail [c] t junk
  rw [memmove, hload, Option.bind_some]
  simpa using h.store (Nat.zero_le _) h0 (by omega)

end Holds

/-- The tail of a string moved behind a gap, which the bytes of the array still fill. -/
lemma memmove_gap {front tail junk : List UInt8} (gap : ℕ) (hb : b = front ++ tail ++ 0 :: junk)
    (hroom : front.length + gap + tail.length < b.length) :
    ∃ filler junk', filler.length = gap ∧
      memmove b (front.length + gap) front.length (tail.length + 1) =
        some (front ++ filler ++ tail ++ 0 :: junk') := by
  have hstore : store b (front.length + gap) (tail ++ [0]) =
      some (b.take (front.length + gap) ++ (tail ++ [0]) ++
        b.drop (front.length + gap + (tail ++ [0]).length)) :=
    store_of_le (by rw [List.length_append, List.length_singleton]; omega)
  refine ⟨(b.drop front.length).take gap, b.drop (front.length + gap + (tail ++ [0]).length),
    ?_, ?_⟩
  · rw [List.length_take, List.length_drop]
    omega
  · rw [memmove, hb, load_tail, Option.bind_some, ← hb, hstore, List.take_add,
      show b.take front.length = front by rw [hb]; simp]
    simp

/-- Without room for the gap the tail is moved past the end. -/
lemma memmove_gap_eq_none {front tail junk : List UInt8} {gap : ℕ}
    (hb : b = front ++ tail ++ 0 :: junk)
    (hroom : ¬ front.length + gap + tail.length < b.length) :
    memmove b (front.length + gap) front.length (tail.length + 1) = none := by
  rw [memmove, hb, load_tail, Option.bind_some, ← hb, store, if_neg]
  rw [List.length_append, List.length_singleton]
  omega

/-- A gap filled piece by piece with copies of `piece`. -/
lemma foldlM_store (front piece : List UInt8) {n : ℕ} {filler : List UInt8}
    (hfiller : filler.length = n * piece.length) (rest : List UInt8) :
    (List.range n).foldlM (fun b i => store b (front.length + i * piece.length) piece)
      (front ++ filler ++ rest) = some (front ++ (List.replicate n piece).flatten ++ rest) := by
  induction n generalizing filler rest with
  | zero =>
      have hnil : filler = [] := List.length_eq_zero_iff.mp (by omega)
      simp [hnil]
  | succ n ih =>
      rw [Nat.succ_mul] at hfiller
      have hfirst : (filler.take (n * piece.length)).length = n * piece.length := by
        rw [List.length_take]
        omega
      have hlast : (filler.drop (n * piece.length)).length = piece.length := by
        rw [List.length_drop]
        omega
      have hmoved : front ++ filler ++ rest = front ++ filler.take (n * piece.length) ++
          (filler.drop (n * piece.length) ++ rest) := by
        calc front ++ filler ++ rest
            = front ++ (filler.take (n * piece.length) ++ filler.drop (n * piece.length)) ++
                rest := by rw [List.take_append_drop]
          _ = _ := by simp only [List.append_assoc]
      have hfront : (front ++ (List.replicate n piece).flatten).length =
          front.length + n * piece.length := by simp
      have hdrop : (filler.drop (n * piece.length) ++ rest).drop piece.length = rest := by
        rw [List.drop_left' hlast]
      rw [List.range_succ, List.foldlM_append, hmoved, ih hfirst]
      simp only [List.foldlM_cons, List.foldlM_nil, Option.bind_eq_bind, Option.bind_some]
      have hroom : front.length + n * piece.length + piece.length ≤
          (front ++ (List.replicate n piece).flatten ++
            (filler.drop (n * piece.length) ++ rest)).length := by
        rw [List.length_append, hfront, List.length_append, hlast]
        omega
      rw [store_of_le hroom, ← hfront, List.take_left,
        ← List.drop_drop, List.drop_left, hdrop, List.replicate_succ']
      simp

end CBuffer
