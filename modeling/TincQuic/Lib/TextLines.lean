import Mathlib.Data.List.DropRight
import TincQuic.Lib.CText

/-!
# Text files read line by line

`lines` are the lines of a file, each with its newline; only the last one may lack it.  A reader
that calls `fgets` sees them as they are as long as each fits into its buffer (`fgets_eq_lines`),
and a longer line in pieces (`fgets_long`).  Whatever is in the file, a newline ends a piece, so a
file that is put together from parts that end with one is read part by part: `fgets_flatten`.
-/

namespace CText

/-- `strcasecmp`, of which only the sign counts. -/
def strcasecmp (s t : Text) : ℤ := strcmp (s.map toLower) (t.map toLower)

variable {s t u line part rest : Text} {size : ℕ}

lemma strcasecmp_eq_zero : strcasecmp s t = 0 ↔ sameIgnoringCase s t = true := by
  rw [strcasecmp, strcmp_eq_zero, sameIgnoringCase, decide_eq_true_iff]

@[simp]
lemma sameIgnoringCase_refl (t : Text) : sameIgnoringCase t t = true := by
  simp [sameIgnoringCase]

lemma sameIgnoringCase_comm : sameIgnoringCase s t = sameIgnoringCase t s := by
  simp only [sameIgnoringCase, eq_comm]

lemma sameIgnoringCase_trans (h : sameIgnoringCase s t = true) (h' : sameIgnoringCase t u = true) :
    sameIgnoringCase s u = true := by
  simp only [sameIgnoringCase, decide_eq_true_iff] at h h' ⊢
  exact h.trans h'

lemma length_of_sameIgnoringCase (h : sameIgnoringCase s t = true) : s.length = t.length := by
  rw [sameIgnoringCase, decide_eq_true_iff] at h
  simpa using congrArg List.length h

/-- Texts that are the same are the same as the same texts. -/
lemma sameIgnoringCase_congr (h : sameIgnoringCase s t = true) (u : Text) :
    sameIgnoringCase s u = sameIgnoringCase t u := by
  simp only [sameIgnoringCase, decide_eq_true_iff] at h ⊢
  rw [h]

/-- The bytes that are followed by a comparison of lower case letters. -/
lemma toLower_eq_of_small {c : UInt8} (h : c < 65) (d : UInt8) : toLower d = toLower c ↔ d = c := by
  unfold toLower
  have hc : ¬ (65 ≤ c ∧ c ≤ 90) := fun hc => absurd hc.1 (UInt8.not_le.mpr h)
  rw [if_neg hc]
  constructor
  · intro hd
    split at hd
    · rename_i hletter
      have h1 := UInt8.le_iff_toNat_le.mp hletter.1
      have h2 := UInt8.le_iff_toNat_le.mp hletter.2
      have h3 := UInt8.lt_iff_toNat_lt.mp h
      have h4 := congrArg UInt8.toNat hd
      rw [UInt8.toNat_add] at h4
      change 65 ≤ d.toNat at h1
      change d.toNat ≤ 90 at h2
      change c.toNat < 65 at h3
      change (d.toNat + 32) % 256 = c.toNat at h4
      omega
    · exact hd
  · rintro rfl
    rw [if_neg hc]

/-! ## Lines -/

/-- The lines of a file of which `line` was read already. -/
def linesFrom (line : Text) : Text → List Text
  | [] => if line = [] then [] else [line]
  | c :: t => if c = 10 then (line ++ [c]) :: linesFrom [] t else linesFrom (line ++ [c]) t

/-- The lines of a file, each with its newline. -/
def lines (file : Text) : List Text := linesFrom [] file

lemma linesFrom_flatten (line t : Text) : (linesFrom line t).flatten = line ++ t := by
  induction t generalizing line with
  | nil =>
      rw [linesFrom]
      split <;> simp [*]
  | cons c t ih =>
      rw [linesFrom]
      split <;> simp [ih]

lemma lines_flatten (file : Text) : (lines file).flatten = file := linesFrom_flatten [] file

/-- A newline ends its line, and the line before it has none. -/
lemma of_mem_linesFrom (hline : 10 ∉ line) (h : s ∈ linesFrom line t) :
    s ≠ [] ∧ 10 ∉ s.dropLast := by
  induction t generalizing line with
  | nil =>
      rw [linesFrom] at h
      split at h
      · simp at h
      · obtain rfl := List.mem_singleton.mp h
        exact ⟨by assumption, fun hmem => hline (List.dropLast_subset _ hmem)⟩
  | cons c t ih =>
      rw [linesFrom] at h
      split at h
      · rcases List.mem_cons.mp h with rfl | h
        · simp [hline]
        · exact ih (by simp) h
      · rename_i hc
        exact ih (by simp [hline, Ne.symm hc]) h

lemma of_mem_lines (h : s ∈ lines t) : s ≠ [] ∧ 10 ∉ s.dropLast := of_mem_linesFrom (by simp) h

lemma linesFrom_append_newline (hline : 10 ∉ line) (rest : Text) (u : Text) :
    linesFrom u (line ++ 10 :: rest) = (u ++ line ++ [10]) :: linesFrom [] rest := by
  induction line generalizing u with
  | nil => simp [linesFrom]
  | cons c line ih =>
      rw [List.mem_cons, not_or] at hline
      rw [List.cons_append, linesFrom, if_neg (Ne.symm hline.1), ih hline.2]
      simp

/-- The first line of a file that begins with one. -/
lemma lines_line (hline : 10 ∉ line) (rest : Text) :
    lines (line ++ 10 :: rest) = (line ++ [10]) :: lines rest := by
  rw [lines, linesFrom_append_newline hline]
  rfl

lemma linesFrom_of_notMem (h : 10 ∉ t) (hne : u ++ t ≠ []) : linesFrom u t = [u ++ t] := by
  induction t generalizing u with
  | nil => simp_all [linesFrom]
  | cons c t ih =>
      rw [List.mem_cons, not_or] at h
      rw [linesFrom, if_neg (Ne.symm h.1), ih h.2 (by simp)]
      simp

/-- A file without a newline is one line. -/
lemma lines_of_notMem (h : 10 ∉ t) (hne : t ≠ []) : lines t = [t] :=
  linesFrom_of_notMem h (by simpa using hne)

/-- A file is a line of its own, or its first line ends with a newline. -/
lemma exists_first_line (t : Text) : 10 ∉ t ∨ ∃ line rest, 10 ∉ line ∧ t = line ++ 10 :: rest := by
  by_cases h : 10 ∈ t
  · obtain ⟨line, rest, rfl, hline⟩ := List.eq_append_cons_of_mem h
    exact .inr ⟨line, rest, hline, rfl⟩
  · exact .inl h

/-- A file line by line: either its last line lacks the newline, or the rest begins with a line. -/
lemma lines_induction {P : Text → Prop} (nil : P []) (last : ∀ t, 10 ∉ t → t ≠ [] → P t)
    (line : ∀ line rest, 10 ∉ line → P rest → P (line ++ 10 :: rest)) (t : Text) : P t := by
  induction h : t.length using Nat.strong_induction_on generalizing t with
  | _ n ih =>
      rcases exists_first_line t with hno | ⟨first, rest, hfirst, rfl⟩
      · by_cases hne : t = []
        · rw [hne]
          exact nil
        · exact last t hno hne
      · refine line first rest hfirst (ih rest.length ?_ rest rfl)
        rw [← h]
        simp
        omega

/-! ## Reading through a buffer -/

lemma fgetsFrom_of_notMem (h : 10 ∉ t) (hne : u ++ t ≠ []) (hsize : (u ++ t).length < size) :
    fgetsFrom size u t = [u ++ t] := by
  induction t generalizing u with
  | nil => simp_all [fgetsFrom]
  | cons c t ih =>
      rw [List.mem_cons, not_or] at h
      rw [fgetsFrom]
      split
      · rename_i hc
        rcases hc with hc | hc
        · exact absurd hc.symm h.1
        · -- the buffer is full exactly at the end of the file
          obtain rfl : t = [] := List.length_eq_zero_iff.mp (by simp at hsize; omega)
          simp [fgetsFrom]
      · rw [ih h.2 (by simp) (by simpa using hsize)]
        simp

/-- A last line that fits into the buffer. -/
lemma fgets_of_notMem (h : 10 ∉ t) (hne : t ≠ []) (hsize : t.length < size) : fgets size t = [t] :=
  fgetsFrom_of_notMem h (by simpa using hne) (by simpa using hsize)

/-- **A buffer that every line fits into is no restriction.** -/
lemma fgets_eq_lines (h : ∀ l ∈ lines t, l.length < size) : fgets size t = lines t := by
  induction t using lines_induction with
  | nil => rfl
  | last t ht hne =>
      rw [lines_of_notMem ht hne] at h ⊢
      exact fgets_of_notMem ht hne (h t (by simp))
  | line line rest hline ih =>
      rw [lines_line hline] at h ⊢
      have hlen := h _ List.mem_cons_self
      rw [List.length_append, List.length_singleton] at hlen
      rw [fgets_line hline (by omega), ih fun l hl => h l (List.mem_cons_of_mem _ hl)]

/-- After a newline a new piece begins. -/
lemma fgets_append_newline (size : ℕ) (part rest : Text) :
    fgets size (part ++ 10 :: rest) = fgets size (part ++ [10]) ++ fgets size rest := by
  obtain ⟨pieces, hpieces⟩ := fgets_append size part
  rw [hpieces rest, hpieces []]
  simp [fgets, fgetsFrom]

/-- What stands behind whole lines is read by itself. -/
lemma fgets_concat (h : t = [] ∨ t.getLast? = some 10) (rest : Text) :
    fgets size (t ++ rest) = fgets size t ++ fgets size rest := by
  rcases h with rfl | h
  · rfl
  · obtain ⟨front, rfl⟩ := List.getLast?_eq_some_iff.mp h
    rw [List.append_assoc, List.singleton_append, fgets_append_newline]

/-- **A file put together from parts that end with a newline is read part by part.** -/
lemma fgets_flatten {parts : List Text} (h : ∀ p ∈ parts, p = [] ∨ p.getLast? = some 10) :
    fgets size parts.flatten = parts.flatMap (fgets size) := by
  induction parts with
  | nil => rfl
  | cons p parts ih =>
      rw [List.flatten_cons, List.flatMap_cons,
        ← ih fun q hq => h q (List.mem_cons_of_mem _ hq), fgets_concat (h p List.mem_cons_self)]

lemma flatten_ends {ls : List Text} (h : ∀ l ∈ ls, l.getLast? = some 10) :
    ls.flatten = [] ∨ ls.flatten.getLast? = some 10 := by
  rcases List.eq_nil_or_concat' ls with rfl | ⟨front, l, rfl⟩
  · exact .inl rfl
  · right
    have hl := h l (by simp)
    have hne : l ≠ [] := by
      rintro rfl
      cases hl
    rw [List.flatten_append, List.flatten_singleton, List.getLast?_append_of_ne_nil _ hne, hl]

/-- In a file that ends with a newline every line does. -/
lemma newline_of_mem_lines (ht : t = [] ∨ t.getLast? = some 10) (h : s ∈ lines t) :
    ∃ front, 10 ∉ front ∧ s = front ++ [10] := by
  induction t using lines_induction with
  | nil => simp [lines, linesFrom] at h
  | last t hno hne =>
      exact absurd (List.mem_of_getLast? (ht.resolve_left hne)) hno
  | line line rest hline ih =>
      rw [lines_line hline] at h
      rcases List.mem_cons.mp h with rfl | h
      · exact ⟨line, hline, rfl⟩
      · refine ih ?_ h
        by_cases hrest : rest = []
        · exact .inl hrest
        · right
          rw [← ht.resolve_left (by simp), List.getLast?_append_of_ne_nil _ (by simp),
            List.getLast?_cons, List.getLast?_eq_some_getLast hrest, Option.getD_some]

/-- Whole lines that fit into the buffer are read as they are. -/
lemma fgets_whole_lines {ls : List Text} (h : ∀ l ∈ ls, ∃ front, 10 ∉ front ∧ l = front ++ [10])
    (hsize : ∀ l ∈ ls, l.length < size) : fgets size ls.flatten = ls := by
  induction ls with
  | nil => rfl
  | cons l ls ih =>
      obtain ⟨front, hfront, rfl⟩ := h l List.mem_cons_self
      have hshort := hsize _ List.mem_cons_self
      rw [List.length_append, List.length_singleton] at hshort
      rw [List.flatten_cons, List.append_assoc, List.singleton_append,
        fgets_line hfront (by omega), ih (fun l hl => h l (List.mem_cons_of_mem _ hl))
          fun l hl => hsize l (List.mem_cons_of_mem _ hl)]

lemma fgetsFrom_full (h : 10 ∉ t) (hne : t ≠ []) (hsize : (u ++ t).length + 1 = size) :
    fgetsFrom size u (t ++ rest) = (u ++ t) :: fgetsFrom size [] rest := by
  induction t generalizing u with
  | nil => exact absurd rfl hne
  | cons c t ih =>
      rw [List.mem_cons, not_or] at h
      rw [List.cons_append, fgetsFrom]
      by_cases ht : t = []
      · subst ht
        rw [if_pos (.inr (by simpa using hsize))]
        rfl
      · rw [if_neg]
        · rw [ih h.2 ht (by simpa using hsize)]
          simp
        · rintro (hc | hc)
          · exact h.1 hc.symm
          · have := List.length_pos_iff.mpr ht
            simp at hsize
            omega

/-- The first piece of a line that does not fit fills the buffer. -/
lemma fgets_long (h : 10 ∉ part) (hne : part ≠ []) (hsize : part.length + 1 = size) (rest : Text) :
    fgets size (part ++ rest) = part :: fgets size rest :=
  fgetsFrom_full h hne (by simpa using hsize)

lemma length_of_mem_fgetsFrom (hline : line.length + 1 < size) (h : s ∈ fgetsFrom size line t) :
    s.length < size ∧ s.length ≤ line.length + t.length := by
  induction t generalizing line with
  | nil =>
      rw [fgetsFrom] at h
      split at h
      · simp at h
      · obtain rfl := List.mem_singleton.mp h
        exact ⟨by omega, by simp⟩
  | cons c t ih =>
      rw [fgetsFrom] at h
      split at h
      · rcases List.mem_cons.mp h with rfl | h
        · simp
          omega
        · have := ih (by simp; omega) h
          simp at this ⊢
          omega
      · rename_i hc
        have := ih (by simp; omega) h
        simp at this ⊢
        omega

/-- A piece fits into the buffer, and it is no longer than the file. -/
lemma length_of_mem_fgets (hsize : 1 < size) (h : s ∈ fgets size t) :
    s.length < size ∧ s.length ≤ t.length := by
  simpa using length_of_mem_fgetsFrom (by simpa using hsize) h

/-! ## Rows -/

/-- A text broken into rows of `n` characters, of which the last one may be shorter. -/
def rows (n : ℕ) (t : Text) : List Text :=
  if t = [] ∨ n = 0 then [] else t.take n :: rows n (t.drop n)
termination_by t.length
decreasing_by
  rename_i h
  have := List.length_pos_iff.mpr (not_or.mp h).1
  rw [List.length_drop]
  omega

@[simp]
lemma rows_nil (n : ℕ) : rows n [] = [] := by
  rw [rows, if_pos (Or.inl rfl)]

lemma rows_of_ne_nil {n : ℕ} (hn : n ≠ 0) (ht : t ≠ []) :
    rows n t = t.take n :: rows n (t.drop n) := by
  rw [rows, if_neg (not_or.mpr ⟨ht, hn⟩)]

lemma rows_flatten {n : ℕ} (hn : n ≠ 0) (t : Text) : (rows n t).flatten = t := by
  induction hlen : t.length using Nat.strong_induction_on generalizing t with
  | _ m ih =>
      by_cases ht : t = []
      · rw [ht, rows_nil, List.flatten_nil]
      · have hpos := List.length_pos_iff.mpr ht
        have hrest := ih (t.drop n).length (by rw [List.length_drop]; omega) (t.drop n) rfl
        rw [rows_of_ne_nil hn ht, List.flatten_cons, hrest, List.take_append_drop]

end CText
