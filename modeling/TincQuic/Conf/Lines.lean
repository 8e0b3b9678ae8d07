import TincQuic.Conf.Command

/-!
# One line and its two readers

The daemon and the command split the same line into a variable and a value, but they clean it in
different ways: the daemon takes away the newline with one carriage return before it and then the
blanks, the command takes away every blank, carriage return and newline at the end.

* `daemonSetting` and `editorSetting` are the two results.  **On a line that is a setting the
  variables agree, and so do the values without carriage returns at the end**: `editor_of_setting`.
* **A line that is copied keeps its meaning unless its last byte is a carriage return**, which the
  added newline would remove from the value: `settings_copied`.
-/

namespace Tinc

open CText Bytes

variable {s t w var value : Text} {buffer : List UInt8} {ignore : Bool}

/-! ## Texts in buffers -/

lemma cstr_of_notMem (h : 0 ∉ t) : cstr t = t :=
  List.takeWhile_eq_self_iff.mpr fun c hc => by
    simpa using ne_of_mem_of_not_mem hc h

lemma notMem_cstr (buffer : List UInt8) : 0 ∉ cstr buffer := by
  intro h
  simpa using List.mem_takeWhile_imp h

@[simp]
lemma cstr_cstr (buffer : List UInt8) : cstr (cstr buffer) = cstr buffer :=
  cstr_of_notMem (notMem_cstr buffer)

lemma length_cstr_le (buffer : List UInt8) : (cstr buffer).length ≤ buffer.length :=
  (List.takeWhile_prefix _).length_le

/-- A newline in the text of a line is its last byte. -/
lemma notMem_dropLast_cstr (h : 10 ∉ buffer.dropLast) : 10 ∉ (cstr buffer).dropLast := by
  intro hmem
  obtain ⟨rest, hrest⟩ := List.takeWhile_prefix (l := buffer) fun c => decide (c ≠ 0)
  refine h ?_
  rw [← hrest]
  cases rest with
  | nil => rwa [List.append_nil]
  | cons c rest =>
      rw [List.dropLast_append_of_ne_nil (by simp)]
      exact List.mem_append_left _ (List.dropLast_subset _ hmem)

/-! ## What `readline` returns -/

/-- A text without the carriage return at its end. -/
def stripReturn (t : Text) : Text := if t.getLast? = some 13 then t.dropLast else t

lemma readline_cstr (buffer : List UInt8) : readline (cstr buffer) = readline buffer := by
  unfold readline
  rw [cstr_cstr]

lemma readline_of_notMem (h : 10 ∉ cstr buffer) : readline buffer = cstr buffer := by
  unfold readline
  exact if_neg h

lemma readline_newline (h10 : 10 ∉ t) (h0 : 0 ∉ t) : readline (t ++ [10]) = stripReturn t := by
  have hcstr : cstr (t ++ [10]) = t ++ [10] := cstr_of_notMem (by simp [h0])
  have htake : (t ++ [10]).takeWhile (fun c => decide (c ≠ 10)) = t := by
    rw [List.takeWhile_append_of_pos fun c hc => by simpa using ne_of_mem_of_not_mem hc h10]
    simp
  unfold readline stripReturn
  simp only [hcstr]
  rw [if_pos (by simp), htake]

lemma stripReturn_of_ne (h : t.getLast? ≠ some 13) : stripReturn t = t := if_neg h

/-- A line either ends with a newline, or it has none. -/
lemma line_cases (h : 10 ∉ t.dropLast) : 10 ∉ t ∨ ∃ front, 10 ∉ front ∧ t = front ++ [10] := by
  rcases List.eq_nil_or_concat' t with rfl | ⟨front, c, rfl⟩
  · exact .inl (by simp)
  · rw [List.dropLast_concat] at h
    by_cases hc : c = 10
    · exact .inr ⟨front, h, by rw [hc]⟩
    · exact .inl (by simp [h, Ne.symm hc])

/-! ## Splitting a longer text -/

/-- What comes behind a value belongs to the value. -/
lemma afterEquals_append (h : afterEquals s ≠ []) (w : Text) :
    afterEquals (s ++ w) = afterEquals s ++ w := by
  cases s with
  | nil => exact absurd rfl h
  | cons c s =>
      unfold afterEquals at h ⊢
      by_cases hc : c = 61
      · subst hc
        simp only [List.head?_cons, if_true, List.tail_cons, List.cons_append] at h ⊢
        rw [List.dropWhile_append, if_neg (by simpa using h)]
      · simp [hc]

lemma assignment_append (h : assignment s = (var, value)) (hvalue : value ≠ []) (w : Text) :
    assignment (s ++ w) = (var, value ++ w) := by
  unfold assignment at h ⊢
  obtain ⟨hvar, hval⟩ := Prod.mk.inj h
  generalize (fun c => !(isBlank c) && decide (c ≠ 61)) = p at hvar hval ⊢
  have hsplit : s.takeWhile p ++ s.dropWhile p = s := List.takeWhile_append_dropWhile
  have hdrop : s.drop (s.takeWhile p).length = s.dropWhile p := by
    have hleft := @List.drop_left _ (s.takeWhile p) (s.dropWhile p)
    rwa [hsplit] at hleft
  rw [hdrop] at hval
  have hblank : (s.dropWhile p).dropWhile isBlank ≠ [] := by
    intro hnil
    rw [hnil] at hval
    exact hvalue hval.symm
  have hrest : s.dropWhile p ≠ [] := by
    intro hnil
    exact hblank (by rw [hnil]; rfl)
  have htake : (s ++ w).takeWhile p = s.takeWhile p := by
    rw [List.takeWhile_append, if_neg]
    intro hlen
    refine hrest (List.length_eq_zero_iff.mp ?_)
    have := congrArg List.length hsplit
    rw [List.length_append] at this
    omega
  have hskip : ((s ++ w).drop (s.takeWhile p).length).dropWhile isBlank =
      (s.dropWhile p).dropWhile isBlank ++ w := by
    rw [List.drop_append_of_le_length (List.takeWhile_prefix p).length_le, hdrop,
      List.dropWhile_append, if_neg (by simpa using hblank)]
  simp only [htake, hskip]
  rw [afterEquals_append (by rw [hval]; exact hvalue), hval, hvar]

/-- The bytes that `rstrip` removes. -/
def isTrailing (c : UInt8) : Bool := c = 9 ∨ c = 13 ∨ c = 10 ∨ c = 32

lemma rstrip_eq (t : Text) : rstrip t = t.rdropWhile isTrailing := rfl

lemma rstrip_append (t : Text) (h : ∀ c ∈ w, isTrailing c = true) : rstrip (t ++ w) = rstrip t := by
  simp only [rstrip_eq, List.rdropWhile, List.reverse_append]
  rw [List.dropWhile_append_of_pos fun c hc => h c (List.mem_reverse.mp hc)]

lemma isTrailing_of_isBlank {c : UInt8} (h : isBlank c = true) : isTrailing c = true := by
  simp only [isBlank, isTrailing, decide_eq_true_iff] at h ⊢
  tauto

/-- A text is what is left without the bytes at its end, and those bytes. -/
lemma exists_rdropWhile (p : UInt8 → Bool) (t : Text) :
    ∃ w, t = t.rdropWhile p ++ w ∧ ∀ c ∈ w, p c = true := by
  refine ⟨(t.reverse.takeWhile p).reverse, ?_, fun c hc => ?_⟩
  · rw [List.rdropWhile, ← List.reverse_append, List.takeWhile_append_dropWhile,
      List.reverse_reverse]
  · exact List.mem_takeWhile_imp (List.mem_reverse.mp hc)

/-! ## The two readers -/

/-- What the daemon makes of a line outside key blocks. -/
def daemonSetting (buffer : List UInt8) : Setting :=
  assignment ((readline buffer).rdropWhile isBlank)

/-- What the command makes of a line. -/
def editorSetting (buffer : List UInt8) : Setting :=
  ((assignment (cstr buffer)).1, rstrip (assignment (cstr buffer)).2)

/-- The daemon takes the line for a setting. -/
def IsSetting (ignore : Bool) (buffer : List UInt8) : Prop :=
  ignore = false ∧ readline buffer ≠ [] ∧ (readline buffer).head? ≠ some 35 ∧
    (ascii "-----BEGIN").isPrefixOf (readline buffer) = false

instance : Decidable (IsSetting ignore buffer) := by unfold IsSetting; infer_instance

/-- Whether a key block goes on behind a line. -/
def blockAfter (ignore : Bool) (buffer : List UInt8) : Bool :=
  let line := readline buffer
  if line = [] ∨ line.head? = some 35 then ignore
  else if ignore then !(ascii "-----END").isPrefixOf line
  else (ascii "-----BEGIN").isPrefixOf line

/-- **What a line means**: it is a setting with a value, or it says nothing. -/
lemma lineSettings_cases {p : Bool × List Setting} (h : lineSettings ignore buffer = some p) :
    IsSetting ignore buffer ∧ (daemonSetting buffer).2 ≠ [] ∧ p = (false, [daemonSetting buffer]) ∧
        blockAfter ignore buffer = false ∨
      ¬ IsSetting ignore buffer ∧ p = (blockAfter ignore buffer, []) := by
  unfold lineSettings at h
  unfold blockAfter
  by_cases hcomment : readline buffer = [] ∨ (readline buffer).head? = some 35
  · simp only [if_pos hcomment, Option.some.injEq] at h ⊢
    refine .inr ⟨fun hset => ?_, h.symm⟩
    rcases hcomment with hnil | hhash
    · exact hset.2.1 hnil
    · exact hset.2.2.1 hhash
  · simp only [if_neg hcomment] at h ⊢
    obtain ⟨hnil, hhash⟩ := not_or.mp hcomment
    cases ignore with
    | true =>
        simp only [if_true, Option.some.injEq] at h ⊢
        exact .inr ⟨fun hset => absurd hset.1 (by simp), h.symm⟩
    | false =>
        simp only [Bool.false_eq_true, if_false] at h ⊢
        cases hbegin : (ascii "-----BEGIN").isPrefixOf (readline buffer) with
        | true =>
            rw [hbegin] at h
            simp only [if_true, Option.some.injEq] at h
            exact .inr ⟨fun hset => absurd (hset.2.2.2.symm.trans hbegin) (by simp), h.symm⟩
        | false =>
            rw [hbegin] at h
            simp only [Bool.false_eq_true, if_false] at h
            split at h
            · cases h
            · rename_i hvalue
              exact .inl ⟨⟨rfl, hnil, hhash, hbegin⟩, hvalue, (Option.some.inj h).symm, rfl⟩

lemma lineSettings_of_not_isSetting (h : ¬ IsSetting ignore buffer) :
    lineSettings ignore buffer = some (blockAfter ignore buffer, []) := by
  unfold lineSettings blockAfter
  by_cases hcomment : readline buffer = [] ∨ (readline buffer).head? = some 35
  · simp only [if_pos hcomment]
  · simp only [if_neg hcomment]
    cases ignore with
    | true => rfl
    | false =>
        cases hbegin : (ascii "-----BEGIN").isPrefixOf (readline buffer) with
        | true => rfl
        | false =>
            obtain ⟨hnil, hhash⟩ := not_or.mp hcomment
            exact absurd ⟨rfl, hnil, hhash, hbegin⟩ h

lemma lineSettings_of_isSetting (h : IsSetting ignore buffer) :
    lineSettings ignore buffer =
      if (daemonSetting buffer).2 = [] then none else some (false, [daemonSetting buffer]) := by
  obtain ⟨rfl, hnil, hhash, hbegin⟩ := h
  unfold lineSettings
  simp only [if_neg (not_or.mpr ⟨hnil, hhash⟩), hbegin, Bool.false_eq_true, if_false]
  rfl

/-- The bytes that the daemon takes away at the end of a line are ones that the command takes away,
too. -/
lemma exists_cstr_tail (h : 10 ∉ (cstr buffer).dropLast) :
    ∃ w, cstr buffer = (readline buffer).rdropWhile isBlank ++ w ∧
      ∀ c ∈ w, isTrailing c = true := by
  obtain ⟨blanks, hblanks, hall⟩ := exists_rdropWhile isBlank (readline buffer)
  have hall' : ∀ c ∈ blanks, isTrailing c = true := fun c hc => isTrailing_of_isBlank (hall c hc)
  rcases line_cases h with hno | ⟨front, hfront, heq⟩
  · refine ⟨blanks, ?_, hall'⟩
    rw [← hblanks, readline_of_notMem hno]
  · have h0 : 0 ∉ front := fun hmem => notMem_cstr buffer (by rw [heq]; simp [hmem])
    have hread : readline buffer = stripReturn front := by
      rw [← readline_cstr, heq, readline_newline hfront h0]
    unfold stripReturn at hread
    split at hread
    · rename_i hreturn
      obtain ⟨body, hbody⟩ := List.getLast?_eq_some_iff.mp hreturn
      refine ⟨blanks ++ [13, 10], ?_, fun c hc => ?_⟩
      · rw [← List.append_assoc, ← hblanks, hread, heq, hbody]
        simp
      · rcases List.mem_append.mp hc with hc | hc
        · exact hall' c hc
        · simp only [List.mem_cons, List.not_mem_nil, or_false] at hc
          rcases hc with rfl | rfl <;> decide
    · refine ⟨blanks ++ [10], ?_, fun c hc => ?_⟩
      · rw [← List.append_assoc, ← hblanks, hread, heq]
      · rcases List.mem_append.mp hc with hc | hc
        · exact hall' c hc
        · rw [List.mem_singleton.mp hc]
          decide

/-- **The two readers agree on a setting**, up to carriage returns and blanks at the end. -/
lemma editor_of_setting (h : 10 ∉ (cstr buffer).dropLast) (hvalue : (daemonSetting buffer).2 ≠ []) :
    editorSetting buffer = ((daemonSetting buffer).1, rstrip (daemonSetting buffer).2) := by
  obtain ⟨w, hw, hall⟩ := exists_cstr_tail h
  have happend := assignment_append (s := (readline buffer).rdropWhile isBlank) rfl hvalue w
  unfold editorSetting
  rw [hw, happend, rstrip_append _ hall]
  rfl

/-! ## Lines that are copied -/

/-- What a line means depends on what `readline` makes of it. -/
lemma lineSettings_congr {buffer' : List UInt8} (h : readline buffer' = readline buffer) :
    lineSettings ignore buffer' = lineSettings ignore buffer := by
  unfold lineSettings
  rw [h]

/-- An empty line says nothing. -/
lemma lineSettings_empty (h : readline buffer = []) :
    lineSettings ignore buffer = some (ignore, []) := by
  unfold lineSettings
  simp only [h, true_or, if_true]

/-- A newline that does not fit into the buffer any more is an empty line of its own. -/
lemma settings_newline (h10 : 10 ∉ t) (h0 : 0 ∉ t) (hreturn : t.getLast? ≠ some 13) (hne : t ≠ [])
    (hsize : t.length < maxStringSize) :
    settings ignore (fgets maxStringSize (t ++ [10])) = lineSettings ignore t := by
  have hread : readline t = t := by
    rw [readline_of_notMem (fun hmem => h10 (cstr_of_notMem h0 ▸ hmem)), cstr_of_notMem h0]
  by_cases hfull : t.length + 1 = maxStringSize
  · have hlast : readline [10] = [] := by decide
    have hnewline : fgets maxStringSize [10] = [[10]] := by
      simp [fgets, fgetsFrom]
    rw [fgets_long h10 hne hfull, hnewline, settings_cons]
    cases lineSettings ignore t with
    | none => rfl
    | some p => rw [Option.bind_some, settings_singleton, lineSettings_empty hlast]; simp
  · have hline := fgets_line h10 (by omega : t.length + 2 ≤ maxStringSize) []
    rw [hline, show fgets maxStringSize [] = [] from rfl, settings_singleton]
    refine lineSettings_congr ?_
    rw [readline_newline h10 h0, stripReturn_of_ne hreturn, hread]

/-- **A copied line means what it meant.** -/
lemma settings_copied (h : 10 ∉ (cstr buffer).dropLast) (hreturn : (cstr buffer).getLast? ≠ some 13)
    (hsize : buffer.length < maxStringSize) :
    settings ignore (fgets maxStringSize (withNewline (cstr buffer))) =
      lineSettings ignore buffer := by
  have hshort := (length_cstr_le buffer).trans_lt hsize
  by_cases hempty : cstr buffer = []
  · have hread : readline buffer = [] := by
      rw [readline_of_notMem (by simp [hempty]), hempty]
    rw [hempty, lineSettings_empty hread]
    rfl
  rcases line_cases h with hno | ⟨front, hfront, heq⟩
  · have hlast : (cstr buffer).getLast? ≠ some 10 := fun hlast =>
      hno (List.mem_of_getLast? hlast)
    rw [withNewline, if_pos ⟨hempty, hlast⟩,
      settings_newline hno (notMem_cstr buffer) hreturn hempty hshort]
    exact lineSettings_congr (readline_cstr buffer)
  · rw [withNewline, if_neg (by simp [heq]), heq]
    rw [heq, List.length_append, List.length_singleton] at hshort
    have hline := fgets_line hfront (by omega : front.length + 2 ≤ maxStringSize) []
    rw [hline, show fgets maxStringSize [] = [] from rfl, settings_singleton, ← heq]
    exact lineSettings_congr (readline_cstr buffer)

end Tinc
