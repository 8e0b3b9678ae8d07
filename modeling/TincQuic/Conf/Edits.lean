import TincQuic.Conf.Lines

/-!
# Edits that the daemon reads

The command edits a file line by line with its own reader.  Here its result is compared with what
the daemon reads from the file before and after.

* `ConfigEdit.valuesAfter` is what an edit is for, in terms of the values of each variable.
* `Editable` is what a file needs: its lines fit into the buffer of the daemon, none ends in a bare
  carriage return, and the command takes nothing for the variable that is no setting.
* `Copied` is the invariant of the copying loop: **what was copied so far means what the edit makes
  of what was read so far**.
* **Afterwards the daemon reads what the edit is for, and of every other variable what it read
  before**: `cmdConfig_read_back`.
-/

namespace Tinc

open CText Bytes

/-! ## What an edit is for -/

variable (e : ConfigEdit)

/-- The value is the one that is meant; blanks and carriage returns at its end do not count. -/
def ConfigEdit.means (value : Text) : Bool := sameIgnoringCase (rstrip value) e.value

/-- A value that is to be deleted; without one on the command line all of them are. -/
def ConfigEdit.deletes (value : Text) : Bool := e.value = [] ∨ e.means value

/-- The values of a variable after the edit. -/
def ConfigEdit.valuesAfter (variableName : Text) (values : List Text) : List Text :=
  if sameIgnoringCase variableName e.var then
    match e.action with
    | .get => values
    | .del => values.filter (!e.deletes ·)
    | .set => [e.value]
    | .add => if values.any e.means then values else values ++ [e.value]
  else values

/-- The command takes a line for one of the variable. -/
def ConfigEdit.takes (buffer : List UInt8) : Bool :=
  sameIgnoringCase (editorSetting buffer).1 e.var

/-- The command takes nothing for the variable that is no setting. -/
def SettingsOnly : Bool → List (List UInt8) → Prop
  | _, [] => True
  | ignore, buffer :: buffers =>
      (¬ IsSetting ignore buffer → e.takes buffer = false) ∧
        SettingsOnly (blockAfter ignore buffer) buffers

instance SettingsOnly.decidable : ∀ ignore buffers, Decidable (SettingsOnly e ignore buffers)
  | _, [] => isTrue trivial
  | ignore, buffer :: buffers =>
      @instDecidableAnd _ _ _ (decidable (blockAfter ignore buffer) buffers)

/-- What the file needs for the command and the daemon to agree on it. -/
structure Editable (file : List UInt8) : Prop where
  accepted : (fileSettings file).map Prod.fst = some false
  short : ∀ line ∈ lines file, line.length < maxStringSize
  noReturn : ∀ line ∈ lines file, (cstr line).getLast? ≠ some 13
  settingsOnly : SettingsOnly e false (lines file)

/-- What the command line has to give for a value that is to be written. -/
structure NewValue : Prop where
  newline : 10 ∉ e.value
  trailing : ∀ c, e.value.getLast? = some c → isTrailing c = false
  short : (settingLine e.var e.value).length < maxStringSize

variable {e} {file buffer : List UInt8} {buffers : List (List UInt8)} {ignore ignore' : Bool}
  {found found' : List Setting} {s : ConfigCopy} {v value : Text} {x : ConfigContext}

/-! ## The line that is written -/

/-- What the command line and the list of variables guarantee of a setting that is written. -/
structure ConfigEdit.WellFormed (e : ConfigEdit) : Prop where
  alnum : ∀ c ∈ e.var, isAlnum c = true
  var : e.var ≠ []
  value : e.value ≠ []
  leading : ∀ c, e.value.head? = some c → isBlank c = false
  noZero : 0 ∉ e.value

lemma not_isBlank_of_isAlnum {c : UInt8} (h : isAlnum c = true) :
    isBlank c = false ∧ c ≠ 61 ∧ c ≠ 35 ∧ c ≠ 45 ∧ c ≠ 10 ∧ c ≠ 0 := by
  refine ⟨?_, ?_, ?_, ?_, ?_, ?_⟩
  · rw [Bool.eq_false_iff]
    intro hblank
    simp only [isBlank, decide_eq_true_iff] at hblank
    rcases hblank with rfl | rfl <;> exact absurd h (by decide)
  all_goals
    rintro rfl
    exact absurd h (by decide)

/-- The daemon reads the variable and the value that were written. -/
lemma assignment_settingLine (hw : e.WellFormed) :
    assignment (e.var ++ ascii " = " ++ e.value) = (e.var, e.value) := by
  have hequals : ascii " = " = [32, 61, 32] := by decide
  have hvar : (e.var ++ [32, 61, 32] ++ e.value).takeWhile
      (fun c => !(isBlank c) && decide (c ≠ 61)) = e.var := by
    rw [List.append_assoc, List.takeWhile_append_of_pos fun c hc => ?_]
    · simp [isBlank]
    · obtain ⟨hblank, hequal, -⟩ := not_isBlank_of_isAlnum (hw.alnum c hc)
      simp [hblank, hequal]
  have hvalue : e.value.dropWhile isBlank = e.value := by
    cases hcase : e.value with
    | nil => rfl
    | cons c t =>
        have hc := hw.leading c (by rw [hcase]; rfl)
        rw [List.dropWhile_cons_of_neg (by simp [hc])]
  unfold assignment
  rw [hequals, hvar]
  dsimp only
  rw [List.append_assoc, List.drop_left]
  simp [afterEquals, isBlank, hvalue]

lemma readline_settingLine (hw : e.WellFormed) (hv : NewValue e) :
    readline (settingLine e.var e.value) = e.var ++ ascii " = " ++ e.value := by
  have hnotMem : ∀ c : UInt8, c = 10 ∨ c = 0 → c ∉ e.value →
      c ∉ e.var ++ ascii " = " ++ e.value := by
    intro c hc hvalue hmem
    rcases List.mem_append.mp hmem with hmem | hmem
    · rcases List.mem_append.mp hmem with hmem | hmem
      · have halnum := not_isBlank_of_isAlnum (hw.alnum c hmem)
        rcases hc with rfl | rfl
        · exact halnum.2.2.2.2.1 rfl
        · exact halnum.2.2.2.2.2 rfl
      · rcases hc with rfl | rfl <;> exact absurd hmem (by decide)
    · exact hvalue hmem
  unfold settingLine
  rw [readline_newline (hnotMem 10 (.inl rfl) hv.newline) (hnotMem 0 (.inr rfl) hw.noZero)]
  refine stripReturn_of_ne fun hlast => ?_
  rw [List.getLast?_append_of_ne_nil _ hw.value] at hlast
  exact absurd (hv.trailing 13 hlast) (by decide)

/-- **A line that was written is a setting with what was meant.** -/
lemma lineSettings_settingLine (hw : e.WellFormed) (hv : NewValue e) :
    lineSettings false (settingLine e.var e.value) = some (false, [(e.var, e.value)]) := by
  have hread := readline_settingLine hw hv
  obtain ⟨c, var, hvar⟩ := List.exists_cons_of_ne_nil hw.var
  have halnum := not_isBlank_of_isAlnum (hw.alnum c (by rw [hvar]; exact List.mem_cons_self))
  have hblank : (e.var ++ ascii " = " ++ e.value).rdropWhile isBlank =
      e.var ++ ascii " = " ++ e.value := by
    rw [List.rdropWhile_eq_self_iff]
    intro hne hlast
    have hlast' : e.value.getLast? = some ((e.var ++ ascii " = " ++ e.value).getLast hne) := by
      rw [← List.getLast?_append_of_ne_nil (e.var ++ ascii " = ") hw.value,
        List.getLast?_eq_some_getLast hne]
    have htrailing := hv.trailing _ hlast'
    rw [isTrailing_of_isBlank hlast] at htrailing
    cases htrailing
  have hset : IsSetting false (settingLine e.var e.value) := by
    refine ⟨rfl, ?_, ?_, ?_⟩ <;> rw [hread, hvar]
    · simp
    · simp [halnum.2.2.1]
    · have hdash : ascii "-----BEGIN" = 45 :: ascii "----BEGIN" := by decide
      rw [hdash]
      simp [List.isPrefixOf, Ne.symm halnum.2.2.2.1]
  have hdaemon : daemonSetting (settingLine e.var e.value) = (e.var, e.value) := by
    unfold daemonSetting
    rw [hread, hblank, assignment_settingLine hw]
  rw [lineSettings_of_isSetting hset, hdaemon, if_neg hw.value]

lemma settings_settingLine (hw : e.WellFormed) (hv : NewValue e) :
    settings false (fgets maxStringSize (settingLine e.var e.value)) =
      some (false, [(e.var, e.value)]) := by
  have hnewline : 10 ∉ e.var ++ ascii " = " ++ e.value := by
    have hline := readline_settingLine hw hv
    intro hmem
    rcases List.mem_append.mp hmem with hmem | hmem
    · rcases List.mem_append.mp hmem with hmem | hmem
      · exact (not_isBlank_of_isAlnum (hw.alnum 10 hmem)).2.2.2.2.1 rfl
      · exact absurd hmem (by decide)
    · exact hv.newline hmem
  have hshort := hv.short
  rw [← lineSettings_settingLine hw hv, ← settings_singleton]
  unfold settingLine at hshort ⊢
  rw [List.length_append, List.length_singleton] at hshort
  rw [fgets_line hnewline (by omega) []]
  rfl

/-! ## The copying loop -/

/-- The values of a variable in the copy, when the loop has read `values`. -/
def ConfigEdit.valuesCopied (e : ConfigEdit) (s : ConfigCopy) (v : Text) (values : List Text) :
    List Text :=
  if sameIgnoringCase v e.var then
    match e.action with
    | .get => values
    | .del => values.filter (!e.deletes ·)
    | .set => if s.set then [e.value] else []
    | .add => values
  else values

/-- What was copied means what the edit makes of the settings that were read. -/
structure Copied (e : ConfigEdit) (s : ConfigCopy) (ignore : Bool) (found : List Setting) :
    Prop where
  ends : s.tf = [] ∨ s.tf.getLast? = some 10
  copy : ∃ done, settings false (fgets maxStringSize s.tf) = some (ignore, done) ∧
    ∀ v, valuesIn done v = e.valuesCopied s v (valuesIn found v)
  seen : e.action = .add → s.found = (valuesIn found e.var).any e.means

lemma withNewline_ends (t : Text) : withNewline t = [] ∨ (withNewline t).getLast? = some 10 := by
  unfold withNewline
  split
  · exact .inr (by simp)
  · rename_i h
    by_cases ht : t = []
    · exact .inl ht
    · exact .inr (not_not.mp fun hlast => h ⟨ht, hlast⟩)

/-- What is written at the end of a file of whole lines is read behind them. -/
lemma settings_fgets_append {tf : Text} (h : tf = [] ∨ tf.getLast? = some 10) (piece : Text)
    {done : List Setting}
    (hdone : settings false (fgets maxStringSize tf) = some (ignore, done)) :
    settings false (fgets maxStringSize (tf ++ piece)) =
      (settings ignore (fgets maxStringSize piece)).map fun q => (q.1, done ++ q.2) := by
  rw [fgets_concat h, settings_append, hdone, Option.bind_some]

/-- Something is written behind what was copied. -/
lemma Copied.write {piece : Text} {more done : List Setting} {s' : ConfigCopy}
    (h : s.tf = [] ∨ s.tf.getLast? = some 10)
    (hdone : settings false (fgets maxStringSize s.tf) = some (ignore, done))
    (hpiece : settings ignore (fgets maxStringSize piece) = some (ignore', more))
    (hends : piece = [] ∨ piece.getLast? = some 10) (htf : s'.tf = s.tf ++ piece)
    (hvalues : ∀ v, valuesIn done v ++ valuesIn more v = e.valuesCopied s' v (valuesIn found v))
    (hseen : e.action = .add → s'.found = (valuesIn found e.var).any e.means) :
    Copied e s' ignore' found := by
  refine ⟨?_, ⟨done ++ more, ?_, fun v => ?_⟩, hseen⟩
  · rw [htf]
    rcases hends with rfl | hends
    · rwa [List.append_nil]
    · obtain ⟨front, rfl⟩ := List.getLast?_eq_some_iff.mp hends
      exact .inr (by simp)
  · rw [htf, settings_fgets_append h piece hdone, hpiece]
    rfl
  · rw [valuesIn_append, hvalues]

/-- A line that is no setting is copied. -/
lemma ConfigCopy.round_other (hget : e.action ≠ .get) (htakes : e.takes buffer = false) :
    s.round e buffer = { s with tf := s.tf ++ withNewline (cstr buffer) } := by
  have hvar : sameIgnoringCase (assignment (cstr buffer)).1 e.var = false := htakes
  unfold ConfigCopy.round
  dsimp only
  rw [if_neg (by simp [hvar]), if_neg hget]

lemma valuesCopied_of_other (h : sameIgnoringCase v e.var = false) (s : ConfigCopy)
    (values : List Text) : e.valuesCopied s v values = values := by
  unfold ConfigEdit.valuesCopied
  rw [if_neg (by simp [h])]

lemma valuesIn_singleton (setting : Setting) (v : Text) :
    valuesIn [setting] v = if sameIgnoringCase v setting.1 then [setting.2] else [] := by
  rw [valuesIn_cons, valuesIn_nil]

/-- The settings of another variable stay. -/
lemma Copied.other {more : List Setting} (h : Copied e s ignore found) (hget : e.action ≠ .get)
    (htakes : e.takes buffer = false)
    (hpiece : settings ignore (fgets maxStringSize (withNewline (cstr buffer))) =
      some (ignore', more))
    (hmore : ∀ v, sameIgnoringCase v e.var = true → valuesIn more v = []) :
    Copied e (s.round e buffer) ignore' (found ++ more) := by
  obtain ⟨done, hdone, hvalues⟩ := h.copy
  rw [ConfigCopy.round_other hget htakes]
  refine .write h.ends hdone hpiece (withNewline_ends _) rfl (fun v => ?_) fun hadd => ?_
  · rw [hvalues, valuesIn_append]
    cases hv : sameIgnoringCase v e.var with
    | true => rw [hmore v hv, List.append_nil, List.append_nil]; rfl
    | false => rw [valuesCopied_of_other hv, valuesCopied_of_other hv]
  · rw [valuesIn_append, hmore _ (sameIgnoringCase_refl _), List.append_nil]
    exact h.seen hadd

/-- What the loop needs to know about a line that it reads. -/
structure ReadableLine (buffer : List UInt8) : Prop where
  newline : 10 ∉ (cstr buffer).dropLast
  noReturn : (cstr buffer).getLast? ≠ some 13
  short : buffer.length < maxStringSize

/-- A setting of the variable is removed, replaced or kept. -/
lemma Copied.taken (h : Copied e s false found) (hget : e.action ≠ .get) (hb : ReadableLine buffer)
    (hset : lineSettings false buffer = some (false, [daemonSetting buffer]))
    (hvalue : (daemonSetting buffer).2 ≠ []) (htakes : e.takes buffer = true)
    (hw : e.action.writes = true → e.WellFormed ∧ NewValue e) :
    Copied e (s.round e buffer) false (found ++ [daemonSetting buffer]) := by
  obtain ⟨done, hdone, hvalues⟩ := h.copy
  have hcopied := @settings_copied _ false hb.newline hb.noReturn hb.short
  rw [hset] at hcopied
  have heditor := editor_of_setting hb.newline hvalue
  have hvar : sameIgnoringCase (assignment (cstr buffer)).1 e.var = true := htakes
  have hmeans : sameIgnoringCase (rstrip (assignment (cstr buffer)).2) e.value =
      e.means (daemonSetting buffer).2 := by
    have hsnd := congrArg Prod.snd heditor
    unfold editorSetting at hsnd
    dsimp only at hsnd
    unfold ConfigEdit.means
    rw [hsnd]
  have hname : ∀ v, sameIgnoringCase v (daemonSetting buffer).1 = sameIgnoringCase v e.var := by
    have hfst := congrArg Prod.fst heditor
    intro v
    rw [sameIgnoringCase_comm, sameIgnoringCase_comm (s := v)]
    refine sameIgnoringCase_congr ?_ v
    rw [← hfst]
    exact htakes
  have hnothing : settings false (fgets maxStringSize []) = some (false, []) := rfl
  unfold ConfigCopy.round
  dsimp only
  rw [if_pos hvar]
  cases haction : e.action with
  | get => exact absurd haction hget
  | del =>
      dsimp only
      rw [hmeans]
      split
      · rename_i hremoved
        refine .write h.ends hdone hnothing (.inl rfl) (List.append_nil _).symm (fun v => ?_) ?_
        · rw [hvalues, valuesIn_nil, List.append_nil, valuesIn_append, valuesIn_singleton, hname]
          unfold ConfigEdit.valuesCopied
          split
          · have hdeletes : e.deletes (daemonSetting buffer).2 = true := decide_eq_true hremoved
            simp [haction, hdeletes]
          · simp
        · simp [haction]
      · rename_i hkept
        refine .write h.ends hdone hcopied (withNewline_ends _) rfl (fun v => ?_) ?_
        · rw [hvalues, valuesIn_append, valuesIn_singleton, hname]
          unfold ConfigEdit.valuesCopied
          split
          · have hdeletes : e.deletes (daemonSetting buffer).2 = false := decide_eq_false hkept
            simp [haction, hdeletes]
          · simp
        · simp [haction]
  | set =>
      dsimp only
      obtain ⟨hwell, hwrite⟩ := hw (by simp [ConfigAction.writes, haction])
      split
      · rename_i hdouble
        refine .write h.ends hdone hnothing (.inl rfl) (List.append_nil _).symm (fun v => ?_) ?_
        · rw [hvalues, valuesIn_nil, List.append_nil, valuesIn_append, valuesIn_singleton, hname]
          unfold ConfigEdit.valuesCopied
          split
          · simp [haction]
          · simp
        · simp [haction]
      · refine .write h.ends hdone (settings_settingLine hwell hwrite)
          (.inr (by simp [settingLine])) rfl (fun v => ?_) ?_
        · rw [hvalues, valuesIn_append, valuesIn_singleton, valuesIn_singleton, hname]
          unfold ConfigEdit.valuesCopied
          split
          · simp [haction]
          · simp
        · simp [haction]
  | add =>
      dsimp only
      rw [hmeans]
      have hseen := h.seen haction
      have hlast : valuesIn [daemonSetting buffer] e.var = [(daemonSetting buffer).2] := by
        rw [valuesIn_singleton, hname, sameIgnoringCase_refl, if_pos rfl]
      have hkeeps : ∀ (s' : ConfigCopy) v, valuesIn done v ++ valuesIn [daemonSetting buffer] v =
          e.valuesCopied s' v (valuesIn (found ++ [daemonSetting buffer]) v) := by
        intro s' v
        rw [hvalues, valuesIn_append]
        unfold ConfigEdit.valuesCopied
        rw [haction]
        split <;> rfl
      split
      · rename_i hsame
        refine .write h.ends hdone hcopied (withNewline_ends _) rfl (hkeeps _) fun _ => ?_
        simp [hlast, hsame]
      · rename_i hdiff
        refine .write h.ends hdone hcopied (withNewline_ends _) rfl (hkeeps _) fun _ => ?_
        simp [hseen, hlast, hdiff]

/-- **One round.** -/
lemma Copied.round {more : List Setting} (h : Copied e s ignore found) (hget : e.action ≠ .get)
    (hb : ReadableLine buffer) (hline : lineSettings ignore buffer = some (ignore', more))
    (honly : ¬ IsSetting ignore buffer → e.takes buffer = false)
    (hw : e.action.writes = true → e.WellFormed ∧ NewValue e) :
    Copied e (s.round e buffer) ignore' (found ++ more) := by
  have hcopied := @settings_copied _ ignore hb.newline hb.noReturn hb.short
  rw [hline] at hcopied
  rcases lineSettings_cases hline with ⟨hset, hvalue, heq, -⟩ | ⟨hset, heq⟩
  · obtain ⟨rfl, rfl⟩ := Prod.mk.inj heq
    obtain rfl := hset.1
    cases htakes : e.takes buffer with
    | true => exact h.taken hget hb hline hvalue htakes hw
    | false =>
        refine h.other hget htakes hcopied fun v hv => ?_
        rw [valuesIn_singleton, if_neg]
        intro hname
        have hfst := congrArg Prod.fst (editor_of_setting hb.newline hvalue)
        have htrue : e.takes buffer = true := by
          unfold ConfigEdit.takes
          rw [hfst]
          exact sameIgnoringCase_trans (sameIgnoringCase_comm.trans hname) hv
        rw [htakes] at htrue
        cases htrue
  · obtain ⟨-, rfl⟩ := Prod.mk.inj heq
    exact h.other hget (honly hset) hcopied fun v _ => valuesIn_nil

/-- **The whole loop.** -/
lemma Copied.loop {p : Bool × List Setting} (h : Copied e s ignore found) (hget : e.action ≠ .get)
    (hb : ∀ buffer ∈ buffers, ReadableLine buffer) (hlines : settings ignore buffers = some p)
    (honly : SettingsOnly e ignore buffers)
    (hw : e.action.writes = true → e.WellFormed ∧ NewValue e) :
    Copied e (buffers.foldl (fun s buffer => s.round e buffer) s) p.1 (found ++ p.2) := by
  induction buffers generalizing s ignore found p with
  | nil =>
      obtain rfl := Option.some.inj hlines
      rwa [List.append_nil]
  | cons buffer buffers ih =>
      rw [settings_cons] at hlines
      obtain ⟨q, hline, hrest⟩ := Option.bind_eq_some_iff.mp hlines
      obtain ⟨r, hr, rfl⟩ := Option.map_eq_some_iff.mp hrest
      have hround := h.round hget (hb buffer List.mem_cons_self) hline honly.1 hw
      have hafter : q.1 = blockAfter ignore buffer := by
        rcases lineSettings_cases hline with ⟨-, -, rfl, hafter⟩ | ⟨-, rfl⟩
        · exact hafter.symm
        · rfl
      rw [← List.append_assoc]
      exact ih hround (fun b hmem => hb b (List.mem_cons_of_mem _ hmem)) hr (hafter ▸ honly.2)

/-- **What the daemon reads from the new file is what the edit is for.** -/
lemma Copied.edited (h : Copied e s false found) (hget : e.action ≠ .get)
    (hw : e.action.writes = true → e.WellFormed ∧ NewValue e) :
    ∃ found', fileSettings (editedConfig e s) = some (false, found') ∧
      ∀ v, valuesIn found' v = e.valuesAfter v (valuesIn found v) := by
  obtain ⟨done, hdone, hvalues⟩ := h.copy
  unfold editedConfig
  split
  · rename_i hnew
    have hwrites : e.action.writes = true := by
      rcases hnew with ⟨hadd, -⟩ | ⟨hset, -⟩
      · simp [ConfigAction.writes, hadd]
      · simp [ConfigAction.writes, hset]
    obtain ⟨hwell, hwrite⟩ := hw hwrites
    refine ⟨done ++ [(e.var, e.value)], ?_, fun v => ?_⟩
    · rw [fileSettings, settings_fgets_append h.ends _ hdone, settings_settingLine hwell hwrite]
      rfl
    · rw [valuesIn_append, hvalues, valuesIn_singleton]
      unfold ConfigEdit.valuesCopied ConfigEdit.valuesAfter
      split
      · rename_i hv
        rcases hnew with ⟨hadd, hnone⟩ | ⟨hset, hnone⟩
        · have hseen : (valuesIn found v).any e.means = false := by
            have hvar : valuesIn found v = valuesIn found e.var := by
              unfold valuesIn
              simp only [sameIgnoringCase_congr hv]
            rw [hvar, ← h.seen hadd]
            exact Bool.eq_false_iff.mpr hnone
          simp [hadd, hseen]
        · simp [hset, hnone]
      · exact List.append_nil _
  · rename_i hold
    refine ⟨done, hdone, fun v => ?_⟩
    rw [hvalues]
    unfold ConfigEdit.valuesCopied ConfigEdit.valuesAfter
    split
    · rename_i hv
      cases haction : e.action with
      | get => exact absurd haction hget
      | del => rfl
      | set =>
          have hset : s.set = true := by
            by_contra hnone
            exact hold (.inr ⟨haction, hnone⟩)
          simp [hset]
      | add =>
          have hfound : s.found = true := by
            by_contra hnone
            exact hold (.inl ⟨haction, hnone⟩)
          have hvar : valuesIn found v = valuesIn found e.var := by
            unfold valuesIn
            simp only [sameIgnoringCase_congr hv]
          have hseen := h.seen haction
          rw [hfound, ← hvar] at hseen
          simp [← hseen]
    · rfl

/-- The command and the daemon read the same lines. -/
lemma Editable.fgets_eq (h : Editable e file) :
    fgets 4096 file = lines file ∧ fgets maxStringSize file = lines file := by
  refine ⟨fgets_eq_lines fun line hline => (h.short line hline).trans ?_, fgets_eq_lines h.short⟩
  decide

lemma Editable.readable (h : Editable e file) : ∀ line ∈ lines file, ReadableLine line := by
  refine fun line hline => ⟨?_, h.noReturn line hline, h.short line hline⟩
  exact notMem_dropLast_cstr (of_mem_lines hline).2

/-- **The edited file has a meaning, and it is the right one.** -/
lemma editedConfig_settings (h : Editable e file) (hget : e.action ≠ .get)
    (hw : e.action.writes = true → e.WellFormed ∧ NewValue e) :
    ∃ found found', fileSettings file = some (false, found) ∧
      fileSettings (editedConfig e (copyConfig e file)) = some (false, found') ∧
      ∀ v, valuesIn found' v = e.valuesAfter v (valuesIn found v) := by
  obtain ⟨⟨ignore, found⟩, hfound, rfl⟩ := Option.map_eq_some_iff.mp h.accepted
  have hstart : Copied e ⟨[], [], false, false, false⟩ false [] := by
    refine ⟨.inl rfl, ⟨[], rfl, fun v => ?_⟩, fun _ => rfl⟩
    unfold ConfigEdit.valuesCopied
    split
    · cases e.action <;> rfl
    · rfl
  have hlines := hfound
  unfold fileSettings at hlines
  rw [h.fgets_eq.2] at hlines
  have hloop := hstart.loop hget h.readable hlines h.settingsOnly hw
  rw [List.nil_append] at hloop
  have hcopy : copyConfig e file =
      (lines file).foldl (fun s buffer => s.round e buffer) ⟨[], [], false, false, false⟩ := by
    unfold copyConfig
    rw [h.fgets_eq.1]
  obtain ⟨found', hfound', hvalues⟩ := hloop.edited hget hw
  exact ⟨found, found', hfound, hcopy ▸ hfound', hvalues⟩

/-! ## The command line -/

/-- What the command line asks for. -/
def configEdit (x : ConfigContext) (argv : List Text) : Option ConfigEdit :=
  if argv.length < 2 then none
  else
    let args := if sameIgnoringCase (argv.headD []) (ascii "config") then argv.tail else argv
    let (action, args) :=
      match configAction (args.headD []) with
      | some action => (action, args.tail)
      | none => (.get, args)
    if args = [] then none else (parseEdit action (commandLine args)).bind (checkEdit x)

lemma cmdConfig_eq (x : ConfigContext) (argv : List Text) :
    cmdConfig x argv =
      match configEdit x argv with
      | none => .failed
      | some e => runEdit x e := by
  unfold cmdConfig configEdit
  split
  · rfl
  · dsimp only
    generalize (if sameIgnoringCase (argv.headD []) (ascii "config") then argv.tail else argv) =
      args
    cases configAction (args.headD []) with
    | none => dsimp only; split <;> rfl
    | some action => dsimp only; split <;> rfl

/-- A value begins behind the blanks. -/
lemma assignment_leading {t : Text} {c : UInt8} (h : (assignment t).2.head? = some c) :
    isBlank c = false := by
  have hdrop : ∀ t : Text, (t.dropWhile isBlank).head? = some c → isBlank c = false := by
    intro t ht
    have hnot := List.head?_dropWhile_not isBlank t
    rw [ht] at hnot
    exact hnot
  unfold assignment afterEquals at h
  dsimp only at h
  split at h
  · exact hdrop _ h
  · exact hdrop _ h

lemma assignment_subset (t : Text) : (assignment t).2 ⊆ t := by
  have hafter : ∀ t : Text, afterEquals t ⊆ t := by
    intro t
    unfold afterEquals
    split
    · exact List.Subset.trans (List.dropWhile_subset _) (List.tail_subset t)
    · exact List.Subset.refl t
  unfold assignment
  exact List.Subset.trans (hafter _)
    (List.Subset.trans (List.dropWhile_subset _) (List.drop_subset _ _))

/-- A value that is to be written is there, and it is a part of the command line. -/
lemma parseEdit_value {action : ConfigAction} {line : Text} (h : parseEdit action line = some e)
    (hw : e.action.writes = true) :
    e.value ≠ [] ∧ (∀ c, e.value.head? = some c → isBlank c = false) ∧ e.value ⊆ line := by
  unfold parseEdit at h
  dsimp only at h
  generalize (if 46 ∈ (assignment line).1 then
      (some ((assignment line).1.takeWhile fun c => decide (c ≠ 46)),
        ((assignment line).1.dropWhile fun c => decide (c ≠ 46)).tail)
    else (none, (assignment line).1)) = names at h
  split at h
  · cases h
  · split at h
    · cases h
    · rename_i hvalue
      obtain rfl := Option.some.inj h
      refine ⟨fun hnil => ?_, fun c hc => assignment_leading hc, assignment_subset line⟩
      have hnone : (assignment line).2 = [] := hnil
      dsimp only at hw
      rw [if_neg (by simp [hnone])] at hw
      exact hvalue ⟨hw, hnone⟩

/-- The names of the variables are letters and digits. -/
lemma configVariables_alnum : ∀ v ∈ configVariables, v.name ≠ [] ∧ v.name.all isAlnum = true := by
  decide +kernel

/-- The checks leave the value, and without `--force` only known variables are written. -/
lemma checkEdit_spec {e' : ConfigEdit} (h : checkEdit x e = some e') (hforce : x.force = false) :
    e'.value = e.value ∧ (e'.action.writes = true → e.action.writes = true ∧
      ∃ known ∈ configVariables, e'.var = known.name) := by
  unfold checkEdit at h
  split at h
  · split at h
    · rename_i hno
      obtain rfl := Option.some.inj h
      refine ⟨rfl, fun hwrites => absurd hwrites ?_⟩
      simpa [hforce] using hno
    · cases h
  · rename_i known hknown
    have hmem := List.mem_of_find?_eq_some hknown
    have hwrites : ∀ action : ConfigAction,
        (if action = .add ∧ known.type &&& varMultiple = 0 then ConfigAction.set
          else action).writes = true → action.writes = true := by
      intro action haction
      split at haction
      · rename_i hadd
        simp [ConfigAction.writes, hadd.1]
      · exact haction
    split at h
    · cases h
    · split at h
      · cases h
      · split at h
        · cases h
        · dsimp only at h
          split at h
          · obtain ⟨node, -, rfl⟩ := Option.map_eq_some_iff.mp h
            exact ⟨rfl, fun hw => ⟨hwrites _ hw, known, hmem, rfl⟩⟩
          · obtain rfl := Option.some.inj h
            exact ⟨rfl, fun hw => ⟨hwrites _ hw, known, hmem, rfl⟩⟩

/-- **What gets through all the checks is well formed.** -/
lemma configEdit_wellFormed {argv : List Text} (h : configEdit x argv = some e)
    (hforce : x.force = false) (hargs : ∀ a ∈ argv, 0 ∉ a) (hw : e.action.writes = true) :
    e.WellFormed := by
  unfold configEdit at h
  split at h
  · cases h
  dsimp only at h
  generalize hargv : (if sameIgnoringCase (argv.headD []) (ascii "config") then argv.tail
    else argv) = args at h
  have hargs : ∀ a ∈ args, 0 ∉ a := by
    intro a ha
    refine hargs a ?_
    rw [← hargv] at ha
    split at ha
    · exact List.mem_of_mem_tail ha
    · exact ha
  have hedit : ∃ action, ∃ rest ⊆ args,
      (parseEdit action (commandLine rest)).bind (checkEdit x) = some e := by
    cases haction : configAction (args.headD []) with
    | none =>
        simp only [haction] at h
        split at h
        · cases h
        · exact ⟨_, args, List.Subset.refl args, h⟩
    | some action =>
        simp only [haction] at h
        split at h
        · cases h
        · exact ⟨action, args.tail, List.tail_subset args, h⟩
  obtain ⟨action, rest, hrest, hedit⟩ := hedit
  obtain ⟨e', hparse, hcheck⟩ := Option.bind_eq_some_iff.mp hedit
  obtain ⟨hvalue, hwrites⟩ := checkEdit_spec hcheck hforce
  obtain ⟨hw', known, hknown, hvar⟩ := hwrites hw
  obtain ⟨hne, hleading, hsub⟩ := parseEdit_value hparse hw'
  obtain ⟨hname, halnum⟩ := configVariables_alnum known hknown
  refine ⟨?_, hvar ▸ hname, hvalue ▸ hne, hvalue ▸ hleading, fun hzero => ?_⟩
  · rw [hvar]
    exact List.all_eq_true.mp halnum
  · have hline := List.take_subset _ _ (hsub (hvalue ▸ hzero))
    rcases mem_intercalate hline with hsep | ⟨a, ha, hzero⟩
    · exact absurd hsep (by decide)
    · exact hargs a (hrest ha) hzero

/-- A file with a comment, a carriage return, and no newline at its end. -/
def smallConfig : Text := ascii "Name = a\r\n# ConnectTo = c\nConnectTo = b"

/-- The directory of a daemon whose tinc.conf is `smallConfig`. -/
def smallContext : ConfigContext where
  tincConf := some smallConfig
  hosts := fun _ => none
  getenv := fun _ => none
  hostname := none
  force := false

/-- `tinc add ConnectTo c` -/
def addConnectTo : ConfigEdit := ⟨.add, none, ascii "ConnectTo", ascii "c"⟩

lemma addConnectTo_checked :
    configEdit smallContext [ascii "add", ascii "ConnectTo", ascii "c"] = some addConnectTo ∧
      cmdConfig smallContext [ascii "add", ascii "ConnectTo", ascii "c"] =
        .replaced none
          (ascii "Name = a\r\n# ConnectTo = c\nConnectTo = b\nConnectTo = c\n") ∧
      (fileSettings smallConfig).map Prod.fst = some false ∧
      (∀ line ∈ lines smallConfig, line.length < maxStringSize ∧
        (cstr line).getLast? ≠ some 13) ∧
      SettingsOnly addConnectTo false (lines smallConfig) ∧
      10 ∉ addConnectTo.value ∧ addConnectTo.value.getLast? = some 99 ∧
      (settingLine addConnectTo.var addConnectTo.value).length < maxStringSize ∧
      configValues (readConfigFile [] (ascii "tinc.conf") smallConfig).1 (ascii "connectto") =
        [ascii "b"] := by
  decide +kernel

end Tinc
