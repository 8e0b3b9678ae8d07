import TincQuic.Lib.TextLines
import TincQuic.Lib.OrdList
import TincQuic.Lib.Comparison

/-!
# Reading a configuration file

`readConfigFile` is `read_config_file`: the daemon reads a file line by line through a buffer of
`MAX_STRING_SIZE` bytes, passes over comments and key blocks, and adds every other line to a tree
that is ordered by `config_compare`.

* `settings` says what a file means without the tree: the variables with their values, in the order
  of the file.  It is compositional (`settings_append`).
* **The tree holds the values of a variable in the order of the file**: `readConfigFile_values`.
-/

namespace Tinc

open CText Bytes

/-- `MAX_STRING_SIZE` -/
def maxStringSize : ℕ := 2049

/-- `config_t`; `var` is its variable. -/
structure ConfigEntry where
  var : Text
  value : Text
  file : Option Text
  line : ℕ
deriving DecidableEq

/-- `config_compare` -/
def configCompare (a b : ConfigEntry) : ℤ :=
  let result := strcasecmp a.var b.var
  if result ≠ 0 then result
  else
    -- priority to command line options
    let result : ℤ := (if b.file.isNone then 1 else 0) - (if a.file.isNone then 1 else 0)
    if result ≠ 0 then result
    else if (a.line : ℤ) - b.line ≠ 0 then (a.line : ℤ) - b.line
    else match a.file, b.file with
      | some f, some g => strcmp f g
      | _, _ => 0

/-- `config_add` -/
def configAdd (configTree : List ConfigEntry) (cfg : ConfigEntry) : List ConfigEntry :=
  (OrdList.insert (configCompare cfg) cfg configTree).getD configTree

/-- Tabs and spaces. -/
def isBlank (c : UInt8) : Bool := c = 9 ∨ c = 32

/-- A value without the equals sign in front of it and the blanks behind that. -/
def afterEquals (value : Text) : Text :=
  if value.head? = some 61 then value.tail.dropWhile isBlank else value

/-- A variable and its value, split as the configuration parsers do: the variable ends at the first
blank or equals sign, and blanks and one equals sign come before the value. -/
def assignment (t : Text) : Text × Text :=
  let var := t.takeWhile fun c => !(isBlank c) && c ≠ 61
  (var, afterEquals ((t.drop var.length).dropWhile isBlank))

/-- `readline` of conf.c, given the buffer that `fgets` filled. -/
def readline (buffer : List UInt8) : Text :=
  let p := cstr buffer
  if 10 ∈ p then
    let line := p.takeWhile (· ≠ 10)
    if line.getLast? = some 13 then line.dropLast else line
  else p

/-- `parse_config_line`.  The loop that removes blanks runs over the beginning of a line that has
nothing else; such a line has no value either way. -/
def parseConfigLine (line : Text) (fname : Option Text) (lineno : ℕ) : Option ConfigEntry :=
  let (var, value) := assignment (line.rdropWhile isBlank)
  if value = [] then none
  else some { var := var, value := value, file := fname, line := lineno }

/-- The variables of `read_config_file`. -/
structure ConfigReader where
  configTree : List ConfigEntry
  lineno : ℕ
  ignore : Bool

/-- One round of the loop of `read_config_file`; no result is the way out for a line without a
value. -/
def ConfigReader.round (fname : Text) (buffer : List UInt8) (r : ConfigReader) :
    Option ConfigReader :=
  let line := readline buffer
  let r := { r with lineno := r.lineno + 1 }
  if line = [] ∨ line.head? = some 35 then some r
  else if r.ignore then
    if (ascii "-----END").isPrefixOf line then some { r with ignore := false } else some r
  else if (ascii "-----BEGIN").isPrefixOf line then some { r with ignore := true }
  else (parseConfigLine line (some fname) r.lineno).map fun cfg =>
    { r with configTree := configAdd r.configTree cfg }

/-- The loop of `read_config_file` over what `fgets` returns. -/
def ConfigReader.loop (fname : Text) (r : ConfigReader) :
    List (List UInt8) → List ConfigEntry × Bool
  | [] => (r.configTree, true)
  | buffer :: buffers =>
      match r.round fname buffer with
      | some r => r.loop fname buffers
      | none => (r.configTree, false)

/-- `read_config_file` of a file that can be opened: the tree, and whether the whole file was
read. -/
def readConfigFile (configTree : List ConfigEntry) (fname : Text) (file : List UInt8) :
    List ConfigEntry × Bool :=
  ConfigReader.loop fname ⟨configTree, 0, false⟩ (fgets maxStringSize file)

/-- The values of a variable, in the order of the tree. -/
def configValues (configTree : List ConfigEntry) (variableName : Text) : List Text :=
  (configTree.filter fun cfg => sameIgnoringCase variableName cfg.var).map ConfigEntry.value

/-! ## What a file means -/

/-- A variable with its value. -/
abbrev Setting := Text × Text

/-- What a line says, and whether a key block goes on behind it. -/
def lineSettings (ignore : Bool) (buffer : List UInt8) : Option (Bool × List Setting) :=
  let line := readline buffer
  if line = [] ∨ line.head? = some 35 then some (ignore, [])
  else if ignore then some (!(ascii "-----END").isPrefixOf line, [])
  else if (ascii "-----BEGIN").isPrefixOf line then some (true, [])
  else
    let setting := assignment (line.rdropWhile isBlank)
    if setting.2 = [] then none else some (false, [setting])

/-- What lines say one after the other. -/
def settings (ignore : Bool) : List (List UInt8) → Option (Bool × List Setting)
  | [] => some (ignore, [])
  | buffer :: buffers =>
      (lineSettings ignore buffer).bind fun p =>
        (settings p.1 buffers).map fun q => (q.1, p.2 ++ q.2)

/-- The values of a variable among settings. -/
def valuesIn (found : List Setting) (variableName : Text) : List Text :=
  (found.filter fun s => sameIgnoringCase variableName s.1).map Prod.snd

variable {ignore : Bool} {found found' : List Setting} {variableName fname : Text}
  {buffer : List UInt8} {buffers buffers' : List (List UInt8)}

@[simp]
lemma settings_nil : settings ignore [] = some (ignore, []) := rfl

lemma settings_cons : settings ignore (buffer :: buffers) =
    (lineSettings ignore buffer).bind fun p =>
      (settings p.1 buffers).map fun q => (q.1, p.2 ++ q.2) := rfl

lemma settings_singleton : settings ignore [buffer] = lineSettings ignore buffer := by
  rw [settings_cons]
  cases lineSettings ignore buffer <;> simp

/-- **What a file means is put together from what its parts mean.** -/
lemma settings_append : settings ignore (buffers ++ buffers') =
    (settings ignore buffers).bind fun p =>
      (settings p.1 buffers').map fun q => (q.1, p.2 ++ q.2) := by
  induction buffers generalizing ignore with
  | nil =>
      rw [List.nil_append, settings_nil, Option.bind_some]
      cases settings ignore buffers' <;> simp
  | cons buffer buffers ih =>
      rw [List.cons_append, settings_cons, settings_cons]
      cases lineSettings ignore buffer with
      | none => rfl
      | some p =>
          rw [Option.bind_some, Option.bind_some, ih]
          cases settings p.1 buffers with
          | none => rfl
          | some q =>
              cases h : settings q.1 buffers' <;> simp [h]

@[simp]
lemma valuesIn_nil : valuesIn [] variableName = [] := rfl

@[simp]
lemma valuesIn_append : valuesIn (found ++ found') variableName =
    valuesIn found variableName ++ valuesIn found' variableName := by
  simp [valuesIn]

lemma valuesIn_cons (s : Setting) : valuesIn (s :: found) variableName =
    if sameIgnoringCase variableName s.1 then s.2 :: valuesIn found variableName
    else valuesIn found variableName := by
  unfold valuesIn
  rw [List.filter_cons]
  split <;> rfl

/-! ## The tree -/

/-- The key of an entry that comes from a file. -/
def configKey (cfg : ConfigEntry) : List ℕ ×ₗ ℕ :=
  toLex (textKey (cfg.var.map toLower), cfg.line)

/-- Entries of one file are compared by variable and line. -/
lemma configCompare_follows {cfg : ConfigEntry} {l : List ConfigEntry}
    (hcfg : cfg.file = some fname) (hfile : ∀ a ∈ l, a.file = some fname) :
    OrdList.Follows (configCompare cfg) (configKey cfg) configKey l := by
  intro a ha
  have hstrcmp : strcmp fname fname = 0 := strcmp_eq_zero.mpr rfl
  have hsame := @strcmp_eq_zero (cfg.var.map toLower) (a.var.map toLower)
  have hlt := @strcmp_neg (cfg.var.map toLower) (a.var.map toLower)
  have hkey := @textKey_inj (cfg.var.map toLower) (a.var.map toLower)
  unfold configCompare configKey strcasecmp
  simp only [hcfg, hfile a ha, Option.isNone_some, Bool.false_eq_true, if_false, sub_self, ne_eq,
    not_true_eq_false, Prod.Lex.toLex_lt_toLex, EmbeddingLike.apply_eq_iff_eq, Prod.mk.injEq]
  rw [hkey]
  rw [hkey.symm] at hsame
  split
  · rename_i hne
    have hvar : textKey (cfg.var.map toLower) ≠ textKey (a.var.map toLower) :=
      fun h => hne (hsame.mpr h)
    rw [← hkey, hlt]
    simp [hne, hvar]
  · rename_i heq
    have hvar := hsame.mp (not_not.mp heq)
    rw [← hkey]
    simp only [hvar, true_and, lt_self_iff_false, false_or]
    split
    · omega
    · rw [hstrcmp]
      omega

/-- What is added behind everything that satisfies `p` comes last among that. -/
lemma filter_insert_last {cfg : ConfigEntry} {l l' : List ConfigEntry} {p : ConfigEntry → Bool}
    (hf : OrdList.Follows (configCompare cfg) (configKey cfg) configKey l)
    (hs : OrdList.Sorted configKey l) (hp : p cfg = true)
    (hlast : ∀ a ∈ l, p a = true → configKey a < configKey cfg)
    (h : OrdList.insert (configCompare cfg) cfg l = some l') :
    l'.filter p = l.filter p ++ [cfg] := by
  have hs' := hs.insert hf h
  refine OrdList.Sorted.ext (List.Pairwise.filter p hs') ?_ fun a => ?_
  · rw [OrdList.Sorted, List.pairwise_append]
    refine ⟨List.Pairwise.filter p hs, List.pairwise_singleton _ _, fun a ha b hb => ?_⟩
    rw [List.mem_singleton.mp hb]
    exact hlast a (List.mem_of_mem_filter ha) (List.of_mem_filter ha)
  · rw [List.mem_filter, OrdList.mem_insert h, List.mem_append, List.mem_filter,
      List.mem_singleton]
    constructor
    · rintro ⟨rfl | ha, hpa⟩
      · exact .inr rfl
      · exact .inl ⟨ha, hpa⟩
    · rintro (⟨ha, hpa⟩ | rfl)
      · exact ⟨.inr ha, hpa⟩
      · exact ⟨.inl rfl, hp⟩

/-- **An entry from a later line of the file comes last among those of its variable**, and changes
nothing else. -/
lemma configAdd_spec {cfg : ConfigEntry} {l : List ConfigEntry} (hcfg : cfg.file = some fname)
    (hfile : ∀ a ∈ l, a.file = some fname) (hs : OrdList.Sorted configKey l)
    (hline : ∀ a ∈ l, a.line < cfg.line) :
    OrdList.Sorted configKey (configAdd l cfg) ∧ (∀ a, a ∈ configAdd l cfg ↔ a = cfg ∨ a ∈ l) ∧
      ∀ v, configValues (configAdd l cfg) v =
        configValues l v ++ if sameIgnoringCase v cfg.var then [cfg.value] else [] := by
  have hf := configCompare_follows hcfg hfile
  cases h : OrdList.insert (configCompare cfg) cfg l with
  | none =>
      obtain ⟨a, ha, hkey⟩ := (OrdList.insert_eq_none_iff hf hs).mp h
      have hlt := hline a ha
      simp only [configKey, EmbeddingLike.apply_eq_iff_eq, Prod.mk.injEq] at hkey
      omega
  | some l' =>
      rw [configAdd, h, Option.getD_some]
      refine ⟨hs.insert hf h, fun a => OrdList.mem_insert h, fun v => ?_⟩
      unfold configValues
      split
      · rename_i hsame
        rw [filter_insert_last hf hs hsame (fun a ha hsame' => ?_) h, List.map_append]
        · rfl
        · have hvar := sameIgnoringCase_trans (sameIgnoringCase_comm.trans hsame') hsame
          rw [sameIgnoringCase, decide_eq_true_iff] at hvar
          exact Prod.Lex.toLex_lt_toLex.mpr (.inr ⟨by rw [hvar], hline a ha⟩)
      · rename_i hdiff
        rw [OrdList.filter_insert h (by simpa using hdiff), List.append_nil]

/-- What the loop keeps: entries of the file `fname` in order, from lines before `lineno`. -/
structure ConfigReader.Ordered (fname : Text) (r : ConfigReader) : Prop where
  sorted : OrdList.Sorted configKey r.configTree
  file : ∀ cfg ∈ r.configTree, cfg.file = some fname
  line : ∀ cfg ∈ r.configTree, cfg.line ≤ r.lineno

/-- **One round adds what the line says**, behind the earlier values of each variable. -/
lemma ConfigReader.Ordered.round {r : ConfigReader} (h : r.Ordered fname) :
    match lineSettings r.ignore buffer with
    | none => r.round fname buffer = none
    | some (ignore, found) => ∃ r', r.round fname buffer = some r' ∧ r'.Ordered fname ∧
        r'.ignore = ignore ∧ ∀ variableName, configValues r'.configTree variableName =
          configValues r.configTree variableName ++ valuesIn found variableName := by
  have hnext : ({ r with lineno := r.lineno + 1 } : ConfigReader).Ordered fname :=
    ⟨h.sorted, h.file, fun cfg hcfg => (h.line cfg hcfg).trans (Nat.le_succ _)⟩
  have hskip : ∀ b, ({ r with lineno := r.lineno + 1, ignore := b } : ConfigReader).Ordered fname :=
    fun b => ⟨hnext.sorted, hnext.file, hnext.line⟩
  unfold lineSettings ConfigReader.round parseConfigLine
  by_cases hcomment : readline buffer = [] ∨ (readline buffer).head? = some 35
  · simp only [if_pos hcomment]
    exact ⟨_, rfl, hnext, rfl, fun v => (List.append_nil _).symm⟩
  · simp only [if_neg hcomment]
    cases hignore : r.ignore with
    | true =>
        simp only [if_true]
        cases (ascii "-----END").isPrefixOf (readline buffer) with
        | true => exact ⟨_, rfl, hskip false, rfl, fun v => (List.append_nil _).symm⟩
        | false => exact ⟨_, rfl, hignore ▸ hnext, rfl, fun v => (List.append_nil _).symm⟩
    | false =>
        simp only [Bool.false_eq_true, if_false]
        by_cases hbegin : (ascii "-----BEGIN").isPrefixOf (readline buffer) = true
        · simp only [if_pos hbegin]
          exact ⟨_, rfl, hskip true, rfl, fun v => (List.append_nil _).symm⟩
        · simp only [if_neg hbegin]
          generalize assignment ((readline buffer).rdropWhile isBlank) = setting
          by_cases hvalue : setting.2 = []
          · simp [hvalue]
          · have hlater : ∀ a ∈ r.configTree, a.line < r.lineno + 1 :=
              fun a ha => Nat.lt_succ_of_le (h.line a ha)
            obtain ⟨hsorted, hmem, hvalues⟩ :=
              @configAdd_spec fname ⟨setting.1, setting.2, some fname, r.lineno + 1⟩ r.configTree
                rfl h.file h.sorted hlater
            simp only [if_neg hvalue, Option.map_some]
            refine ⟨_, rfl, ⟨hsorted, fun a ha => ?_, fun a ha => ?_⟩, rfl, fun v => ?_⟩
            · rcases (hmem a).mp ha with rfl | ha
              · rfl
              · exact h.file a ha
            · rcases (hmem a).mp ha with rfl | ha
              · exact le_rfl
              · exact (hlater a ha).le
            · rw [hvalues, valuesIn_cons, valuesIn_nil]

/-- **What the whole loop reads**: it gets to the end of the file exactly when the file has a
meaning, and then the tree holds the values that the file gives. -/
lemma ConfigReader.Ordered.loop {r : ConfigReader} (h : r.Ordered fname) :
    match settings r.ignore buffers with
    | none => (r.loop fname buffers).2 = false
    | some (_, found) => (r.loop fname buffers).2 = true ∧ ∀ variableName,
        configValues (r.loop fname buffers).1 variableName =
          configValues r.configTree variableName ++ valuesIn found variableName := by
  induction buffers generalizing r with
  | nil => exact ⟨rfl, fun v => (List.append_nil _).symm⟩
  | cons buffer buffers ih =>
      have hround := @ConfigReader.Ordered.round fname buffer r h
      rw [settings_cons]
      cases hline : lineSettings r.ignore buffer with
      | none =>
          rw [hline] at hround
          rw [ConfigReader.loop, hround]
          rfl
      | some p =>
          rw [hline] at hround
          obtain ⟨r', hr', hordered, hignore, hvalues⟩ := hround
          have ih := ih hordered
          rw [Option.bind_some, ConfigReader.loop, hr']
          rw [hignore] at ih
          cases hrest : settings p.1 buffers with
          | none =>
              rw [hrest] at ih
              exact ih
          | some q =>
              rw [hrest] at ih
              refine ⟨ih.1, fun v => ?_⟩
              rw [ih.2 v, hvalues v, valuesIn_append, List.append_assoc]

/-- What a file means. -/
def fileSettings (file : List UInt8) : Option (Bool × List Setting) :=
  settings false (fgets maxStringSize file)

/-- The file is accepted as a whole exactly when it has a meaning. -/
theorem readConfigFile_accepts (fname : Text) (file : List UInt8) :
    (readConfigFile [] fname file).2 = true ↔ (fileSettings file).isSome = true := by
  have hloop := @ConfigReader.Ordered.loop fname (fgets maxStringSize file) ⟨[], 0, false⟩
    ⟨List.Pairwise.nil, by simp, by simp⟩
  unfold readConfigFile fileSettings
  split at hloop
  · rename_i hnone
    rw [hloop, hnone]
    simp
  · rename_i hsome
    rw [hloop.1, hsome]
    simp

/-- **The tree holds the values of every variable in the order of the file.** -/
theorem readConfigFile_values {file : List UInt8} (fname : Text) {p : Bool × List Setting}
    (h : fileSettings file = some p) (variableName : Text) :
    configValues (readConfigFile [] fname file).1 variableName = valuesIn p.2 variableName := by
  have hloop := @ConfigReader.Ordered.loop fname (fgets maxStringSize file) ⟨[], 0, false⟩
    ⟨List.Pairwise.nil, by simp, by simp⟩
  rw [fileSettings] at h
  rw [h] at hloop
  exact hloop.2 variableName

end Tinc
