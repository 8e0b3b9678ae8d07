import TincQuic.Conf.Reading
import TincQuic.Splay.Refinement

/-!
# Enumerating the values of a variable

The configuration is a splay tree.  `lookup_config` looks for the entry closest to a key that no
entry has, with no file and line 0, and `lookup_config_next` goes on along the thread; both of them
splay the tree.  Here the tree is the pointer program of `Splay/Model.lean`.

* `entryKey` is the order of `config_compare`: `configCompare_key`.
* **The nodes along the thread are the list that `configAdd` builds**: `configAddNode_eq`.
* **The nodes of a variable are a run of the thread, and the lookups go along it**:
  `lookupConfig_run`, `enumerateFrom_run`.
-/

namespace Tinc

open CText Splay PtrList

instance : Inhabited ConfigEntry := ⟨⟨[], [], none, 0⟩⟩

/-! ## The tree -/

/-- `config_add` -/
def configAddNode (configTree : SplayTree ConfigEntry) (cfg : ConfigEntry) :
    Option (SplayTree ConfigEntry) := do
  let (configTree, _) ← splayInsert configCompare configTree cfg
  some configTree

/-- `lookup_config` -/
def lookupConfig (configTree : SplayTree ConfigEntry) (variableName : Text) :
    Option (SplayTree ConfigEntry × Option ConfigEntry) := do
  let (configTree, node) ←
    splaySearchClosestGreaterNode configCompare configTree ⟨variableName, [], none, 0⟩
  match configTree.dataOf node with
  | none => some (configTree, none)
  | some found =>
      some (configTree, if strcasecmp found.var variableName ≠ 0 then none else some found)

/-- `lookup_config_next` -/
def lookupConfigNext (configTree : SplayTree ConfigEntry) (cfg : ConfigEntry) :
    Option (SplayTree ConfigEntry × Option ConfigEntry) := do
  let (configTree, node) ← splaySearchNode configCompare configTree cfg
  match configTree.dataOf (node.bind configTree.chain.next) with
  | none => some (configTree, none)
  | some found =>
      some (configTree, if strcasecmp found.var cfg.var = 0 then some found else none)

/-- `cfg`, and what `lookup_config_next` gives until it gives nothing. -/
def enumerateFrom : ℕ → SplayTree ConfigEntry → ConfigEntry →
    Option (SplayTree ConfigEntry × List ConfigEntry)
  | 0, _, _ => none
  | fuel + 1, configTree, cfg => do
      let (configTree, next) ← lookupConfigNext configTree cfg
      match next with
      | none => some (configTree, [cfg])
      | some found => do
          let (configTree, rest) ← enumerateFrom fuel configTree found
          some (configTree, cfg :: rest)

/-- The loops of the callers: `lookup_config`, and then `lookup_config_next` as long as there is an
entry. -/
def enumerateConfig (configTree : SplayTree ConfigEntry) (variableName : Text) :
    Option (SplayTree ConfigEntry × List ConfigEntry) := do
  let (configTree, first) ← lookupConfig configTree variableName
  match first with
  | none => some (configTree, [])
  | some cfg => enumerateFrom configTree.count configTree cfg

/-! ## What is added -/

/-- `read_config_options`: the entries it adds, the last option first. -/
def readConfigOptions (cmdlineConf : List ConfigEntry) (pre : Option Text) : List ConfigEntry :=
  cmdlineConf.reverse.filterMap fun cfg =>
    match pre with
    | none => if 46 ∈ cfg.var then none else some ⟨cfg.var, cfg.value, none, cfg.line⟩
    | some pre =>
        if pre.isPrefixOf cfg.var ∧ cfg.var[pre.length]? = some 46 then
          some ⟨cfg.var.drop (pre.length + 1), cfg.value, none, cfg.line⟩
        else none

/-- What the loop of `read_config_file` adds. -/
def entriesFrom (fname : Text) (r : ConfigReader) : List (List UInt8) → List ConfigEntry
  | [] => []
  | buffer :: buffers =>
      match ({ r with configTree := [] } : ConfigReader).round fname buffer with
      | none => []
      | some r => r.configTree ++ entriesFrom fname r buffers

/-- What `read_config_file` adds. -/
def fileEntries (fname : Text) (file : List UInt8) : List ConfigEntry :=
  entriesFrom fname ⟨[], 0, false⟩ (fgets maxStringSize file)

/-- Where entries come from: the options of the command line, or a file. -/
inductive ConfigSource where
  | options (pre : Option Text)
  | file (fname : Text) (contents : List UInt8)

/-- The entries of a source in the order in which they are added. -/
def ConfigSource.entries (cmdlineConf : List ConfigEntry) : ConfigSource → List ConfigEntry
  | .options pre => readConfigOptions cmdlineConf pre
  | .file fname contents => fileEntries fname contents

/-- A tree that was built by `config_add`. -/
def buildConfig (cmdlineConf : List ConfigEntry) (sources : List ConfigSource) :
    Option (SplayTree ConfigEntry) :=
  (sources.flatMap (ConfigSource.entries cmdlineConf)).foldlM configAddNode splayAllocTree

/-- The entries in the tree, along the thread. -/
def storedEntries (configTree : SplayTree ConfigEntry) : List ConfigEntry :=
  configTree.nodes.map configTree.data

variable {cfg a b : ConfigEntry} {l : List ConfigEntry} {fname variableName : Text}
  {st st' : SplayTree ConfigEntry} {s front mid back : List Loc} {n : Loc} {fuel : ℕ}

/-- What a round adds does not depend on the tree. -/
lemma round_eq_foldl (fname : Text) (buffer : List UInt8) (r : ConfigReader) :
    r.round fname buffer =
      (({ r with configTree := [] } : ConfigReader).round fname buffer).map fun r' =>
        { r' with configTree := r'.configTree.foldl configAdd r.configTree } := by
  unfold ConfigReader.round
  simp only
  split
  · rfl
  · split
    · split <;> rfl
    · split
      · rfl
      · cases parseConfigLine (readline buffer) (some fname) (r.lineno + 1) <;> rfl

lemma entriesFrom_tree (fname : Text) (r : ConfigReader) (configTree : List ConfigEntry)
    (buffers : List (List UInt8)) :
    entriesFrom fname { r with configTree := configTree } buffers =
      entriesFrom fname r buffers := by
  cases buffers <;> rfl

/-- The reader adds these entries, one after the other. -/
lemma loop_eq_foldl (fname : Text) (r : ConfigReader) (buffers : List (List UInt8)) :
    (r.loop fname buffers).1 = (entriesFrom fname r buffers).foldl configAdd r.configTree := by
  induction buffers generalizing r with
  | nil => rfl
  | cons buffer buffers ih =>
      rw [ConfigReader.loop, entriesFrom, round_eq_foldl]
      cases ({ r with configTree := [] } : ConfigReader).round fname buffer with
      | none => rfl
      | some r' =>
          simp only [Option.map_some]
          rw [ih, List.foldl_append, entriesFrom_tree]

/-- `fileEntries` is what `readConfigFile` adds. -/
lemma readConfigFile_eq_foldl (configTree : List ConfigEntry) (fname : Text) (file : List UInt8) :
    (readConfigFile configTree fname file).1 =
      (fileEntries fname file).foldl configAdd configTree := by
  have htree := entriesFrom_tree fname ⟨[], 0, false⟩ configTree (fgets maxStringSize file)
  rw [readConfigFile, loop_eq_foldl, fileEntries, ← htree]

/-! ## The order -/

/-- What `config_compare` orders by: the variable ignoring case, the command line before files, the
line, the name of the file. -/
def entryKey (cfg : ConfigEntry) : List ℕ ×ₗ ℕ ×ₗ ℕ ×ₗ List ℕ :=
  toLex (textKey (cfg.var.map toLower), toLex (if cfg.file.isNone then 0 else 1,
    toLex (cfg.line, textKey (cfg.file.getD []))))

/-- The entries that exclude each other. -/
def SameEntry (a b : ConfigEntry) : Prop :=
  sameIgnoringCase a.var b.var = true ∧ a.file = b.file ∧ a.line = b.line

/-- The order in which the values of a variable are given. -/
def Precedes (a b : ConfigEntry) : Prop :=
  (a.file = none ∧ b.file ≠ none) ∨ (a.file.isNone = b.file.isNone ∧ (a.line < b.line ∨
    a.line = b.line ∧ strcmp (a.file.getD []) (b.file.getD []) < 0))

lemma sameIgnoringCase_iff_key {s t : Text} :
    sameIgnoringCase s t = true ↔ textKey (s.map toLower) = textKey (t.map toLower) := by
  rw [textKey_inj, sameIgnoringCase, decide_eq_true_iff]

lemma entryKey_eq_iff : entryKey a = entryKey b ↔ SameEntry a b := by
  have hfile : ((if a.file.isNone then 0 else 1) = (if b.file.isNone then 0 else 1) ∧
      textKey (a.file.getD []) = textKey (b.file.getD [])) ↔ a.file = b.file := by
    cases a.file <;> cases b.file <;> simp [textKey_inj]
  unfold entryKey SameEntry
  rw [sameIgnoringCase_iff_key, ← hfile]
  simp only [EmbeddingLike.apply_eq_iff_eq, Prod.mk.injEq]
  tauto

/-- The comparison is that of the keys. -/
lemma configCompare_key (cfg : ConfigEntry) (l : List ConfigEntry) :
    OrdList.Follows (configCompare cfg) (entryKey cfg) entryKey l := by
  intro a _
  have hvar := @strcmp_eq_zero (cfg.var.map toLower) (a.var.map toLower)
  have hvarlt := @strcmp_neg (cfg.var.map toLower) (a.var.map toLower)
  have hkey := @textKey_inj (cfg.var.map toLower) (a.var.map toLower)
  have hfile := @strcmp_eq_zero (cfg.file.getD []) (a.file.getD [])
  have hfilelt := @strcmp_neg (cfg.file.getD []) (a.file.getD [])
  have hfilekey := @textKey_inj (cfg.file.getD []) (a.file.getD [])
  unfold configCompare entryKey strcasecmp
  simp only [Prod.Lex.toLex_lt_toLex, EmbeddingLike.apply_eq_iff_eq, Prod.mk.injEq]
  rw [← hvarlt, ← hfilelt, hkey, hfilekey, ← hvar, ← hfile]
  clear hvar hvarlt hkey hfile hfilelt hfilekey
  generalize strcmp (cfg.var.map toLower) (a.var.map toLower) = result
  have hnil : strcmp [] [] = 0 := rfl
  rcases cfg.file with _ | f <;> rcases a.file with _ | g <;>
    simp only [Option.isNone_none, Option.isNone_some, Option.getD_none, Option.getD_some, if_true,
      Bool.false_eq_true, if_false, hnil]
  · grind
  · grind
  · grind
  · grind

lemma configCompare_eq_zero : configCompare a b = 0 ↔ entryKey a = entryKey b :=
  (configCompare_key a [b] b (by simp)).1

lemma configCompare_neg : configCompare a b < 0 ↔ entryKey a < entryKey b :=
  (configCompare_key a [b] b (by simp)).2

lemma configCompare_le : configCompare a b ≤ 0 ↔ entryKey a ≤ entryKey b := by
  rw [le_iff_lt_or_eq, le_iff_lt_or_eq, configCompare_neg, configCompare_eq_zero]

lemma configCompare_lawful : LawfulCompare configCompare where
  swap a b := by rw [configCompare_le, ← not_lt, ← configCompare_neg, not_lt]
  trans a b c := by
    simp only [configCompare_le]
    exact le_trans

/-! ## The tree is the list -/

lemma storedEntries_eq (h : Inv configCompare st s) : storedEntries st = s.map st.data := by
  rw [storedEntries, h.nodes_eq]

lemma sorted_entries (h : Inv configCompare st s) : OrdList.Sorted entryKey (s.map st.data) :=
  List.pairwise_map.mpr (h.sorted.imp configCompare_neg.mp)

lemma sorted_configAdd (hl : OrdList.Sorted entryKey l) (cfg : ConfigEntry) :
    OrdList.Sorted entryKey (configAdd l cfg) ∧
      ∀ a, a ∈ configAdd l cfg ↔ a ∈ l ∨ a = cfg ∧ ∀ b ∈ l, entryKey cfg ≠ entryKey b := by
  have hf := configCompare_key cfg l
  cases h : OrdList.insert (configCompare cfg) cfg l with
  | none =>
      rw [configAdd, h, Option.getD_none]
      obtain ⟨b, hb, hkey⟩ := (OrdList.insert_eq_none_iff hf hl).mp h
      exact ⟨hl, fun a => ⟨.inl, fun ha => ha.elim id fun ha => absurd hkey.symm (ha.2 b hb)⟩⟩
  | some l' =>
      rw [configAdd, h, Option.getD_some]
      have hnew : ∀ b ∈ l, entryKey cfg ≠ entryKey b := by
        intro b hb hkey
        rw [(OrdList.insert_eq_none_iff hf hl).mpr ⟨b, hb, hkey.symm⟩] at h
        cases h
      refine ⟨hl.insert hf h, fun a => ?_⟩
      rw [OrdList.mem_insert h]
      tauto

/-- **`config_add` adds to the thread what `configAdd` adds to the list.** -/
lemma configAddNode_eq (h : Inv configCompare st s) (cfg : ConfigEntry) :
    ∃ st' s', configAddNode st cfg = some st' ∧ Inv configCompare st' s' ∧
      s'.map st'.data = configAdd (s.map st.data) cfg := by
  obtain ⟨st', res, s', hstep, hinv, -, helems⟩ := simulated_insert configCompare_lawful h cfg
  obtain ⟨⟨t, n⟩, hinsert, hres⟩ := Option.bind_eq_some_iff.mp hstep
  obtain ⟨rfl, -⟩ := Prod.mk.inj (Option.some.inj hres)
  obtain ⟨hsorted, hmem⟩ := sorted_configAdd (sorted_entries h) cfg
  refine ⟨t, s', by rw [configAddNode, hinsert]; rfl, hinv, ?_⟩
  refine OrdList.Sorted.ext (sorted_entries hinv) hsorted fun a => ?_
  have ha : a ∈ s'.map t.data ↔ a ∈ elems t s' := List.mem_map
  rw [ha, helems, hmem]
  have hb : ∀ b, b ∈ elems st s ↔ b ∈ s.map st.data := fun b => List.mem_map.symm
  simp only [Op.apply, Set.mem_ofPred_eq, hb, ne_eq, configCompare_eq_zero]

/-- The whole tree is the whole list. -/
lemma foldlM_configAddNode (h : Inv configCompare st s) (added : List ConfigEntry) :
    ∃ st' s', added.foldlM configAddNode st = some st' ∧ Inv configCompare st' s' ∧
      s'.map st'.data = added.foldl configAdd (s.map st.data) := by
  induction added generalizing st s with
  | nil => exact ⟨st, s, rfl, h, rfl⟩
  | cons cfg added ih =>
      obtain ⟨st₁, s₁, hadd, hinv, heq⟩ := configAddNode_eq h cfg
      obtain ⟨st', s', hfold, hinv', heq'⟩ := ih hinv
      exact ⟨st', s', by rw [List.foldlM_cons, hadd]; exact hfold, hinv', by rw [heq', heq]; rfl⟩

/-- What the list holds: an entry is left out if one like it came before. -/
lemma mem_foldl_configAdd (added : List ConfigEntry) :
    OrdList.Sorted entryKey (added.foldl configAdd []) ∧
      (∀ a, a ∈ added.foldl configAdd [] ↔
        ∃ earlier later, added = earlier ++ a :: later ∧ ∀ b ∈ earlier, ¬ SameEntry b a) ∧
      ∀ a ∈ added, ∃ b ∈ added.foldl configAdd [], entryKey b = entryKey a := by
  induction added using List.reverseRecOn with
  | nil => exact ⟨List.Pairwise.nil, by simp, by simp⟩
  | append_singleton added cfg ih =>
      obtain ⟨hsorted, hmem, hkept⟩ := ih
      obtain ⟨hsorted', hmem'⟩ := sorted_configAdd hsorted cfg
      rw [List.foldl_append, List.foldl_cons, List.foldl_nil]
      refine ⟨hsorted', fun a => ?_, fun a ha => ?_⟩
      · rw [hmem']
        constructor
        · rintro (ha | ⟨rfl, hnew⟩)
          · obtain ⟨earlier, later, rfl, hnew⟩ := (hmem a).mp ha
            exact ⟨earlier, later ++ [cfg], by simp, hnew⟩
          · refine ⟨added, [], rfl, fun b hb hsame => ?_⟩
            obtain ⟨c, hc, hkey⟩ := hkept b hb
            exact hnew c hc (hkey.trans (entryKey_eq_iff.mpr hsame)).symm
        · rintro ⟨earlier, later, hsplit, hnew⟩
          rcases List.eq_nil_or_concat' later with rfl | ⟨later, c, rfl⟩
          · obtain ⟨rfl, hlast⟩ := List.append_inj' hsplit rfl
            obtain rfl := List.singleton_injective hlast
            refine .inr ⟨rfl, fun b hb hkey => ?_⟩
            obtain ⟨front, back, rfl, -⟩ := (hmem b).mp hb
            exact hnew b (by simp) (entryKey_eq_iff.mp hkey.symm)
          · rw [← List.cons_append, ← List.append_assoc] at hsplit
            exact .inl ((hmem a).mpr ⟨earlier, later, (List.append_inj' hsplit rfl).1, hnew⟩)
      · rcases List.mem_append.mp ha with ha | ha
        · obtain ⟨b, hb, hkey⟩ := hkept a ha
          exact ⟨b, (hmem' b).mpr (.inl hb), hkey⟩
        · obtain rfl := List.mem_singleton.mp ha
          by_cases hnew : ∀ b ∈ added.foldl configAdd [], entryKey a ≠ entryKey b
          · exact ⟨a, (hmem' a).mpr (.inr ⟨rfl, hnew⟩), rfl⟩
          · obtain ⟨b, hb, hkey⟩ : ∃ b ∈ added.foldl configAdd [], entryKey a = entryKey b := by
              simpa using hnew
            exact ⟨b, (hmem' b).mpr (.inl hb), hkey.symm⟩

/-! ## The run of a variable -/

/-- The variable as the tree orders it. -/
def varKey (t : Text) : List ℕ := textKey (t.map toLower)

lemma strcasecmp_eq_zero_iff {s t : Text} : strcasecmp s t = 0 ↔ varKey s = varKey t := by
  rw [strcasecmp, strcmp_eq_zero, varKey, varKey, textKey_inj]

lemma varKey_le (h : entryKey a < entryKey b) : varKey a.var ≤ varKey b.var := by
  rcases Prod.Lex.toLex_lt_toLex.mp h with hlt | ⟨heq, -⟩
  · exact hlt.le
  · exact heq.le

/-- How the key of `lookup_config` compares depends on the variable only. -/
lemma lookup_key_neg : 0 < configCompare ⟨variableName, [], none, 0⟩ a ↔
    varKey a.var < varKey variableName := by
  rw [← not_le, configCompare_le, not_le]
  unfold entryKey varKey
  rw [Prod.Lex.toLex_lt_toLex]
  simp only [Prod.Lex.toLex_lt_toLex]
  cases a.file with
  | none => simp [textKey]
  | some f => simp

/-- `lookup_config` finds the first of them. -/
lemma lookupConfig_run (h : Inv configCompare st (front ++ mid ++ back))
    (hfront : ∀ n ∈ front, varKey (st.data n).var < varKey variableName)
    (hmid : ∀ n ∈ mid, varKey (st.data n).var = varKey variableName)
    (hback : ∀ n ∈ back, varKey variableName < varKey (st.data n).var) :
    ∃ st', lookupConfig st variableName = some (st', mid.head?.map st.data) ∧
      Inv configCompare st' (front ++ mid ++ back) ∧ Resplayed st st' := by
  obtain ⟨st', node, c, hsearch, hinv, hsame, hfound⟩ :=
    splaySearchClosestNode_inv configCompare_lawful h ⟨variableName, [], none, 0⟩
  -- the search finds the first node that is not below the key
  have hnode : splaySearchClosestGreaterNode configCompare st ⟨variableName, [], none, 0⟩ =
      some (st', (mid ++ back).head?) := by
    have hlow : ∀ n ∈ mid ++ back, ¬ varKey (st.data n).var < varKey variableName := by
      intro n hn
      rcases List.mem_append.mp hn with hn | hn
      · exact (hmid n hn).not_lt
      · exact (hback n hn).asymm
    rw [splaySearchClosestGreaterNode, hsearch, Option.bind_eq_bind, Option.bind_some]
    rcases hfound with ⟨hnil, rfl, rfl⟩ | ⟨l, b, r, hsplit, rfl, rfl, hl, hr⟩
    · have hrest : mid ++ back = [] := by
        rw [List.append_assoc] at hnil
        exact (List.append_eq_nil_iff.mp hnil).2
      simp [hrest]
    · have hr' : ∀ a ∈ r, ¬ varKey (st.data a).var < varKey variableName := by
        intro a ha
        rw [← lookup_key_neg]
        exact (hr a ha).asymm
      have hl' : ∀ a ∈ l, varKey (st.data a).var < varKey variableName :=
        fun a ha => lookup_key_neg.mp (hl a ha)
      rw [List.append_assoc] at hsplit
      dsimp only
      by_cases hb : varKey (st.data b).var < varKey variableName
      · have hrest : mid ++ back = r := by
          have hsplit' : front ++ (mid ++ back) = (l ++ [b]) ++ r := by simpa using hsplit
          refine OrdList.split_unique hsplit' hfront hlow ?_ hr'
          intro a ha
          rcases List.mem_append.mp ha with ha | ha
          · exact hl' a ha
          · rwa [List.mem_singleton.mp ha]
        have hinv' : Inv configCompare st' (l ++ b :: r) := by
          rwa [← hsplit, ← List.append_assoc]
        rw [if_pos (lookup_key_neg.mpr hb), Option.bind_eq_bind, Option.bind_some, hinv'.next_eq,
          hrest]
      · have hrest : mid ++ back = b :: r := by
          refine OrdList.split_unique hsplit hfront hlow hl' ?_
          exact List.forall_mem_cons.mpr ⟨hb, hr'⟩
        rw [if_neg fun hpos => hb (lookup_key_neg.mp hpos), hrest, List.head?_cons]
  refine ⟨st', ?_, hinv, hsame⟩
  rw [lookupConfig, hnode, Option.bind_eq_bind, Option.bind_some]
  simp only [SplayTree.dataOf, hsame.data]
  cases mid with
  | nil =>
      cases back with
      | nil => rfl
      | cons n back =>
          have hne := (hback n (by simp)).ne'
          simp [strcasecmp_eq_zero_iff, hne]
  | cons n mid =>
      have heq := hmid n (by simp)
      simp [strcasecmp_eq_zero_iff, heq]

/-- `lookup_config_next` goes on to the next of them. -/
lemma lookupConfigNext_run (h : Inv configCompare st (front ++ n :: (mid ++ back)))
    (hmid : ∀ m ∈ mid, varKey (st.data m).var = varKey (st.data n).var)
    (hback : ∀ m ∈ back, varKey (st.data m).var ≠ varKey (st.data n).var) :
    ∃ st', lookupConfigNext st (st.data n) = some (st', mid.head?.map st.data) ∧
      Inv configCompare st' (front ++ n :: (mid ++ back)) ∧ Resplayed st st' := by
  obtain ⟨st', node, hsearch, hinv, hsame, hfound⟩ :=
    splaySearchNode_inv configCompare_lawful h (st.data n)
  obtain ⟨l, b, r, hsplit, rfl, hb, -⟩ := hfound.resolve_left fun hnone => by
    exact hnone.2 n (by simp) (configCompare_lawful.refl _)
  have hbn : b = n := by
    have hinv' : Inv configCompare st (l ++ b :: r) := hsplit ▸ h
    have hmem : n ∈ l ++ b :: r := by simp [← hsplit]
    rcases hinv'.mem_split hmem with ⟨-, hlt⟩ | heq | ⟨-, hlt⟩
    · omega
    · exact heq.symm
    · have := configCompare_lawful.lt_swap.mp hlt
      omega
  subst hbn
  have hnext := hinv.next_eq
  refine ⟨st', ?_, hinv, hsame⟩
  rw [lookupConfigNext, hsearch, Option.bind_eq_bind, Option.bind_some]
  simp only [Option.bind_some, hnext, SplayTree.dataOf, hsame.data]
  cases mid with
  | nil =>
      cases back with
      | nil => rfl
      | cons m back => simp [strcasecmp_eq_zero_iff, hback]
  | cons m mid => simp [strcasecmp_eq_zero_iff, hmid]

/-- **The loop goes along the whole run.** -/
lemma enumerateFrom_run (h : Inv configCompare st (front ++ n :: (mid ++ back)))
    (hmid : ∀ m ∈ mid, varKey (st.data m).var = varKey (st.data n).var)
    (hback : ∀ m ∈ back, varKey (st.data m).var ≠ varKey (st.data n).var)
    (hfuel : mid.length < fuel) :
    ∃ st', enumerateFrom fuel st (st.data n) = some (st', (n :: mid).map st.data) ∧
      Inv configCompare st' (front ++ n :: (mid ++ back)) ∧ st'.data = st.data := by
  induction mid generalizing front n st fuel with
  | nil =>
      obtain ⟨fuel, rfl⟩ := Nat.exists_eq_add_of_lt hfuel
      obtain ⟨st', hnext, hinv, hsame⟩ := lookupConfigNext_run h hmid hback
      refine ⟨st', ?_, hinv, hsame.data⟩
      rw [enumerateFrom, hnext]
      rfl
  | cons m mid ih =>
      obtain ⟨fuel, rfl⟩ := Nat.exists_eq_add_of_lt hfuel
      obtain ⟨st₁, hnext, hinv, hsame⟩ := lookupConfigNext_run h hmid hback
      rw [List.forall_mem_cons] at hmid
      obtain ⟨hm, hmid⟩ := hmid
      have hinv' : Inv configCompare st₁ ((front ++ [n]) ++ m :: (mid ++ back)) := by
        simpa using hinv
      obtain ⟨st', hrest, hinv'', hdata⟩ := ih hinv' (by simpa [hsame.data, hm] using hmid)
        (by simpa [hsame.data, hm] using hback)
        (show mid.length < (m :: mid).length + fuel by rw [List.length_cons]; omega)
      refine ⟨st', ?_, by simpa using hinv'', hdata.trans hsame.data⟩
      rw [enumerateFrom, hnext]
      simp only [List.head?_cons, Option.map_some, Option.bind_eq_bind, Option.bind_some]
      rw [← hsame.data, hrest]
      rfl

/-- The entries of a variable are enumerated in the order of the thread. -/
lemma enumerateConfig_eq (h : Inv configCompare st s) (variableName : Text) :
    ∃ st', enumerateConfig st variableName =
      some (st', (s.map st.data).filter fun cfg => sameIgnoringCase variableName cfg.var) := by
  have hkeys : s.Pairwise fun m n => varKey (st.data m).var ≤ varKey (st.data n).var :=
    h.sorted.imp fun hlt => varKey_le (configCompare_neg.mp hlt)
  obtain ⟨front, mid, back, rfl, hfront, hmid, hback⟩ :=
    OrdList.exists_run hkeys (varKey variableName)
  have hsame : ∀ n, sameIgnoringCase variableName (st.data n).var = true ↔
      varKey (st.data n).var = varKey variableName := by
    intro n
    rw [sameIgnoringCase_iff_key, varKey, varKey, eq_comm]
  have hfilter : ((front ++ mid ++ back).map st.data).filter
      (fun cfg => sameIgnoringCase variableName cfg.var) = mid.map st.data := by
    have hnil : ∀ l : List Loc, (∀ n ∈ l, varKey (st.data n).var ≠ varKey variableName) →
        (l.map st.data).filter (fun cfg => sameIgnoringCase variableName cfg.var) = [] := by
      intro l hl
      rw [List.filter_eq_nil_iff, List.forall_mem_map]
      exact fun n hn => (hsame n).not.mpr (hl n hn)
    have hself : (mid.map st.data).filter (fun cfg => sameIgnoringCase variableName cfg.var) =
        mid.map st.data := by
      rw [List.filter_eq_self, List.forall_mem_map]
      exact fun n hn => (hsame n).mpr (hmid n hn)
    rw [List.map_append, List.map_append, List.filter_append, List.filter_append, hself,
      hnil front fun n hn => (hfront n hn).ne, hnil back fun n hn => (hback n hn).ne',
      List.nil_append, List.append_nil]
  obtain ⟨st₁, hfirst, hinv, hdata⟩ := lookupConfig_run h hfront hmid hback
  rw [hfilter, enumerateConfig, hfirst]
  cases mid with
  | nil => exact ⟨st₁, rfl⟩
  | cons n mid =>
      rw [List.forall_mem_cons] at hmid
      have hinv' : Inv configCompare st₁ (front ++ n :: (mid ++ back)) := by simpa using hinv
      obtain ⟨st', hrun, -, -⟩ := enumerateFrom_run hinv'
        (fun m hm => by rw [hdata.data, hmid.1, hmid.2 m hm])
        (fun m hm => by rw [hdata.data, hmid.1]; exact (hback m hm).ne')
        (show mid.length < st₁.count by rw [hinv'.count]; simp; omega)
      refine ⟨st', ?_⟩
      rw [hdata.data] at hrun
      exact hrun

lemma precedes_of_lt (h : entryKey a < entryKey b) (hvar : varKey a.var = varKey b.var) :
    Precedes a b := by
  unfold entryKey at h
  unfold varKey at hvar
  rw [hvar] at h
  simp only [Prod.Lex.toLex_lt_toLex, lt_self_iff_false, true_and, false_or, ← strcmp_neg] at h
  unfold Precedes
  cases hfa : a.file <;> cases hfb : b.file <;> simp [hfa, hfb] at h ⊢ <;> omega

/-- **Every entry of a variable is visited, once and in order, and an entry is in the tree unless
one like it came before.** -/
theorem config_enumeration (cmdlineConf : List ConfigEntry) (sources : List ConfigSource)
    (variableName : Text) :
    ∃ configTree configTree' entries, buildConfig cmdlineConf sources = some configTree ∧
      enumerateConfig configTree variableName = some (configTree', entries) ∧
      entries.Nodup ∧
      (∀ cfg, cfg ∈ entries ↔
        cfg ∈ storedEntries configTree ∧ sameIgnoringCase variableName cfg.var = true) ∧
      entries.Pairwise Precedes ∧
      ∀ cfg, cfg ∈ storedEntries configTree ↔ ∃ earlier later,
        sources.flatMap (ConfigSource.entries cmdlineConf) = earlier ++ cfg :: later ∧
          ∀ b ∈ earlier, ¬ SameEntry b cfg := by
  obtain ⟨configTree, s, hbuild, hinv, heq⟩ := foldlM_configAddNode
    (splayAllocTree_inv : Inv configCompare splayAllocTree [])
    (sources.flatMap (ConfigSource.entries cmdlineConf))
  have hsorted := sorted_entries hinv
  obtain ⟨configTree', henum⟩ := enumerateConfig_eq hinv variableName
  refine ⟨configTree, configTree', _, hbuild, henum, hsorted.nodup.filter _, fun cfg => ?_, ?_,
    fun cfg => ?_⟩
  · rw [storedEntries_eq hinv, List.mem_filter]
  · refine List.Pairwise.imp_of_mem (fun ha hb hlt => precedes_of_lt hlt ?_)
      (List.Pairwise.filter _ hsorted)
    have hva := sameIgnoringCase_iff_key.mp (List.mem_filter.mp ha).2
    have hvb := sameIgnoringCase_iff_key.mp (List.mem_filter.mp hb).2
    exact hva.symm.trans hvb
  · rw [storedEntries_eq hinv, heq]
    exact (mem_foldl_configAdd _).2.1 cfg

end Tinc
