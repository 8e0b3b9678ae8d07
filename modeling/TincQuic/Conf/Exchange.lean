import TincQuic.Conf.Edits
import TincQuic.Daemon.Codec

/-!
# Host files that two nodes exchange

`tinc export-all` writes the host files of a node to its output, each behind a line that names the
host, and `tinc import` cuts its input into host files again.  `tinc exchange-all` does one and then
the other, with a second node at the end of the pipe.

* `Import` is the state of the reading loop.  It is compared with `sections`, the input cut at its
  naming lines: `readInput_eq`.
* **Whatever the input is, only files of valid names change, none without `--force` that was there,
  and each gets the lines of one section**: `cmdImport_safe`.
* `Exchangeable` is what a file needs to come through.  **After an exchange both nodes have the
  hosts of both, and the daemons read the same settings from them, the own name left out**:
  `exchangeAll_complete`.
-/

namespace Tinc

open CText Bytes

/-! ## The commands -/

/-- `PATH_MAX` -/
def pathMax : ℕ := 4096

/-- The line between two hosts. -/
def separatorLine : Text :=
  ascii "#---------------------------------------------------------------#\n"

/-- A control program: the host files by their paths, what `readdir` lists, and whether a path can
be created. -/
structure Exchange where
  hostsDir : Text
  entries : List Text
  files : Text → Option Text
  force : Bool
  creates : Text → Bool

variable (x : Exchange)

/-- The path of a host file, cut off at the end of its buffer. -/
def Exchange.hostPath (name : Text) : Text := (x.hostsDir ++ ascii "/" ++ name).take (pathMax - 1)

/-- The lines that `export` writes: all that do not set `Name`. -/
def isExported (buf : List UInt8) : Bool :=
  ((cstr buf).takeWhile fun c => c ≠ 9 ∧ c ≠ 32 ∧ c ≠ 61).length ≠ 4 ∨
    hasPrefixCase (ascii "Name") (cstr buf) = false

/-- `export`: what is written, and the result. -/
def Exchange.exportHost (name : Text) : Text × ℕ :=
  match x.files (x.hostPath name) with
  | none => ([], 1)
  | some file =>
      (ascii "Name = " ++ name ++ [10] ++ (((fgets 4096 file).filter isExported).map cstr).flatten,
        0)

/-- The loop of `cmd_export_all` over the entries of the directory. -/
def Exchange.exportEntries : Bool → List Text → Text × ℕ
  | _, [] => ([], 0)
  | first, name :: entries =>
      if checkId name then
        let (written, result) := x.exportHost name
        let (rest, result') := exportEntries false entries
        ((if first then [] else separatorLine) ++ written ++ rest, result ||| result')
      else exportEntries first entries

/-- `cmd_export_all` -/
def Exchange.cmdExportAll : Text × ℕ := x.exportEntries true x.entries

/-- The name in a line: `sscanf (buf, "Name = %4095s", name) == 1`. -/
def nameLine (buf : List UInt8) : Option Text :=
  match (sscanf [.lit 78, .lit 97, .lit 109, .lit 101, .space, .lit 61, .space, .conv (.s 4095)]
    (cstr buf)).1 with
  | [.str name] => some name
  | _ => none

/-- The variables of `cmd_import`; `out` is the path of the file that is open for writing. -/
structure Import where
  files : Text → Option Text
  out : Option Text
  count : ℕ

/-- `fopen (filename, "w")` -/
def Import.create (filename : Text) (i : Import) : Import where
  files := Function.update i.files filename (some [])
  out := some filename
  count := i.count + 1

/-- What `cmd_import` does with a line that names a host; no result is the way out with an error. -/
def Exchange.openHost (name : Text) (i : Import) : Option Import :=
  if checkId name = false then none
  else if pathMax ≤ (x.hostsDir ++ ascii "/" ++ name).length then none
  else if x.force = false ∧ (i.files (x.hostPath name)).isSome then some { i with out := none }
  else if x.creates (x.hostPath name) then some (i.create (x.hostPath name))
  else none

/-- `fputs (text, out)`, if `out` is open. -/
def Import.puts (text : Text) (i : Import) : Import :=
  match i.out with
  | none => i
  | some filename =>
      { i with files := Function.update i.files filename ((i.files filename).map (· ++ text)) }

/-- One round of the loop of `cmd_import`. -/
def Exchange.readLine (buf : List UInt8) (i : Import) : Option Import :=
  match nameLine buf with
  | some name => x.openHost name i
  | none => some (if cstr buf = separatorLine then i else i.puts (cstr buf))

/-- The loop of `cmd_import`, and whether it came to the end of the input. -/
def Exchange.readInput : List (List UInt8) → Import → Import × Bool
  | [], i => (i, true)
  | buf :: bufs, i =>
      match x.readLine buf i with
      | none => (i, false)
      | some i => readInput bufs i

/-- `cmd_import`: the host files afterwards, and the result. -/
def Exchange.cmdImport (input : Text) : (Text → Option Text) × ℕ :=
  let (i, done) := x.readInput (fgets 4096 input) ⟨x.files, none, 0⟩
  (i.files, if done ∧ i.count ≠ 0 then 0 else 1)

/-- `cmd_exchange_all`: the host files afterwards, and the result. -/
def Exchange.cmdExchangeAll (input : Text) : (Text → Option Text) × ℕ :=
  if x.cmdExportAll.2 ≠ 0 then (x.files, 1) else x.cmdImport input

/-! ## The input in sections -/

/-- The name of a host, and what stands behind it. -/
abbrev HostSection := Text × Text

/-- The input cut at the lines that name a host: what comes before the first of them, and the
sections.  The lines between two hosts are left out. -/
def sections : List (List UInt8) → Text × List HostSection
  | [] => ([], [])
  | buf :: bufs =>
      let (body, rest) := sections bufs
      match nameLine buf with
      | some name => ([], (name, body) :: rest)
      | none => ((if cstr buf = separatorLine then [] else cstr buf) ++ body, rest)

/-- One section after the other, until one is refused. -/
def Exchange.installAll : List HostSection → Import → Import × Bool
  | [], i => (i, true)
  | (name, body) :: rest, i =>
      match x.openHost name i with
      | none => (i, false)
      | some i => installAll rest (i.puts body)

variable {x} {i i' : Import} {name body text line file : Text} {buf : List UInt8}
  {bufs : List (List UInt8)} {secs : List HostSection}

@[simp]
lemma Import.puts_nil (i : Import) : i.puts [] = i := by
  obtain ⟨files, out, count⟩ := i
  cases out <;> simp [Import.puts]

lemma Import.puts_puts (i : Import) (text text' : Text) :
    (i.puts text).puts text' = i.puts (text ++ text') := by
  obtain ⟨files, out, count⟩ := i
  cases out with
  | none => rfl
  | some filename =>
      cases h : files filename <;> simp [Import.puts, h]

/-- **The loop that reads lines installs sections.** -/
lemma readInput_eq (bufs : List (List UInt8)) (i : Import) :
    x.readInput bufs i = x.installAll (sections bufs).2 (i.puts (sections bufs).1) := by
  induction bufs generalizing i with
  | nil => simp [Exchange.readInput, sections, Exchange.installAll]
  | cons buf bufs ih =>
      unfold Exchange.readInput Exchange.readLine sections
      cases hname : nameLine buf with
      | some name =>
          simp only [Import.puts_nil, Exchange.installAll]
          cases x.openHost name i with
          | none => rfl
          | some i => simp only [ih]
      | none =>
          simp only [ih]
          split <;> simp [Import.puts_puts]

/-! ## What installing does -/

@[simp]
lemma Import.create_puts_files (filename body p : Text) (i : Import) :
    ((i.create filename).puts body).files p = if p = filename then some body else i.files p := by
  simp [Import.create, Import.puts, Function.update_apply]

/-- What a naming line does: the file is left alone, or it is new. -/
lemma openHost_cases (h : x.openHost name i = some i') :
    checkId name = true ∧ (x.hostsDir ++ ascii "/" ++ name).length < pathMax ∧
      ((x.force = false ∧ (i.files (x.hostPath name)).isSome) ∧ i' = { i with out := none } ∨
        (x.force = true ∨ i.files (x.hostPath name) = none) ∧ i' = i.create (x.hostPath name)) := by
  unfold Exchange.openHost at h
  split at h
  · cases h
  rename_i hname
  split at h
  · cases h
  rename_i hlength
  refine ⟨by simpa using hname, by omega, ?_⟩
  split at h
  · rename_i hskip
    exact .inl ⟨hskip, (Option.some.inj h).symm⟩
  · rename_i hopen
    split at h
    · refine .inr ⟨?_, (Option.some.inj h).symm⟩
      by_cases hforce : x.force = true
      · exact .inl hforce
      · exact .inr (by simpa [hforce] using hopen)
    · cases h

lemma hostPath_eq (h : (x.hostsDir ++ ascii "/" ++ name).length < pathMax) :
    x.hostPath name = x.hostsDir ++ ascii "/" ++ name :=
  List.take_of_length_le (by omega)

/-- A file that changes has a valid name, was not there without `--force`, and gets the lines of one
section. -/
lemma installAll_changes {p : Text} (h : (x.installAll secs i).1.files p ≠ i.files p) :
    ∃ s ∈ secs, checkId s.1 = true ∧ p = x.hostsDir ++ ascii "/" ++ s.1 ∧
      (x.force = true ∨ i.files p = none) ∧ (x.installAll secs i).1.files p = some s.2 := by
  induction secs generalizing i with
  | nil => exact absurd rfl h
  | cons s secs ih =>
      obtain ⟨name, body⟩ := s
      unfold Exchange.installAll at h ⊢
      cases hopen : x.openHost name i with
      | none =>
          simp only [hopen] at h
          exact absurd rfl h
      | some i' =>
          simp only [hopen] at h ⊢
          obtain ⟨hname, hlength, ⟨-, rfl⟩ | ⟨hnew, rfl⟩⟩ := openHost_cases hopen
          · obtain ⟨s, hs, hrest⟩ := ih h
            exact ⟨s, List.mem_cons_of_mem _ hs, hrest⟩
          · generalize hi : (i.create (x.hostPath name)).puts body = i' at h ih ⊢
            have hfiles : i'.files p = if p = x.hostPath name then some body else i.files p := by
              rw [← hi, Import.create_puts_files]
            by_cases hlater : (x.installAll secs i').1.files p = i'.files p
            · -- the file keeps what this section wrote
              rw [hlater, hfiles] at h ⊢
              by_cases hp : p = x.hostPath name
              · refine ⟨(name, body), List.mem_cons_self, hname, ?_, hp ▸ hnew, if_pos hp⟩
                rw [hp, hostPath_eq hlength]
              · rw [if_neg hp] at h
                exact absurd rfl h
            · obtain ⟨s, hs, hid, hp, hfree, hresult⟩ := ih hlater
              refine ⟨s, List.mem_cons_of_mem _ hs, hid, hp, hfree.imp_right fun hfree => ?_,
                hresult⟩
              rw [hfiles] at hfree
              split at hfree
              · cases hfree
              · exact hfree

/-- The sections are of valid names whose paths fit, and every file can be created. -/
structure Exchange.Installs (x : Exchange) (secs : List HostSection) : Prop where
  valid : ∀ s ∈ secs, checkId s.1 = true
  fits : ∀ s ∈ secs, (x.hostsDir ++ ascii "/" ++ s.1).length < pathMax
  creates : ∀ s ∈ secs, x.creates (x.hostPath s.1) = true
  distinct : (secs.map fun s => x.hostPath s.1).Nodup

lemma openHost_eq (hvalid : checkId name = true)
    (hfits : (x.hostsDir ++ ascii "/" ++ name).length < pathMax)
    (hcreates : x.creates (x.hostPath name) = true) (i : Import) :
    x.openHost name i =
      if x.force = false ∧ (i.files (x.hostPath name)).isSome then some { i with out := none }
      else some (i.create (x.hostPath name)) := by
  unfold Exchange.openHost
  rw [if_neg (by simp [hvalid]), if_neg (by omega), if_pos hcreates]

lemma Exchange.Installs.tail {s : HostSection} (h : x.Installs (s :: secs)) : x.Installs secs where
  valid := fun s hs => h.valid s (List.mem_cons_of_mem _ hs)
  fits := fun s hs => h.fits s (List.mem_cons_of_mem _ hs)
  creates := fun s hs => h.creates s (List.mem_cons_of_mem _ hs)
  distinct := (List.nodup_cons.mp h.distinct).2

/-- **All sections are installed**: a file that was there stays without `--force`, the files of all
other sections are theirs, and no other file changes. -/
lemma installAll_files (h : x.Installs secs) (i : Import) :
    (x.installAll secs i).2 = true ∧
      (∀ s ∈ secs, (x.installAll secs i).1.files (x.hostPath s.1) =
        if x.force = false ∧ (i.files (x.hostPath s.1)).isSome then i.files (x.hostPath s.1)
        else some s.2) ∧
      ∀ p, p ∉ secs.map (fun s => x.hostPath s.1) →
        (x.installAll secs i).1.files p = i.files p := by
  induction secs generalizing i with
  | nil => exact ⟨rfl, by simp, fun p _ => rfl⟩
  | cons s secs ih =>
      obtain ⟨name, body⟩ := s
      obtain ⟨hnew, hdistinct⟩ := List.nodup_cons.mp h.distinct
      have hopen := openHost_eq (h.valid _ List.mem_cons_self) (h.fits _ List.mem_cons_self)
        (h.creates _ List.mem_cons_self) i
      have hne : ∀ t ∈ secs, x.hostPath t.1 ≠ x.hostPath name := fun t ht heq =>
        hnew (List.mem_map.mpr ⟨t, ht, heq⟩)
      unfold Exchange.installAll
      by_cases hskip : x.force = false ∧ (i.files (x.hostPath name)).isSome
      · rw [if_pos hskip] at hopen
        simp only [hopen]
        obtain ⟨hdone, hsecs, hother⟩ := ih h.tail (Import.puts body { i with out := none })
        refine ⟨hdone, fun t ht => ?_, fun p hp => ?_⟩
        · rcases List.mem_cons.mp ht with rfl | ht
          · rw [hother _ hnew, if_pos hskip]
            rfl
          · exact hsecs t ht
        · exact hother p fun hmem => hp (List.mem_cons_of_mem _ hmem)
      · rw [if_neg hskip] at hopen
        simp only [hopen]
        obtain ⟨hdone, hsecs, hother⟩ := ih h.tail ((i.create (x.hostPath name)).puts body)
        refine ⟨hdone, fun t ht => ?_, fun p hp => ?_⟩
        · rcases List.mem_cons.mp ht with rfl | ht
          · rw [hother _ hnew, if_neg hskip, Import.create_puts_files, if_pos rfl]
          · rw [hsecs t ht, Import.create_puts_files, if_neg (hne t ht)]
        · rw [List.map_cons, List.mem_cons, not_or] at hp
          rw [hother p hp.2, Import.create_puts_files, if_neg hp.1]

/-- **Import changes only what it may change**, whatever its input is. -/
theorem cmdImport_safe (x : Exchange) (input p : Text)
    (h : (x.cmdImport input).1 p ≠ x.files p) :
    ∃ s ∈ (sections (fgets 4096 input)).2, checkId s.1 = true ∧
      p = x.hostsDir ++ ascii "/" ++ s.1 ∧ (x.force = true ∨ x.files p = none) ∧
      (x.cmdImport input).1 p = some s.2 := by
  unfold Exchange.cmdImport at h ⊢
  rw [readInput_eq] at h ⊢
  exact installAll_changes h

theorem cmdImport_safe_new :
    ∃ s ∈ (sections (fgets 4096 (ascii "junk\nName = b\nPort = 1\n"))).2,
      checkId s.1 = true ∧ ascii "h/b" = ascii "h" ++ ascii "/" ++ s.1 ∧
        (false = true ∨ (none : Option Text) = none) ∧
        ((Exchange.mk (ascii "h") [] (fun _ => none) false fun _ => true).cmdImport
          (ascii "junk\nName = b\nPort = 1\n")).1 (ascii "h/b") = some s.2 :=
  cmdImport_safe (Exchange.mk (ascii "h") [] (fun _ => none) false fun _ => true) _ _
    (by decide +kernel)

/-! ## What `export` writes -/

/-- A host file without the lines that set its name. -/
def withoutName (file : Text) : Text := ((lines file).filter isExported).flatten

/-- What a host file needs to come through an exchange. -/
structure Exchangeable (file : Text) : Prop where
  noZero : 0 ∉ file
  ends : file = [] ∨ file.getLast? = some 10
  short : ∀ line ∈ lines file, line.length < 4096
  separator : separatorLine ∉ lines file
  named : ∀ line ∈ lines file, ∀ c ∈ [11, 12, 13], ¬ ascii "Name" ++ [c] <+: line

lemma ascii_name : ascii "Name" = [78, 97, 109, 101] := by decide

lemma notMem_of_checkId (h : checkId name = true) : 10 ∉ name ∧ 0 ∉ name := by
  have hne : name ≠ [] ∧ name.all (fun c => isAlnum c ∨ c = 95) = true := by
    simpa [checkId] using h
  exact ⟨fun hc => absurd (List.all_eq_true.mp hne.2 10 hc) (by decide),
    fun hc => absurd (List.all_eq_true.mp hne.2 0 hc) (by decide)⟩

/-- The line in front of a host is read as its name. -/
lemma nameLine_naming (h : checkId name = true) (hlength : name.length ≤ 4095) :
    nameLine (ascii "Name = " ++ name ++ [10]) = some name := by
  have hword := isWord_of_checkId h
  have hzero := (notMem_of_checkId h).2
  have hfront : ascii "Name = " = [78, 97, 109, 101, 32, 61, 32] := by decide
  have hcstr : cstr (ascii "Name = " ++ name ++ [10]) = ascii "Name = " ++ name ++ [10] :=
    cstr_of_notMem (by simp [hfront, hzero])
  have hskip := hword.skipSpace_append [10]
  have hequals : skipSpace (32 :: 61 :: 32 :: (name ++ [10])) = 61 :: 32 :: (name ++ [10]) := by
    simp [skipSpace, isSpace]
  have hblank : skipSpace (32 :: (name ++ [10])) = name ++ [10] := by
    rw [skipSpace, List.dropWhile_cons_of_pos (by decide)]
    exact hskip
  have hscan : ((name ++ [10]).take 4095).takeWhile (fun c => !isSpace c) = name := by
    rw [List.take_append, List.take_of_length_le hlength,
      List.takeWhile_append_of_pos fun c hc => by simp [hword.2 c hc]]
    cases 4095 - name.length <;> simp [isSpace]
  unfold nameLine
  rw [hcstr, hfront]
  simp [sscanf, hequals, hblank, Conversion.scan, hskip, hscan, hword.1]

/-- What names a host begins with the word and has an equals sign behind it. -/
lemma of_nameLine (hzero : 0 ∉ line) (h : nameLine line = some name) :
    ∃ rest, line = ascii "Name" ++ rest ∧ (skipSpace rest).head? = some 61 := by
  have hformat : ([.lit 78, .lit 97, .lit 109, .lit 101, .space, .lit 61, .space,
      .conv (.s 4095)] : List Directive) = (ascii "Name").map Directive.lit ++
        [.space, .lit 61, .space, .conv (.s 4095)] := by
    rw [ascii_name]
    rfl
  unfold nameLine at h
  rw [cstr_of_notMem hzero, hformat, sscanf_lits] at h
  split at h
  · rename_i heq
    split at heq
    · rename_i hpre
      obtain ⟨rest, rfl⟩ := hpre
      refine ⟨rest, rfl, ?_⟩
      rw [List.drop_left, sscanf, sscanf] at heq
      by_contra hne
      rw [if_neg hne] at heq
      cases heq
    · cases heq
  · cases h

/-- White space is a blank, or one of the bytes from newline to carriage return. -/
lemma of_isSpace {c : UInt8} (h : isSpace c = true) :
    c = 9 ∨ c = 32 ∨ c = 10 ∨ c ∈ [11, 12, 13] := by
  simp only [isSpace, decide_eq_true_iff, UInt8.le_iff_toNat_le, ← UInt8.toNat_inj] at h
  simp only [List.mem_cons, List.not_mem_nil, or_false, ← UInt8.toNat_inj]
  change c.toNat = 32 ∨ 9 ≤ c.toNat ∧ c.toNat ≤ 13 at h
  change c.toNat = 9 ∨ c.toNat = 32 ∨ c.toNat = 10 ∨ c.toNat = 11 ∨ c.toNat = 12 ∨ c.toNat = 13
  omega

/-- A line that sets the name is not written. -/
lemma isExported_name {c : UInt8} {rest : Text} (hzero : 0 ∉ ascii "Name" ++ c :: rest)
    (hc : c = 9 ∨ c = 32 ∨ c = 61) : isExported (ascii "Name" ++ c :: rest) = false := by
  unfold isExported
  rw [cstr_of_notMem hzero, ascii_name]
  rcases hc with rfl | rfl | rfl <;> simp [hasPrefixCase]

/-- A line that is written behind the name is no name. -/
lemma nameLine_of_isExported (hzero : 0 ∉ line) (hline : 10 ∉ line.dropLast)
    (hnamed : ∀ c ∈ [11, 12, 13], ¬ ascii "Name" ++ [c] <+: line)
    (h : isExported line = true) : nameLine line = none := by
  by_contra hne
  obtain ⟨name, hname⟩ := Option.ne_none_iff_exists'.mp hne
  obtain ⟨rest, rfl, hequals⟩ := of_nameLine hzero hname
  cases rest with
  | nil => cases hequals
  | cons c rest =>
      have hwritten : ¬ (c = 9 ∨ c = 32 ∨ c = 61) := fun hc => by
        rw [isExported_name hzero hc] at h
        cases h
      rw [not_or, not_or] at hwritten
      by_cases hspace : isSpace c = true
      · rcases of_isSpace hspace with rfl | rfl | rfl | hc
        · exact hwritten.1 rfl
        · exact hwritten.2.1 rfl
        · -- a newline is the last byte, and no equals sign comes behind it
          have hrest : rest = [] := by
            by_contra hrest
            refine hline ?_
            rw [ascii_name]
            simp [List.dropLast_cons_of_ne_nil hrest]
          rw [hrest] at hequals
          cases hequals
        · exact hnamed c hc ⟨rest, by simp⟩
      · rw [skipSpace, List.dropWhile_cons_of_neg hspace] at hequals
        exact hwritten.2.2 (Option.some.inj hequals)

/-! ## The written text in sections -/

lemma Exchangeable.of_mem_lines (h : Exchangeable file) (hline : line ∈ lines file) :
    0 ∉ line ∧ ∃ front, 10 ∉ front ∧ line = front ++ [10] := by
  refine ⟨fun hzero => h.noZero ?_, newline_of_mem_lines h.ends hline⟩
  rw [← lines_flatten file]
  exact List.mem_flatten_of_mem hline hzero

lemma map_cstr {ls : List Text} (h : ∀ l ∈ ls, 0 ∉ l) : ls.map cstr = ls :=
  (List.map_congr_left fun _ hl => cstr_of_notMem (h _ hl)).trans (List.map_id ls)

/-- The lines that are written are read again. -/
lemma Exchangeable.fgets_withoutName (h : Exchangeable file) {size : ℕ}
    (hsize : ∀ line ∈ lines file, line.length < size) :
    fgets size (withoutName file) = (lines file).filter isExported :=
  fgets_whole_lines (fun _ hl => (h.of_mem_lines (List.mem_filter.mp hl).1).2) fun l hl =>
    hsize l (List.mem_filter.mp hl).1

lemma Exchangeable.exportHost_eq (h : Exchangeable file)
    (hfile : x.files (x.hostPath name) = some file) :
    x.exportHost name = (ascii "Name = " ++ name ++ [10] ++ withoutName file, 0) := by
  have hcstr : ((lines file).filter isExported).map cstr = (lines file).filter isExported :=
    map_cstr fun _ hl => (h.of_mem_lines (List.mem_filter.mp hl).1).1
  unfold Exchange.exportHost
  rw [hfile]
  simp only [fgets_eq_lines h.short, hcstr]
  rfl

lemma withoutName_ends (h : Exchangeable file) :
    withoutName file = [] ∨ (withoutName file).getLast? = some 10 := by
  refine flatten_ends fun l hl => ?_
  obtain ⟨front, -, rfl⟩ := (h.of_mem_lines (List.mem_filter.mp hl).1).2
  simp

lemma sections_append (h : ∀ buf ∈ bufs, nameLine buf = none) (bufs' : List (List UInt8)) :
    sections (bufs ++ bufs') =
      (((bufs.filter fun buf => cstr buf ≠ separatorLine).map cstr).flatten ++ (sections bufs').1,
        (sections bufs').2) := by
  induction bufs with
  | nil => simp
  | cons buf bufs ih =>
      rw [List.cons_append, sections, ih fun b hb => h b (List.mem_cons_of_mem _ hb)]
      simp only [h buf List.mem_cons_self, List.filter_cons]
      by_cases hsep : cstr buf = separatorLine <;> simp [hsep]

lemma sections_naming (h : nameLine buf = some name) (bufs : List (List UInt8)) :
    sections (buf :: bufs) = ([], (name, (sections bufs).1) :: (sections bufs).2) := by
  rw [sections]
  simp only [h]

/-- What `export` writes for a host becomes the section of the host. -/
lemma sections_exported (hname : checkId name = true) (hlength : name.length ≤ 255)
    (h : Exchangeable file) (rest : Text) :
    sections (fgets 4096 (ascii "Name = " ++ name ++ [10] ++ withoutName file ++ rest)) =
      ([], (name, withoutName file ++ (sections (fgets 4096 rest)).1) ::
        (sections (fgets 4096 rest)).2) := by
  have hnaming : fgets 4096 (ascii "Name = " ++ name ++ [10]) =
      [ascii "Name = " ++ name ++ [10]] := by
    have hfront : (ascii "Name = ").length = 7 := by decide
    have hnewline : 10 ∉ ascii "Name = " ++ name := by
      rw [List.mem_append, not_or]
      exact ⟨by decide, (notMem_of_checkId hname).1⟩
    exact fgets_line hnewline (by rw [List.length_append, hfront]; omega) []
  have hkept : ∀ line ∈ (lines file).filter isExported,
      nameLine line = none ∧ 0 ∉ line ∧ line ≠ separatorLine := by
    intro line hline
    obtain ⟨hline, hexported⟩ := List.mem_filter.mp hline
    have hzero := (h.of_mem_lines hline).1
    exact ⟨nameLine_of_isExported hzero (of_mem_lines hline).2 (h.named line hline) hexported,
      hzero, fun hsep => h.separator (hsep ▸ hline)⟩
  have hall : ((lines file).filter isExported).filter (fun line => cstr line ≠ separatorLine) =
      (lines file).filter isExported := by
    rw [List.filter_eq_self]
    intro line hline
    rw [decide_eq_true_iff, cstr_of_notMem (hkept line hline).2.1]
    exact (hkept line hline).2.2
  have hbody : ((((lines file).filter isExported).filter fun line =>
      cstr line ≠ separatorLine).map cstr).flatten = withoutName file := by
    rw [hall, map_cstr fun line hline => (hkept line hline).2.1]
    rfl
  rw [List.append_assoc, fgets_concat (.inr (by simp)), fgets_concat (withoutName_ends h), hnaming,
    h.fgets_withoutName h.short, List.singleton_append,
    sections_naming (nameLine_naming hname (by omega)),
    sections_append fun line hline => (hkept line hline).1, hbody]

/-- The line between two hosts leaves no trace. -/
lemma sections_separator (rest : Text) :
    sections (fgets 4096 (separatorLine ++ rest)) = sections (fgets 4096 rest) := by
  have hline : separatorLine = separatorLine.dropLast ++ [10] ∧ 10 ∉ separatorLine.dropLast ∧
      separatorLine.dropLast.length + 2 ≤ 4096 ∧ nameLine separatorLine = none ∧
      cstr separatorLine = separatorLine := by
    decide +kernel
  obtain ⟨hsplit, hnewline, hshort, hname, hcstr⟩ := hline
  have hfgets : fgets 4096 separatorLine = [separatorLine] := by
    have hline := fgets_line hnewline hshort []
    rwa [← hsplit] at hline
  rw [fgets_concat (.inr (by rw [hsplit]; simp)), hfgets, sections_append (by simpa using hname)]
  simp [hcstr]

/-- What stands in the file of a host. -/
def Exchange.host (x : Exchange) (name : Text) : Option Text := x.files (x.hostPath name)

/-- The section that a host becomes. -/
def Exchange.section (x : Exchange) (name : Text) : HostSection :=
  (name, withoutName ((x.host name).getD []))

/-- The directory lists the host files, which can be exchanged, and there is room for more. -/
structure Exchange.WellKept (x : Exchange) : Prop where
  room : x.hostsDir.length + 257 ≤ pathMax
  creates : ∀ name, checkId name = true → x.creates (x.hostPath name) = true
  distinct : x.entries.Nodup
  short : ∀ name ∈ x.entries, name.length ≤ 255
  listed : ∀ name, checkId name = true → name.length ≤ 255 →
    (name ∈ x.entries ↔ (x.host name).isSome)
  plain : ∀ name file, x.host name = some file → Exchangeable file

/-- **An export is read as one section for each host.** -/
lemma sections_exportEntries {entries : List Text}
    (h : ∀ name ∈ entries, checkId name = true →
      name.length ≤ 255 ∧ ∃ file, x.host name = some file ∧ Exchangeable file) (first : Bool) :
    (x.exportEntries first entries).2 = 0 ∧
      sections (fgets 4096 (x.exportEntries first entries).1) =
        ([], (entries.filter checkId).map x.section) := by
  induction entries generalizing first with
  | nil => exact ⟨rfl, rfl⟩
  | cons name entries ih =>
      have ih := ih fun n hn => h n (List.mem_cons_of_mem _ hn)
      unfold Exchange.exportEntries
      by_cases hname : checkId name = true
      · obtain ⟨hlength, file, hfile, hplain⟩ := h name List.mem_cons_self hname
        obtain ⟨hresult, hsections⟩ := ih false
        have hexported := sections_exported hname hlength hplain (x.exportEntries false entries).1
        rw [hsections] at hexported
        have hsection : x.section name = (name, withoutName file) := by
          rw [Exchange.section, hfile]
          rfl
        simp only [hname, if_true, hplain.exportHost_eq hfile, hresult,
          List.filter_cons_of_pos hname, List.map_cons, hsection]
        refine ⟨rfl, ?_⟩
        rw [List.append_nil] at hexported
        cases first with
        | true => simpa using hexported
        | false =>
            simp only [Bool.false_eq_true, if_false]
            rw [List.append_assoc, sections_separator]
            exact hexported
      · simp only [hname, Bool.false_eq_true, if_false, List.filter_cons_of_neg hname]
        exact ih first

/-! ## What the daemon reads -/

/-- The lines that are not written are those that the command takes for a setting of the name. -/
lemma isExported_eq (buf : List UInt8) :
    isExported buf = !sameIgnoringCase (editorSetting buf).1 (ascii "Name") := by
  have hvar : (cstr buf).takeWhile (fun c => decide (c ≠ 9 ∧ c ≠ 32 ∧ c ≠ 61)) =
      (editorSetting buf).1 := by
    unfold editorSetting assignment
    congr 1
    funext c
    by_cases h9 : c = 9 <;> by_cases h32 : c = 32 <;> by_cases h61 : c = 61 <;>
      simp [isBlank, h9, h32, h61]
  have hfour : (ascii "Name").length = 4 := by decide
  obtain ⟨rest, hrest⟩ := List.takeWhile_prefix (l := cstr buf)
    fun c => decide (c ≠ 9 ∧ c ≠ 32 ∧ c ≠ 61)
  rw [hvar] at hrest
  unfold isExported
  rw [hvar]
  by_cases hlength : (editorSetting buf).1.length = 4
  · have htake : (cstr buf).take 4 = (editorSetting buf).1 := by
      rw [← hrest, ← hlength, List.take_left]
    simp [hlength, hasPrefixCase, hfour, htake, sameIgnoringCase]
  · have hdiffer : sameIgnoringCase (editorSetting buf).1 (ascii "Name") = false := by
      rw [Bool.eq_false_iff]
      exact fun hsame => hlength ((length_of_sameIgnoringCase hsame).trans hfour)
    simp [hlength, hdiffer]

lemma prefix_readline (buf : List UInt8) : readline buf <+: cstr buf := by
  unfold readline
  dsimp only
  split
  · split
    · exact (List.dropLast_prefix _).trans (List.takeWhile_prefix _)
    · exact List.takeWhile_prefix _
  · exact List.prefix_rfl

/-- A line that is not written begins and ends no key block. -/
lemma blockAfter_of_name {ignore : Bool} (h : isExported buf = false) :
    blockAfter ignore buf = ignore := by
  rw [isExported_eq, Bool.not_eq_false'] at h
  have hdash : ∀ w, ((45 :: w).isPrefixOf (readline buf)) = false := by
    intro w
    rw [Bool.eq_false_iff]
    intro hpre
    obtain ⟨rest, hrest⟩ := (List.isPrefixOf_iff_prefix.mp hpre).trans (prefix_readline buf)
    have hvar : (editorSetting buf).1.head? = some 45 := by
      unfold editorSetting assignment
      rw [← hrest]
      simp [isBlank]
    obtain ⟨var, hvar⟩ := List.head?_eq_some_iff.mp hvar
    rw [hvar, ascii_name] at h
    simp [sameIgnoringCase] at h
    exact absurd h.1 (by decide)
  have hend : ascii "-----END" = 45 :: ascii "----END" := by decide
  have hbegin : ascii "-----BEGIN" = 45 :: ascii "----BEGIN" := by decide
  unfold blockAfter
  dsimp only
  rw [hend, hbegin, hdash, hdash]
  cases ignore <;> simp

/-- **Without the lines that set the name the daemon reads all other settings.** -/
lemma settings_filter {ignore : Bool} {p : Bool × List Setting}
    (hlines : ∀ buf ∈ bufs, 10 ∉ (cstr buf).dropLast) (h : settings ignore bufs = some p) :
    settings ignore (bufs.filter isExported) =
      some (p.1, p.2.filter fun s => !sameIgnoringCase s.1 (ascii "Name")) := by
  induction bufs generalizing ignore p with
  | nil =>
      obtain rfl := Option.some.inj h
      rfl
  | cons buf bufs ih =>
      rw [settings_cons] at h
      obtain ⟨q, hq, h⟩ := Option.bind_eq_some_iff.mp h
      obtain ⟨r, hr, rfl⟩ := Option.map_eq_some_iff.mp h
      have ih := ih (fun b hb => hlines b (List.mem_cons_of_mem _ hb)) hr
      have hread := isExported_eq buf
      rcases lineSettings_cases hq with ⟨hset, hvalue, rfl, hblock⟩ | ⟨hset, rfl⟩
      · have hvar := congrArg Prod.fst
          (editor_of_setting (hlines buf List.mem_cons_self) hvalue)
        dsimp only at hvar
        rw [hvar] at hread
        cases hexported : isExported buf with
        | true =>
            rw [List.filter_cons_of_pos hexported, settings_cons, hq, Option.bind_some, ih]
            rw [hexported] at hread
            simp [← hread]
        | false =>
            have hsame : ignore = false := hset.1
            rw [List.filter_cons_of_neg (by simp [hexported]), hsame]
            rw [hexported] at hread
            simp only [List.filter_append, List.filter_cons, ← hread]
            simpa using ih
      · cases hexported : isExported buf with
        | true =>
            rw [List.filter_cons_of_pos hexported, settings_cons, hq, Option.bind_some, ih]
            rfl
        | false =>
            rw [List.filter_cons_of_neg (by simp [hexported])]
            rwa [blockAfter_of_name hexported] at ih

/-- The values of the variables other than the name. -/
lemma valuesIn_filter (found : List Setting) (v : Text) :
    valuesIn (found.filter fun s => !sameIgnoringCase s.1 (ascii "Name")) v =
      if sameIgnoringCase v (ascii "Name") then [] else valuesIn found v := by
  unfold valuesIn
  rw [List.filter_filter]
  split
  · rename_i hname
    rw [List.filter_eq_nil_iff.mpr]
    · rfl
    · intro s _ h
      obtain ⟨hsame, hother⟩ := Bool.and_eq_true_iff.mp h
      rw [← sameIgnoringCase_congr hsame, hname] at hother
      cases hother
  · rename_i hname
    congr 1
    refine List.filter_congr fun s _ => ?_
    cases hsame : sameIgnoringCase v s.1 with
    | false => rfl
    | true =>
        rw [← sameIgnoringCase_congr hsame]
        simpa using hname

/-- **The daemon reads from an exchanged file what it reads from the original**, the name left
out. -/
lemma withoutName_read_back (h : Exchangeable file)
    (hshort : ∀ line ∈ lines file, line.length < maxStringSize)
    (haccepted : (fileSettings file).isSome = true) (fname v : Text) :
    (readConfigFile [] fname (withoutName file)).2 = true ∧
      configValues (readConfigFile [] fname (withoutName file)).1 v =
        if sameIgnoringCase v (ascii "Name") then []
        else configValues (readConfigFile [] fname file).1 v := by
  obtain ⟨p, hp⟩ := Option.isSome_iff_exists.mp haccepted
  have hfile := hp
  rw [fileSettings, fgets_eq_lines hshort] at hfile
  have hwithout : fileSettings (withoutName file) =
      some (p.1, p.2.filter fun s => !sameIgnoringCase s.1 (ascii "Name")) := by
    rw [fileSettings, h.fgets_withoutName hshort]
    refine settings_filter (fun buf hbuf => ?_) hfile
    obtain ⟨hzero, front, hfront, rfl⟩ := h.of_mem_lines hbuf
    rw [cstr_of_notMem hzero, List.dropLast_concat]
    exact hfront
  refine ⟨?_, ?_⟩
  · rw [readConfigFile_accepts, hwithout]
    rfl
  · rw [readConfigFile_values fname hwithout, readConfigFile_values fname hp, valuesIn_filter]

/-! ## The exchange -/

variable {y : Exchange}

/-- The file of a host after the files of `y` were imported: the own one, unless there is none or
`--force` was given. -/
def Exchange.merged (x y : Exchange) (name : Text) : Option Text :=
  if x.force then ((y.host name).map withoutName).or (x.host name)
  else (x.host name).or ((y.host name).map withoutName)

lemma Exchange.WellKept.fits (h : x.WellKept) (hlength : name.length ≤ 255) :
    (x.hostsDir ++ ascii "/" ++ name).length < pathMax := by
  have hroom := h.room
  have hslash : (ascii "/").length = 1 := by decide
  rw [List.length_append, List.length_append, hslash]
  omega

lemma Exchange.WellKept.hostPath_inj (h : x.WellKept) {name' : Text} (hname : name.length ≤ 255)
    (hname' : name'.length ≤ 255) (heq : x.hostPath name = x.hostPath name') : name = name' := by
  rw [hostPath_eq (h.fits hname), hostPath_eq (h.fits hname')] at heq
  exact List.append_cancel_left heq

lemma Exchange.WellKept.exported (h : y.WellKept) :
    y.cmdExportAll.2 = 0 ∧ sections (fgets 4096 y.cmdExportAll.1) =
      ([], (y.entries.filter checkId).map y.section) := by
  refine sections_exportEntries (fun name hmem hname => ?_) true
  have hlength := h.short name hmem
  obtain ⟨file, hfile⟩ := Option.isSome_iff_exists.mp ((h.listed name hname hlength).mp hmem)
  exact ⟨hlength, file, hfile, h.plain name file hfile⟩

lemma Exchange.WellKept.installs (hx : x.WellKept) (hy : y.WellKept) :
    x.Installs ((y.entries.filter checkId).map y.section) where
  valid := by
    intro s hs
    obtain ⟨name, hname, rfl⟩ := List.mem_map.mp hs
    exact (List.mem_filter.mp hname).2
  fits := by
    intro s hs
    obtain ⟨name, hname, rfl⟩ := List.mem_map.mp hs
    exact hx.fits (hy.short name (List.mem_filter.mp hname).1)
  creates := by
    intro s hs
    obtain ⟨name, hname, rfl⟩ := List.mem_map.mp hs
    exact hx.creates name (List.mem_filter.mp hname).2
  distinct := by
    rw [List.map_map]
    refine (hy.distinct.filter _).map_on fun name hname name' hname' heq => ?_
    exact hx.hostPath_inj (hy.short name (List.mem_filter.mp hname).1)
      (hy.short name' (List.mem_filter.mp hname').1) heq

/-- What an import makes of the hosts of the other node. -/
lemma cmdImport_exported (hx : x.WellKept) (hy : y.WellKept) (hname : checkId name = true)
    (hlength : name.length ≤ 255) :
    (x.cmdImport y.cmdExportAll.1).1 (x.hostPath name) = x.merged y name := by
  obtain ⟨-, hsecs, hother⟩ := installAll_files (hx.installs hy) ⟨x.files, none, 0⟩
  unfold Exchange.cmdImport
  rw [readInput_eq, hy.exported.2]
  simp only [Import.puts_nil]
  unfold Exchange.merged
  by_cases hmem : name ∈ y.entries
  · have hsec := hsecs (y.section name)
      (List.mem_map_of_mem (List.mem_filter.mpr ⟨hmem, hname⟩))
    obtain ⟨file, hfile⟩ := Option.isSome_iff_exists.mp ((hy.listed name hname hlength).mp hmem)
    have hsection : y.section name = (name, withoutName file) := by
      rw [Exchange.section, hfile]
      rfl
    rw [hsection] at hsec
    rw [hsec, hfile]
    cases hforce : x.force <;> cases hown : x.host name <;>
      simp_all [Exchange.host]
  · have hnone : y.host name = none := by
      rw [← Option.not_isSome_iff_eq_none, ← hy.listed name hname hlength]
      exact hmem
    rw [hother, hnone]
    · cases x.force <;> simp [Exchange.host]
    · intro hpath
      obtain ⟨s, hs, heq⟩ := List.mem_map.mp hpath
      obtain ⟨name', hname', rfl⟩ := List.mem_map.mp hs
      have hentry := (List.mem_filter.mp hname').1
      exact hmem (hx.hostPath_inj (hy.short name' hentry) hlength heq ▸ hentry)

lemma isSome_merged (x y : Exchange) (name : Text) :
    (x.merged y name).isSome = ((x.host name).isSome || (y.host name).isSome) := by
  unfold Exchange.merged
  split <;> simp [Bool.or_comm]

/-- **After an exchange both nodes have the hosts of both.**  What was there stays without
`--force`, and what is new says what it said, without the name. -/
theorem exchangeAll_complete (x y : Exchange) (hx : x.WellKept) (hy : y.WellKept) (name : Text)
    (hname : checkId name = true) (hlength : name.length ≤ 255) :
    (x.cmdExchangeAll y.cmdExportAll.1).1 (x.hostPath name) = x.merged y name ∧
      ((x.cmdExchangeAll y.cmdExportAll.1).1 (x.hostPath name)).isSome =
        ((y.cmdExchangeAll x.cmdExportAll.1).1 (y.hostPath name)).isSome ∧
      ∀ file, y.host name = some file →
        (∀ line ∈ lines file, line.length < maxStringSize) →
        (fileSettings file).isSome = true → x.force = true ∨ x.host name = none →
        ∃ file', (x.cmdExchangeAll y.cmdExportAll.1).1 (x.hostPath name) = some file' ∧
          ∀ fname v, (readConfigFile [] fname file').2 = true ∧
            configValues (readConfigFile [] fname file').1 v =
              if sameIgnoringCase v (ascii "Name") then []
              else configValues (readConfigFile [] fname file).1 v := by
  have hexchange : ∀ {a b : Exchange}, a.WellKept → b.WellKept →
      (a.cmdExchangeAll b.cmdExportAll.1).1 (a.hostPath name) = a.merged b name := by
    intro a b ha hb
    unfold Exchange.cmdExchangeAll
    rw [if_neg (by simp [ha.exported.1])]
    exact cmdImport_exported ha hb hname hlength
  refine ⟨hexchange hx hy, ?_, fun file hfile hshort haccepted hnew => ?_⟩
  · rw [hexchange hx hy, hexchange hy hx, isSome_merged, isSome_merged, Bool.or_comm]
  · refine ⟨withoutName file, ?_, fun fname v =>
      withoutName_read_back (hy.plain name file hfile) hshort haccepted fname v⟩
    rw [hexchange hx hy, Exchange.merged, hfile]
    rcases hnew with hforce | hnone
    · simp [hforce]
    · cases x.force <;> simp [hnone]

/-- A directory with the file of one host. -/
def oneHost (hostsDir name file : Text) : Exchange where
  hostsDir := hostsDir
  entries := [name]
  files := fun p => if p = hostsDir ++ ascii "/" ++ name then some file else none
  force := false
  creates := fun _ => true

lemma oneHost_wellKept {hostsDir : Text} (hroom : hostsDir.length + 257 ≤ pathMax)
    (hlength : name.length ≤ 255) (h : Exchangeable file) :
    (oneHost hostsDir name file).WellKept := by
  have hslash : (ascii "/").length = 1 := by decide
  have hpath : ∀ {n : Text}, n.length ≤ 255 →
      ((oneHost hostsDir name file).hostPath n = hostsDir ++ ascii "/" ++ name ↔ n = name) := by
    intro n hn
    rw [hostPath_eq (by simp only [oneHost, List.length_append, hslash]; omega)]
    exact List.append_right_inj _
  refine ⟨hroom, fun _ _ => rfl, List.nodup_singleton _, ?_, fun n _ hn => ?_, fun n f hf => ?_⟩
  · intro n hn
    rw [List.mem_singleton.mp hn]
    exact hlength
  · unfold Exchange.host oneHost
    dsimp only
    split
    · rename_i heq
      simpa [oneHost] using (hpath hn).mp heq
    · rename_i hne
      simpa [oneHost] using fun heq => hne ((hpath hn).mpr heq)
  · unfold Exchange.host oneHost at hf
    dsimp only at hf
    split at hf
    · rwa [← Option.some.inj hf]
    · cases hf

/-- The host file of `b`, with a line that sets its name. -/
def fileOfB : Text := ascii "Subnet = 10.0.0.0/8\nName = b\nAddress = b.example\n"

lemma fileOfB_checked :
    0 ∉ fileOfB ∧ fileOfB.getLast? = some 10 ∧
      (∀ line ∈ lines fileOfB, line.length < maxStringSize ∧
        ∀ c ∈ ([11, 12, 13] : List UInt8), ¬ ascii "Name" ++ [c] <+: line) ∧
      separatorLine ∉ lines fileOfB ∧ (fileSettings fileOfB).isSome = true := by
  decide +kernel

lemma fileOfB_exchangeable : Exchangeable fileOfB := by
  obtain ⟨hzero, hlast, hlines, hsep, -⟩ := fileOfB_checked
  exact ⟨hzero, .inr hlast, fun l hl => (hlines l hl).1.trans (by decide), hsep,
    fun l hl => (hlines l hl).2⟩

theorem exchangeAll_complete_new :
    (((oneHost (ascii "g") (ascii "a") []).cmdExchangeAll
      (oneHost (ascii "h") (ascii "b") fileOfB).cmdExportAll.1).1 (ascii "g/b")).isSome = true := by
  have hempty : Exchangeable [] := ⟨by simp, .inl rfl, by simp [lines, linesFrom],
    by simp [lines, linesFrom], by simp [lines, linesFrom]⟩
  have hx := @oneHost_wellKept (ascii "a") [] (ascii "g") (by decide) (by decide) hempty
  have hy := @oneHost_wellKept (ascii "b") fileOfB (ascii "h") (by decide) (by decide)
    fileOfB_exchangeable
  obtain ⟨-, -, hread⟩ := exchangeAll_complete _ _ hx hy (ascii "b") (by decide) (by decide)
  obtain ⟨-, -, hlines, -, haccepted⟩ := fileOfB_checked
  obtain ⟨file', hfile', -⟩ := hread fileOfB rfl (fun l hl => (hlines l hl).1) haccepted
    (.inr (by decide))
  have hpath : (oneHost (ascii "g") (ascii "a") []).hostPath (ascii "b") = ascii "g/b" := by decide
  rw [← hpath, hfile']
  rfl

end Tinc
