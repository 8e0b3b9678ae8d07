import TincQuic.Conf.Lines
import TincQuic.Lib.CBuffer

/-!
# What `parse_config_line` touches

`parse_config_line` gets a pointer to a line and walks over it with four loops.  The first of them
goes backwards from the terminator as long as it finds blanks, and has no other reason to stop.
Here the line is all the memory there is, so a result says that nothing outside was touched.

* `spanUntil_eq` and `stripBlanks_eq` describe the loops.
* **With a byte that is no blank the result is the variable and the value; without one the first
  loop leaves the line in front**: `parseLine_iff`.
-/

namespace Tinc

open Bytes CText CBuffer

/-- A loop that goes forward to the first byte at which it stops. -/
def spanUntil (stop : UInt8 → Bool) (mem : List UInt8) (i : ℕ) : Option ℕ :=
  if i < mem.length then do
    let c ← mem[i]?
    if stop c then some i else spanUntil stop mem (i + 1)
  else none
termination_by mem.length - i

/-- `while(strchr("\t ", *--eol)) *eol = '\0'`; `strchr` finds the terminator, too. -/
def stripBlanks (mem : List UInt8) (eol : ℕ) : Option (List UInt8) :=
  match eol with
  | 0 => none
  | eol + 1 => do
      let c ← mem[eol]?
      if isBlank c ∨ c = 0 then do
        let mem ← store mem eol [0]
        stripBlanks mem eol
      else some mem

/-- `strcspn(value, "\t =")` stops here. -/
def endsVariable (c : UInt8) : Bool := isBlank c ∨ c = 61 ∨ c = 0

/-- What `parse_config_line` does once it knows the two places: it ends the variable, and copies
both texts if there is a value. -/
def takeSetting (mem : List UInt8) (len value : ℕ) : Option (List UInt8 × Option Setting) := do
  let mem ← store mem len [0]
  let c ← mem[value]?
  if c = 0 then some (mem, none)
  else do
    let var ← string mem 0
    let value ← string mem value
    some (mem, some (var, value))

/-- `parse_config_line` on the memory of the line: the memory, and the variable and the value if
there is one. -/
def parseLine (mem : List UInt8) : Option (List UInt8 × Option Setting) := do
  let eol ← spanUntil (· = 0) mem 0
  let mem ← stripBlanks mem eol
  let len ← spanUntil endsVariable mem 0
  let value ← spanUntil (fun c => !(isBlank c)) mem len
  let c ← mem[value]?
  let value ← if c = 61 then spanUntil (fun c => !(isBlank c)) mem (value + 1) else some value
  takeSetting mem len value

/-! ## The loops -/

variable {line front s w rest mem : List UInt8} {stop : UInt8 → Bool} {c : UInt8}

/-- The loop passes over what it does not stop at. -/
lemma spanUntil_eq (hs : ∀ c ∈ s, stop c = false) (hc : stop c = true) :
    spanUntil stop (front ++ s ++ c :: rest) front.length = some (front.length + s.length) := by
  induction s generalizing front with
  | nil =>
      rw [spanUntil, if_pos (by simp), List.append_nil, List.getElem?_append_right le_rfl,
        Nat.sub_self]
      simp [hc]
  | cons d s ih =>
      have hread : (front ++ d :: s ++ c :: rest)[front.length]? = some d := by
        rw [List.append_assoc, List.getElem?_append_right le_rfl, Nat.sub_self]
        rfl
      have ih := @ih (front ++ [d]) fun c hc => hs c (List.mem_cons_of_mem _ hc)
      rw [List.length_append, List.length_singleton] at ih
      rw [spanUntil, if_pos (by simp), hread]
      simp only [Option.bind_eq_bind, Option.bind_some, hs d List.mem_cons_self,
        Bool.false_eq_true, if_false]
      rw [show front ++ d :: s ++ c :: rest = (front ++ [d]) ++ s ++ c :: rest by simp, ih,
        List.length_cons]
      congr 1
      omega

/-- Behind a byte that is no blank, blanks become terminators. -/
lemma stripBlanks_eq (hc : isBlank c = false) (h0 : c ≠ 0) (hw : ∀ d ∈ w, isBlank d = true)
    (rest : List UInt8) :
    stripBlanks (front ++ c :: w ++ rest) (front.length + 1 + w.length) =
      some (front ++ c :: List.replicate w.length 0 ++ rest) := by
  induction w using List.reverseRecOn generalizing rest with
  | nil =>
      have hread : (front ++ c :: [] ++ rest)[front.length]? = some c := by
        rw [List.append_assoc, List.getElem?_append_right le_rfl, Nat.sub_self]
        rfl
      rw [List.length_nil, Nat.add_zero, stripBlanks, hread]
      simp [hc, h0]
  | append_singleton w d ih =>
      have hwhole : front ++ c :: (w ++ [d]) ++ rest = (front ++ c :: w) ++ [d] ++ rest := by simp
      have hlen : (front ++ c :: w).length = front.length + 1 + w.length := by
        simp
        omega
      have hread : ((front ++ c :: w) ++ [d] ++ rest)[front.length + 1 + w.length]? = some d := by
        rw [← hlen, List.append_assoc, List.getElem?_append_right le_rfl, Nat.sub_self]
        rfl
      have hstore := @store_append (front ++ c :: w) [d] rest [0] rfl
      rw [hlen] at hstore
      have hd : isBlank d = true := hw d (by simp)
      have ih := ih (fun d hd => hw d (List.mem_append_left _ hd)) (0 :: rest)
      rw [List.length_append, List.length_singleton, ← Nat.add_assoc, stripBlanks, hwhole, hread]
      simp only [Option.bind_eq_bind, Option.bind_some, hd, true_or, if_true, hstore]
      rw [List.append_assoc, List.singleton_append, ih, List.replicate_succ']
      simp

/-- **A line of blanks is left in front.** -/
lemma stripBlanks_eq_none (hw : ∀ d ∈ w, isBlank d = true) (rest : List UInt8) :
    stripBlanks (w ++ rest) w.length = none := by
  induction w using List.reverseRecOn generalizing rest with
  | nil => rfl
  | append_singleton w d ih =>
      have hread : ((w ++ [d]) ++ rest)[w.length]? = some d := by
        rw [List.append_assoc, List.getElem?_append_right le_rfl, Nat.sub_self]
        rfl
      have hstore := @store_append w [d] rest [0] rfl
      have hd : isBlank d = true := hw d (by simp)
      rw [List.length_append, List.length_singleton, stripBlanks, hread]
      simp only [Option.bind_eq_bind, Option.bind_some, hd, true_or, if_true, hstore]
      rw [List.append_assoc]
      exact ih (fun d hd => hw d (List.mem_append_left _ hd)) _

/-! ## The parts of a line -/

variable {var value blanks junk t : List UInt8}

/-- A text begins with a byte at which a loop stops. -/
def StopsAt (stop : UInt8 → Bool) (t : List UInt8) : Prop :=
  ∃ c rest, t = c :: rest ∧ stop c = true

lemma spanUntil_append (hs : ∀ c ∈ s, stop c = false) (ht : StopsAt stop t) :
    spanUntil stop (front ++ s ++ t) front.length = some (front.length + s.length) := by
  obtain ⟨c, rest, rfl, hc⟩ := ht
  exact spanUntil_eq hs hc

/-- The value is empty, or it begins with something else than a blank. -/
lemma stopsAt_value (h : isBlank (value.headD 0) = false) (junk : List UInt8) :
    StopsAt (fun c => !(isBlank c)) (value ++ 0 :: junk) := by
  cases value with
  | nil => exact ⟨0, junk, rfl, rfl⟩
  | cons c value => exact ⟨c, value ++ 0 :: junk, rfl, by simpa using h⟩

lemma headD_dropWhile (t : List UInt8) : isBlank ((t.dropWhile isBlank).headD 0) = false := by
  induction t with
  | nil => rfl
  | cons c t ih =>
      rw [List.dropWhile_cons]
      split
      · exact ih
      · rename_i hc
        simpa using hc

/-- How the daemon's parser divides a text: with an equals sign, or without one. -/
lemma assignment_parts (s : Text) :
    ∃ blanks, (∀ c ∈ blanks, isBlank c = true) ∧
      (∀ c ∈ (assignment s).1, isBlank c = false ∧ c ≠ 61) ∧
      isBlank ((assignment s).2.headD 0) = false ∧
      ((∃ blanks', (∀ c ∈ blanks', isBlank c = true) ∧
          s = (assignment s).1 ++ blanks ++ 61 :: blanks' ++ (assignment s).2) ∨
        s = (assignment s).1 ++ blanks ++ (assignment s).2 ∧ (assignment s).2.head? ≠ some 61 ∧
          (blanks = [] → (assignment s).2 = [])) := by
  unfold assignment
  generalize hp : (fun c => !(isBlank c) && decide (c ≠ 61)) = p
  have hsplit : s.takeWhile p ++ s.dropWhile p = s := List.takeWhile_append_dropWhile
  have hdrop : s.drop (s.takeWhile p).length = s.dropWhile p := by
    have hleft := @List.drop_left _ (s.takeWhile p) (s.dropWhile p)
    rwa [hsplit] at hleft
  have hvar : ∀ c ∈ s.takeWhile p, isBlank c = false ∧ c ≠ 61 := by
    intro c hc
    have h := List.mem_takeWhile_imp hc
    rw [← hp] at h
    simpa using h
  simp only [hdrop]
  generalize hrest : s.dropWhile p = rest at hsplit
  have hblanks : rest.takeWhile isBlank ++ rest.dropWhile isBlank = rest :=
    List.takeWhile_append_dropWhile
  refine ⟨rest.takeWhile isBlank, fun c hc => List.mem_takeWhile_imp hc, hvar, ?_, ?_⟩
  · unfold afterEquals
    split
    · exact headD_dropWhile _
    · exact headD_dropWhile _
  · cases hvalue : rest.dropWhile isBlank with
    | nil =>
        rw [hvalue, List.append_nil] at hblanks
        refine .inr ⟨?_, by simp [afterEquals], fun _ => rfl⟩
        rw [hblanks]
        simpa [afterEquals] using hsplit.symm
    | cons c r =>
        rw [hvalue] at hblanks
        by_cases hc : c = 61
        · subst hc
          refine .inl ⟨r.takeWhile isBlank, fun c hc => List.mem_takeWhile_imp hc, ?_⟩
          have hr : r.takeWhile isBlank ++ r.dropWhile isBlank = r :=
            List.takeWhile_append_dropWhile
          simp only [afterEquals, List.head?_cons, if_true, List.tail_cons, List.append_assoc,
            List.cons_append, hr, hblanks, hsplit]
        · have hafter : afterEquals (c :: r) = c :: r := by simp [afterEquals, hc]
          rw [hafter]
          refine .inr ⟨by rw [List.append_assoc, hblanks, hsplit], by simpa using hc,
            fun hnil => ?_⟩
          -- without blanks the first byte of the value would be one of the variable
          rw [hnil, List.nil_append] at hblanks
          have hfirst : p c = false := by
            have h := List.head?_dropWhile_not p s
            rw [hrest, ← hblanks] at h
            simpa using h
          have hblank : isBlank c = false := by
            have h := List.head?_dropWhile_not isBlank rest
            rw [hvalue] at h
            simpa using h
          rw [← hp] at hfirst
          simp [hblank, hc] at hfirst

/-! ## The whole function -/

/-- The end of the function, at a line whose value stands at `k`. -/
lemma takeSetting_eq {k : ℕ} {d : UInt8} (hvar : 0 ∉ var) (hvalue : 0 ∉ value)
    (hmem : mem = var ++ d :: rest) (hdrop : mem.drop k = value ++ 0 :: junk)
    (hk : var.length < k ∨ value = []) :
    ∃ mem', takeSetting mem var.length k =
      some (mem', if value = [] then none else some (var, value)) := by
  have hstore : store mem var.length [0] = some (var ++ 0 :: rest) := by
    have h := @store_append var [d] rest [0] rfl
    rw [List.append_assoc, List.append_assoc] at h
    rw [hmem]
    exact h
  have hread : ∀ j, (var ++ 0 :: rest)[j]? = if j = var.length then some 0 else mem[j]? := by
    intro j
    have h := getElem?_store hstore j
    rw [h]
    by_cases hj : j = var.length
    · rw [if_pos (by simp; omega), if_pos hj, hj, Nat.sub_self]
      rfl
    · rw [if_neg (by simp; omega), if_neg hj]
  have hat : mem[k]? = (value ++ 0 :: junk)[0]? := by
    rw [← hdrop, List.getElem?_drop, Nat.add_zero]
  refine ⟨var ++ 0 :: rest, ?_⟩
  unfold takeSetting
  rw [hstore]
  simp only [Option.bind_eq_bind, Option.bind_some]
  cases value with
  | nil =>
      have hzero : (var ++ 0 :: rest)[k]? = some 0 := by
        rw [hread, hat]
        split <;> rfl
      rw [hzero]
      rfl
  | cons c value =>
      have hlt : var.length < k := hk.resolve_right (by simp)
      have hc : c ≠ 0 := fun h => hvalue (by simp [h])
      have hfirst : (var ++ 0 :: rest)[k]? = some c := by
        rw [hread, if_neg (by omega), hat]
        rfl
      have hbehind : (var ++ 0 :: rest).drop k = c :: value ++ 0 :: junk := by
        rw [← hdrop, hmem, List.drop_append, List.drop_append,
          List.drop_of_length_le hlt.le, List.nil_append, List.nil_append]
        obtain ⟨n, hn⟩ : ∃ n, k - var.length = n + 1 := ⟨k - var.length - 1, by omega⟩
        rw [hn, List.drop_succ_cons, List.drop_succ_cons]
      have hholds : Holds (var ++ 0 :: rest) var := ⟨hvar, rest, rfl⟩
      have hname := hholds.string (Nat.zero_le _)
      have hvaluetext : string (var ++ 0 :: rest) k = some (c :: value) := by
        rw [string, hbehind, if_pos (by simp), cstr_append hvalue]
      rw [hfirst]
      simp only [Option.bind_some]
      rw [if_neg hc, hname, hvaluetext]
      simp

/-- **A line without blanks at its end is taken apart as `assignment` says.** -/
lemma parse_stripped (h0 : 0 ∉ s) (junk : List UInt8) :
    ∃ mem', (do
      let len ← spanUntil endsVariable (s ++ 0 :: junk) 0
      let value ← spanUntil (fun c => !(isBlank c)) (s ++ 0 :: junk) len
      let c ← (s ++ 0 :: junk)[value]?
      let value ←
        if c = 61 then spanUntil (fun c => !(isBlank c)) (s ++ 0 :: junk) (value + 1)
        else some value
      takeSetting (s ++ 0 :: junk) len value) =
      some (mem', if (assignment s).2 = [] then none else some (assignment s)) := by
  obtain ⟨blanks, hblanks, hvar, hvalue, hparts⟩ := assignment_parts s
  generalize assignment s = setting at hvar hvalue hparts
  obtain ⟨var, value⟩ := setting
  simp only at hvar hvalue hparts
  have hname : ∀ c ∈ var, endsVariable c = false := by
    intro c hc
    have hmem : c ∈ s := by
      rcases hparts with ⟨_, -, hs⟩ | ⟨hs, -⟩ <;> rw [hs] <;> simp [hc]
    have hne : c ≠ 0 := fun h => h0 (h ▸ hmem)
    simp [endsVariable, (hvar c hc).1, (hvar c hc).2, hne]
  have hstop : ∀ c ∈ blanks, (!(isBlank c)) = false := fun c hc => by simp [hblanks c hc]
  have hends : ∀ (t : List UInt8) (d : UInt8), endsVariable d = true →
      StopsAt endsVariable (blanks ++ d :: t) := by
    intro t d hd
    cases blanks with
    | nil => exact ⟨d, t, rfl, hd⟩
    | cons b blanks => exact ⟨b, _, rfl, by simp [endsVariable, hblanks b (by simp)]⟩
  have hzero : 0 ∉ var ∧ 0 ∉ value := by
    rcases hparts with ⟨_, -, hs⟩ | ⟨hs, -⟩ <;> rw [hs] at h0 <;> simp at h0 <;> tauto
  rcases hparts with ⟨blanks', hblanks', hs⟩ | ⟨hs, hnot, hnil⟩
  · have hmem : s ++ 0 :: junk = var ++ (blanks ++ 61 :: (blanks' ++ value ++ 0 :: junk)) := by
      rw [hs]
      simp
    have hlen : spanUntil endsVariable (s ++ 0 :: junk) 0 = some var.length := by
      have h := @spanUntil_append [] var endsVariable _ hname
        (hends (blanks' ++ value ++ 0 :: junk) 61 rfl)
      rw [hmem]
      simpa using h
    have hfirst : spanUntil (fun c => !(isBlank c)) (s ++ 0 :: junk) var.length =
        some (var.length + blanks.length) := by
      have h := @spanUntil_append var blanks _ (61 :: (blanks' ++ value ++ 0 :: junk)) hstop
        ⟨61, _, rfl, rfl⟩
      rw [hmem, ← List.append_assoc]
      exact h
    have hread : (s ++ 0 :: junk)[var.length + blanks.length]? = some 61 := by
      rw [hmem, ← List.append_assoc, ← List.length_append, List.getElem?_append_right le_rfl,
        Nat.sub_self]
      rfl
    have hfront : s ++ 0 :: junk = (var ++ blanks ++ [61]) ++ blanks' ++ (value ++ 0 :: junk) := by
      rw [hs]
      simp
    have hsecond : spanUntil (fun c => !(isBlank c)) (s ++ 0 :: junk)
        (var.length + blanks.length + 1) =
        some ((var ++ blanks ++ [61]).length + blanks'.length) := by
      have h := @spanUntil_append (var ++ blanks ++ [61]) blanks' _ (value ++ 0 :: junk)
        (fun c hc => by simp [hblanks' c hc]) (stopsAt_value hvalue junk)
      have hlength : (var ++ blanks ++ [61]).length = var.length + blanks.length + 1 := by
        rw [List.length_append, List.length_append, List.length_singleton]
      rw [hfront, ← hlength]
      exact h
    have hdrop : (s ++ 0 :: junk).drop ((var ++ blanks ++ [61]).length + blanks'.length) =
        value ++ 0 :: junk := by
      rw [hfront, ← List.length_append, List.drop_left]
    obtain ⟨d, rest, hd⟩ : ∃ d rest, blanks ++ 61 :: (blanks' ++ value ++ 0 :: junk) = d :: rest :=
      List.exists_cons_of_ne_nil (by simp)
    rw [hd] at hmem
    obtain ⟨mem', htake⟩ := takeSetting_eq hzero.1 hzero.2 hmem hdrop
      (.inl (by simp only [List.length_append, List.length_singleton]; omega))
    refine ⟨mem', ?_⟩
    rw [hlen]
    simp only [Option.bind_eq_bind, Option.bind_some, hfirst, hread, if_true, hsecond, htake]
  · have hmem : s ++ 0 :: junk = var ++ (blanks ++ (value ++ 0 :: junk)) := by
      rw [hs]
      simp
    have hbehind : StopsAt endsVariable (blanks ++ (value ++ 0 :: junk)) := by
      cases hb : blanks with
      | nil =>
          rw [hnil hb]
          exact ⟨0, junk, rfl, rfl⟩
      | cons b blanks' =>
          exact ⟨b, _, rfl, by simp [endsVariable, hblanks b (by simp [hb])]⟩
    have hlen : spanUntil endsVariable (s ++ 0 :: junk) 0 = some var.length := by
      have h := @spanUntil_append [] var endsVariable _ hname hbehind
      rw [hmem]
      simpa using h
    have hfirst : spanUntil (fun c => !(isBlank c)) (s ++ 0 :: junk) var.length =
        some (var.length + blanks.length) := by
      have h := @spanUntil_append var blanks _ (value ++ 0 :: junk) hstop
        (stopsAt_value hvalue junk)
      rw [hmem, ← List.append_assoc]
      exact h
    have hdrop : (s ++ 0 :: junk).drop (var.length + blanks.length) = value ++ 0 :: junk := by
      rw [hmem, ← List.append_assoc, ← List.length_append, List.drop_left]
    obtain ⟨c, hread, hc⟩ :
        ∃ c, (s ++ 0 :: junk)[var.length + blanks.length]? = some c ∧ c ≠ 61 := by
      have hat : (s ++ 0 :: junk)[var.length + blanks.length]? = (value ++ 0 :: junk)[0]? := by
        rw [← hdrop, List.getElem?_drop, Nat.add_zero]
      cases value with
      | nil => exact ⟨0, hat, by decide⟩
      | cons c value => exact ⟨c, hat, by simpa using hnot⟩
    obtain ⟨d, rest, hd⟩ : ∃ d rest, blanks ++ (value ++ 0 :: junk) = d :: rest :=
      List.exists_cons_of_ne_nil (by simp)
    rw [hd] at hmem
    have hplace : var.length < var.length + blanks.length ∨ value = [] := by
      by_cases hb : blanks = []
      · exact .inr (hnil hb)
      · have := List.length_pos_iff.mpr hb
        exact .inl (by omega)
    obtain ⟨mem', htake⟩ := takeSetting_eq hzero.1 hzero.2 hmem hdrop hplace
    refine ⟨mem', ?_⟩
    rw [hlen]
    simp only [Option.bind_eq_bind, Option.bind_some, hfirst, hread, if_neg hc, htake]

/-- A line is blank, or it ends with blanks behind a byte that is none. -/
lemma blank_or_ends (line : Text) : (∀ c ∈ line, isBlank c = true) ∨
    ∃ front c w, line = front ++ c :: w ∧ isBlank c = false ∧ (∀ d ∈ w, isBlank d = true) ∧
      line.rdropWhile isBlank = front ++ [c] := by
  induction line using List.reverseRecOn with
  | nil => exact .inl (by simp)
  | append_singleton line d ih =>
      by_cases hd : isBlank d = true
      · rcases ih with hall | ⟨front, c, w, rfl, hc, hw, hdrop⟩
        · exact .inl (by simpa [or_imp, forall_and, hd] using hall)
        · refine .inr ⟨front, c, w ++ [d], by simp, hc, ?_, ?_⟩
          · simpa [or_imp, forall_and, hd] using hw
          · rw [List.rdropWhile_concat_pos _ _ _ hd, hdrop]
      · rw [Bool.not_eq_true] at hd
        exact .inr ⟨line, d, [], rfl, hd, by simp, List.rdropWhile_concat_neg _ _ _ (by simp [hd])⟩

/-- What the function should store: the text before the first blank or equals sign, and the text
behind the separator without blanks at its end, if there is any. -/
def storedSetting (line : Text) : Option Setting :=
  let (var, value) := assignment line
  if value.rdropWhile isBlank = [] then none else some (var, value.rdropWhile isBlank)


/-- The value behind an equals sign. -/
lemma assignment_equals (hvar : ∀ c ∈ var, isBlank c = false ∧ c ≠ 61)
    (hblanks : ∀ c ∈ blanks, isBlank c = true) (t : List UInt8) :
    assignment (var ++ blanks ++ 61 :: t) = (var, t.dropWhile isBlank) := by
  have hstop : (blanks ++ 61 :: t).takeWhile (fun c => !(isBlank c) && decide (c ≠ 61)) = [] := by
    cases blanks with
    | nil => rfl
    | cons b blanks => simp [hblanks b (by simp)]
  have htake : (var ++ blanks ++ 61 :: t).takeWhile (fun c => !(isBlank c) && decide (c ≠ 61)) =
      var := by
    rw [List.append_assoc, List.takeWhile_append_of_pos fun c hc => by simp [hvar c hc], hstop,
      List.append_nil]
  have hskip : (blanks ++ 61 :: t).dropWhile isBlank = 61 :: t := by
    rw [List.dropWhile_append_of_pos hblanks]
    rfl
  unfold assignment
  simp only [htake]
  rw [List.append_assoc, List.drop_left, hskip]
  rfl

/-- Without an equals sign and without a value. -/
lemma assignment_blanks (hvar : ∀ c ∈ var, isBlank c = false ∧ c ≠ 61)
    (hblanks : ∀ c ∈ blanks, isBlank c = true) : assignment (var ++ blanks) = (var, []) := by
  have hstop : blanks.takeWhile (fun c => !(isBlank c) && decide (c ≠ 61)) = [] := by
    cases blanks with
    | nil => rfl
    | cons b blanks => simp [hblanks b (by simp)]
  have htake : (var ++ blanks).takeWhile (fun c => !(isBlank c) && decide (c ≠ 61)) = var := by
    rw [List.takeWhile_append_of_pos fun c hc => by simp [hvar c hc], hstop, List.append_nil]
  unfold assignment
  simp only [htake]
  rw [List.drop_left, List.dropWhile_eq_nil_iff.mpr hblanks]
  rfl

/-- Blanks at the end of the line do not change what is stored. -/
lemma storedSetting_eq (line : Text) : storedSetting line =
    if (assignment (line.rdropWhile isBlank)).2 = [] then none
    else some (assignment (line.rdropWhile isBlank)) := by
  obtain ⟨w, hline, hw⟩ := exists_rdropWhile isBlank line
  generalize hs : line.rdropWhile isBlank = s at hline
  have hend : s.rdropWhile isBlank = s := by
    rw [← hs]
    exact List.rdropWhile_idempotent _ _
  obtain ⟨blanks, hblanks, hvar, hvalue, hparts⟩ := assignment_parts s
  have hstrip : ∀ t : Text, (t ++ w).rdropWhile isBlank = t.rdropWhile isBlank := by
    intro t
    simp only [List.rdropWhile, List.reverse_append]
    rw [List.dropWhile_append_of_pos fun c hc => hw c (List.mem_reverse.mp hc)]
  unfold storedSetting
  by_cases hnil : (assignment s).2 = []
  · rw [if_pos hnil]
    rw [hnil] at hparts
    rcases hparts with ⟨blanks', hblanks', hsplit⟩ | ⟨hsplit, -⟩
    · have happend : line = (assignment s).1 ++ blanks ++ 61 :: (blanks' ++ w) := by
        rw [hline]
        conv_lhs => rw [hsplit]
        simp
      rw [happend, assignment_equals hvar hblanks, List.dropWhile_eq_nil_iff.mpr]
      · rfl
      · exact fun c hc => (List.mem_append.mp hc).elim (hblanks' c) (hw c)
    · have happend : line = (assignment s).1 ++ (blanks ++ w) := by
        rw [hline]
        conv_lhs => rw [hsplit]
        simp
      rw [happend, assignment_blanks hvar fun c hc =>
        (List.mem_append.mp hc).elim (hblanks c) (hw c)]
      rfl
  · have happend : assignment (s ++ w) = ((assignment s).1, (assignment s).2 ++ w) :=
      assignment_append rfl hnil w
    have hlast : (assignment s).2.rdropWhile isBlank = (assignment s).2 := by
      obtain ⟨front, hfront⟩ : ∃ front, s = front ++ (assignment s).2 := by
        rcases hparts with ⟨blanks', -, hsplit⟩ | ⟨hsplit, -⟩
        · exact ⟨_, hsplit⟩
        · exact ⟨_, hsplit⟩
      rw [List.rdropWhile_eq_self_iff] at hend ⊢
      intro hne
      have hmem := hend (by rw [hfront]; simp [hne])
      rwa [List.getLast_congr _ (by simp [hne]) hfront, List.getLast_append_of_ne_nil _ hne] at hmem
    rw [hline, happend]
    simp only [hstrip, hlast]

/-- With a byte that is no blank, the function stays inside and stores what it should. -/
lemma parseLine_eq (h0 : 0 ∉ line) (h : ∃ c ∈ line, isBlank c = false) :
    ∃ mem', parseLine (line ++ [0]) = some (mem', storedSetting line) := by
  obtain ⟨front, c, w, rfl, hc, hw, hdrop⟩ := (blank_or_ends line).resolve_left fun hall => by
    obtain ⟨c, hmem, hc⟩ := h
    rw [hall c hmem] at hc
    cases hc
  have heol : spanUntil (fun c => decide (c = 0)) (front ++ c :: w ++ [0]) 0 =
      some (front.length + 1 + w.length) := by
    have h := @spanUntil_append [] (front ++ c :: w) (fun c => decide (c = 0)) [0]
      (fun d hd => by simpa using ne_of_mem_of_not_mem hd h0) ⟨0, [], rfl, rfl⟩
    rw [List.nil_append, List.length_nil, Nat.zero_add] at h
    rw [h]
    simp
    omega
  have hstrip := @stripBlanks_eq front w c hc (fun h => h0 (by simp [h])) hw [0]
  have hmem : front ++ c :: List.replicate w.length 0 ++ [0] =
      (front ++ [c]) ++ 0 :: List.replicate w.length 0 := by
    rw [List.append_assoc, List.append_assoc, List.cons_append, ← List.replicate_succ',
      List.replicate_succ]
    rfl
  obtain ⟨mem', hparse⟩ := parse_stripped (s := front ++ [c])
    (fun hmem => h0 (by simp at hmem ⊢; tauto)) (List.replicate w.length 0)
  refine ⟨mem', ?_⟩
  rw [storedSetting_eq, hdrop, ← hparse]
  unfold parseLine
  rw [heol]
  simp only [Option.bind_eq_bind, Option.bind_some, hstrip, hmem]

/-- On a line of blanks the function leaves the line. -/
lemma parseLine_blank (h0 : 0 ∉ line) (hblank : ∀ c ∈ line, isBlank c = true) :
    parseLine (line ++ [0]) = none := by
  have heol : spanUntil (fun c => decide (c = 0)) (line ++ [0]) 0 = some line.length := by
    have h := @spanUntil_append [] line (fun c => decide (c = 0)) [0]
      (fun d hd => by simpa using ne_of_mem_of_not_mem hd h0) ⟨0, [], rfl, rfl⟩
    simpa using h
  unfold parseLine
  rw [heol]
  simp only [Option.bind_eq_bind, Option.bind_some, stripBlanks_eq_none hblank]
  rfl

/-- **The loop that goes backwards stays inside the line exactly if the line has a byte that is no
blank**, and then the result is the right one. -/
theorem parseLine_iff (line : Text) (h0 : 0 ∉ line) :
    (∃ mem', parseLine (line ++ [0]) = some (mem', storedSetting line)) ↔
      ∃ c ∈ line, isBlank c = false := by
  constructor
  · rintro ⟨mem', hparse⟩
    by_contra hall
    have hblank : ∀ c ∈ line, isBlank c = true := by simpa using hall
    rw [parseLine_blank h0 hblank] at hparse
    cases hparse
  · exact parseLine_eq h0

/-- The line `P = 6 `, with a value and blanks around it. -/
theorem parseLine_iff_port :
    (∃ mem', parseLine ([80, 32, 61, 32, 54, 32] ++ [0]) =
      some (mem', storedSetting [80, 32, 61, 32, 54, 32])) ↔
      ∃ c ∈ ([80, 32, 61, 32, 54, 32] : Text), isBlank c = false :=
  parseLine_iff [80, 32, 61, 32, 54, 32] (by decide)

/-- A line of one space. -/
theorem blankLine_escapes :
    ¬ ∃ mem', parseLine ([32] ++ [0]) = some (mem', storedSetting [32]) := by
  rintro ⟨mem', hparse⟩
  have hblank : parseLine ([32] ++ [0]) = none :=
    parseLine_blank (by simp) (by simp [isBlank])
  rw [hblank] at hparse
  cases hparse

end Tinc
