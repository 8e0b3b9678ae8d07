import TincQuic.Invite.Run

/-!
# What an invitation file says

`create_invitation` writes lines of the form `key = value`, and `validate_invitation_token` reads
them again, with a buffer of 1024 bytes for a line.

* `readLine_token` and its like say what one line is read as.
* `strtol_decimal` and `atol_decimal` read a number that `printf` wrote.
* **The name, the token and the address come back, if they fit**: `readInvitation_text`.
-/

namespace Tinc

open Bytes CText

/-- A value that can stand in a line: it has no newline, and does not begin with what is skipped. -/
structure Value (t : Text) : Prop where
  newline : 10 ∉ t
  begins : ∀ c ∈ t.head?, c ≠ 32 ∧ c ≠ 9 ∧ c ≠ 61

lemma skipEquals_value {t : Text} (h : Value t) :
    skipEquals (ascii " = " ++ t ++ [10]) = t ++ [10] := by
  have hblank : skipEquals (ascii " = " ++ t ++ [10]) = skipEquals (t ++ [10]) := rfl
  rw [hblank]
  unfold skipEquals
  cases t with
  | nil => rfl
  | cons c t =>
      obtain ⟨h1, h2, h3⟩ := h.begins c rfl
      rw [List.cons_append, List.dropWhile_cons, if_neg (by simp [h1, h2, h3])]

lemma entryValue_value {t : Text} (h : Value t) (size : ℕ) :
    entryValue size (ascii " = " ++ t ++ [10]) = t.take size := by
  unfold entryValue
  rw [skipEquals_value h, List.takeWhile_append_of_pos]
  · simp
  · intro c hc
    have hne : c ≠ 10 := fun he => h.newline (he ▸ hc)
    simpa using hne

section Lines

variable (r : StoredInvitation) {t : Text}

lemma readLine_token (h : Value t) :
    r.readLine (entry (ascii "Token") t ++ [10]) = { r with token := t.take 255 } := by
  have hvalue := entryValue_value h 255
  rw [← hvalue]
  rfl

lemma readLine_name (h : Value t) :
    r.readLine (entry (ascii "Name") t ++ [10]) = { r with name := t.take 255 } := by
  have hvalue := entryValue_value h 255
  rw [← hvalue]
  rfl

lemma readLine_vpnAddress (h : Value t) :
    r.readLine (entry (ascii "VPNAddress") t ++ [10]) = { r with vpnAddress := t.take 63 } := by
  have hvalue := entryValue_value h 63
  rw [← hvalue]
  rfl

lemma readLine_created : r.readLine (entry (ascii "Created") t ++ [10]) = r := rfl

lemma readLine_expires : r.readLine (entry (ascii "Expires") t ++ [10]) =
    { r with expires := atol (skipEquals (ascii " = " ++ t ++ [10])) } := rfl

end Lines

/-! ## Numbers -/

/-- What may stand at the front of a number that was written with a sign if it is negative. -/
lemma decimal_front (n : ℤ) : ∃ digits, digits ≠ [] ∧ (∀ c ∈ digits, isDigit c = true) ∧
    (ofDigits digits : ℤ) = n.natAbs ∧ decimal n = if n < 0 then 45 :: digits else digits := by
  have hnat : ∀ m : ℕ, (toBase 10 m m).map digitByte = decimal (m : ℤ) := by
    intro m
    rw [decimal, if_neg (by omega), Int.natAbs_natCast]
  refine ⟨decimal (n.natAbs : ℤ), decimal_ne_nil _, decimal_digits _, ?_, ?_⟩
  · rw [← hnat]
    exact congrArg Nat.cast (ofDigits_toBase (lt_ten_pow _))
  · rw [← hnat]
    rfl

/-- What `printf` wrote, `strtol` reads, whatever stops the number. -/
lemma strtol_decimal (n : ℤ) {rest : Text} (hrest : ∀ c ∈ rest.head?, isDigit c = false) :
    strtol (decimal n ++ rest) = some (clampLong n, rest) := by
  obtain ⟨digits, hne, hdigits, hvalue, hn⟩ := decimal_front n
  obtain ⟨d, ds, rfl⟩ := List.exists_cons_of_ne_nil hne
  have hd : isDigit d = true := hdigits d (by simp)
  have hspace : isSpace d = false := isSpace_of_isDigit hd
  have hsign : d ≠ 45 ∧ d ≠ 43 := by
    constructor
    · rintro rfl
      exact absurd hd (by decide)
    · rintro rfl
      exact absurd hd (by decide)
  have hfield : ((d :: ds) ++ rest).takeWhile isDigit = d :: ds := by
    rw [List.takeWhile_append_of_pos hdigits]
    cases rest with
    | nil => simp
    | cons c rest => simp [hrest c rfl]
  have hdrop : ((d :: ds) ++ rest).drop (d :: ds).length = rest := List.drop_left
  rw [hn]
  by_cases hneg : n < 0
  · have hskip : skipSpace (45 :: (d :: ds) ++ rest) = 45 :: ((d :: ds) ++ rest) := rfl
    rw [if_pos hneg]
    unfold strtol
    simp only [hskip, List.head?_cons, true_or, if_true, List.tail_cons, hfield, hdrop, hvalue]
    rw [if_neg (by simp)]
    have habs : -(n.natAbs : ℤ) = n := by omega
    rw [habs]
  · have hskip : skipSpace ((d :: ds) ++ rest) = (d :: ds) ++ rest := by
      rw [List.cons_append, skipSpace, List.dropWhile_cons_of_neg (by simp [hspace])]
    have hhead : ((d :: ds) ++ rest).head? = some d := rfl
    rw [if_neg hneg]
    unfold strtol
    simp only [hskip, hhead, Option.some.injEq, hsign.1, hsign.2, or_self, if_false, hfield,
      hdrop, hvalue]
    rw [if_neg (by simp)]
    have habs : (n.natAbs : ℤ) = n := by omega
    rw [habs]

/-- A number of seconds that a `long` holds. -/
def IsLong (n : ℤ) : Prop := -2 ^ 63 ≤ n ∧ n < 2 ^ 63

lemma atol_decimal {n : ℤ} (h : IsLong n) : atol (decimal n ++ [10]) = n := by
  have hnewline : ∀ c ∈ ([10] : Text).head?, isDigit c = false := by
    intro c hc
    obtain rfl := Option.some.inj hc
    rfl
  rw [atol, strtol_decimal n hnewline]
  unfold IsLong at h
  simp only [Option.elim_some, clampLong]
  omega

lemma mem_decimal {n : ℤ} {c : UInt8} (hc : c ∈ decimal n) : c = 45 ∨ isDigit c = true := by
  obtain ⟨digits, -, hdigits, -, hn⟩ := decimal_front n
  rw [hn] at hc
  split at hc
  · exact (List.mem_cons.mp hc).imp_right (hdigits c)
  · exact .inr (hdigits c hc)

/-- A text of such characters can stand in a line. -/
lemma value_of_plain {t : Text} (h : ∀ c ∈ t, c ≠ 10 ∧ c ≠ 32 ∧ c ≠ 9 ∧ c ≠ 61) : Value t where
  newline hc := (h 10 hc).1 rfl
  begins c hc := (h c (List.mem_of_mem_head? hc)).2

lemma value_decimal (n : ℤ) : Value (decimal n) := by
  refine value_of_plain fun c hc => ?_
  rcases mem_decimal hc with rfl | hdigit
  · decide
  · refine ⟨?_, ?_, ?_, ?_⟩
    · rintro rfl
      exact absurd hdigit (by decide)
    · rintro rfl
      exact absurd hdigit (by decide)
    · rintro rfl
      exact absurd hdigit (by decide)
    · rintro rfl
      exact absurd hdigit (by decide)

lemma length_decimal_isLong {n : ℤ} (h : IsLong n) : (decimal n).length ≤ 20 := by
  have hlt : n.natAbs < 10 ^ (18 + 1) := by
    unfold IsLong at h
    omega
  have hlength : ((toBase 10 n.natAbs n.natAbs).map digitByte).length ≤ 18 + 1 := by
    rw [List.length_map]
    exact length_toBase_le (by decide) hlt
  rw [decimal]
  split
  · rw [List.length_cons]
    omega
  · omega

/-! ## The file -/

/-- A line that fits into the buffer is read as a whole. -/
lemma foldl_readLine {line : Text} (h : 10 ∉ line) (hfits : line.length ≤ 1022)
    (r : StoredInvitation) (rest : Text) :
    (fgets 1024 (line ++ 10 :: rest)).foldl StoredInvitation.readLine r =
      (fgets 1024 rest).foldl StoredInvitation.readLine (r.readLine (line ++ [10])) := by
  rw [fgets_line h (by omega)]
  rfl

/-- A line with a key and a value that fits into the buffer is read as a whole. -/
lemma foldl_entry {key value : Text} (hkey : 10 ∉ key) (hlength : key.length ≤ 10)
    (hvalue : Value value) (hfits : value.length ≤ 255) (r : StoredInvitation) (rest : Text) :
    (fgets 1024 (entry key value ++ 10 :: rest)).foldl StoredInvitation.readLine r =
      (fgets 1024 rest).foldl StoredInvitation.readLine (r.readLine (entry key value ++ [10])) := by
  have hequals : (10 : UInt8) ∉ ascii " = " ∧ (ascii " = ").length = 3 := by decide
  refine foldl_readLine ?_ ?_ r rest
  · simp [entry, hkey, hequals, hvalue.newline]
  · rw [entry, List.length_append, List.length_append, hequals.2]
    omega

/-- **The invitation is read as it was written**, if its values fit into their buffers. -/
lemma readInvitation_text {name token : Text} {vpnAddress : Option Text} {now : ℤ}
    (hname : Value name) (hnameFits : name.length ≤ 255) (htoken : Value token)
    (htokenFits : token.length ≤ 255)
    (hvpn : ∀ a ∈ vpnAddress, Value a ∧ a.length ≤ 63) (hnow : IsLong now)
    (hexpires : IsLong (now + invitationValidity)) :
    readInvitation (invitationText name token now vpnAddress) =
      { token := token, name := name, vpnAddress := vpnAddress.getD [],
        expires := now + invitationValidity } := by
  have hcreated := (length_decimal_isLong hnow).trans (by decide : 20 ≤ 255)
  have hexpire := (length_decimal_isLong hexpires).trans (by decide : 20 ≤ 255)
  have hread : atol (skipEquals (ascii " = " ++ decimal (now + invitationValidity) ++ [10])) =
      now + invitationValidity := by
    rw [skipEquals_value (value_decimal _), atol_decimal hexpires]
  unfold readInvitation invitationText
  rw [foldl_entry (by decide) (by decide) hname hnameFits, readLine_name _ hname,
    foldl_entry (by decide) (by decide) htoken htokenFits, readLine_token _ htoken,
    foldl_entry (by decide) (by decide) (value_decimal _) hcreated, readLine_created,
    foldl_entry (by decide) (by decide) (value_decimal _) hexpire, readLine_expires, hread,
    List.take_of_length_le hnameFits, List.take_of_length_le htokenFits]
  cases vpnAddress with
  | none => rfl
  | some a =>
      obtain ⟨ha, hfits⟩ := hvpn a rfl
      have hline := foldl_entry (by decide : 10 ∉ ascii "VPNAddress") (by decide) ha
        (hfits.trans (by decide))
        { token := token, name := name, expires := now + invitationValidity } []
      rw [readLine_vpnAddress _ ha, List.take_of_length_le hfits] at hline
      exact hline

end Tinc
