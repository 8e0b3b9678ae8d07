import TincQuic.Invite.Files
import TincQuic.Lib.Scan

/-!
# Which address an invitation gets

`allocate_vpn_ip` goes through the addresses of the network and takes the first that nobody has.
That a host has one it learns from the database; that one is reserved, from the texts of the pending
invitations, where it looks for the address anywhere in a line.

* `Assignable` are the addresses of a network other than the first, the last and the inviter's own;
  `Assigned` those that a host or a pending invitation has.
* What is allocated is usable and not assigned.  **Something is allocated unless every free address
  is part of the text of another one that is reserved**: `vpn_allocation_iff`.  `10.0.0.2` is
  part of `10.0.0.25/24`.
-/

namespace Tinc

open Bytes CText Comparison

/-! ## Addresses in text -/

/-- The byte of an address at this bit. -/
def octet (ip n : UInt32) : ℕ := ((ip >>> n) &&& 0xff).toNat

lemma octet_eq (ip n : UInt32) (hn : n.toNat < 32) : octet ip n = ip.toNat / 2 ^ n.toNat % 256 := by
  rw [octet, UInt32.toNat_and, UInt32.toNat_shiftRight, Nat.mod_eq_of_lt hn,
    Nat.shiftRight_eq_div_pow]
  exact Nat.and_two_pow_sub_one_eq_mod _ 8

lemma octet_lt (ip n : UInt32) : octet ip n < 256 := by
  have hle : octet ip n ≤ 255 := by
    rw [octet, UInt32.toNat_and]
    exact Nat.and_le_right
  omega

/-- Four bytes, shifted into place. -/
lemma quad_eq {a b c d : ℕ} (hb : b < 256) (hc : c < 256) (hd : d < 256) :
    a <<< 24 ||| b <<< 16 ||| c <<< 8 ||| d = ((a * 256 + b) * 256 + c) * 256 + d := by
  have hshift : ∀ x y, y < 256 → x * 256 + y = x <<< 8 ||| y := fun x y h =>
    (shiftLeft_or_eq (k := 8) x h).symm
  rw [hshift a b hb, hshift _ c hc, hshift _ d hd]
  simp only [Nat.shiftLeft_or_distrib, ← Nat.shiftLeft_add]

lemma toNat_shiftLeft_octet {n : ℕ} {k : UInt32} (hn : n < 256) (hk : k.toNat ≤ 24) :
    (UInt32.ofNat n <<< k).toNat = n <<< k.toNat := by
  have hword : (UInt32.ofNat n).toNat = n := by
    rw [UInt32.toNat_ofNat']
    exact Nat.mod_eq_of_lt (by omega)
  have hlt : n * 2 ^ k.toNat < 2 ^ 32 := by
    calc n * 2 ^ k.toNat < 256 * 2 ^ k.toNat := Nat.mul_lt_mul_of_pos_right hn (Nat.two_pow_pos _)
      _ ≤ 256 * 2 ^ 24 := Nat.mul_le_mul_left _ (Nat.pow_le_pow_right (by decide) hk)
      _ = 2 ^ 32 := by decide
  rw [UInt32.toNat_shiftLeft, hword, Nat.mod_eq_of_lt (show k.toNat < 32 by omega),
    Nat.shiftLeft_eq, Nat.mod_eq_of_lt hlt]

/-- An address is its four bytes. -/
lemma word_octets (ip : UInt32) :
    UInt32.ofNat (octet ip 24) <<< 24 ||| UInt32.ofNat (octet ip 16) <<< 16 |||
      UInt32.ofNat (octet ip 8) <<< 8 ||| UInt32.ofNat (octet ip 0) = ip := by
  have h0 := octet_lt ip 0
  have hip := ip.toNat_lt
  rw [← UInt32.toNat_inj, UInt32.toNat_or, UInt32.toNat_or, UInt32.toNat_or,
    toNat_shiftLeft_octet (octet_lt ip 24) (by decide),
    toNat_shiftLeft_octet (octet_lt ip 16) (by decide),
    toNat_shiftLeft_octet (octet_lt ip 8) (by decide), UInt32.toNat_ofNat',
    Nat.mod_eq_of_lt (show octet ip 0 < 2 ^ 32 by omega)]
  have hquad := quad_eq (a := octet ip 24) (octet_lt ip 16) (octet_lt ip 8) h0
  refine hquad.trans ?_
  rw [octet_eq ip 24 (by decide), octet_eq ip 16 (by decide), octet_eq ip 8 (by decide),
    octet_eq ip 0 (by decide)]
  simp only [show (24 : UInt32).toNat = 24 from rfl, show (16 : UInt32).toNat = 16 from rfl,
    show (8 : UInt32).toNat = 8 from rfl, show (0 : UInt32).toNat = 0 from rfl]
  omega

lemma ipToString_eq (ip : UInt32) : ipToString ip = decimal (octet ip 24 : ℤ) ++ 46 ::
    (decimal (octet ip 16 : ℤ) ++ 46 :: (decimal (octet ip 8 : ℤ) ++ 46 ::
      decimal (octet ip 0 : ℤ))) := by
  simp only [ipToString, octet, List.append_assoc, List.cons_append]

/-- What `ip_to_string` wrote is read back. -/
lemma parseQuad_ipToString (ip : UInt32) : parseQuad (ipToString ip) = some ip := by
  have hint : ∀ n, IsInt (octet ip n : ℤ) := by
    intro n
    have hlt := octet_lt ip n
    unfold IsInt
    omega
  have hdot : ∀ rest, Stops (46 :: rest) := stops_cons (by decide)
  have hscan : (sscanf [.conv (.d none), .lit 46, .conv (.d none), .lit 46, .conv (.d none),
      .lit 46, .conv (.d none)] (ipToString ip)).1 =
      [.int (octet ip 24), .int (octet ip 16), .int (octet ip 8), .int (octet ip 0)] := by
    have hlast := scan_int (hint 0) stops_nil
    rw [List.append_nil] at hlast
    rw [ipToString_eq]
    simp [sscanf, scan_int (hint 24) (hdot _), scan_int (hint 16) (hdot _),
      scan_int (hint 8) (hdot _), hlast]
  unfold parseQuad
  rw [hscan]
  have hword : ∀ n, UInt32.ofNat ((octet ip n : ℤ) % 2 ^ 32).toNat = UInt32.ofNat (octet ip n) := by
    intro n
    have hlt := octet_lt ip n
    congr 1
    omega
  simp only [hword, word_octets]

/-- There are no blanks, slashes or newlines in an address. -/
lemma notMem_ipToString {c : UInt8} (hdigit : isDigit c = false) (hdot : c ≠ 46) (ip : UInt32) :
    c ∉ ipToString ip := by
  have hdecimal : ∀ n : ℕ, c ∉ decimal (n : ℤ) := by
    intro n hmem
    rw [decimal_digits n c hmem] at hdigit
    cases hdigit
  rw [ipToString_eq]
  simp [hdecimal, hdot]

lemma length_ipToString_le (ip : UInt32) : (ipToString ip).length ≤ 15 := by
  have hdecimal : ∀ n, (decimal (octet ip n : ℤ)).length ≤ 3 := fun n =>
    length_decimal_le (k := 2) (by have := octet_lt ip n; omega)
  have h24 := hdecimal 24
  have h16 := hdecimal 16
  have h8 := hdecimal 8
  have h0 := hdecimal 0
  rw [ipToString_eq]
  simp only [List.length_append, List.length_cons]
  omega

/-! ## Networks -/

/-- The number of the network, with this many bits. -/
def networkOf (bits : ℕ) (ip : UInt32) : ℕ := ip.toNat / 2 ^ (32 - bits)

/-- The number of the host in its network. -/
def hostOf (bits : ℕ) (ip : UInt32) : ℕ := ip.toNat % 2 ^ (32 - bits)

/-- The text of `VPNAddress` -/
def vpnAddressText (own : UInt32) (bits : ℕ) : Text := ipToString own ++ 47 :: decimal (bits : ℤ)

variable {own ip : UInt32} {bits : ℕ}

lemma toNat_ofNat_bits (hbits : 1 ≤ bits ∧ bits ≤ 30) :
    (UInt32.ofNat ((32 - (bits : ℤ)) % 2 ^ 32).toNat).toNat = 32 - bits := by
  rw [UInt32.toNat_ofNat']
  omega

/-- `1U << host_bits` -/
lemma toNat_one_shiftLeft (hbits : 1 ≤ bits ∧ bits ≤ 30) :
    ((1 : UInt32) <<< UInt32.ofNat ((32 - (bits : ℤ)) % 2 ^ 32).toNat).toNat =
      2 ^ (32 - bits) := by
  have hlt : 2 ^ (32 - bits) < 2 ^ 32 := Nat.pow_lt_pow_right (by decide) (by omega)
  rw [UInt32.toNat_shiftLeft, toNat_ofNat_bits hbits,
    Nat.mod_eq_of_lt (show 32 - bits < 32 by omega), show (1 : UInt32).toNat = 1 from rfl,
    Nat.shiftLeft_eq, Nat.one_mul, Nat.mod_eq_of_lt hlt]

/-- `ip & mask` -/
lemma toNat_network (hbits : 1 ≤ bits ∧ bits ≤ 30) (ip : UInt32) :
    (ip &&& (0xffffffff : UInt32) <<< UInt32.ofNat ((32 - (bits : ℤ)) % 2 ^ 32).toNat).toNat =
      2 ^ (32 - bits) * networkOf bits ip := by
  have hip := ip.toNat_lt
  rw [UInt32.toNat_and, UInt32.toNat_shiftLeft, toNat_ofNat_bits hbits,
    Nat.mod_eq_of_lt (show 32 - bits < 32 by omega), networkOf]
  refine Nat.eq_of_testBit_eq fun i => ?_
  have hones : (0xffffffff : UInt32).toNat = 2 ^ 32 - 1 := rfl
  rw [Nat.testBit_and, Nat.testBit_mod_two_pow, Nat.testBit_shiftLeft, hones,
    Nat.testBit_two_pow_sub_one, Nat.testBit_two_pow_mul, Nat.testBit_div_two_pow]
  by_cases hi : i < 32
  · by_cases hlow : 32 - bits ≤ i
    · simp [hi, hlow, show i - (32 - bits) < 32 by omega]
    · simp [hlow]
  · have hzero : ip.toNat.testBit i = false := Nat.testBit_lt_two_pow
      (hip.trans_le (Nat.pow_le_pow_right (by decide) (by omega)))
    by_cases hlow : 32 - bits ≤ i
    · simp [hzero, hlow]
    · simp [hzero, hlow]

/-- What `parse_vpn_address` makes of the text. -/
lemma parseVpnAddress_text (own : UInt32) (hbits : 1 ≤ bits ∧ bits ≤ 30) :
    ∃ v, parseVpnAddress (vpnAddressText own bits) = some v ∧ v.prefixLength = bits ∧
      v.network.toNat = 2 ^ (32 - bits) * networkOf bits own ∧ stringToIp v.myIp = own := by
  have hlength := length_ipToString_le own
  have hdigits : (decimal (bits : ℤ)).length ≤ 2 := length_decimal_le (k := 1) (by omega)
  have hshort : (vpnAddressText own bits).take 63 = vpnAddressText own bits := by
    rw [List.take_of_length_le]
    rw [vpnAddressText, List.length_append, List.length_cons]
    omega
  have hslash : 47 ∉ ipToString own := notMem_ipToString (by decide) (by decide) own
  have hip : (vpnAddressText own bits).takeWhile (· ≠ 47) = ipToString own := by
    rw [vpnAddressText, List.takeWhile_append_of_pos, List.takeWhile_cons_of_neg (by simp),
      List.append_nil]
    intro c hc
    simpa using fun h : c = 47 => hslash (h ▸ hc)
  have hrest : (vpnAddressText own bits).drop ((ipToString own).length + 1) =
      decimal (bits : ℤ) := by
    rw [vpnAddressText, ← List.drop_drop, List.drop_left]
    rfl
  have hne : ¬ (vpnAddressText own bits = [] ∨ 47 ∉ vpnAddressText own bits) := by
    rw [vpnAddressText]
    simp
  unfold parseVpnAddress
  rw [hshort, if_neg hne, hip]
  dsimp only
  rw [hrest, atoi_decimal (by omega), parseQuad_ipToString,
    Option.map_some]
  refine ⟨_, rfl, rfl, ?_, ?_⟩
  · dsimp only
    rw [if_neg (by omega)]
    exact toNat_network hbits own
  · dsimp only
    rw [stringToIp, List.take_of_length_le (by omega), parseQuad_ipToString]
    rfl

/-! ## Candidates -/

/-- An address is its network and its host. -/
lemma toNat_eq (bits : ℕ) (ip : UInt32) :
    ip.toNat = 2 ^ (32 - bits) * networkOf bits ip + hostOf bits ip :=
  (Nat.div_add_mod ip.toNat (2 ^ (32 - bits))).symm

lemma hostOf_lt (bits : ℕ) (ip : UInt32) : hostOf bits ip < 2 ^ (32 - bits) :=
  Nat.mod_lt _ (Nat.two_pow_pos _)

/-- `network | i` -/
lemma toNat_candidate {network : UInt32} {i : ℕ}
    (hnetwork : network.toNat = 2 ^ (32 - bits) * networkOf bits own) (hi : i < 2 ^ (32 - bits))
    (hbits : 1 ≤ bits) :
    (network ||| UInt32.ofNat i).toNat = 2 ^ (32 - bits) * networkOf bits own + i := by
  have hpow : 2 ^ (32 - bits) ≤ 2 ^ 31 := Nat.pow_le_pow_right (by decide) (by omega)
  rw [UInt32.toNat_or, UInt32.toNat_ofNat', Nat.mod_eq_of_lt (by omega), hnetwork,
    Nat.two_pow_add_eq_or_of_lt hi]

/-- The candidates are the hosts from 2 to 255 of the network, as far as there are so many. -/
lemma mem_pool_iff {v : VpnAddress} (hbits : 1 ≤ bits ∧ bits ≤ 30) (hlength : v.prefixLength = bits)
    (hnetwork : v.network.toNat = 2 ^ (32 - bits) * networkOf bits own) :
    ip ∈ v.pool ↔ networkOf bits ip = networkOf bits own ∧ 2 ≤ hostOf bits ip ∧
      hostOf bits ip ≤ 255 := by
  have hpow : 2 ^ 2 ≤ 2 ^ (32 - bits) := Nat.pow_le_pow_right (by decide) (by omega)
  have hpow' : 2 ^ (32 - bits) ≤ 2 ^ 31 := Nat.pow_le_pow_right (by decide) (by omega)
  have hone := toNat_one_shiftLeft hbits
  -- the number of hosts, as far as they are tried
  have hcount : ∀ i, i ∈ List.range' 2 (if maxIpPool <
      ((1 : UInt32) <<< UInt32.ofNat ((32 - (bits : ℤ)) % 2 ^ 32).toNat) - 2 then maxIpPool else
      ((1 : UInt32) <<< UInt32.ofNat ((32 - (bits : ℤ)) % 2 ^ 32).toNat) - 2).toNat ↔
      2 ≤ i ∧ i ≤ 255 ∧ i < 2 ^ (32 - bits) := by
    intro i
    have hsub : (((1 : UInt32) <<< UInt32.ofNat ((32 - (bits : ℤ)) % 2 ^ 32).toNat) - 2).toNat =
        2 ^ (32 - bits) - 2 := by
      have hle : (2 : UInt32) ≤
          (1 : UInt32) <<< UInt32.ofNat ((32 - (bits : ℤ)) % 2 ^ 32).toNat := by
        rw [UInt32.le_iff_toNat_le, hone]
        exact hpow.trans' (by decide)
      rw [UInt32.toNat_sub_of_le _ _ hle, hone]
      rfl
    have hmax : maxIpPool.toNat = 254 := rfl
    rw [List.mem_range'_1]
    split
    · rename_i hlt
      rw [UInt32.lt_iff_toNat_lt, hsub] at hlt
      omega
    · rename_i hle
      rw [UInt32.lt_iff_toNat_lt, hsub] at hle
      omega
  unfold VpnAddress.pool
  rw [hlength]
  dsimp only
  rw [List.mem_map]
  constructor
  · rintro ⟨i, hi, rfl⟩
    obtain ⟨hlow, hhigh, hlt⟩ := (hcount i).mp hi
    have hcand := toNat_candidate hnetwork hlt hbits.1
    have hhost : hostOf bits (v.network ||| UInt32.ofNat i) = i := by
      rw [hostOf, hcand, Nat.mul_add_mod, Nat.mod_eq_of_lt hlt]
    refine ⟨?_, by omega, by omega⟩
    rw [networkOf, hcand, Nat.mul_add_div (Nat.two_pow_pos _), Nat.div_eq_of_lt hlt, Nat.add_zero]
  · rintro ⟨hsame, hlow, hhigh⟩
    refine ⟨hostOf bits ip, (hcount _).mpr ⟨hlow, hhigh, hostOf_lt bits ip⟩, ?_⟩
    rw [← UInt32.toNat_inj, toNat_candidate hnetwork (hostOf_lt bits ip) hbits.1, ← hsame,
      ← toNat_eq]

/-- The addresses of the network of `own` that a host can get: not the first, not the last, and not
`own`. -/
structure Assignable (bits : ℕ) (own ip : UInt32) : Prop where
  network : networkOf bits ip = networkOf bits own
  notFirst : hostOf bits ip ≠ 0
  notLast : hostOf bits ip ≠ 2 ^ (32 - bits) - 1
  notOwn : ip ≠ own

/-- A pending invitation, as `create_invitation` writes it: the random bytes of its token, the name
of the guest, the time, and the address that was allocated. -/
structure PendingInvitation where
  random : List UInt8
  name : Text
  now : ℤ
  address : Option (UInt32 × ℕ)
  bits : ∀ a ∈ address, 1 ≤ a.2 ∧ a.2 ≤ 30

/-- The file of an invitation. -/
def PendingInvitation.file (q : PendingInvitation) : Text × InvitationFile :=
  (tokenToFilename (base64urlEncode q.random), ⟨invitationText q.name (base64urlEncode q.random)
    q.now (q.address.map fun a => vpnAddressText a.1 a.2), q.now⟩)

/-- The directory of these invitations. -/
def pendingDirectory (pending : List PendingInvitation) : Directory :=
  pending.map PendingInvitation.file

/-- A host or a pending invitation has the address. -/
def Assigned (hosts : Option (List Host)) (pending : List PendingInvitation) (ip : UInt32) : Prop :=
  (∃ hs ∈ hosts, ∃ h ∈ hs, h.vpnAddress = ipToString ip) ∨
    ∃ q ∈ pending, ∃ n, q.address = some (ip, n)

variable {hosts : Option (List Host)} {pending : List PendingInvitation}

lemma ipUsedInHosts_iff :
    ipUsedInHosts hosts ip = true ↔ ∃ hs ∈ hosts, ∃ h ∈ hs, h.vpnAddress = ipToString ip := by
  have hne : ipToString ip ≠ [] := by
    rw [ipToString_eq]
    simp
  unfold ipUsedInHosts hostsDbHasVpnAddress
  simp only [Option.any_eq_true, List.any_eq_true, decide_eq_true_eq]
  constructor
  · rintro ⟨hs, hhs, h, hh, -, hsame⟩
    exact ⟨hs, hhs, h, hh, hsame⟩
  · rintro ⟨hs, hhs, h, hh, hsame⟩
    exact ⟨hs, hhs, h, hh, by rwa [hsame], hsame⟩

/-- The name of a file with an invitation does not begin with a dot. -/
lemma head_filename (random : List UInt8) :
    (tokenToFilename (base64urlEncode random)).head? ≠ some 46 := by
  have hchar : ∀ n, base64urlChar n ≠ 46 := by
    intro n
    have hall : ∀ k < 64, base64urlTable.getD k 0 ≠ 46 := by decide +kernel
    exact hall (n % 64) (Nat.mod_lt _ (by decide))
  unfold tokenToFilename
  match random with
  | [] => simp [base64urlEncode]
  | [a] => simpa [base64urlEncode] using hchar _
  | [a, b] => simpa [base64urlEncode] using hchar _
  | a :: b :: c :: data => simpa [base64urlEncode] using hchar _

/-- A reserved address is found in the file that reserves it. -/
lemma used_of_pending {q : PendingInvitation} (hq : q ∈ pending) {n : ℕ}
    (haddress : q.address = some (ip, n)) :
    ipUsedInInvitations (pendingDirectory pending) ip = true := by
  have hbits := q.bits _ haddress
  obtain ⟨pre, hcontent⟩ : ∃ pre, q.file.2.content = pre ++ 10 ::
      (entry (ascii "VPNAddress") (vpnAddressText ip n) ++ 10 :: []) := by
    refine ⟨entry (ascii "Name") q.name ++ 10 ::
      (entry (ascii "Token") (base64urlEncode q.random) ++ 10 ::
        (entry (ascii "Created") (decimal q.now) ++ 10 ::
          entry (ascii "Expires") (decimal (q.now + invitationValidity)))), ?_⟩
    simp only [PendingInvitation.file, invitationText, haddress, Option.map_some, Option.elim_some,
      List.append_assoc, List.cons_append]
  have hdecimal : (decimal (n : ℤ)).length ≤ 2 := length_decimal_le (k := 1) (by omega)
  have hlength := length_ipToString_le ip
  have hnewline : 10 ∉ entry (ascii "VPNAddress") (vpnAddressText ip n) := by
    have hip := notMem_ipToString (c := 10) (by decide) (by decide) ip
    have hn : (10 : UInt8) ∉ decimal (n : ℤ) := by
      intro hmem
      exact absurd (decimal_digits n 10 hmem) (by decide)
    have hkey : (10 : UInt8) ∉ ascii "VPNAddress" ++ ascii " = " := by decide
    rw [entry, List.mem_append, not_or, vpnAddressText]
    refine ⟨hkey, ?_⟩
    simp [hip, hn]
  have hshort : (entry (ascii "VPNAddress") (vpnAddressText ip n)).length + 2 ≤ 256 := by
    have hkey : (ascii "VPNAddress" ++ ascii " = ").length = 13 := by decide
    rw [entry, List.length_append, hkey, vpnAddressText, List.length_append, List.length_cons]
    omega
  obtain ⟨lines, hlines⟩ := fgets_append 256 pre
  have hline : entry (ascii "VPNAddress") (vpnAddressText ip n) ++ [10] ∈
      fgets 256 q.file.2.content := by
    rw [hcontent, hlines, fgets_line hnewline hshort]
    simp
  unfold ipUsedInInvitations
  rw [List.any_eq_true]
  refine ⟨q.file, List.mem_map_of_mem hq, ?_⟩
  rw [decide_eq_true_eq]
  refine ⟨head_filename q.random, List.any_eq_true.mpr ⟨_, hline, ?_⟩⟩
  rw [reservesIp, decide_eq_true_eq]
  constructor
  · unfold hasPrefixCase entry
    rw [List.append_assoc, List.append_assoc, List.take_left]
    simp
  · refine ⟨ascii "VPNAddress" ++ ascii " = ", 47 :: decimal (n : ℤ) ++ [10], ?_⟩
    simp only [entry, vpnAddressText, List.append_assoc, List.cons_append]

/-- The tests of the loop, on a candidate. -/
lemma isFreeIp_iff {v : VpnAddress} (hbits : 1 ≤ bits ∧ bits ≤ 30) (hlength : v.prefixLength = bits)
    (hown : stringToIp v.myIp = own) (hsame : networkOf bits ip = networkOf bits own) :
    isFreeIp (pendingDirectory pending) hosts v ip = true ↔ Assignable bits own ip ∧
      ¬ Assigned hosts pending ip ∧ ¬ ipUsedInInvitations (pendingDirectory pending) ip := by
  have hone := toNat_one_shiftLeft hbits
  have hpow : 1 ≤ 2 ^ (32 - bits) := Nat.one_le_two_pow
  have hmask : (((1 : UInt32) <<< UInt32.ofNat ((32 - (bits : ℤ)) % 2 ^ 32).toNat) - 1).toNat =
      2 ^ (32 - bits) - 1 := by
    rw [UInt32.toNat_sub_of_le _ _ (by rw [UInt32.le_iff_toNat_le, hone]; exact hpow), hone]
    rfl
  have hhost : ∀ x : UInt32, (ip &&& (((1 : UInt32) <<<
      UInt32.ofNat ((32 - (bits : ℤ)) % 2 ^ 32).toNat) - 1) ≠ x) ↔ hostOf bits ip ≠ x.toNat := by
    intro x
    rw [Ne, ← UInt32.toNat_inj, UInt32.toNat_and, hmask, Nat.and_two_pow_sub_one_eq_mod]
    rfl
  unfold isFreeIp
  rw [hlength, hown, decide_eq_true_eq, hhost, hhost, hmask, ipUsedInHosts_iff]
  constructor
  · rintro ⟨howner, hfirst, hlast, hhosts, hpending⟩
    refine ⟨⟨hsame, hfirst, hlast, howner⟩, ?_, hpending⟩
    rintro (h | ⟨q, hq, n, hn⟩)
    · exact hhosts h
    · exact hpending (used_of_pending hq hn)
  · rintro ⟨husable, hassigned, hpending⟩
    exact ⟨husable.notOwn, husable.notFirst, husable.notLast, fun h => hassigned (.inl h), hpending⟩

/-- What is allocated, and when nothing is. -/
lemma allocateVpnIp_spec (own : UInt32) (hbits : 1 ≤ bits ∧ bits ≤ 30)
    (hosts : Option (List Host)) (pending : List PendingInvitation) :
    (∀ t, allocateVpnIp (vpnAddressText own bits) (pendingDirectory pending) hosts = some t →
      ∃ ip, t = vpnAddressText ip bits ∧ Assignable bits own ip ∧ ¬ Assigned hosts pending ip) ∧
    (allocateVpnIp (vpnAddressText own bits) (pendingDirectory pending) hosts = none ↔
      ∀ ip, networkOf bits ip = networkOf bits own → 2 ≤ hostOf bits ip → hostOf bits ip ≤ 255 →
        Assignable bits own ip → ¬ Assigned hosts pending ip →
          ipUsedInInvitations (pendingDirectory pending) ip = true) := by
  obtain ⟨v, hv, hlength, hnetwork, hown⟩ := parseVpnAddress_text own hbits
  unfold allocateVpnIp
  rw [hv, Option.bind_some]
  constructor
  · intro t ht
    obtain ⟨ip, hfind, rfl⟩ := Option.map_eq_some_iff.mp ht
    have hpool := (mem_pool_iff hbits hlength hnetwork).mp (List.mem_of_find?_eq_some hfind)
    have hfree := (isFreeIp_iff hbits hlength hown hpool.1).mp (List.find?_some hfind)
    refine ⟨ip, ?_, hfree.1, hfree.2.1⟩
    have hshort := length_ipToString_le ip
    have hdecimal : (decimal (bits : ℤ)).length ≤ 2 := length_decimal_le (k := 1) (by omega)
    rw [hlength, List.take_of_length_le, vpnAddressText]
    rw [List.length_append, List.length_cons]
    omega
  · rw [Option.map_eq_none_iff, List.find?_eq_none]
    constructor
    · intro h ip hsame hlow hhigh husable hassigned
      by_contra hunused
      exact h ip ((mem_pool_iff hbits hlength hnetwork).mpr ⟨hsame, hlow, hhigh⟩)
        ((isFreeIp_iff hbits hlength hown hsame).mpr ⟨husable, hassigned, hunused⟩)
    · intro h ip hpool hfree
      obtain ⟨hsame, hlow, hhigh⟩ := (mem_pool_iff hbits hlength hnetwork).mp hpool
      obtain ⟨husable, hassigned, hunused⟩ := (isFreeIp_iff hbits hlength hown hsame).mp hfree
      exact hunused (h ip hsame hlow hhigh husable hassigned)

/-! ## Sound and complete -/

/-- Allocation is sound and complete: what is returned is an address of the network that can be
used and that nobody has, and nothing is returned only if none of the hosts 2 to 254 is free. -/
def AllocationRight (own : UInt32) (bits : ℕ) (hosts : Option (List Host))
    (pending : List PendingInvitation) : Prop :=
  (∀ t, allocateVpnIp (vpnAddressText own bits) (pendingDirectory pending) hosts = some t →
    ∃ ip, t = vpnAddressText ip bits ∧ Assignable bits own ip ∧ ¬ Assigned hosts pending ip) ∧
  (allocateVpnIp (vpnAddressText own bits) (pendingDirectory pending) hosts = none →
    ∀ ip, networkOf bits ip = networkOf bits own → 2 ≤ hostOf bits ip → hostOf bits ip ≤ 254 →
      ¬ Assignable bits own ip ∨ Assigned hosts pending ip)

/-- **When allocation is sound and complete**: if one of the hosts 2 to 254 is free, then there is a
free one, up to 255, that is not part of a line of a pending invitation. -/
theorem vpn_allocation_iff (own : UInt32) (bits : ℕ) (hbits : 1 ≤ bits ∧ bits ≤ 30)
    (hosts : Option (List Host)) (pending : List PendingInvitation) :
    AllocationRight own bits hosts pending ↔
      ((∃ ip, Assignable bits own ip ∧ ¬ Assigned hosts pending ip ∧ 2 ≤ hostOf bits ip ∧
          hostOf bits ip ≤ 254) →
        ∃ ip, Assignable bits own ip ∧ ¬ Assigned hosts pending ip ∧ 2 ≤ hostOf bits ip ∧
          hostOf bits ip ≤ 255 ∧
            ipUsedInInvitations (pendingDirectory pending) ip = false) := by
  obtain ⟨hsound, hnone⟩ := allocateVpnIp_spec own hbits hosts pending
  unfold AllocationRight
  constructor
  · rintro ⟨-, hcomplete⟩ ⟨ip, husable, hassigned, hlow, hhigh⟩
    by_contra hhidden
    have hnothing := hnone.mpr fun ip _ hlow hhigh husable hassigned => by
      by_contra hunused
      exact hhidden ⟨ip, husable, hassigned, hlow, hhigh, Bool.eq_false_iff.mpr hunused⟩
    rcases hcomplete hnothing ip husable.network hlow hhigh with h | h
    · exact h husable
    · exact hassigned h
  · intro hfree
    refine ⟨hsound, fun hnothing ip hsame hlow hhigh => ?_⟩
    by_contra hip
    rw [not_or, not_not] at hip
    obtain ⟨ip', husable, hassigned, hlow', hhigh', hunused⟩ :=
      hfree ⟨ip, hip.1, hip.2, hlow, hhigh⟩
    have hused := hnone.mp hnothing ip' husable.network hlow' hhigh' husable hassigned
    rw [hunused] at hused
    cases hused

/-- In an empty network the second host is free. -/
theorem vpn_allocation_empty : AllocationRight 0x0A000001 24 none [] := by
  refine (vpn_allocation_iff 0x0A000001 24 (by decide) none []).mpr fun _ => ?_
  refine ⟨0x0A000002, ⟨by decide, by decide, by decide, by decide⟩, ?_, by decide, by decide, rfl⟩
  rintro (⟨_, h, -⟩ | ⟨_, h, -⟩) <;> cases h

/-- The hosts 3 to 30 of a small network, but for host 25. -/
def crowdedHosts : List Host :=
  ((List.range' 3 28).filter (· ≠ 25)).map fun i : ℕ =>
    { name := decimal (i : ℤ), vpnAddress := ipToString (0x0A000000 + UInt32.ofNat i) }

/-- The invitation for host 25. -/
def lastInvitation : PendingInvitation where
  random := List.replicate 24 7
  name := ascii "guest"
  now := 1700000000
  address := some (0x0A000019, 27)
  bits := by simp

/-- Host 2 is free, but its address is part of that of host 25, which is reserved. -/
theorem free_address_hidden :
    ¬ AllocationRight 0x0A000001 27 (some crowdedHosts) [lastInvitation] := by
  rintro ⟨-, hcomplete⟩
  have hnone : allocateVpnIp (vpnAddressText 0x0A000001 27) (pendingDirectory [lastInvitation])
      (some crowdedHosts) = none := by
    decide +kernel
  rcases hcomplete hnone 0x0A000002 (by decide) (by decide) (by decide) with h | h
  · exact h ⟨by decide, by decide, by decide, by decide⟩
  · rcases h with ⟨hs, hhs, h, hh, haddress⟩ | ⟨q, hq, n, hn⟩
    · obtain rfl := Option.some.inj hhs
      have hnot : ∀ h ∈ crowdedHosts, h.vpnAddress ≠ ipToString 0x0A000002 := by decide +kernel
      exact hnot h hh haddress
    · rw [List.mem_singleton.mp hq] at hn
      exact absurd (Prod.mk.inj (Option.some.inj hn)).1 (by decide)

end Tinc
