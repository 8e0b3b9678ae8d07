import TincQuic.Daemon.Lookup
import TincQuic.Daemon.SubnetText

/-!
# The longest prefix wins

A lookup walks `subnet_tree` in its order and takes the first subnet that contains the address and
whose owner is reachable; subnets of unreachable owners are remembered, and the last of them is the
answer if there is nothing better.

* `addressBit` are the bits of an address, and `maskcmp_eq_zero_iff` says that `maskcmp` compares
  the first `m` of them.
* `walk_eq` is the loop as a search: the first usable match, or else the last match.
* `TreeOp` is what happens to the tree and to the owners.  `SortedSubnets.run` says that the tree
  stays sorted, also with subnets without an owner, which compare equal to the same subnet of any
  owner.
* **`longest_prefix_routing`** is the answer of a lookup that is not cached.
-/

namespace Tinc

open Bytes CText Comparison Function

/-! ## `maskcmp` -/

/-- The bit `i` of an address, the most significant bit of its first byte being bit 0. -/
def addressBit (address : List UInt8) (i : ℕ) : Bool :=
  (address.getD (i / 8) 0).toNat.testBit (7 - i % 8)

lemma addressBit_zero (a : UInt8) (address : List UInt8) {i : ℕ} (h : i < 8) :
    addressBit (a :: address) i = a.toNat.testBit (7 - i) := by
  rw [addressBit, Nat.div_eq_of_lt h, Nat.mod_eq_of_lt h]
  rfl

lemma addressBit_succ (a : UInt8) (address : List UInt8) (i : ℕ) :
    addressBit (a :: address) (8 + i) = addressBit address i := by
  rw [addressBit, addressBit, show (8 + i) / 8 = i / 8 + 1 by omega,
    show (8 + i) % 8 = i % 8 by omega]
  rfl

/-- The first bits of two addresses, a byte and the rest. -/
lemma addressBit_cons_iff {a b : UInt8} {va vb : List UInt8} {m : ℕ} (hm : 8 ≤ m) :
    (∀ i < m, addressBit (a :: va) i = addressBit (b :: vb) i) ↔
      (∀ i < 8, a.toNat.testBit (7 - i) = b.toNat.testBit (7 - i)) ∧
        ∀ i < m - 8, addressBit va i = addressBit vb i := by
  constructor
  · intro h
    refine ⟨fun i hi => ?_, fun i hi => ?_⟩
    · rw [← addressBit_zero a va hi, ← addressBit_zero b vb hi]
      exact h i (by omega)
    · rw [← addressBit_succ a va i, ← addressBit_succ b vb i]
      exact h (8 + i) (by omega)
  · rintro ⟨hfirst, hrest⟩ i hi
    by_cases h8 : i < 8
    · rw [addressBit_zero a va h8, addressBit_zero b vb h8]
      exact hfirst i h8
    · obtain ⟨j, rfl⟩ : ∃ j, i = 8 + j := ⟨i - 8, by omega⟩
      rw [addressBit_succ, addressBit_succ]
      exact hrest j (by omega)

/-- Two bytes with the same bits. -/
lemma byte_eq_iff {a b : UInt8} :
    a = b ↔ ∀ i < 8, a.toNat.testBit (7 - i) = b.toNat.testBit (7 - i) := by
  constructor
  · rintro rfl i _
    rfl
  · intro h
    refine UInt8.toNat_inj.mp (Nat.eq_of_testBit_eq fun j => ?_)
    by_cases hj : j < 8
    · simpa [show 7 - (7 - j) = j by omega] using h (7 - j) (by omega)
    · have hpow : 2 ^ 8 ≤ 2 ^ j := Nat.pow_le_pow_right (by decide) (by omega)
      rw [Nat.testBit_lt_two_pow (a.toNat_lt.trans_le hpow),
        Nat.testBit_lt_two_pow (b.toNat_lt.trans_le hpow)]

lemma charValue_sub_eq_zero {a b : UInt8} : charValue a - charValue b = 0 ↔ a = b := by
  constructor
  · intro h
    have ha := a.toNat_lt
    have hb := b.toNat_lt
    unfold charValue at h
    refine UInt8.toNat_inj.mp ?_
    simp only [UInt8.lt_iff_toNat_lt, show (128 : UInt8).toNat = 128 from rfl] at h
    split at h <;> split at h <;> omega
  · rintro rfl
    exact sub_self _

/-- The mask of the `m` most significant bits. -/
lemma testBit_mask {m j : ℕ} (hm : m < 8) (hj : j < 8) :
    (UInt8.ofNat (0x100 - 1 <<< (8 - m))).toNat.testBit j = decide (8 - m ≤ j) := by
  have hall : ∀ m < 8, ∀ j < 8,
      (UInt8.ofNat (0x100 - 1 <<< (8 - m))).toNat.testBit j = decide (8 - m ≤ j) := by decide
  exact hall m hm j hj

/-- Masked bytes are equal if their first `m` bits are. -/
lemma masked_eq_iff {a b : UInt8} {m : ℕ} (hm : m < 8) :
    (((a &&& UInt8.ofNat (0x100 - 1 <<< (8 - m))).toNat : ℤ) -
      (b &&& UInt8.ofNat (0x100 - 1 <<< (8 - m))).toNat = 0) ↔
        ∀ i < m, a.toNat.testBit (7 - i) = b.toNat.testBit (7 - i) := by
  have hbits : ∀ c : UInt8, ∀ i < 8,
      (c &&& UInt8.ofNat (0x100 - 1 <<< (8 - m))).toNat.testBit (7 - i) =
        (c.toNat.testBit (7 - i) && decide (i < m)) := by
    intro c i hi
    rw [UInt8.toNat_and, Nat.testBit_and, testBit_mask hm (by omega)]
    congr 1
    simp only [decide_eq_decide]
    omega
  rw [sub_eq_zero, Nat.cast_inj, UInt8.toNat_inj, byte_eq_iff]
  constructor
  · intro h i hi
    have := h i (by omega)
    rw [hbits a i (by omega), hbits b i (by omega)] at this
    simpa [hi] using this
  · intro h i hi
    rw [hbits a i hi, hbits b i hi]
    by_cases him : i < m
    · rw [h i him]
    · simp [him]

/-- **`maskcmp` compares the first `m` bits.** -/
lemma maskcmp_eq_zero_iff {va vb : List UInt8} {m : ℕ} (hlength : va.length = vb.length)
    (hm : m ≤ 8 * va.length) :
    maskcmp va vb m = 0 ↔ ∀ i < m, addressBit va i = addressBit vb i := by
  induction va generalizing vb m with
  | nil =>
      rw [List.length_nil] at hm
      rw [show m = 0 by omega]
      simp [maskcmp]
  | cons a va ih =>
      cases vb with
      | nil => simp at hlength
      | cons b vb =>
          simp only [List.length_cons] at hlength hm
          rw [maskcmp]
          by_cases h8 : 8 ≤ m
          · rw [if_pos h8, addressBit_cons_iff h8, ← byte_eq_iff]
            by_cases hab : a = b
            · rw [if_neg (by simp [charValue_sub_eq_zero.mpr hab]), ih (by omega) (by omega)]
              simp [hab]
            · have hne : charValue a - charValue b ≠ 0 := charValue_sub_eq_zero.not.mpr hab
              rw [if_pos hne]
              simp [hne, hab]
          · rw [if_neg h8]
            by_cases h0 : m = 0
            · simp [h0]
            · rw [if_neg h0]
              dsimp only
              rw [masked_eq_iff (by omega)]
              refine forall₂_congr fun i hi => ?_
              rw [addressBit_zero a va (by omega), addressBit_zero b vb (by omega)]

/-! ## The loop over the tree -/

/-- The first usable match, or else the last match, or else what was remembered before. -/
lemma walk_eq (d : Daemon) (found : Net → Bool) (tree : List SubnetId) (r : Option SubnetId) :
    d.walk found tree r =
      ((tree.filter fun i => found (d.subnet i).net).find? d.usable).or
        ((tree.filter fun i => found (d.subnet i).net).getLast?.or r) := by
  induction tree generalizing r with
  | nil => rfl
  | cons p tree ih =>
      rw [Daemon.walk]
      by_cases hfound : found (d.subnet p).net = true
      · rw [if_pos hfound, List.filter_cons, if_pos hfound]
        by_cases husable : d.usable p = true
        · rw [if_pos husable, List.find?_cons_of_pos husable]
          rfl
        · rw [if_neg husable, List.find?_cons_of_neg husable, ih, List.getLast?_cons]
          cases (tree.filter fun i => found (d.subnet i).net).getLast? <;> rfl
      · rw [if_neg hfound, List.filter_cons, if_neg hfound, ih]

/-- What a lookup answers: the first of the subnets that contain the address and are usable, or
else the last of those that contain it. -/
structure Answers (d : Daemon) (contains : Net → Prop) (answer : Option SubnetId) : Prop where
  first : (∃ i ∈ d.subnetTree, contains (d.subnet i).net ∧ d.usable i) →
    ∃ p ∈ d.subnetTree, answer = some p ∧ contains (d.subnet p).net ∧ d.usable p ∧
      ∀ q ∈ d.subnetTree, contains (d.subnet q).net → d.usable q →
        treeKey (d.subnet p) ≤ treeKey (d.subnet q)
  last : (∃ i ∈ d.subnetTree, contains (d.subnet i).net) →
    (∀ i ∈ d.subnetTree, contains (d.subnet i).net → ¬ d.usable i) →
    ∃ p ∈ d.subnetTree, answer = some p ∧ contains (d.subnet p).net ∧
      ∀ q ∈ d.subnetTree, contains (d.subnet q).net →
        treeKey (d.subnet q) ≤ treeKey (d.subnet p)
  none_iff : answer = none ↔ ∀ i ∈ d.subnetTree, ¬ contains (d.subnet i).net

lemma walk_answers {d : Daemon} (hs : SortedSubnets d.subnet d.subnetTree) {found : Net → Bool}
    {contains : Net → Prop}
    (hfound : ∀ i ∈ d.subnetTree, found (d.subnet i).net = true ↔ contains (d.subnet i).net) :
    Answers d contains (d.walk found d.subnetTree none) := by
  rw [walk_eq]
  generalize hl : (d.subnetTree.filter fun i => found (d.subnet i).net) = l
  have hmem : ∀ i, i ∈ l ↔ i ∈ d.subnetTree ∧ contains (d.subnet i).net := by
    intro i
    rw [← hl, List.mem_filter]
    exact and_congr_right fun hi => hfound i hi
  have hsl : SortedSubnets d.subnet l := by
    rw [← hl]
    exact List.Pairwise.sublist List.filter_sublist hs
  refine ⟨?_, ?_, ?_⟩
  · rintro ⟨i, hi, hcontains, husable⟩
    cases hfind : l.find? d.usable with
    | none =>
        exact absurd husable (List.find?_eq_none.mp hfind i ((hmem i).mpr ⟨hi, hcontains⟩))
    | some p =>
        obtain ⟨hp, hpu, hle⟩ := hsl.find?_le hfind
        obtain ⟨hp, hpc⟩ := (hmem p).mp hp
        exact ⟨p, hp, rfl, hpc, hpu, fun q hq hqc hqu => hle q ((hmem q).mpr ⟨hq, hqc⟩) hqu⟩
  · rintro ⟨i, hi, hcontains⟩ hno
    have hfind : l.find? d.usable = none := by
      rw [List.find?_eq_none]
      intro j hj
      exact hno j ((hmem j).mp hj).1 ((hmem j).mp hj).2
    have hlast := List.getLast?_eq_some_getLast (List.ne_nil_of_mem ((hmem i).mpr ⟨hi, hcontains⟩))
    obtain ⟨hp, hle⟩ := hsl.le_getLast? hlast
    obtain ⟨hp, hpc⟩ := (hmem _).mp hp
    refine ⟨_, hp, ?_, hpc, fun q hq hqc => hle q ((hmem q).mpr ⟨hq, hqc⟩)⟩
    rw [hfind, hlast]
    rfl
  · rw [Option.or_eq_none_iff, Option.or_eq_none_iff, List.getLast?_eq_none_iff]
    constructor
    · rintro ⟨-, hnil, -⟩ i hi hcontains
      have := (hmem i).mpr ⟨hi, hcontains⟩
      rw [hnil] at this
      exact absurd this (by simp)
    · intro hno
      have hnil : l = [] := List.eq_nil_iff_forall_not_mem.mpr fun i hi =>
        hno i ((hmem i).mp hi).1 ((hmem i).mp hi).2
      rw [hnil]
      exact ⟨rfl, rfl, rfl⟩

/-! ## The order of the tree -/

/-- Subnets that do not compare equal are compared by key. -/
lemma subnetCompare_lt {a b : Subnet} (h : Near a.weight b.weight) :
    (subnetCompare a b < 0 → treeKey a < treeKey b) ∧
      (0 < subnetCompare a b → treeKey b < treeKey a) := by
  unfold treeKey subnetKey
  simp only [Prod.Lex.toLex_lt_toLex]
  by_cases hnet : a.net = b.net
  · rw [subnetCompare_same hnet]
    simp only [hnet, lt_irrefl, true_and, false_or]
    unfold compareWeightOwner
    dsimp only
    rw [toInt32_sub h]
    by_cases hw : a.weight = b.weight
    · rw [if_neg (by omega)]
      simp only [hw, lt_irrefl, true_and, false_or]
      cases a.owner with
      | none => simp
      | some m =>
          cases b.owner with
          | none => simp
          | some n =>
              refine ⟨strcmp_neg.mp, fun hpos => ?_⟩
              dsimp only at hpos
              refine lt_of_le_of_ne (not_lt.mp fun hlt => ?_) fun heq => ?_
              · have := strcmp_neg.mpr hlt
                dsimp only [Option.getD_some] at this
                omega
              · have := strcmp_eq_zero.mpr (textKey_inj.mp heq).symm
                dsimp only [Option.getD_some] at this
                omega
    · rw [if_pos (by omega)]
      constructor
      · intro hneg
        left
        omega
      · intro hpos
        left
        omega
  · obtain ⟨h0, hlt⟩ := subnetCompare_ne hnet
    refine ⟨fun hneg => .inl (hlt.mp hneg), fun hpos => .inl ?_⟩
    refine lt_of_le_of_ne (not_lt.mp fun hl => ?_) fun heq => hnet (netKey_inj.mp heq).symm
    have := hlt.mpr hl
    omega

/-- What happens to `subnet_tree` and to the owners of the subnets. -/
inductive TreeOp where
  | add (owner : Option Name) (s : Subnet)
  | del (owner : Option Name) (i : SubnetId)
  /-- The owner becomes reachable or unreachable. -/
  | status (name : Name) (reachable : Bool)

/-- One operation. -/
def Daemon.treeStep (d : Daemon) : TreeOp → Daemon
  | .add owner s => d.subnetAdd owner s
  | .del owner i => d.subnetDel owner i
  | .status name reachable =>
      { d with node := update d.node name { d.node name with reachable := reachable } }

/-- The subnets that are added satisfy `P`. -/
def AllAdded (P : Subnet → Prop) (ops : List TreeOp) : Prop :=
  ∀ owner s, TreeOp.add owner s ∈ ops → P s

/-- The tree is sorted, and holds subnets that satisfy `P`, which does not depend on the owner. -/
structure Planted (P : Net → ℤ → Prop) (d : Daemon) : Prop where
  sorted : SortedSubnets d.subnet d.subnetTree
  fresh : ∀ i ∈ d.subnetTree, i < d.newSubnet
  each : ∀ i ∈ d.subnetTree, P (d.subnet i).net (d.subnet i).weight

namespace Planted

variable {P : Net → ℤ → Prop} {d : Daemon}

lemma add (h : Planted P d) {s : Subnet} (hs : P s.net s.weight)
    (hnear : ∀ net w net' w', P net w → P net' w' → Near w w') (owner : Option Name) :
    Planted P (d.subnetAdd owner s) := by
  obtain ⟨subnet, hsubnet⟩ : ∃ subnet, subnet =
      update d.subnet d.newSubnet { s with owner := owner } := ⟨_, rfl⟩
  obtain ⟨tree, htree⟩ : ∃ tree, tree = (OrdList.insert
      (fun i => subnetCompare (subnet d.newSubnet) (subnet i)) d.newSubnet d.subnetTree).getD
        d.subnetTree := ⟨_, rfl⟩
  have hold : ∀ i ∈ d.subnetTree, subnet i = d.subnet i := by
    intro i hi
    rw [hsubnet, update_of_ne (h.fresh i hi).ne]
  have hnew : subnet d.newSubnet = { s with owner := owner } := by rw [hsubnet, update_self]
  have hmem : ∀ i ∈ tree, i = d.newSubnet ∨ i ∈ d.subnetTree := by
    intro i hi
    rw [htree] at hi
    cases hinsert : OrdList.insert
        (fun i => subnetCompare (subnet d.newSubnet) (subnet i)) d.newSubnet d.subnetTree with
    | none =>
        rw [hinsert] at hi
        exact .inr hi
    | some l =>
        rw [hinsert] at hi
        exact (OrdList.mem_insert hinsert).mp hi
  have hsorted : SortedSubnets subnet d.subnetTree :=
    h.sorted.congr fun i hi => by rw [hold i hi]
  have hcompare : ∀ i ∈ d.subnetTree,
      (subnetCompare (subnet d.newSubnet) (subnet i) < 0 →
        treeKey (subnet d.newSubnet) < treeKey (subnet i)) ∧
      (0 < subnetCompare (subnet d.newSubnet) (subnet i) →
        treeKey (subnet i) < treeKey (subnet d.newSubnet)) := by
    intro i hi
    refine subnetCompare_lt ?_
    rw [hnew, hold i hi]
    exact hnear _ _ _ _ hs (h.each i hi)
  have heach : ∀ i ∈ tree, P (subnet i).net (subnet i).weight := by
    intro i hi
    rcases hmem i hi with rfl | hi
    · rw [hnew]
      exact hs
    · rw [hold i hi]
      exact h.each i hi
  have htreeSorted : SortedSubnets subnet tree := by
    rw [htree]
    cases hinsert : OrdList.insert
        (fun i => subnetCompare (subnet d.newSubnet) (subnet i)) d.newSubnet d.subnetTree with
    | none => exact hsorted
    | some l =>
        exact hsorted.insert_of (fun i hi => (hcompare i hi).1) (fun i hi => (hcompare i hi).2)
          hinsert
  rw [hsubnet] at htree htreeSorted heach
  have hfresh : ∀ i ∈ tree, i < d.newSubnet + 1 := by
    intro i hi
    rcases hmem i hi with rfl | hi
    · exact Nat.lt_succ_self _
    · exact (h.fresh i hi).trans (Nat.lt_succ_self _)
  rw [htree] at htreeSorted heach hfresh
  exact ⟨htreeSorted, hfresh, heach⟩

lemma del (h : Planted P d) (owner : Option Name) (i : SubnetId) :
    Planted P (d.subnetDel owner i) where
  sorted := h.sorted.delete
  fresh j hj := h.fresh j (OrdList.mem_of_mem_delete hj)
  each j hj := h.each j (OrdList.mem_of_mem_delete hj)

/-- **The tree stays sorted**, whatever is added and deleted. -/
lemma run (h : Planted P d) (hnear : ∀ net w net' w', P net w → P net' w' → Near w w')
    {ops : List TreeOp} (hops : AllAdded (fun s => P s.net s.weight) ops) :
    Planted P (ops.foldl Daemon.treeStep d) := by
  induction ops generalizing d with
  | nil => exact h
  | cons op ops ih =>
      refine ih ?_ fun owner s hmem => hops owner s (List.mem_cons_of_mem _ hmem)
      cases op with
      | add owner s => exact h.add (hops owner s List.mem_cons_self) hnear owner
      | del owner i => exact h.del owner i
      | status name reachable => exact ⟨h.sorted, h.fresh, h.each⟩

end Planted

/-! ## The answer of a lookup -/

/-- An IPv4 network whose prefix the address has. -/
def ContainsIpv4 (address : List UInt8) : Net → Prop
  | .ipv4 a prefixlength => ∀ i < prefixlength, addressBit address i = addressBit a i
  | _ => False

/-- An IPv6 network whose prefix the address has. -/
def ContainsIpv6 (address : List UInt8) : Net → Prop
  | .ipv6 a prefixlength => ∀ i < prefixlength, addressBit address i = addressBit a i
  | _ => False

lemma hasIpv4_iff {address : List UInt8} (h : address.length = 4) {net : Net} (hnet : net.Sized) :
    hasIpv4 address net = true ↔ ContainsIpv4 address net := by
  cases net with
  | mac a => simp [hasIpv4, ContainsIpv4]
  | ipv4 a len =>
      obtain ⟨ha, hlen⟩ := hnet
      rw [hasIpv4, decide_eq_true_iff, maskcmp_eq_zero_iff (by omega) (by omega)]
      rfl
  | ipv6 a len => simp [hasIpv4, ContainsIpv4]

lemma hasIpv6_iff {address : List UInt8} (h : address.length = 16) {net : Net} (hnet : net.Sized) :
    hasIpv6 address net = true ↔ ContainsIpv6 address net := by
  cases net with
  | mac a => simp [hasIpv6, ContainsIpv6]
  | ipv4 a len => simp [hasIpv6, ContainsIpv6]
  | ipv6 a len =>
      obtain ⟨ha, hlen⟩ := hnet
      rw [hasIpv6, decide_eq_true_iff, maskcmp_eq_zero_iff (by omega) (by omega)]
      rfl

/-- **Longest-prefix routing**: whatever was added to and deleted from `subnet_tree` and whoever is
reachable, a lookup that is not cached answers with the first, by prefix length, network address,
weight and owner, of the subnets that contain the address and are usable, or else with the last of
those that contain it. -/
theorem longest_prefix_routing (r : Router) (d : Daemon) (ops : List TreeOp)
    (hempty : d.subnetTree = []) (hsized : AllAdded (fun s => s.net.Sized) ops)
    (hnear : AllAdded (fun s => AllAdded (fun s' => Near s.weight s'.weight) ops) ops)
    (hr : r.daemon = ops.foldl Daemon.treeStep d) :
    (∀ address : List UInt8, address.length = 4 →
      DirectMapped.search hashSlot r.ipv4Cache address = none →
        Answers r.daemon (ContainsIpv4 address) (r.lookupSubnetIpv4 address).1) ∧
    (∀ address : List UInt8, address.length = 16 →
      DirectMapped.search hashSlot r.ipv6Cache address = none →
        Answers r.daemon (ContainsIpv6 address) (r.lookupSubnetIpv6 address).1) := by
  have hplanted : Planted (fun net w => ∃ owner s, TreeOp.add owner s ∈ ops ∧ s.net = net ∧
      s.weight = w) r.daemon := by
    rw [hr]
    refine Planted.run ⟨?_, ?_, ?_⟩ ?_ fun owner s hmem => ⟨owner, s, hmem, rfl, rfl⟩
    · rw [hempty]
      exact List.Pairwise.nil
    · simp [hempty]
    · simp [hempty]
    · rintro _ _ _ _ ⟨owner, s, hs, rfl, rfl⟩ ⟨owner', s', hs', rfl, rfl⟩
      exact hnear owner s hs owner' s' hs'
  have hnets : ∀ i ∈ r.daemon.subnetTree, (r.daemon.subnet i).net.Sized := by
    intro i hi
    obtain ⟨owner, s, hs, hnet, -⟩ := hplanted.each i hi
    rw [← hnet]
    exact hsized owner s hs
  constructor
  · intro address hlength hmiss
    have hanswer : (r.lookupSubnetIpv4 address).1 = r.daemon.walkIpv4 address := by
      rw [Router.lookupSubnetIpv4, DirectMapped.lookup_fst, hmiss]
      rfl
    rw [hanswer]
    exact walk_answers hplanted.sorted fun i hi => hasIpv4_iff hlength (hnets i hi)
  · intro address hlength hmiss
    have hanswer : (r.lookupSubnetIpv6 address).1 = r.daemon.walkIpv6 address := by
      rw [Router.lookupSubnetIpv6, DirectMapped.lookup_fst, hmiss]
      rfl
    rw [hanswer]
    exact walk_answers hplanted.sorted fun i hi => hasIpv6_iff hlength (hnets i hi)

/-- `b` has `10.0.0.0/8` and `c`, which is not reachable, has `10.1.0.0/16`. -/
def twoRoutes : List TreeOp :=
  [.add (some (ascii "b")) (tenNet none 10),
    .add (some (ascii "c")) { tenNet none 20 with net := .ipv4 [10, 1, 0, 0] 16 },
    .status (ascii "b") true]

/-- A daemon after these operations, with empty tables. -/
def routerAfter (ops : List TreeOp) : Router where
  daemon := ops.foldl Daemon.treeStep (.init (.plain (ascii "a")) id)
  ipv4Cache := DirectMapped.clear
  ipv6Cache := DirectMapped.clear
  macCache := DirectMapped.clear

/-- An address in both networks goes to `b`. -/
theorem longest_prefix_routing_reachable :
    ((routerAfter twoRoutes).lookupSubnetIpv4 [10, 1, 2, 3]).1 = some 0 ∧
      Answers (routerAfter twoRoutes).daemon (ContainsIpv4 [10, 1, 2, 3])
        ((routerAfter twoRoutes).lookupSubnetIpv4 [10, 1, 2, 3]).1 := by
  have hadded : ∀ owner s, TreeOp.add owner s ∈ twoRoutes →
      s = tenNet none 10 ∨ s = { tenNet none 20 with net := .ipv4 [10, 1, 0, 0] 16 } := by
    intro owner s h
    simp only [twoRoutes, List.mem_cons, TreeOp.add.injEq, reduceCtorEq, List.not_mem_nil,
      or_false] at h
    rcases h with ⟨-, rfl⟩ | ⟨-, rfl⟩
    · exact .inl rfl
    · exact .inr rfl
  have hsized : AllAdded (fun s => s.net.Sized) twoRoutes := by
    intro owner s h
    rcases hadded owner s h with rfl | rfl
    · decide
    · decide
  have hnear : AllAdded (fun s => AllAdded (fun s' => Near s.weight s'.weight) twoRoutes)
      twoRoutes := by
    intro owner s h owner' s' h'
    rcases hadded owner s h with rfl | rfl
    · rcases hadded owner' s' h' with rfl | rfl
      · decide
      · decide
    · rcases hadded owner' s' h' with rfl | rfl
      · decide
      · decide
  exact ⟨by decide +kernel,
    (longest_prefix_routing (routerAfter twoRoutes) _ twoRoutes rfl hsized hnear rfl).1
      [10, 1, 2, 3] rfl rfl⟩

end Tinc
