import TincQuic.Conf.Command
import TincQuic.Conf.Enumeration
import TincQuic.Daemon.SubnetIndex
import TincQuic.Invite.Files

/-!
# Reloading our own subnets

When the configuration is reloaded, a daemon without StrictSubnets reads its own subnets again.
The field `expires` of a subnet says three things: 0 is a subnet for good, a time is one that was
learned, and 1 is one that is about to be deleted.  The reload gives the subnets for good the stamp
1, takes it away from those that are configured, and deletes what still has it.

* `Daemon.stamp` is the table of our own subnets, a stamp for each network and weight.  **Each step
  of the reload is a change of the table**: `loadAllNodes_reloads`, `markOwn_reloads`,
  `readSubnets_reloads`, `sweepOwn_reloads`.
* `finalStamp` puts them together: `reloadSubnets_reloads`.
* **The configured subnets are restored unless they have another stamp to begin with**:
  `reload_restores_iff`.
-/

namespace Tinc

open CText Bytes Function Splay

/-! ## `reload_configuration` -/

/-- `(time_t) -1`; the field is looked at as a number of 64 bits. -/
def minusOne : ℕ := 2 ^ 64 - 1

variable (d : Daemon)

/-- `s->expires = t` -/
def Daemon.setExpires (i : SubnetId) (t : ℕ) : Daemon :=
  { d with subnet := update d.subnet i { d.subnet i with expires := t } }

/-- `load_node_from_json` -/
def Daemon.loadNodeFromJson (host : Host) : Daemon :=
  if host.name = [] then d
  else
    let d := d.ensureNode host.name
    if host.subnet = [] then d
    else match str2net host.subnet with
      | none => d
      | some s =>
          match d.lookupSubnet host.name s with
          | some s2 => d.setExpires s2 minusOne
          | none => d.subnetAdd (some host.name) s

/-- `load_all_nodes` -/
def Daemon.loadAllNodes (hosts : List Host) : Daemon := hosts.foldl Daemon.loadNodeFromJson d

/-- `get_config_subnet` -/
def getConfigSubnet (cfg : ConfigEntry) : Option Subnet :=
  match str2net cfg.value with
  | none => none
  | some subnet => if subnetcheck subnet.net then some subnet else none

/-- `send_add_subnet` or `send_del_subnet` to everyone. -/
def Daemon.sendSubnetToAll (r : Request) (s : Subnet) : Daemon :=
  let (d, nonce) := d.draw
  d.send .everyone (words [decimal r.number, hex nonce, s.owner.getD [], net2str s])

/-- Our own subnets for good are marked. -/
def Daemon.markOwn : Daemon :=
  (d.nodeSubnets d.myself).foldl
    (fun d i => if (d.subnet i).expires = 0 then d.setExpires i 1 else d) d

/-- One round of the loop over the variables `Subnet`. -/
def Daemon.readSubnet (cfg : ConfigEntry) : Daemon :=
  match getConfigSubnet cfg with
  | none => d
  | some subnet =>
      match d.lookupSubnet d.myself subnet with
      | some s2 => if (d.subnet s2).expires = 1 then d.setExpires s2 0 else d
      | none =>
          (d.subnetAdd (some d.myself) subnet).sendSubnetToAll .addSubnet
            { subnet with owner := some d.myself }

/-- Our own subnets that are still marked are deleted. -/
def Daemon.sweepOwn : Daemon :=
  (d.nodeSubnets d.myself).foldl
    (fun d i =>
      if (d.subnet i).expires = 1 then
        (d.sendSubnetToAll .delSubnet (d.subnet i)).subnetDel (some d.myself) i
      else d) d

/-- With StrictSubnets the subnets of all owners are marked before the hosts are loaded. -/
def Daemon.markAll : Daemon :=
  d.subnetTree.foldl
    (fun d i => if (d.subnet i).owner = none then d else d.setExpires i 1) d

/-- With StrictSubnets the subnets of all owners are deleted, kept or announced. -/
def Daemon.sweepAll : Daemon :=
  d.subnetTree.foldl
    (fun d i =>
      match (d.subnet i).owner with
      | none => d
      | some owner =>
          if (d.subnet i).expires = 1 then
            (d.sendSubnetToAll .delSubnet (d.subnet i)).subnetDel (some owner) i
          else if (d.subnet i).expires = minusOne then d.setExpires i 0
          else d.sendSubnetToAll .addSubnet (d.subnet i)) d

/-- The part of `reload_configuration` that is about subnets, once the files were read; `cfgs` are
the variables `Subnet`. -/
def Daemon.reloadSubnets (hosts : List Host) (cfgs : List ConfigEntry) : Daemon :=
  if d.config.strictsubnets then (d.markAll.loadAllNodes hosts).sweepAll
  else (cfgs.foldl Daemon.readSubnet (d.loadAllNodes hosts).markOwn).sweepOwn

/-- `reload_configuration`, with the configuration that was read. -/
def Daemon.reloadConfiguration (hosts : List Host) (configTree : SplayTree ConfigEntry) :
    Option Daemon := do
  let (_, cfgs) ← enumerateConfig configTree (ascii "Subnet")
  some (d.reloadSubnets hosts cfgs)

/-! ## The table of our own subnets -/

/-- What our own subnets are looked up by. -/
abbrev SubnetPlace := Net × ℤ

def Subnet.place (s : Subnet) : SubnetPlace := (s.net, s.weight)

/-- Our own subnets. -/
def Daemon.ownSubnets : List Subnet := (d.nodeSubnets d.myself).map d.subnet

/-- The stamp of our own subnet with this network and weight. -/
def Daemon.stamp (p : SubnetPlace) : Option ℕ :=
  (d.ownSubnets.find? fun s => s.place = p).map Subnet.expires

/-- The tree of our own subnets, among places whose weights can be compared. -/
structure OwnIndex (places : Set SubnetPlace) (d : Daemon) : Prop where
  nodes : OrdList.Sorted textKey d.nodeTree
  known : d.myself ∈ d.nodeTree
  owner : ∀ n, ∀ i ∈ d.nodeSubnets n, (d.subnet i).owner = some n
  fresh : ∀ n, ∀ i ∈ d.nodeSubnets n, i < d.newSubnet
  sorted : SortedSubnets d.subnet (d.nodeSubnets d.myself)
  inside : ∀ i ∈ d.nodeSubnets d.myself, (d.subnet i).place ∈ places
  near : ∀ p ∈ places, ∀ q ∈ places, p.1 = q.1 → Near p.2 q.2

/-- What the reload looks at. -/
structure SameOwn (d d' : Daemon) : Prop where
  config : d'.config = d.config
  tables : d'.tables = d.tables

variable {d} {d' : Daemon} {places : Set SubnetPlace} {i j : SubnetId} {s : Subnet}
  {p : SubnetPlace} {t : ℕ}

lemma sameOwn_sendSubnetToAll (d : Daemon) (r : Request) (s : Subnet) :
    SameOwn d (d.sendSubnetToAll r s) := by
  unfold Daemon.sendSubnetToAll Daemon.draw Daemon.send
  dsimp only
  split <;> exact ⟨rfl, rfl⟩

lemma SameOwn.stamp (h : SameOwn d d') : d'.stamp = d.stamp := by
  have hsubnet : d'.subnet = d.subnet := congrArg Tables.subnet h.tables
  have htrees : d'.nodeSubnets = d.nodeSubnets := congrArg Tables.nodeSubnets h.tables
  funext p
  unfold Daemon.stamp Daemon.ownSubnets Daemon.myself
  rw [hsubnet, htrees, h.config]

namespace OwnIndex

lemma congr (h : OwnIndex places d) (hs : SameOwn d d') : OwnIndex places d' := by
  have hsubnet : d'.subnet = d.subnet := congrArg Tables.subnet hs.tables
  have htrees : d'.nodeSubnets = d.nodeSubnets := congrArg Tables.nodeSubnets hs.tables
  have hnodes : d'.nodeTree = d.nodeTree := congrArg Tables.nodeTree hs.tables
  have hnew : d'.newSubnet = d.newSubnet := congrArg Tables.newSubnet hs.tables
  have hmy : d'.myself = d.myself := by rw [Daemon.myself, hs.config]
  obtain ⟨h1, h2, h3, h4, h5, h6, h7⟩ := h
  refine ⟨?_, ?_, ?_, ?_, ?_, ?_, h7⟩ <;> simp only [hsubnet, htrees, hnodes, hnew, hmy] <;>
    assumption

/-- Our own subnets are known by their places. -/
lemma eq_of_place (h : OwnIndex places d) (hi : i ∈ d.nodeSubnets d.myself)
    (hj : j ∈ d.nodeSubnets d.myself) (hp : (d.subnet i).place = (d.subnet j).place) : i = j := by
  refine h.sorted.eq_of_key hi hj ?_
  simp only [treeKey, subnetKey, Subnet.place, Prod.mk.injEq] at hp ⊢
  rw [hp.1, hp.2, h.owner _ i hi, h.owner _ j hj]

/-- **The table says what the tree holds.** -/
lemma stamp_eq_some_iff (h : OwnIndex places d) : d.stamp p = some t ↔
    ∃ i ∈ d.nodeSubnets d.myself, (d.subnet i).place = p ∧ (d.subnet i).expires = t := by
  unfold Daemon.stamp Daemon.ownSubnets
  constructor
  · intro hstamp
    obtain ⟨s, hfind, rfl⟩ := Option.map_eq_some_iff.mp hstamp
    obtain ⟨i, hi, rfl⟩ := List.mem_map.mp (List.mem_of_find?_eq_some hfind)
    have hp := List.find?_some hfind
    exact ⟨i, hi, by simpa using hp, rfl⟩
  · rintro ⟨i, hi, rfl, rfl⟩
    cases hfind : ((d.nodeSubnets d.myself).map d.subnet).find?
        fun s => s.place = (d.subnet i).place with
    | none =>
        have hnone := List.find?_eq_none.mp hfind (d.subnet i) (List.mem_map_of_mem hi)
        simp at hnone
    | some s =>
        obtain ⟨j, hj, rfl⟩ := List.mem_map.mp (List.mem_of_find?_eq_some hfind)
        have hp := List.find?_some hfind
        have hij := h.eq_of_place hj hi (by simpa using hp)
        rw [hij]
        rfl

lemma stamp_eq_none_iff (h : OwnIndex places d) : d.stamp p = none ↔
    ∀ i ∈ d.nodeSubnets d.myself, (d.subnet i).place ≠ p := by
  rw [Option.eq_none_iff_forall_not_mem]
  constructor
  · intro hnone i hi hp
    exact hnone _ (h.stamp_eq_some_iff.mpr ⟨i, hi, hp, rfl⟩)
  · intro hne t ht
    obtain ⟨i, hi, hp, -⟩ := h.stamp_eq_some_iff.mp ht
    exact hne i hi hp

lemma stamp_of_mem (h : OwnIndex places d) (hi : i ∈ d.nodeSubnets d.myself) :
    d.stamp (d.subnet i).place = some (d.subnet i).expires :=
  h.stamp_eq_some_iff.mpr ⟨i, hi, rfl, rfl⟩

/-- A table with the right entries is the table. -/
lemma stamp_eq (h : OwnIndex places d) {T : SubnetPlace → Option ℕ}
    (hT : ∀ p t, T p = some t ↔
      ∃ i ∈ d.nodeSubnets d.myself, (d.subnet i).place = p ∧ (d.subnet i).expires = t) :
    d.stamp = T := by
  funext p
  exact Option.ext fun t => (h.stamp_eq_some_iff).trans (hT p t).symm

/-! ### Stamps -/

lemma setExpires (h : OwnIndex places d) (i : SubnetId) (t : ℕ) :
    OwnIndex places (d.setExpires i t) := by
  have hsame : ∀ j, ((d.setExpires i t).subnet j).Same (d.subnet j) := by
    intro j
    by_cases hj : j = i
    · subst hj
      simp [Daemon.setExpires, Subnet.Same]
    · simp [Daemon.setExpires, Subnet.Same, hj]
  refine ⟨h.nodes, h.known, fun n j hj => ?_, h.fresh, ?_, fun j hj => ?_, h.near⟩
  · rw [(hsame j).2.2]
    exact h.owner n j hj
  · refine SortedSubnets.congr h.sorted fun j _ => ?_
    simp only [treeKey, subnetKey, (hsame j).1, (hsame j).2.1, (hsame j).2.2]
  · rw [Subnet.place, (hsame j).1, (hsame j).2.1]
    exact h.inside j hj

/-- A stamp of ours is written. -/
lemma stamp_setExpires (h : OwnIndex places d) (hi : i ∈ d.nodeSubnets d.myself) (t : ℕ) :
    (d.setExpires i t).stamp = update d.stamp (d.subnet i).place (some t) := by
  refine (h.setExpires i t).stamp_eq fun p t' => ?_
  have hsub : ∀ j, (d.setExpires i t).subnet j =
      if j = i then { d.subnet i with expires := t } else d.subnet j := by
    intro j
    simp only [Daemon.setExpires, update_apply]
  change _ ↔ ∃ j ∈ d.nodeSubnets d.myself, _
  by_cases hp : p = (d.subnet i).place
  · subst hp
    rw [update_self]
    constructor
    · intro ht
      refine ⟨i, hi, ?_⟩
      rw [hsub, if_pos rfl]
      exact ⟨rfl, Option.some.inj ht⟩
    · rintro ⟨j, hj, hpj, rfl⟩
      have hji : j = i := by
        by_contra hne
        rw [hsub, if_neg hne] at hpj
        exact hne (h.eq_of_place hj hi hpj)
      rw [hsub, if_pos hji]
  · rw [update_of_ne hp, h.stamp_eq_some_iff]
    refine exists_congr fun j => and_congr_right fun hj => ?_
    rw [hsub]
    split
    · rename_i hji
      rw [hji]
      exact iff_of_false (fun hpj => hp hpj.1.symm) fun hpj => hp hpj.1.symm
    · exact Iff.rfl

/-- The stamps of others are not in the table. -/
lemma stamp_setExpires_other (h : OwnIndex places d) (hi : i ∉ d.nodeSubnets d.myself) (t : ℕ) :
    (d.setExpires i t).stamp = d.stamp := by
  refine (h.setExpires i t).stamp_eq fun p t' => ?_
  change _ ↔ ∃ j ∈ d.nodeSubnets d.myself, _
  rw [h.stamp_eq_some_iff]
  refine exists_congr fun j => and_congr_right fun hj => ?_
  have hji : j ≠ i := fun heq => hi (heq ▸ hj)
  simp only [Daemon.setExpires, update_of_ne hji]

/-! ### Looking up -/

lemma subnetCompare_owner {a b : Subnet} (ha : a.owner = none) :
    subnetCompare a b = subnetCompare { a with owner := b.owner } b := by
  have hrest : compareWeightOwner a b = compareWeightOwner { a with owner := b.owner } b := by
    unfold compareWeightOwner
    simp only [ha]
    cases b.owner <;> simp [strcmp_eq_zero.mpr]
  unfold subnetCompare
  rw [hrest]

/-- A subnet without owner, or of ours, is compared with ours by its key. -/
lemma follows (h : OwnIndex places d) (hs : s.place ∈ places)
    (howner : s.owner = none ∨ s.owner = some d.myself) :
    OrdList.Follows (fun j => subnetCompare s (d.subnet j))
      (treeKey { s with owner := some d.myself }) (fun j => treeKey (d.subnet j))
      (d.nodeSubnets d.myself) := by
  intro j hj
  have hjo := h.owner _ j hj
  have hcompare : subnetCompare s (d.subnet j) =
      subnetCompare { s with owner := some d.myself } (d.subnet j) := by
    rcases howner with ho | ho
    · rw [subnetCompare_owner ho, hjo]
    · rw [← ho]
  have hapart : Apart { s with owner := some d.myself } (d.subnet j) := by
    intro hnet
    exact ⟨h.near _ hs _ (h.inside j hj) hnet, fun _ => by simp [hjo]⟩
  dsimp only
  rw [hcompare]
  exact hapart.compare

lemma key_eq_iff (h : OwnIndex places d) (hj : j ∈ d.nodeSubnets d.myself) :
    treeKey (d.subnet j) = treeKey { s with owner := some d.myself } ↔
      (d.subnet j).place = s.place := by
  simp only [treeKey, subnetKey, h.owner _ j hj, EmbeddingLike.apply_eq_iff_eq, Prod.mk.injEq,
    netKey_inj, Subnet.place, and_true]

/-- **`lookup_subnet` finds the subnet of this place.** -/
lemma lookup_some (h : OwnIndex places d) (hs : s.place ∈ places) (howner : s.owner = none)
    (hi : d.lookupSubnet d.myself s = some i) :
    i ∈ d.nodeSubnets d.myself ∧ (d.subnet i).place = s.place := by
  obtain ⟨hmem, hkey⟩ :=
    (OrdList.search_eq_some_iff (h.follows hs (.inl howner)) h.sorted).mp hi
  exact ⟨hmem, (h.key_eq_iff hmem).mp hkey⟩

lemma lookup_none (h : OwnIndex places d) (hs : s.place ∈ places) (howner : s.owner = none)
    (hi : d.lookupSubnet d.myself s = none) : d.stamp s.place = none := by
  refine h.stamp_eq_none_iff.mpr fun i hmem hp => ?_
  exact (OrdList.search_eq_none_iff (h.follows hs (.inl howner)) h.sorted).mp hi i hmem
    ((h.key_eq_iff hmem).mpr hp)

/-! ### Adding and deleting -/

/-- What an insertion leaves in a tree is new or was there. -/
lemma mem_insertSubnet {l : List SubnetId} (hj : j ∈ d.insertSubnet i l) : j = i ∨ j ∈ l := by
  unfold Daemon.insertSubnet at hj
  cases hins : OrdList.insert (fun j => subnetCompare (d.subnet i) (d.subnet j)) i l with
  | none => exact .inr (by simpa [hins] using hj)
  | some l' => exact (OrdList.mem_insert hins).mp (by simpa [hins] using hj)

/-- A subnet of another node is added. -/
lemma subnetAdd_other (h : OwnIndex places d) {n : Name} (hn : n ≠ d.myself) (s : Subnet) :
    OwnIndex places (d.subnetAdd (some n) s) ∧ (d.subnetAdd (some n) s).stamp = d.stamp := by
  have hown : (d.subnetAdd (some n) s).nodeSubnets d.myself = d.nodeSubnets d.myself :=
    update_of_ne (Ne.symm hn) _ _
  have hold : ∀ m, ∀ j ∈ d.nodeSubnets m,
      (d.subnetAdd (some n) s).subnet j = d.subnet j :=
    fun m j hj => update_of_ne (Nat.ne_of_lt (h.fresh m j hj)) _ _
  have htrees : ∀ m, ∀ j ∈ (d.subnetAdd (some n) s).nodeSubnets m,
      j = d.newSubnet ∧ m = n ∨ j ∈ d.nodeSubnets m := by
    intro m j hj
    by_cases hm : m = n
    · subst hm
      have hj : j ∈ update d.nodeSubnets m _ m := hj
      rw [update_self] at hj
      exact (mem_insertSubnet hj).imp_left fun hj => ⟨hj, rfl⟩
    · have hj : j ∈ update d.nodeSubnets n _ m := hj
      rw [update_of_ne hm] at hj
      exact .inr hj
  have hindex : OwnIndex places (d.subnetAdd (some n) s) := by
    refine ⟨h.nodes, h.known, fun m j hj => ?_, fun m j hj => ?_, ?_, fun j hj => ?_, h.near⟩
    · rcases htrees m j hj with ⟨rfl, rfl⟩ | hj
      · simp [Daemon.subnetAdd]
      · rw [hold m j hj]
        exact h.owner m j hj
    · rcases htrees m j hj with ⟨rfl, -⟩ | hj
      · exact Nat.lt_succ_self _
      · exact Nat.lt_succ_of_lt (h.fresh m j hj)
    · change SortedSubnets _ ((d.subnetAdd (some n) s).nodeSubnets d.myself)
      rw [hown]
      exact SortedSubnets.congr h.sorted fun j hj => by rw [hold _ j hj]
    · change j ∈ (d.subnetAdd (some n) s).nodeSubnets d.myself at hj
      rw [hown] at hj
      rw [hold _ j hj]
      exact h.inside j hj
  refine ⟨hindex, hindex.stamp_eq fun p t => ?_⟩
  change _ ↔ ∃ j ∈ (d.subnetAdd (some n) s).nodeSubnets d.myself, _
  rw [hown, h.stamp_eq_some_iff]
  refine exists_congr fun j => and_congr_right fun hj => ?_
  rw [hold _ j hj]

/-- A subnet of ours is added at a place that is free. -/
lemma subnetAdd_own (h : OwnIndex places d) (hs : s.place ∈ places)
    (hfree : d.stamp s.place = none) :
    OwnIndex places (d.subnetAdd (some d.myself) s) ∧
      (d.subnetAdd (some d.myself) s).stamp = update d.stamp s.place (some s.expires) := by
  have hold : ∀ m, ∀ j ∈ d.nodeSubnets m,
      (d.subnetAdd (some d.myself) s).subnet j = d.subnet j :=
    fun m j hj => update_of_ne (Nat.ne_of_lt (h.fresh m j hj)) _ _
  have hnew : (d.subnetAdd (some d.myself) s).subnet d.newSubnet =
      { s with owner := some d.myself } := update_self _ _ _
  generalize hd' : d.subnetAdd (some d.myself) s = d' at hold hnew ⊢
  have hsorted : SortedSubnets d'.subnet (d.nodeSubnets d.myself) :=
    SortedSubnets.congr h.sorted fun j hj => by rw [hold _ j hj]
  obtain ⟨hsorted', hins⟩ := insert_subnet hsorted fun j hj => by
    rw [hnew, hold _ j hj]
    exact fun hnet => ⟨h.near _ hs _ (h.inside j hj) hnet, fun _ => by simp [h.owner _ j hj]⟩
  have hmem := (hins.resolve_left fun hsame => by
    obtain ⟨⟨j, hj, hsame⟩, -⟩ := hsame
    rw [hnew, hold _ j hj] at hsame
    exact h.stamp_eq_none_iff.mp hfree j hj (Prod.ext hsame.1 hsame.2.1)).2
  have hown : d'.nodeSubnets d.myself = (OrdList.insert (fun j =>
      subnetCompare (d'.subnet d.newSubnet) (d'.subnet j)) d.newSubnet
        (d.nodeSubnets d.myself)).getD (d.nodeSubnets d.myself) := by
    rw [← hd']
    exact update_self _ _ _
  rw [← hown] at hsorted' hmem
  have hmy : d'.myself = d.myself := by rw [← hd']; rfl
  have htrees : ∀ m, ∀ j ∈ d'.nodeSubnets m,
      j = d.newSubnet ∧ m = d.myself ∨ j ∈ d.nodeSubnets m := by
    intro m j hj
    by_cases hm : m = d.myself
    · subst hm
      exact ((hmem j).mp hj).imp_left fun hj => ⟨hj, rfl⟩
    · rw [← hd'] at hj
      have hj : j ∈ update d.nodeSubnets d.myself _ m := hj
      rw [update_of_ne hm] at hj
      exact .inr hj
  have hindex : OwnIndex places d' := by
    refine ⟨?_, ?_, fun m j hj => ?_, fun m j hj => ?_, ?_, fun j hj => ?_, h.near⟩
    · rw [← hd']
      exact h.nodes
    · rw [hmy, ← hd']
      exact h.known
    · rcases htrees m j hj with ⟨rfl, rfl⟩ | hj
      · rw [hnew]
      · rw [hold m j hj]
        exact h.owner m j hj
    · rw [← hd']
      rcases htrees m j hj with ⟨rfl, -⟩ | hj
      · exact Nat.lt_succ_self _
      · exact Nat.lt_succ_of_lt (h.fresh m j hj)
    · rw [hmy]
      exact hsorted'
    · rw [hmy] at hj
      rcases (hmem j).mp hj with rfl | hj
      · rw [hnew]
        exact hs
      · rw [hold _ j hj]
        exact h.inside j hj
  refine ⟨hindex, hindex.stamp_eq fun p t => ?_⟩
  rw [hmy]
  by_cases hp : p = s.place
  · subst hp
    rw [update_self]
    constructor
    · intro ht
      refine ⟨d.newSubnet, (hmem _).mpr (.inl rfl), ?_⟩
      rw [hnew]
      exact ⟨rfl, Option.some.inj ht⟩
    · rintro ⟨j, hj, hpj, rfl⟩
      rcases (hmem j).mp hj with rfl | hj
      · rw [hnew]
      · rw [hold _ j hj] at hpj
        exact absurd hpj (h.stamp_eq_none_iff.mp hfree j hj)
  · rw [update_of_ne hp, h.stamp_eq_some_iff]
    constructor
    · rintro ⟨j, hj, hpj, ht⟩
      exact ⟨j, (hmem j).mpr (.inr hj), by rw [hold _ j hj]; exact ⟨hpj, ht⟩⟩
    · rintro ⟨j, hj, hpj, ht⟩
      rcases (hmem j).mp hj with rfl | hj
      · rw [hnew] at hpj
        exact absurd hpj.symm hp
      · rw [hold _ j hj] at hpj ht
        exact ⟨j, hj, hpj, ht⟩

/-- A subnet of ours is deleted. -/
lemma subnetDel_own (h : OwnIndex places d) (hi : i ∈ d.nodeSubnets d.myself) :
    OwnIndex places (d.subnetDel (some d.myself) i) ∧
      (d.subnetDel (some d.myself) i).stamp = update d.stamp (d.subnet i).place none ∧
      ∀ j, j ∈ (d.subnetDel (some d.myself) i).nodeSubnets d.myself ↔
        j ∈ d.nodeSubnets d.myself ∧ j ≠ i := by
  have hown : (d.subnetDel (some d.myself) i).nodeSubnets d.myself =
      OrdList.delete (fun j => subnetCompare (d.subnet i) (d.subnet j))
        (d.nodeSubnets d.myself) := update_self _ _ _
  have hother : ∀ m, m ≠ d.myself →
      (d.subnetDel (some d.myself) i).nodeSubnets m = d.nodeSubnets m :=
    fun m hm => update_of_ne hm _ _
  have hmem : ∀ j, j ∈ (d.subnetDel (some d.myself) i).nodeSubnets d.myself ↔
      j ∈ d.nodeSubnets d.myself ∧ j ≠ i := by
    intro j
    have hf := h.follows (h.inside i hi) (.inr (h.owner _ i hi))
    rw [hown, OrdList.mem_delete_iff hf h.sorted]
    refine and_congr_right fun hj => not_congr ((h.key_eq_iff hj).trans ?_)
    exact ⟨fun hp => h.eq_of_place hj hi hp, fun hji => by rw [hji]⟩
  have htrees : ∀ m, ∀ j ∈ (d.subnetDel (some d.myself) i).nodeSubnets m,
      j ∈ d.nodeSubnets m := by
    intro m j hj
    by_cases hm : m = d.myself
    · subst hm
      exact ((hmem j).mp hj).1
    · rwa [hother m hm] at hj
  have hindex : OwnIndex places (d.subnetDel (some d.myself) i) := by
    refine ⟨h.nodes, h.known, fun m j hj => h.owner m j (htrees m j hj),
      fun m j hj => h.fresh m j (htrees m j hj), ?_, fun j hj => h.inside j (htrees _ j hj), h.near⟩
    change SortedSubnets d.subnet ((d.subnetDel (some d.myself) i).nodeSubnets d.myself)
    rw [hown]
    exact h.sorted.delete
  refine ⟨hindex, hindex.stamp_eq fun p t => ?_, hmem⟩
  change _ ↔ ∃ j ∈ (d.subnetDel (some d.myself) i).nodeSubnets d.myself,
    (d.subnet j).place = p ∧ (d.subnet j).expires = t
  simp only [hmem]
  by_cases hp : p = (d.subnet i).place
  · subst hp
    rw [update_self]
    refine iff_of_false (by simp) ?_
    rintro ⟨j, ⟨hj, hne⟩, hpj, -⟩
    exact hne (h.eq_of_place hj hi hpj)
  · rw [update_of_ne hp, h.stamp_eq_some_iff]
    constructor
    · rintro ⟨j, hj, hpj, ht⟩
      exact ⟨j, ⟨hj, fun hji => hp (by rw [← hpj, hji])⟩, hpj, ht⟩
    · rintro ⟨j, ⟨hj, -⟩, hpj, ht⟩
      exact ⟨j, hj, hpj, ht⟩

lemma ensureNode (h : OwnIndex places d) (n : Name) :
    OwnIndex places (d.ensureNode n) ∧ (d.ensureNode n).stamp = d.stamp ∧
      (d.ensureNode n).config = d.config := by
  unfold Daemon.ensureNode
  split
  · rename_i hnone
    have hne : n ≠ d.myself := by
      rintro rfl
      exact (lookupNode_eq_none h.nodes).mp hnone h.known
    have hown : (d.addNode n).nodeSubnets d.myself = d.nodeSubnets d.myself :=
      update_of_ne (Ne.symm hne) _ _
    have htrees : ∀ m, ∀ j ∈ (d.addNode n).nodeSubnets m, j ∈ d.nodeSubnets m := by
      intro m j hj
      have hj : j ∈ update d.nodeSubnets n [] m := hj
      by_cases hm : m = n
      · subst hm
        simp at hj
      · rwa [update_of_ne hm] at hj
    have hindex : OwnIndex places (d.addNode n) := by
      refine ⟨sorted_addNode h.nodes, (mem_addNode h.nodes).mpr (.inr h.known),
        fun m j hj => h.owner m j (htrees m j hj), fun m j hj => h.fresh m j (htrees m j hj), ?_,
        fun j hj => h.inside j (htrees _ j hj), h.near⟩
      change SortedSubnets d.subnet ((d.addNode n).nodeSubnets d.myself)
      rw [hown]
      exact h.sorted
    refine ⟨hindex, hindex.stamp_eq fun p t => ?_, rfl⟩
    change _ ↔ ∃ j ∈ (d.addNode n).nodeSubnets d.myself,
      (d.subnet j).place = p ∧ (d.subnet j).expires = t
    rw [hown]
    exact h.stamp_eq_some_iff
  · exact ⟨h, rfl, rfl⟩

end OwnIndex

/-! ## The steps as changes of the table -/

/-- One entry of a table is changed. -/
def change (f : Option ℕ → Option ℕ) (T : SubnetPlace → Option ℕ) (p : SubnetPlace) :
    SubnetPlace → Option ℕ := update T p (f (T p))

variable {f : Option ℕ → Option ℕ} {T : SubnetPlace → Option ℕ} {ps : List SubnetPlace}

/-- The changes of one place are made one after the other, whatever happens to the others. -/
lemma foldl_change (f : Option ℕ → Option ℕ) (T : SubnetPlace → Option ℕ) (ps : List SubnetPlace)
    (p : SubnetPlace) : ps.foldl (change f) T p = f^[ps.count p] (T p) := by
  induction ps generalizing T with
  | nil => rfl
  | cons q ps ih =>
      rw [List.foldl_cons, ih, List.count_cons, change]
      by_cases hq : q = p
      · subst hq
        simp
      · simp [hq, update_of_ne (Ne.symm hq)]

/-- A change that makes no difference the second time. -/
lemma foldl_change_of_idem (hf : ∀ e, f (f e) = f e) (p : SubnetPlace) :
    ps.foldl (change f) T p = if p ∈ ps then f (T p) else T p := by
  rw [foldl_change]
  split
  · rename_i hp
    obtain ⟨n, hn⟩ := Nat.exists_eq_add_of_lt (List.count_pos_iff.mpr hp)
    rw [hn, Nat.zero_add, iterate_succ_apply]
    exact iterate_fixed (hf _) n
  · rename_i hp
    rw [List.count_eq_zero.mpr hp]
    rfl

/-- `load_node_from_json` on a subnet of ours: a new one has the stamp 0. -/
def loadedStamp : Option ℕ → Option ℕ
  | none => some 0
  | some _ => some minusOne

/-- The mark of the subnets for good. -/
def markedStamp (e : Option ℕ) : Option ℕ := e.map fun t => if t = 0 then 1 else t

/-- A configured subnet. -/
def readStamp : Option ℕ → Option ℕ
  | none => some 0
  | some t => some (if t = 1 then 0 else t)

/-- What is still marked is deleted. -/
def sweptStamp (e : Option ℕ) : Option ℕ := if e = some 1 then none else e

/-- The place of a host that is ourselves. -/
def ownHostPlace (myself : Name) (host : Host) : Option SubnetPlace :=
  if host.name ≠ [] ∧ host.name = myself ∧ host.subnet ≠ [] then
    (str2net host.subnet).map Subnet.place
  else none

/-- The places that `hosts.json` gives us. -/
def ownHostPlaces (myself : Name) (hosts : List Host) : List SubnetPlace :=
  hosts.filterMap (ownHostPlace myself)

/-- The places of the variables `Subnet` that are valid. -/
def configPlaces (cfgs : List ConfigEntry) : List SubnetPlace :=
  cfgs.filterMap fun cfg => (getConfigSubnet cfg).map Subnet.place

lemma str2net_new {text : Text} (h : str2net text = some s) : s.owner = none ∧ s.expires = 0 := by
  simp only [str2net, Option.bind_eq_bind, Option.bind_eq_some_iff] at h
  obtain ⟨⟨str, weight⟩, -, ⟨str', len⟩, -, h⟩ := h
  dsimp only at h
  split at h
  · cases h
  · obtain ⟨net, -, hs⟩ := Option.bind_eq_some_iff.mp h
    obtain rfl := Option.some.inj hs
    exact ⟨rfl, rfl⟩

lemma getConfigSubnet_new {cfg : ConfigEntry} (h : getConfigSubnet cfg = some s) :
    s.owner = none ∧ s.expires = 0 := by
  unfold getConfigSubnet at h
  split at h
  · cases h
  · rename_i hstr
    split at h
    · obtain rfl := Option.some.inj h
      exact str2net_new hstr
    · cases h

/-- What a step of the reload does. -/
structure Reloads (places : Set SubnetPlace) (d : Daemon) (T : SubnetPlace → Option ℕ)
    (d' : Daemon) : Prop where
  index : OwnIndex places d'
  config : d'.config = d.config
  stamp : d'.stamp = T

lemma Reloads.refl (h : OwnIndex places d) : Reloads places d d.stamp d := ⟨h, rfl, rfl⟩

/-- What is found at another node is not ours. -/
lemma OwnIndex.notMem_own (h : OwnIndex places d) {n : Name} (hn : n ≠ d.myself)
    (hi : i ∈ d.nodeSubnets n) : i ∉ d.nodeSubnets d.myself := fun hown =>
  hn (Option.some.inj ((h.owner n i hi).symm.trans (h.owner _ i hown)))

/-- A host changes our table if it is ourselves. -/
lemma loadNodeFromJson_reloads (h : OwnIndex places d) (host : Host)
    (hplaces : ∀ p ∈ ownHostPlace d.myself host, p ∈ places) :
    Reloads places d ((ownHostPlace d.myself host).elim d.stamp (change loadedStamp d.stamp))
      (d.loadNodeFromJson host) := by
  unfold Daemon.loadNodeFromJson ownHostPlace at *
  by_cases hname : host.name = []
  · rw [if_pos hname, if_neg (by tauto)]
    exact Reloads.refl h
  rw [if_neg hname]
  obtain ⟨h', hstamp, hconfig⟩ := h.ensureNode host.name
  have hmy : (d.ensureNode host.name).myself = d.myself := by rw [Daemon.myself, hconfig]
  rw [← hstamp]
  rw [← hmy] at hplaces ⊢
  generalize d.ensureNode host.name = d₁ at h' hstamp hconfig hmy hplaces ⊢
  suffices hd : Reloads places d₁ _ _ from ⟨hd.index, hd.config.trans hconfig, hd.stamp⟩
  dsimp only
  by_cases hsubnet : host.subnet = []
  · rw [if_pos hsubnet, if_neg (by tauto)]
    exact Reloads.refl h'
  rw [if_neg hsubnet]
  cases hstr : str2net host.subnet with
  | none =>
      simp only [Option.map_none, ite_self, Option.elim_none]
      exact Reloads.refl h'
  | some s =>
      obtain ⟨howner, hexpires⟩ := str2net_new hstr
      simp only [hstr, Option.map_some] at hplaces ⊢
      by_cases hn : host.name = d₁.myself
      · rw [if_pos ⟨hname, hn, hsubnet⟩] at hplaces ⊢
        rw [Option.elim_some, hn]
        have hp : s.place ∈ places := hplaces _ rfl
        cases hlook : d₁.lookupSubnet d₁.myself s with
        | some i =>
            obtain ⟨hi, hpi⟩ := h'.lookup_some hp howner hlook
            refine ⟨h'.setExpires i _, rfl, ?_⟩
            rw [h'.stamp_setExpires hi, change, ← hpi, h'.stamp_of_mem hi]
            rfl
        | none =>
            have hfree := h'.lookup_none hp howner hlook
            obtain ⟨hindex, hadd⟩ := h'.subnetAdd_own hp hfree
            refine ⟨hindex, rfl, ?_⟩
            rw [hadd, change, hfree, hexpires]
            rfl
      · rw [if_neg (by tauto), Option.elim_none]
        cases hlook : d₁.lookupSubnet host.name s with
        | some i =>
            have hi := h'.notMem_own hn (OrdList.search_some hlook).1
            exact ⟨h'.setExpires i _, rfl, h'.stamp_setExpires_other hi _⟩
        | none =>
            obtain ⟨hindex, hadd⟩ := h'.subnetAdd_other hn s
            exact ⟨hindex, rfl, hadd⟩

lemma loadAllNodes_reloads (h : OwnIndex places d) (hosts : List Host)
    (hplaces : ∀ p ∈ ownHostPlaces d.myself hosts, p ∈ places) :
    Reloads places d ((ownHostPlaces d.myself hosts).foldl (change loadedStamp) d.stamp)
      (d.loadAllNodes hosts) := by
  induction hosts generalizing d with
  | nil => exact Reloads.refl h
  | cons host hosts ih =>
      have hhost : ∀ p ∈ ownHostPlace d.myself host, p ∈ places := fun p hp =>
        hplaces p (List.mem_filterMap.mpr ⟨host, List.mem_cons_self, hp⟩)
      have hstep := loadNodeFromJson_reloads h host hhost
      have hmy : (d.loadNodeFromJson host).myself = d.myself := by
        rw [Daemon.myself, hstep.config]
      have hrest : ∀ p ∈ ownHostPlaces d.myself hosts, p ∈ places := by
        intro p hp
        obtain ⟨host', hmem, hp⟩ := List.mem_filterMap.mp hp
        exact hplaces p (List.mem_filterMap.mpr ⟨host', List.mem_cons_of_mem _ hmem, hp⟩)
      have ih := ih hstep.index (by rwa [hmy])
      refine ⟨ih.index, ih.config.trans hstep.config, ih.stamp.trans ?_⟩
      rw [hmy, hstep.stamp, ownHostPlaces, ownHostPlaces, List.filterMap_cons]
      cases ownHostPlace d.myself host <;> rfl

lemma place_setExpires (d : Daemon) (i j : SubnetId) (t : ℕ) :
    ((d.setExpires i t).subnet j).place = (d.subnet j).place := by
  by_cases hj : j = i
  · subst hj
    simp [Daemon.setExpires, Subnet.place]
  · simp [Daemon.setExpires, hj]

/-- The loop that marks, on a part of our subnets. -/
lemma foldl_mark (h : OwnIndex places d) {l : List SubnetId}
    (hl : ∀ i ∈ l, i ∈ d.nodeSubnets d.myself) :
    Reloads places d ((l.map fun i => (d.subnet i).place).foldl (change markedStamp) d.stamp)
      (l.foldl (fun d i => if (d.subnet i).expires = 0 then d.setExpires i 1 else d) d) := by
  induction l generalizing d with
  | nil => exact Reloads.refl h
  | cons i l ih =>
      have hi := hl i List.mem_cons_self
      have hl := fun j hj => hl j (List.mem_cons_of_mem i hj)
      rw [List.map_cons, List.foldl_cons, List.foldl_cons, change, h.stamp_of_mem hi]
      split
      · rename_i h0
        have ih := ih (h.setExpires i 1) hl
        refine ⟨ih.index, ih.config, ih.stamp.trans ?_⟩
        simp only [place_setExpires]
        rw [h.stamp_setExpires hi, h0]
        rfl
      · rename_i h0
        have hsame : update d.stamp (d.subnet i).place
            (markedStamp (some (d.subnet i).expires)) = d.stamp := by
          rw [markedStamp, Option.map_some, if_neg h0, ← h.stamp_of_mem hi]
          exact update_eq_self _ _
        rw [hsame]
        exact ih h hl

lemma markedStamp_idem (e : Option ℕ) : markedStamp (markedStamp e) = markedStamp e := by
  cases e with
  | none => rfl
  | some t => by_cases ht : t = 0 <;> simp [markedStamp, ht]

lemma sweptStamp_idem (e : Option ℕ) : sweptStamp (sweptStamp e) = sweptStamp e := by
  unfold sweptStamp
  split <;> simp_all

lemma readStamp_idem (e : Option ℕ) : readStamp (readStamp e) = readStamp e := by
  cases e with
  | none => rfl
  | some t => by_cases ht : t = 1 <;> simp [readStamp, ht]

/-- What is done to every subnet of ours is done to the whole table, if nothing comes from
nothing. -/
lemma foldl_change_own (h : OwnIndex places d) (hf : ∀ e, f (f e) = f e) (hnone : f none = none) :
    ((d.nodeSubnets d.myself).map fun i => (d.subnet i).place).foldl (change f) d.stamp =
      fun p => f (d.stamp p) := by
  funext p
  rw [foldl_change_of_idem hf]
  split
  · rfl
  · rename_i hp
    have hfree : d.stamp p = none := by
      refine h.stamp_eq_none_iff.mpr fun i hi hpi => hp ?_
      exact List.mem_map.mpr ⟨i, hi, hpi⟩
    rw [hfree, hnone]

lemma markOwn_reloads (h : OwnIndex places d) :
    Reloads places d (fun p => markedStamp (d.stamp p)) d.markOwn := by
  rw [← foldl_change_own h markedStamp_idem rfl]
  exact foldl_mark h fun _ hi => hi

/-- One round of the loop over the configuration. -/
lemma readSubnet_reloads (h : OwnIndex places d) (cfg : ConfigEntry)
    (hplaces : ∀ p ∈ (getConfigSubnet cfg).map Subnet.place, p ∈ places) :
    Reloads places d (((getConfigSubnet cfg).map Subnet.place).elim d.stamp
      (change readStamp d.stamp)) (d.readSubnet cfg) := by
  unfold Daemon.readSubnet
  cases hcfg : getConfigSubnet cfg with
  | none => exact Reloads.refl h
  | some s =>
      obtain ⟨howner, hexpires⟩ := getConfigSubnet_new hcfg
      have hp : s.place ∈ places := hplaces _ (by rw [hcfg]; rfl)
      rw [Option.map_some, Option.elim_some, change]
      dsimp only
      cases hlook : d.lookupSubnet d.myself s with
      | some i =>
          obtain ⟨hi, hpi⟩ := h.lookup_some hp howner hlook
          rw [← hpi, h.stamp_of_mem hi, readStamp]
          dsimp only
          split
          · exact ⟨h.setExpires i 0, rfl, h.stamp_setExpires hi 0⟩
          · refine ⟨h, rfl, ?_⟩
            rw [← h.stamp_of_mem hi]
            exact (update_eq_self _ _).symm
      | none =>
          have hfree := h.lookup_none hp howner hlook
          obtain ⟨hindex, hadd⟩ := h.subnetAdd_own hp hfree
          have hsent := sameOwn_sendSubnetToAll (d.subnetAdd (some d.myself) s) .addSubnet
            { s with owner := some d.myself }
          refine ⟨hindex.congr hsent, hsent.config, ?_⟩
          rw [hsent.stamp, hadd, hfree, hexpires]
          rfl

lemma readSubnets_reloads (h : OwnIndex places d) (cfgs : List ConfigEntry)
    (hplaces : ∀ p ∈ configPlaces cfgs, p ∈ places) :
    Reloads places d ((configPlaces cfgs).foldl (change readStamp) d.stamp)
      (cfgs.foldl Daemon.readSubnet d) := by
  induction cfgs generalizing d with
  | nil => exact Reloads.refl h
  | cons cfg cfgs ih =>
      have hcfg : ∀ p ∈ (getConfigSubnet cfg).map Subnet.place, p ∈ places := fun p hp =>
        hplaces p (List.mem_filterMap.mpr ⟨cfg, List.mem_cons_self, hp⟩)
      have hrest : ∀ p ∈ configPlaces cfgs, p ∈ places := by
        intro p hp
        obtain ⟨cfg', hmem, hp⟩ := List.mem_filterMap.mp hp
        exact hplaces p (List.mem_filterMap.mpr ⟨cfg', List.mem_cons_of_mem _ hmem, hp⟩)
      have hstep := readSubnet_reloads h cfg hcfg
      have ih := ih hstep.index hrest
      refine ⟨ih.index, ih.config.trans hstep.config, ih.stamp.trans ?_⟩
      rw [hstep.stamp, configPlaces, configPlaces, List.filterMap_cons]
      cases (getConfigSubnet cfg).map Subnet.place <;> rfl

/-- The loop that deletes, on a part of our subnets. -/
lemma foldl_sweep (h : OwnIndex places d) {l : List SubnetId} (hnodup : l.Nodup)
    (hl : ∀ i ∈ l, i ∈ d.nodeSubnets d.myself) :
    Reloads places d ((l.map fun i => (d.subnet i).place).foldl (change sweptStamp) d.stamp)
      (l.foldl (fun d i =>
        if (d.subnet i).expires = 1 then
          (d.sendSubnetToAll .delSubnet (d.subnet i)).subnetDel (some d.myself) i
        else d) d) := by
  induction l generalizing d with
  | nil => exact Reloads.refl h
  | cons i l ih =>
      have hi := hl i List.mem_cons_self
      have hl := fun j hj => hl j (List.mem_cons_of_mem i hj)
      obtain ⟨hnotMem, hnodup⟩ := List.nodup_cons.mp hnodup
      rw [List.map_cons, List.foldl_cons, List.foldl_cons, change, h.stamp_of_mem hi]
      split
      · rename_i h1
        have hsent := sameOwn_sendSubnetToAll d .delSubnet (d.subnet i)
        have h' := h.congr hsent
        have hsubnet : (d.sendSubnetToAll .delSubnet (d.subnet i)).subnet = d.subnet :=
          congrArg Tables.subnet hsent.tables
        have htrees : (d.sendSubnetToAll .delSubnet (d.subnet i)).nodeSubnets = d.nodeSubnets :=
          congrArg Tables.nodeSubnets hsent.tables
        have hmy : (d.sendSubnetToAll .delSubnet (d.subnet i)).myself = d.myself := by
          rw [Daemon.myself, hsent.config]
        have hstamp := hsent.stamp
        have hconfig := hsent.config
        generalize d.sendSubnetToAll .delSubnet (d.subnet i) = d₁ at *
        rw [← hmy]
        obtain ⟨hindex, hdel, hmem⟩ := h'.subnetDel_own (i := i) (by rwa [hmy, htrees])
        have ih := ih hindex hnodup fun j hj => by
          refine (hmem j).mpr ⟨?_, fun hji => hnotMem (hji ▸ hj)⟩
          rw [hmy, htrees]
          exact hl j hj
        refine ⟨ih.index, ih.config.trans hconfig, ih.stamp.trans ?_⟩
        change (l.map fun j => (d₁.subnet j).place).foldl _ _ = _
        rw [hdel, hsubnet, hstamp, h1]
        rfl
      · rename_i h1
        have hsame : update d.stamp (d.subnet i).place
            (sweptStamp (some (d.subnet i).expires)) = d.stamp := by
          rw [sweptStamp, if_neg (by simpa using h1), ← h.stamp_of_mem hi]
          exact update_eq_self _ _
        rw [hsame]
        exact ih h hnodup hl

lemma sweepOwn_reloads (h : OwnIndex places d) :
    Reloads places d (fun p => sweptStamp (d.stamp p)) d.sweepOwn := by
  rw [← foldl_change_own h sweptStamp_idem rfl]
  exact foldl_sweep h h.sorted.nodup fun _ hi => hi

/-! ## What a reload does to a subnet -/

/-- The stamp after the reload of a subnet with the stamp `e`. -/
def finalStamp (hostPlaces cfgPlaces : List SubnetPlace) (p : SubnetPlace) (e : Option ℕ) :
    Option ℕ :=
  let e := markedStamp (loadedStamp^[hostPlaces.count p] e)
  sweptStamp (if p ∈ cfgPlaces then readStamp e else e)

/-- **The four steps together.** -/
lemma reloadSubnets_reloads (h : OwnIndex places d) (hstrict : d.config.strictsubnets = false)
    {hosts : List Host} {cfgs : List ConfigEntry}
    (hhosts : ∀ p ∈ ownHostPlaces d.myself hosts, p ∈ places)
    (hcfgs : ∀ p ∈ configPlaces cfgs, p ∈ places) :
    Reloads places d (fun p => finalStamp (ownHostPlaces d.myself hosts) (configPlaces cfgs) p
      (d.stamp p)) (d.reloadSubnets hosts cfgs) := by
  have hload := loadAllNodes_reloads h hosts hhosts
  have hmark := markOwn_reloads hload.index
  have hread := readSubnets_reloads hmark.index cfgs hcfgs
  have hsweep := sweepOwn_reloads hread.index
  rw [Daemon.reloadSubnets, if_neg (by simp [hstrict])]
  refine ⟨hsweep.index, hsweep.config.trans (hread.config.trans (hmark.config.trans hload.config)),
    ?_⟩
  funext p
  rw [hsweep.stamp, hread.stamp]
  dsimp only
  rw [foldl_change_of_idem readStamp_idem, hmark.stamp, hload.stamp]
  dsimp only
  rw [foldl_change, finalStamp]

lemma loadedStamp_succ (n : ℕ) (t : ℕ) : loadedStamp^[n + 1] (some t) = some minusOne := by
  rw [iterate_succ_apply]
  exact iterate_fixed (rfl : loadedStamp (some minusOne) = some minusOne) n

lemma finalStamp_zero_iff {hostPlaces cfgPlaces : List SubnetPlace} (e : Option ℕ) :
    finalStamp hostPlaces cfgPlaces p e = some 0 ↔ p ∈ cfgPlaces ∧
      (hostPlaces.count p = 0 ∧ (e = none ∨ e = some 0 ∨ e = some 1) ∨
        hostPlaces.count p = 1 ∧ e = none) := by
  unfold finalStamp
  dsimp only
  generalize hostPlaces.count p = n
  by_cases hp : p ∈ cfgPlaces
  · simp only [hp, if_true, true_and]
    rcases e with _ | t
    · rcases n with _ | _ | n
      · simp [markedStamp, readStamp, sweptStamp]
      · simp [loadedStamp, markedStamp, readStamp, sweptStamp]
      · rw [iterate_succ_apply, loadedStamp, loadedStamp_succ]
        simp [markedStamp, readStamp, sweptStamp, minusOne]
    · rcases n with _ | n
      · rcases t with _ | _ | t <;> simp [markedStamp, readStamp, sweptStamp]
      · rw [loadedStamp_succ]
        simp [markedStamp, readStamp, sweptStamp, minusOne]
  · simp only [hp, if_false, false_and, iff_false]
    cases loadedStamp^[n] e with
    | none => simp [markedStamp, sweptStamp]
    | some t => rcases t with _ | _ | t <;> simp [markedStamp, sweptStamp]

lemma finalStamp_kept_iff {hostPlaces cfgPlaces : List SubnetPlace} (hp : p ∉ cfgPlaces)
    (ht : t ≠ 0) :
    finalStamp hostPlaces cfgPlaces p (some t) = some t ↔
      (p ∉ hostPlaces ∧ t ≠ 1) ∨ (p ∈ hostPlaces ∧ t = minusOne) := by
  unfold finalStamp
  dsimp only
  rw [if_neg hp]
  by_cases hhost : p ∈ hostPlaces
  · obtain ⟨n, hn⟩ := Nat.exists_eq_add_of_lt (List.count_pos_iff.mpr hhost)
    rw [hn, Nat.zero_add, loadedStamp_succ]
    simp [hhost, markedStamp, sweptStamp, minusOne, eq_comm]
  · rw [List.count_eq_zero.mpr hhost]
    simp [hhost, ht, markedStamp, sweptStamp]

/-! ## What is restored -/

/-- An address that was learned. -/
def Subnet.Learned (s : Subnet) : Prop := (∃ address, s.net = .mac address) ∧ s.expires ≠ 0

/-- The valid variables `Subnet` of a configuration. -/
def configuredSubnets (configTree : SplayTree ConfigEntry) : Set SubnetPlace :=
  {p | ∃ cfg ∈ storedEntries configTree, sameIgnoringCase (ascii "Subnet") cfg.var = true ∧
    ∃ s, getConfigSubnet cfg = some s ∧ s.place = p}

/-- Our subnets for good are the configured ones, and those that were learned keep their stamps
unless they are configured. -/
structure Restored (d d' : Daemon) (configured : Set SubnetPlace) : Prop where
  permanent : ∀ p, (∃ s ∈ d'.ownSubnets, s.place = p ∧ s.expires = 0) ↔ p ∈ configured
  learned : ∀ s ∈ d.ownSubnets, s.Learned → s.place ∉ configured →
    ∃ s' ∈ d'.ownSubnets, s'.place = s.place ∧ s'.expires = s.expires

/-- A configured subnet is new or has the stamp 0 or 1, and `hosts.json` does not name it for us,
or once if it is new.  A learned one that is not configured has another stamp than 1, or the stamp
that `hosts.json` gives it. -/
structure Restorable (d : Daemon) (hosts : List Host) (configured : Set SubnetPlace) : Prop where
  permanent : ∀ p ∈ configured,
    (p ∉ ownHostPlaces d.myself hosts ∧
      ∀ s ∈ d.ownSubnets, s.place = p → s.expires = 0 ∨ s.expires = 1) ∨
    ((ownHostPlaces d.myself hosts).count p = 1 ∧ ∀ s ∈ d.ownSubnets, s.place ≠ p)
  learned : ∀ s ∈ d.ownSubnets, s.Learned → s.place ∉ configured →
    (s.place ∉ ownHostPlaces d.myself hosts ∧ s.expires ≠ 1) ∨
    (s.place ∈ ownHostPlaces d.myself hosts ∧ s.expires = minusOne)

lemma OwnIndex.mem_own (h : OwnIndex places d) :
    (∃ s ∈ d.ownSubnets, s.place = p ∧ s.expires = t) ↔ d.stamp p = some t := by
  rw [h.stamp_eq_some_iff]
  unfold Daemon.ownSubnets
  simp only [List.mem_map, exists_exists_and_eq_and]

/-- What holds of our subnet at a place is read in the table. -/
lemma OwnIndex.forall_own (h : OwnIndex places d) (Q : ℕ → Prop) :
    (∀ s ∈ d.ownSubnets, s.place = p → Q s.expires) ↔ ∀ t, d.stamp p = some t → Q t := by
  constructor
  · intro hall t ht
    obtain ⟨s, hs, hp, rfl⟩ := h.mem_own.mpr ht
    exact hall s hs hp
  · intro hall s hs hp
    exact hall _ (h.mem_own.mp ⟨s, hs, hp, rfl⟩)

/-- What a reload restores is seen from the table before it. -/
lemma restored_iff (h : OwnIndex places d) (hstrict : d.config.strictsubnets = false)
    {hosts : List Host} {cfgs : List ConfigEntry}
    (hhosts : ∀ p ∈ ownHostPlaces d.myself hosts, p ∈ places)
    (hcfgs : ∀ p ∈ configPlaces cfgs, p ∈ places) :
    Restored d (d.reloadSubnets hosts cfgs) {p | p ∈ configPlaces cfgs} ↔
      Restorable d hosts {p | p ∈ configPlaces cfgs} := by
  have hreload := reloadSubnets_reloads h hstrict hhosts hcfgs
  have hpermanent : ∀ p ∈ configPlaces cfgs,
      ((∃ s ∈ (d.reloadSubnets hosts cfgs).ownSubnets, s.place = p ∧ s.expires = 0) ↔
        (p ∉ ownHostPlaces d.myself hosts ∧
          ∀ s ∈ d.ownSubnets, s.place = p → s.expires = 0 ∨ s.expires = 1) ∨
        ((ownHostPlaces d.myself hosts).count p = 1 ∧ ∀ s ∈ d.ownSubnets, s.place ≠ p)) := by
    intro p hp
    have hfree : (∀ s ∈ d.ownSubnets, s.place ≠ p) ↔ ∀ t, d.stamp p = some t → False :=
      h.forall_own fun _ => False
    rw [hreload.index.mem_own, hreload.stamp, finalStamp_zero_iff,
      h.forall_own fun t => t = 0 ∨ t = 1, hfree, List.count_eq_zero]
    cases d.stamp p <;> simp [hp]
  have hlearned : ∀ s ∈ d.ownSubnets, s.Learned → s.place ∉ configPlaces cfgs →
      ((∃ s' ∈ (d.reloadSubnets hosts cfgs).ownSubnets,
          s'.place = s.place ∧ s'.expires = s.expires) ↔
        (s.place ∉ ownHostPlaces d.myself hosts ∧ s.expires ≠ 1) ∨
        (s.place ∈ ownHostPlaces d.myself hosts ∧ s.expires = minusOne)) := by
    intro s hs hl hp
    have hstamp : d.stamp s.place = some s.expires := h.mem_own.mp ⟨s, hs, rfl, rfl⟩
    rw [hreload.index.mem_own, hreload.stamp]
    dsimp only
    rw [hstamp, finalStamp_kept_iff hp hl.2]
  have hnew : ∀ p, (∃ s ∈ (d.reloadSubnets hosts cfgs).ownSubnets, s.place = p ∧ s.expires = 0) →
      p ∈ configPlaces cfgs := by
    intro p hs
    rw [hreload.index.mem_own, hreload.stamp, finalStamp_zero_iff] at hs
    exact hs.1
  constructor
  · rintro ⟨hper, hlea⟩
    refine ⟨fun p hp => (hpermanent p hp).mp ((hper p).mpr hp), fun s hs hl hp => ?_⟩
    exact (hlearned s hs hl hp).mp (hlea s hs hl hp)
  · rintro ⟨hper, hlea⟩
    refine ⟨fun p => ⟨hnew p, fun hp => (hpermanent p hp).mpr (hper p hp)⟩, fun s hs hl hp => ?_⟩
    exact (hlearned s hs hl hp).mpr (hlea s hs hl hp)

/-- The variables that the loop goes over are those of the configuration. -/
lemma configPlaces_enumerated {configTree : SplayTree ConfigEntry} {s : List Loc}
    (h : Inv configCompare configTree s) :
    ∃ configTree' cfgs, enumerateConfig configTree (ascii "Subnet") = some (configTree', cfgs) ∧
      {p | p ∈ configPlaces cfgs} = configuredSubnets configTree := by
  obtain ⟨configTree', henum⟩ := enumerateConfig_eq h (ascii "Subnet")
  refine ⟨configTree', _, henum, ?_⟩
  ext p
  simp only [configPlaces, configuredSubnets, storedEntries_eq h, Set.mem_ofPred_eq,
    List.mem_filterMap, List.mem_filter, Option.map_eq_some_iff, and_assoc]

/-- A configuration is built and read. -/
lemma reloadConfiguration_eq (d : Daemon) (hosts : List Host) (cmdlineConf : List ConfigEntry)
    (sources : List ConfigSource) :
    ∃ configTree cfgs, buildConfig cmdlineConf sources = some configTree ∧
      d.reloadConfiguration hosts configTree = some (d.reloadSubnets hosts cfgs) ∧
      {p | p ∈ configPlaces cfgs} = configuredSubnets configTree ∧
      storedEntries configTree =
        (sources.flatMap (ConfigSource.entries cmdlineConf)).foldl configAdd [] := by
  obtain ⟨configTree, s, hbuild, hinv, hstored⟩ := foldlM_configAddNode
    (splayAllocTree_inv : Inv configCompare splayAllocTree [])
    (sources.flatMap (ConfigSource.entries cmdlineConf))
  obtain ⟨configTree', cfgs, henum, hplaces⟩ := configPlaces_enumerated hinv
  refine ⟨configTree, cfgs, hbuild, ?_, hplaces, (storedEntries_eq hinv).trans hstored⟩
  rw [Daemon.reloadConfiguration, henum]
  rfl

/-- **The configured subnets are for good after a reload, and the learned ones keep their stamps,
exactly if no configured subnet had another stamp before and none that was learned was about to be
deleted.** -/
theorem reload_restores_iff (places : Set SubnetPlace) (d : Daemon) (hosts : List Host)
    (cmdlineConf : List ConfigEntry) (sources : List ConfigSource) (h : OwnIndex places d)
    (hstrict : d.config.strictsubnets = false)
    (hhosts : ∀ p ∈ ownHostPlaces d.myself hosts, p ∈ places)
    (hsources : ∀ configTree, buildConfig cmdlineConf sources = some configTree →
      configuredSubnets configTree ⊆ places) :
    ∃ configTree d', buildConfig cmdlineConf sources = some configTree ∧
      d.reloadConfiguration hosts configTree = some d' ∧
      (Restored d d' (configuredSubnets configTree) ↔
        Restorable d hosts (configuredSubnets configTree)) := by
  obtain ⟨configTree, cfgs, hbuild, hreload, hplaces, -⟩ :=
    reloadConfiguration_eq d hosts cmdlineConf sources
  refine ⟨configTree, _, hbuild, hreload, ?_⟩
  have hinside := hsources configTree hbuild
  rw [← hplaces] at hinside ⊢
  exact restored_iff h hstrict hhosts fun p hp => hinside hp

/-! ## An address that was learned and is then configured -/

/-- The daemon `a` has learned the address 1:2:3:4:5:6. -/
def learnedDaemon : Daemon :=
  (Daemon.init (.plain (ascii "a")) id).subnetAdd (some (ascii "a"))
    ⟨none, .mac [1, 2, 3, 4, 5, 6], 10, 700⟩

/-- Its host file gives it the address. -/
def macSources : List ConfigSource :=
  [.file (ascii "hosts/a") (ascii "Subnet = 1:2:3:4:5:6\n")]

/-- Places with the weight that is the default. -/
def defaultPlaces : Set SubnetPlace := {p | p.2 = 10}

lemma learnedDaemon_index : OwnIndex defaultPlaces learnedDaemon ∧
    learnedDaemon.stamp (.mac [1, 2, 3, 4, 5, 6], 10) = some 700 := by
  have hinit : OwnIndex defaultPlaces (Daemon.init (.plain (ascii "a")) id) := by
    refine ⟨List.pairwise_singleton _ _, List.mem_singleton_self _, by simp [Daemon.init],
      by simp [Daemon.init], List.Pairwise.nil, by simp [Daemon.init], ?_⟩
    intro p hp q hq _
    rw [show p.2 = 10 from hp, show q.2 = 10 from hq]
    decide
  obtain ⟨hindex, hstamp⟩ := hinit.subnetAdd_own
    (s := ⟨none, .mac [1, 2, 3, 4, 5, 6], 10, 700⟩) rfl rfl
  exact ⟨hindex, (congrFun hstamp _).trans (update_self _ _ _)⟩

lemma configured_mac {configTree : SplayTree ConfigEntry}
    (h : storedEntries configTree =
      (macSources.flatMap (ConfigSource.entries [])).foldl configAdd []) :
    configuredSubnets configTree = {(.mac [1, 2, 3, 4, 5, 6], 10)} := by
  have hentries : (macSources.flatMap (ConfigSource.entries [])).foldl configAdd [] =
      [⟨ascii "Subnet", ascii "1:2:3:4:5:6", some (ascii "hosts/a"), 1⟩] := by decide +kernel
  have hsubnet : getConfigSubnet ⟨ascii "Subnet", ascii "1:2:3:4:5:6", some (ascii "hosts/a"), 1⟩ =
      some ⟨none, .mac [1, 2, 3, 4, 5, 6], 10, 0⟩ := by decide +kernel
  ext p
  simp only [configuredSubnets, h, hentries, Set.mem_ofPred_eq, List.mem_singleton,
    exists_eq_left, hsubnet, Option.some.injEq, sameIgnoringCase_refl, true_and,
    Set.mem_singleton_iff, Subnet.place, eq_comm]

lemma macSources_inside {configTree : SplayTree ConfigEntry}
    (h : buildConfig [] macSources = some configTree) :
    configuredSubnets configTree ⊆ defaultPlaces := by
  obtain ⟨configTree', cfgs, hbuild, -, -, hstored⟩ :=
    reloadConfiguration_eq learnedDaemon [] [] macSources
  obtain rfl := Option.some.inj (h.symm.trans hbuild)
  rw [configured_mac hstored]
  rintro _ rfl
  rfl

theorem reload_restores_iff_learned :
    ∃ configTree d', buildConfig [] macSources = some configTree ∧
      learnedDaemon.reloadConfiguration [] configTree = some d' ∧
      (Restored learnedDaemon d' (configuredSubnets configTree) ↔
        Restorable learnedDaemon [] (configuredSubnets configTree)) :=
  reload_restores_iff defaultPlaces learnedDaemon [] [] macSources learnedDaemon_index.1 rfl
    (fun _ hp => nomatch hp) (fun _ => macSources_inside)

/-- The address is configured now, and it still expires. -/
theorem learned_subnet_expires :
    ∃ configTree d', buildConfig [] macSources = some configTree ∧
      learnedDaemon.reloadConfiguration [] configTree = some d' ∧
      ¬ Restored learnedDaemon d' (configuredSubnets configTree) := by
  obtain ⟨configTree, cfgs, hbuild, hreload, hplaces, hstored⟩ :=
    reloadConfiguration_eq learnedDaemon [] [] macSources
  obtain ⟨hindex, hstamp⟩ := learnedDaemon_index
  have hinside := macSources_inside hbuild
  have hmac : (.mac [1, 2, 3, 4, 5, 6], 10) ∈ configuredSubnets configTree := by
    rw [configured_mac hstored]
    exact Set.mem_singleton _
  have hhosts : ∀ p ∈ ownHostPlaces learnedDaemon.myself [], p ∈ defaultPlaces := by
    simp [ownHostPlaces]
  refine ⟨configTree, _, hbuild, hreload, ?_⟩
  rw [← hplaces] at hinside hmac ⊢
  rw [restored_iff hindex rfl hhosts fun p hp => hinside hp]
  rintro ⟨hper, -⟩
  rcases hper _ hmac with ⟨-, hold⟩ | ⟨hcount, -⟩
  · have := (hindex.forall_own fun t => t = 0 ∨ t = 1).mp hold 700 hstamp
    omega
  · exact absurd hcount (by decide)

end Tinc
