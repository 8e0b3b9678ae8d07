import TincQuic.Daemon.Lookup
import TincQuic.Lib.Run

/-!
# The tables of lookups are transparent, but for the owner

A lookup of an IP address answers what the loop over `subnet_tree` would answer in the same state.
The table for MAC addresses is asked by `route_mac` for any owner and by `learn_mac` for `myself`,
and it does not tell the two apart.

* `Steady` relates a daemon to one in which all the loops give the same answers.  What happens
  without clearing the tables is steady.
* `Fresh` is the invariant: **every entry is what the loop gives now, for the owner for whom it was
  looked up**.
* **A lookup answers as the loop does iff the entry that it finds, if any, was made for an owner
  for whom the loop gives the same answer**: `lookup_transparent_iff`.
-/

namespace Tinc

open Bytes CText Function Run

variable {d d' d'' : Daemon}

/-! ## What the loops depend on -/

/-- The nodes are sorted, `myself` and every owner are known, and an unknown name has no
subnets. -/
structure Placed (d : Daemon) : Prop where
  myself : d.myself ∈ d.nodeTree
  nodes : OrdList.Sorted textKey d.nodeTree
  owner : ∀ i, ∀ n ∈ (d.subnet i).owner, n ∈ d.nodeTree
  known : ∀ n, n ∉ d.nodeTree → d.nodeSubnets n = []

/-- The trees are the same, with the same networks and owners, and the nodes of `d` are as
reachable as they were. -/
structure Steady (d d' : Daemon) : Prop where
  config : d'.config = d.config
  subnetTree : d'.subnetTree = d.subnetTree
  nodeSubnets : d'.nodeSubnets = d.nodeSubnets
  net : ∀ i, (d'.subnet i).net = (d.subnet i).net
  owner : ∀ i, (d'.subnet i).owner = (d.subnet i).owner
  nodes : ∀ n ∈ d.nodeTree, n ∈ d'.nodeTree ∧ (d'.node n).reachable = (d.node n).reachable

namespace Steady

lemma of_eq (hc : d'.config = d.config) (ht : d'.tables = d.tables) (hn : d'.node = d.node) :
    Steady d d' := by
  have hnodes : d'.nodeTree = d.nodeTree := congrArg Tables.nodeTree ht
  have hsubnet : d'.subnet = d.subnet := congrArg Tables.subnet ht
  refine ⟨hc, congrArg Tables.subnetTree ht, congrArg Tables.nodeSubnets ht, ?_, ?_, ?_⟩
  · intro i
    rw [hsubnet]
  · intro i
    rw [hsubnet]
  · intro n hmem
    rw [hnodes, hn]
    exact ⟨hmem, rfl⟩

lemma refl (d : Daemon) : Steady d d := of_eq rfl rfl rfl

lemma trans (h : Steady d d') (h' : Steady d' d'') : Steady d d'' where
  config := h'.config.trans h.config
  subnetTree := h'.subnetTree.trans h.subnetTree
  nodeSubnets := h'.nodeSubnets.trans h.nodeSubnets
  net i := (h'.net i).trans (h.net i)
  owner i := (h'.owner i).trans (h.owner i)
  nodes := by
    intro n hn
    have hn' := h.nodes n hn
    have hn'' := h'.nodes n hn'.1
    exact ⟨hn''.1, hn''.2.trans hn'.2⟩

lemma usable (h : Steady d d') (hd : Placed d) (i : SubnetId) : d'.usable i = d.usable i := by
  unfold Daemon.usable
  rw [h.owner i]
  cases ho : (d.subnet i).owner with
  | none => rfl
  | some n => exact (h.nodes n (hd.owner i n ho)).2

lemma walk (h : Steady d d') (hd : Placed d) (found : Net → Bool) (tree : List SubnetId)
    (r : Option SubnetId) : d'.walk found tree r = d.walk found tree r := by
  induction tree generalizing r with
  | nil => rfl
  | cons p tree ih =>
      simp only [Daemon.walk]
      rw [h.net p, h.usable hd p, ih, ih]

lemma walkMac (h : Steady d d') (hd : Placed d) (owner : Option Name) (address : List UInt8) :
    d'.walkMac owner address = d.walkMac owner address := by
  unfold Daemon.walkMac
  rw [h.walk hd, h.subnetTree, h.nodeSubnets]

lemma walkIpv4 (h : Steady d d') (hd : Placed d) (address : List UInt8) :
    d'.walkIpv4 address = d.walkIpv4 address := by
  unfold Daemon.walkIpv4
  rw [h.walk hd, h.subnetTree]

lemma walkIpv6 (h : Steady d d') (hd : Placed d) (address : List UInt8) :
    d'.walkIpv6 address = d.walkIpv6 address := by
  unfold Daemon.walkIpv6
  rw [h.walk hd, h.subnetTree]

/-! ### Sending -/

lemma sendMeta (d : Daemon) (c : ConnId) (request : Text) :
    Steady d (d.sendMeta c request).1 := by
  unfold Daemon.sendMeta
  split <;> exact of_eq rfl rfl rfl

lemma sendRequest (d : Daemon) (c : ConnId) (request : Text) :
    Steady d (d.sendRequest c request).1 := by
  unfold Daemon.sendRequest
  split
  · exact refl d
  · split <;> exact sendMeta d c request

lemma sendSubnet (d : Daemon) (r : Request) (c : ConnId) (owner : Name) (s : Subnet) :
    Steady d (d.sendSubnet r c owner s) := by
  have hdraw : Steady d d.draw.1 := of_eq rfl rfl rfl
  exact hdraw.trans (sendRequest d.draw.1 c _)

lemma forwardRequest (d : Daemon) (c : ConnId) (request : Text) :
    Steady d (d.forwardRequest c request) := of_eq rfl rfl rfl

lemma tellRest (d : Daemon) (c : ConnId) (request : Text) :
    Steady d (d.tellRest c request) := by
  unfold Daemon.tellRest
  split
  · exact refl d
  · exact forwardRequest d c request

lemma seenRequest (d : Daemon) (request : Text) : Steady d (d.seenRequest request).1 := by
  unfold Daemon.seenRequest
  split <;> exact of_eq rfl rfl rfl

lemma foldl {β : Type} {f : Daemon → β → Daemon} (hf : ∀ d b, Steady d (f d b)) (l : List β)
    (d : Daemon) : Steady d (l.foldl f d) := by
  induction l generalizing d with
  | nil => exact refl d
  | cons b l ih => exact (hf d b).trans (ih (f d b))

lemma ensureNode (hd : Placed d) (n : Name) : Steady d (d.ensureNode n) := by
  unfold Daemon.ensureNode
  split
  · rename_i hnone
    have hn : n ∉ d.nodeTree := (lookupNode_eq_none hd.nodes).mp hnone
    refine ⟨rfl, rfl, ?_, fun _ => rfl, fun _ => rfl, ?_⟩
    · change update d.nodeSubnets n [] = d.nodeSubnets
      rw [← hd.known n hn]
      exact update_eq_self n d.nodeSubnets
    · intro m hm
      have hne : m ≠ n := fun he => hn (he ▸ hm)
      refine ⟨(mem_addNode hd.nodes).mpr (.inr hm), ?_⟩
      change (update d.node n .new m).reachable = _
      rw [update_of_ne hne]
  · exact refl d

/-- The time at which a subnet expires is not looked at. -/
lemma expire (d : Daemon) (i : SubnetId) (t : ℕ) :
    Steady d { d with subnet := update d.subnet i { d.subnet i with expires := t } } := by
  refine ⟨rfl, rfl, rfl, fun j => ?_, fun j => ?_, fun n hn => ⟨hn, rfl⟩⟩
  all_goals
    by_cases hj : j = i
    · subst hj
      simp
    · simp [hj]

end Steady

namespace Placed

lemma of_steady (h : Placed d) (hs : Steady d d') (hn : OrdList.Sorted textKey d'.nodeTree) :
    Placed d' where
  myself := by
    have hm := (hs.nodes d.myself h.myself).1
    unfold Daemon.myself at hm ⊢
    rwa [hs.config]
  nodes := hn
  owner := by
    intro i n ho
    rw [hs.owner i] at ho
    exact (hs.nodes n (h.owner i n ho)).1
  known := by
    intro n hunknown
    rw [hs.nodeSubnets]
    exact h.known n fun hmem => hunknown (hs.nodes n hmem).1

lemma of_same (h : Placed d) (hs : SameIndexes d d') : Placed d' := by
  obtain ⟨_, _, _, _, _, _, _, rfl⟩ := hs
  exact ⟨h.myself, h.nodes, h.owner, h.known⟩

lemma ensureNode (h : Placed d) (n : Name) : Placed (d.ensureNode n) := by
  refine h.of_steady (.ensureNode h n) ?_
  unfold Daemon.ensureNode
  split
  · exact sorted_addNode h.nodes
  · exact h.nodes

lemma mem_ensureNode (h : Placed d) (n : Name) : n ∈ (d.ensureNode n).nodeTree := by
  unfold Daemon.ensureNode
  split
  · exact (mem_addNode h.nodes).mpr (.inl rfl)
  · rename_i hsome
    by_contra hn
    exact hsome ((lookupNode_eq_none h.nodes).mpr hn)

lemma subnetAdd (h : Placed d) {owner : Option Name} (ho : ∀ n ∈ owner, n ∈ d.nodeTree)
    (s : Subnet) : Placed (d.subnetAdd owner s) where
  myself := h.myself
  nodes := h.nodes
  owner := by
    intro i n hn
    change n ∈ (update d.subnet d.newSubnet { s with owner := owner } i).owner at hn
    by_cases hi : i = d.newSubnet
    · subst hi
      rw [update_self] at hn
      exact ho n hn
    · rw [update_of_ne hi] at hn
      exact h.owner i n hn
  known := by
    intro n hn
    cases owner with
    | none => exact h.known n hn
    | some m =>
        have hne : n ≠ m := fun he => hn (he ▸ ho m rfl)
        change update d.nodeSubnets m _ n = []
        rw [update_of_ne hne]
        exact h.known n hn

lemma subnetDel (h : Placed d) (owner : Option Name) (s : SubnetId) :
    Placed (d.subnetDel owner s) where
  myself := h.myself
  nodes := h.nodes
  owner := h.owner
  known := by
    intro n hn
    have hnil : d.nodeSubnets n = [] := h.known n hn
    cases owner with
    | none => exact hnil
    | some m =>
        change update d.nodeSubnets m (d.deleteSubnet s (d.nodeSubnets m)) n = []
        by_cases hm : n = m
        · subst hm
          rw [update_self, hnil]
          rfl
        · rw [update_of_ne hm]
          exact hnil

end Placed

/-! ## Handlers -/

/-- `add_subnet_h` adds a subnet, which is seen by the counter, or is steady. -/
lemma applyAddSubnet_spec (h : Placed d) (c : ConnId) (request : Text) {owner : Name}
    (hn : owner ∈ d.nodeTree) (s : Subnet) :
    Placed (d.applyAddSubnet c request owner s) ∧
      ((d.applyAddSubnet c request owner s).newSubnet = d.newSubnet →
        Steady d (d.applyAddSubnet c request owner s)) := by
  have steady : ∀ d', Steady d d' → d'.nodeTree = d.nodeTree →
      Placed d' ∧ (d'.newSubnet = d.newSubnet → Steady d d') := by
    intro d' hs ht
    exact ⟨h.of_steady hs (ht ▸ h.nodes), fun _ => hs⟩
  have grown : ∀ d', Placed d' → d'.newSubnet = d.newSubnet + 1 →
      Placed d' ∧ (d'.newSubnet = d.newSubnet → Steady d d') := by
    intro d' hp hnew
    exact ⟨hp, fun he => absurd (hnew.symm.trans he) (Nat.succ_ne_self _)⟩
  unfold Daemon.applyAddSubnet
  split
  · exact steady d (.refl d) rfl
  · split
    · refine steady _ (.sendSubnet d _ c _ s) ?_
      exact congrArg Tables.nodeTree (tables_of_same (SameIndexes.sendSubnet d _ c _ s))
    · split
      · exact steady d (.refl d) rfl
      · split
        · exact steady _ (.forwardRequest d c request) rfl
        · have hadd : Placed (d.subnetAdd (some owner) s) :=
            h.subnetAdd (fun n ho => Option.mem_some.mp ho ▸ hn) s
          have htell : Placed ((d.subnetAdd (some owner) s).tellRest c request) :=
            hadd.of_same (.tellRest _ c request)
          have hnew : ((d.subnetAdd (some owner) s).tellRest c request).newSubnet =
              d.newSubnet + 1 := congrArg Tables.newSubnet (tables_of_same (.tellRest _ c request))
          unfold Daemon.handoff
          split
          · split
            · split
              · exact grown _ htell hnew
              · exact grown _ (htell.of_steady (.expire _ _ 1) htell.nodes) hnew
            · exact grown _ htell hnew
          · exact grown _ htell hnew

/-- The same of the whole handler. -/
lemma addSubnetH_spec (h : Placed d) (c : ConnId) (request : Text) :
    Placed (addSubnetH d c request).1 ∧
      ((addSubnetH d c request).1.newSubnet = d.newSubnet →
        Steady d (addSubnetH d c request).1) := by
  have hseen : Steady d (d.seenRequest request).1 := .seenRequest d request
  have htables : (d.seenRequest request).1.tables = d.tables :=
    tables_of_same (.seenRequest d request)
  rcases addSubnetH_cases d c request with he | he | ⟨name, s, -, he⟩ <;> rw [he]
  · exact ⟨h, fun _ => .refl d⟩
  · exact ⟨h.of_same (.seenRequest d request), fun _ => hseen⟩
  · have hplaced : Placed (d.seenRequest request).1 := h.of_same (.seenRequest d request)
    have hnode : Steady d ((d.seenRequest request).1.ensureNode name) :=
      hseen.trans (.ensureNode hplaced name)
    have hnew : ((d.seenRequest request).1.ensureNode name).newSubnet = d.newSubnet := by
      rw [show d.newSubnet = _ from (congrArg Tables.newSubnet htables).symm]
      unfold Daemon.ensureNode
      split <;> rfl
    obtain ⟨hp, hs⟩ := applyAddSubnet_spec (hplaced.ensureNode name) c request
      (hplaced.mem_ensureNode name) s
    exact ⟨hp, fun heq => hnode.trans (hs (heq.trans hnew.symm))⟩

/-- `del_subnet_h` is steady, unless it finds a subnet that it may delete. -/
lemma applyDelSubnet_spec (h : Placed d) (c : ConnId) (request : Text) (owner : Name)
    (s : Subnet) :
    Placed (d.applyDelSubnet c request owner s) ∧
      (d.lookupSubnet owner { s with owner := some owner } = none ∨ owner = d.myself ∨
          d.config.tunnelserver = true ∨ d.config.strictsubnets = true →
        Steady d (d.applyDelSubnet c request owner s)) := by
  unfold Daemon.applyDelSubnet
  split
  · split
    · exact ⟨h.of_same (.broadcastMeta d (some c) request),
        fun _ => .forwardRequest d c request⟩
    · exact ⟨h, fun _ => .refl d⟩
  · rename_i find hfind
    split
    · exact ⟨h.of_same (.sendSubnet d _ c _ _), fun _ => .sendSubnet d _ c _ _⟩
    · rename_i hmy
      split
      · exact ⟨h, fun _ => .refl d⟩
      · rename_i htunnel
        have htell : Placed (d.tellRest c request) := h.of_same (.tellRest d c request)
        split
        · exact ⟨htell, fun _ => .tellRest d c request⟩
        · rename_i hstrict
          refine ⟨htell.subnetDel _ _, ?_⟩
          rintro (hnone | hown | ht | hs)
          · exact absurd (hfind.symm.trans hnone) (Option.some_ne_none find)
          · exact absurd hown hmy
          · exact absurd ht htunnel
          · exact absurd hs hstrict

/-- The same of the whole handler. -/
lemma delSubnetH_spec (r : Router) (h : Placed r.daemon) (c : ConnId) (request : Text) :
    Placed (delSubnetH r.daemon c request).1 ∧
      (r.reachesSubnetDel c request = false →
        Steady r.daemon (delSubnetH r.daemon c request).1) := by
  have hseen : Steady r.daemon (r.daemon.seenRequest request).1 := .seenRequest _ request
  have hplaced : Placed (r.daemon.seenRequest request).1 :=
    h.of_same (.seenRequest _ request)
  unfold delSubnetH Router.reachesSubnetDel
  cases hparse : parseTwoWords request with
  | none => exact ⟨h, fun _ => .refl _⟩
  | some w =>
      dsimp only
      split
      · exact ⟨h, fun _ => .refl _⟩
      · rename_i hid
        cases hstr : str2net w.2 with
        | none => exact ⟨h, fun _ => .refl _⟩
        | some s =>
            dsimp only
            split
            · exact ⟨hplaced, fun _ => hseen⟩
            · rename_i hpass
              obtain ⟨hnew, hpeer, hknown⟩ : _ ∧ _ ∧ _ := by simpa only [not_or] using hpass
              obtain ⟨hp, hs⟩ := applyDelSubnet_spec hplaced c request w.1 s
              refine ⟨hp, fun hreach => hseen.trans (hs ?_)⟩
              by_contra hall
              obtain ⟨hfind, hmy, htunnel, hstrict⟩ : _ ∧ _ ∧ _ ∧ _ := by
                simpa only [not_or] using hall
              exact of_decide_eq_false hreach
                ⟨not_not.mp hid, hnew, hpeer, hknown, hfind, hmy, htunnel, hstrict⟩

/-! ## The invariant -/

/-- Every entry is what the loop gives now. -/
structure Fresh (r : Router) : Prop where
  placed : Placed r.daemon
  ipv4 : DirectMapped.Agrees (fun a i => r.daemon.walkIpv4 a = some i) r.ipv4Cache
  ipv6 : DirectMapped.Agrees (fun a i => r.daemon.walkIpv6 a = some i) r.ipv6Cache
  mac : DirectMapped.Agrees (fun a e => r.daemon.walkMac e.1 a = some e.2) r.macCache

namespace Fresh

variable {r : Router}

/-- After the tables were cleared there is nothing to compare. -/
lemma flush (h : Placed r.daemon) : Fresh r.flush := ⟨h, .clear, .clear, .clear⟩

/-- What is steady keeps the entries. -/
lemma onDaemon (h : Fresh r) {f : Daemon → Daemon} (hp : Placed (f r.daemon))
    (hs : Steady r.daemon (f r.daemon)) : Fresh (r.onDaemon f) where
  placed := hp
  ipv4 := h.ipv4.imp fun a _ ha => (hs.walkIpv4 h.placed a).trans ha
  ipv6 := h.ipv6.imp fun a _ ha => (hs.walkIpv6 h.placed a).trans ha
  mac := h.mac.imp fun a e ha => (hs.walkMac h.placed e.1 a).trans ha

lemma lookupSubnetIpv4 (h : Fresh r) (address : List UInt8) :
    Fresh (r.lookupSubnetIpv4 address).2 :=
  ⟨h.placed, h.ipv4.lookup fun _ hv => hv, h.ipv6, h.mac⟩

lemma lookupSubnetIpv6 (h : Fresh r) (address : List UInt8) :
    Fresh (r.lookupSubnetIpv6 address).2 :=
  ⟨h.placed, h.ipv4, h.ipv6.lookup fun _ hv => hv, h.mac⟩

lemma lookupSubnetMac (h : Fresh r) (owner : Option Name) (address : List UInt8) :
    Fresh (r.lookupSubnetMac owner address).2 := by
  refine ⟨h.placed, h.ipv4, h.ipv6, h.mac.lookup fun v hv => ?_⟩
  obtain ⟨i, hi, rfl⟩ := Option.mem_map.mp hv
  exact hi

lemma announce (h : Fresh r) (s : SubnetId) : Fresh (r.announce s) := by
  have hs : ∀ d c, Steady d (if (Daemon.conn d c).edge = none then d
      else d.sendSubnet .addSubnet c d.myself (d.subnet s)) := by
    intro d c
    split
    · exact .refl d
    · exact .sendSubnet d _ c _ _
  have hsame : ∀ d c, SameIndexes d (if (Daemon.conn d c).edge = none then d
      else d.sendSubnet .addSubnet c d.myself (d.subnet s)) := by
    intro d c
    split
    · exact .refl d
    · exact .sendSubnet d _ c _ _
  exact h.onDaemon (h.placed.of_same (.foldl hsame _ _)) (.foldl hs _ _)

lemma learnMac (h : Fresh r) (address : List UInt8) (expires : ℕ) :
    Fresh (r.learnMac address expires) := by
  have hl := h.lookupSubnetMac (some r.daemon.myself) address
  unfold Router.learnMac
  cases hr : r.lookupSubnetMac (some r.daemon.myself) address with
  | mk answer r' =>
      rw [hr] at hl
      cases answer with
      | none =>
          refine announce (flush ?_) _
          refine hl.placed.subnetAdd ?_ _
          rintro n ⟨rfl⟩
          exact hl.placed.myself
      | some s =>
          dsimp only
          split
          · exact hl
          · have hs := Steady.expire r'.daemon s expires
            exact hl.onDaemon (hl.placed.of_steady hs hl.placed.nodes) hs

lemma addSubnetH (h : Fresh r) (c : ConnId) (request : Text) : Fresh (r.addSubnetH c request) := by
  obtain ⟨hp, hs⟩ := addSubnetH_spec h.placed c request
  unfold Router.addSubnetH
  dsimp only
  split
  · rename_i hsame
    exact h.onDaemon hp (hs hsame)
  · exact flush hp

lemma delSubnetH (h : Fresh r) (c : ConnId) (request : Text) : Fresh (r.delSubnetH c request) := by
  obtain ⟨hp, hs⟩ := delSubnetH_spec r h.placed c request
  unfold Router.delSubnetH
  dsimp only
  split
  · exact flush hp
  · rename_i hreach
    exact h.onDaemon hp (hs (Bool.eq_false_iff.mpr hreach))

end Fresh

/-! ## Runs -/

/-- The owner of a subnet that is added is a node. -/
def RouterEvent.Valid (r : Router) : RouterEvent → Prop
  | .subnetAdd owner _ => ∀ n ∈ owner, n ∈ r.daemon.nodeTree
  | _ => True

lemma Fresh.step {r : Router} (h : Fresh r) {e : RouterEvent} (he : e.Valid r) :
    Fresh (r.step e) := by
  have hp := h.placed
  cases e with
  | connectionAdd c conn =>
      rw [Router.step]
      refine h.onDaemon ?_ ?_
      · exact ⟨hp.myself, hp.nodes, hp.owner, hp.known⟩
      · exact .of_eq rfl rfl rfl
  | subnetAdd owner s => exact flush (hp.subnetAdd he s)
  | subnetDel owner s => exact flush (hp.subnetDel owner s)
  | nodeAdd name => exact h.onDaemon (hp.ensureNode name) (.ensureNode hp name)
  | edges edge edgeTree edgeWeightTree =>
      rw [Router.step]
      refine h.onDaemon ?_ ?_
      · exact ⟨hp.myself, hp.nodes, hp.owner, hp.known⟩
      · exact .of_eq rfl rfl rfl
  | graph => exact ⟨hp.of_same (.graph r.daemon), .clear, .clear, .clear⟩
  | addSubnet c request => exact h.addSubnetH c request
  | delSubnet c request => exact h.delSubnetH c request
  | learnMac address expires => exact h.learnMac address expires
  | lookupMac owner address => exact h.lookupSubnetMac owner address
  | lookupIpv4 address => exact h.lookupSubnetIpv4 address
  | lookupIpv6 address => exact h.lookupSubnetIpv6 address

/-- A daemon that knows only itself, after `init_subnets`. -/
def Router.init (config : Config) (rand : ℕ → ℕ) : Router where
  daemon := .init config rand
  ipv4Cache := DirectMapped.clear
  ipv6Cache := DirectMapped.clear
  macCache := DirectMapped.clear

lemma Fresh.init (config : Config) (rand : ℕ → ℕ) : Fresh (.init config rand) := by
  refine ⟨⟨?_, ?_, ?_, ?_⟩, .clear, .clear, .clear⟩ <;>
    simp [Router.init, Daemon.init, OrdList.Sorted]

/-- The owner for whom the entry of the address was looked up, if there is one. -/
def Router.storedFor (r : Router) (address : List UInt8) : Option (Option Name) :=
  (DirectMapped.search hashSlot r.macCache address).map Prod.fst

lemma lookupMac_eq_iff {r : Router} (h : Fresh r) (owner : Option Name) (address : List UInt8) :
    (r.lookupSubnetMac owner address).1 = r.daemon.walkMac owner address ↔
      ∀ other ∈ r.storedFor address,
        r.daemon.walkMac other address = r.daemon.walkMac owner address := by
  have hfst : (r.lookupSubnetMac owner address).1 =
      ((DirectMapped.search hashSlot r.macCache address).or
        ((r.daemon.walkMac owner address).map (owner, ·))).map Prod.snd :=
    congrArg (Option.map Prod.snd) (DirectMapped.lookup_fst hashSlot _ address _)
  rw [hfst]
  unfold Router.storedFor
  cases hs : DirectMapped.search hashSlot r.macCache address with
  | none => cases r.daemon.walkMac owner address <;> simp
  | some e =>
      have he : r.daemon.walkMac e.1 address = some e.2 := h.mac.search hs
      simp [he]

/-- In every state of a run, a lookup of an IP address answers as the loop over `subnet_tree` does,
and so does one of a MAC address iff the entry that it finds was made for an owner for whom the loop
gives the same answer. -/
theorem lookup_transparent_iff (config : Config) (rand : ℕ → ℕ) (events : List RouterEvent)
    (he : Along Router.step RouterEvent.Valid (.init config rand) events) :
    let r := events.foldl Router.step (.init config rand)
    (∀ address, (r.lookupSubnetIpv4 address).1 = r.daemon.walkIpv4 address) ∧
    (∀ address, (r.lookupSubnetIpv6 address).1 = r.daemon.walkIpv6 address) ∧
    ∀ owner address,
      (r.lookupSubnetMac owner address).1 = r.daemon.walkMac owner address ↔
        ∀ other ∈ r.storedFor address,
          r.daemon.walkMac other address = r.daemon.walkMac owner address := by
  intro r
  have h : Fresh r := Along.invariant (I := Fresh) (fun _ _ h hv => h.step hv) (.init config rand) he
  exact ⟨h.ipv4.lookup_fst_eq, h.ipv6.lookup_fst_eq, lookupMac_eq_iff h⟩

/-! ## Two runs -/

instance RouterEvent.decidableValid {r : Router} (e : RouterEvent) : Decidable (e.Valid r) :=
  match e with
  | .subnetAdd none _ => isTrue (by simp [RouterEvent.Valid])
  | .subnetAdd (some n) _ =>
      decidable_of_iff (r.daemon.known n = true) (by simp [RouterEvent.Valid, Daemon.known])
  | .connectionAdd _ _ => isTrue trivial
  | .subnetDel _ _ => isTrue trivial
  | .nodeAdd _ => isTrue trivial
  | .edges _ _ _ => isTrue trivial
  | .graph => isTrue trivial
  | .addSubnet _ _ => isTrue trivial
  | .delSubnet _ _ => isTrue trivial
  | .learnMac _ _ => isTrue trivial
  | .lookupMac _ _ => isTrue trivial
  | .lookupIpv4 _ => isTrue trivial
  | .lookupIpv6 _ => isTrue trivial

/-- `b` announces a MAC address, and a packet is routed to it. -/
def routedMac : List RouterEvent :=
  [.addSubnet 0 (ascii "10 1 b 2:0:0:0:0:7"), .lookupMac none [2, 0, 0, 0, 0, 7]]

/-- The address is looked up once more, for any owner. -/
theorem lookup_transparent_routed :
    let r := routedMac.foldl Router.step (.init (.plain (ascii "a")) id)
    r.storedFor [2, 0, 0, 0, 0, 7] = some none ∧
      (r.lookupSubnetMac none [2, 0, 0, 0, 0, 7]).1 =
        r.daemon.walkMac none [2, 0, 0, 0, 0, 7] := by
  have he : Along Router.step RouterEvent.Valid (.init (.plain (ascii "a")) id) routedMac := by
    decide +kernel
  intro r
  have hs : r.storedFor [2, 0, 0, 0, 0, 7] = some none := by decide +kernel
  refine ⟨hs, ((lookup_transparent_iff _ _ _ he).2.2 _ _).mpr ?_⟩
  intro other ho
  obtain rfl := Option.some.inj (hs.symm.trans ho)
  rfl

/-- The address roams to us: `learn_mac` asks for an entry of our own, and is given that of `b`. -/
theorem lookup_mac_ignores_owner : ¬ ∀ (config : Config) (rand : ℕ → ℕ) (events : List RouterEvent),
    Along Router.step RouterEvent.Valid (.init config rand) events →
      ∀ owner address,
        ((events.foldl Router.step (.init config rand)).lookupSubnetMac owner address).1 =
          (events.foldl Router.step (.init config rand)).daemon.walkMac owner address := by
  intro h
  have hr := h (.plain (ascii "a")) id routedMac (by decide +kernel) (some (ascii "a"))
    [2, 0, 0, 0, 0, 7]
  exact absurd hr (by decide +kernel)

end Tinc
