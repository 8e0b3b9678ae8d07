import TincQuic.Daemon.SubnetIndex
import TincQuic.Lib.Run

/-!
# The tables of subnets over whole runs

Subnets come from peers with ADD_SUBNET, from the configuration, and from the setup of the daemon,
which adds subnets for broadcasts that have no owner.

* `SubnetsAgree` is what one expects of the two indexes, and of `subnet_del`.
* **It holds in every state of a run in which each added subnet is apart from those in
  `subnet_tree`**: `subnet_tables_consistent`.
* A peer that announces a network that is used for broadcasts gets it into its own tree, but not
  into `subnet_tree`, because `subnet_compare` takes it for the one without an owner:
  `broadcast_subnet_shadows`.
-/

namespace Tinc

open Bytes CText Run

variable {d : Daemon}

/-- The global tree and the trees of the owners agree, and a deletion removes one object. -/
structure SubnetsAgree (d : Daemon) : Prop where
  /-- `subnet_tree` contains the owned subnets that are in the trees of owners ... -/
  owned : ∀ i, (d.subnet i).owner ≠ none →
    (i ∈ d.subnetTree ↔ ∃ n ∈ d.nodeTree, i ∈ d.nodeSubnets n)
  /-- ... and every subnet that was added without an owner -/
  ownerless : ∀ i < d.newSubnet, (d.subnet i).owner = none →
    ∃ j ∈ d.subnetTree, (d.subnet j).Same (d.subnet i)
  once : d.subnetTree.Nodup
  ownOnce : ∀ n, (d.nodeSubnets n).Nodup
  /-- no two elements are the same subnet -/
  distinct : ∀ i ∈ d.subnetTree, ∀ j ∈ d.subnetTree, (d.subnet i).Same (d.subnet j) → i = j
  /-- `s->owner` names the tree that holds `s` -/
  owner : ∀ n, ∀ i ∈ d.nodeSubnets n, (d.subnet i).owner = some n
  /-- `subnet_del (n, s)` removes exactly `s` -/
  removes : ∀ n, ∀ s ∈ d.nodeSubnets n, ∀ i,
    (i ∈ (d.subnetDel (some n) s).subnetTree ↔ i ∈ d.subnetTree ∧ i ≠ s) ∧
    ∀ m, i ∈ (d.subnetDel (some n) s).nodeSubnets m ↔ i ∈ d.nodeSubnets m ∧ i ≠ s

lemma SubnetIndex.agree (h : SubnetIndex d.tables) : SubnetsAgree d where
  owned := by
    intro i hi
    obtain ⟨n, hn⟩ := Option.ne_none_iff_exists'.mp hi
    constructor
    · intro htree
      have hown : i ∈ d.nodeSubnets n := (h.both i n hn).mp htree
      refine ⟨n, ?_, hown⟩
      by_contra hunknown
      have hnil : d.nodeSubnets n = [] := h.known n hunknown
      simp [hnil] at hown
    · rintro ⟨m, -, hm⟩
      exact h.mem_tree hm
  ownerless := h.broadcast
  once := h.sorted.nodup
  ownOnce n := (h.ownSorted n).nodup
  distinct _ hi _ hj hs := h.eq_of_same hi hj hs
  owner := h.owner
  removes _ _ hs i := h.mem_subnetDel hs i

/-! ## The events -/

/-- How the rest of the daemon uses the two functions: an owner is a node it knows, and what is
deleted was found in the tree of its owner. -/
def Event.OnSubnets (d : Daemon) : Event → Prop
  | .subnetAdd owner _ => ∀ n ∈ owner, n ∈ d.nodeTree
  | .subnetDel owner s => ∃ n ∈ owner, s ∈ d.nodeSubnets n
  | _ => True

/-- A subnet that is added is apart from those in `subnet_tree`: weights on one network can be
subtracted, and no subnet with an owner is like one for broadcasts. -/
def Event.AddsApart (d : Daemon) : Event → Prop
  | .subnetAdd owner s => ∀ j ∈ d.subnetTree, Apart { s with owner := owner } (d.subnet j)
  | .receive c request =>
      d.gate c request = .admitted .addSubnet → ∀ w ∈ parseTwoWords request,
        ∀ s ∈ str2net w.2, w.1 ≠ d.myself → d.config.tunnelserver = false →
          d.config.strictsubnets = false →
            ∀ j ∈ d.subnetTree, Apart { s with owner := some w.1 } (d.subnet j)
  | _ => True

/-- Every event keeps the invariant. -/
lemma SubnetIndex.step (h : SubnetIndex d.tables) {e : Event} (he : e.OnSubnets d)
    (ha : e.AddsApart d) : SubnetIndex (d.step e).tables := by
  cases e with
  | connectionAdd c conn => exact h
  | receive c request =>
      unfold Daemon.step Daemon.receive
      dsimp only
      split
      · exact h
      · exact h
      · rename_i r hr
        cases r with
        | id => exact h.of_tables (tables_idH d c request)
        | ack => exact h.ackH c request
        | addSubnet =>
            refine h.addSubnetH c request fun name str s hparse hstr hmy htunnel hstrict => ?_
            exact ha hr (name, str) hparse s hstr hmy htunnel hstrict
        | delSubnet => exact h.delSubnetH c request
        | addEdge => exact h.addEdgeH c request
        | delEdge => exact h.of_tables (tables_delEdgeH d c request)
        | ping => exact h.of_tables (tables_of_same (SameIndexes.sendRequest d c _))
        | _ => exact h
  | terminate c report => exact h.of_tables (tables_terminateConnection d c report)
  | subnetAdd owner s => exact h.subnetAdd he ha
  | subnetDel owner s =>
      obtain ⟨n, hn, hs⟩ := he
      obtain rfl := Option.mem_def.mp hn
      exact h.subnetDel hs
  | agePastRequests keep => exact h
  | nodeDel n => exact h.nodeDel n

lemma SubnetIndex.init (config : Config) (rand : ℕ → ℕ) :
    SubnetIndex (Daemon.init config rand).tables := by
  refine ⟨?_, ?_, ?_, ?_, ?_, ?_, ?_, ?_, ?_⟩ <;>
    simp [Daemon.tables, Daemon.init, OrdList.Sorted]

/-- For every sequence of events in which each subnet that is added is apart from those that are
there, the tables agree in the state that is reached. -/
theorem subnet_tables_consistent (config : Config) (rand : ℕ → ℕ) (events : List Event)
    (he : Along Daemon.step Event.OnSubnets (.init config rand) events)
    (ha : Along Daemon.step Event.AddsApart (.init config rand) events) :
    SubnetsAgree ((Daemon.init config rand).run events) := by
  have h : SubnetIndex ((Daemon.init config rand).run events).tables :=
    Along.invariant (I := fun d => SubnetIndex d.tables) (fun _ _ h hs => h.step hs.1 hs.2)
      (.init config rand) (he.and ha)
  exact h.agree

/-! ## Two runs -/

instance Apart.decidable (a b : Subnet) : Decidable (Apart a b) := inferInstanceAs (Decidable (_ → _ ∧ _))

instance Event.decidableOnSubnets (e : Event) : Decidable (e.OnSubnets d) :=
  match e with
  | .subnetAdd none _ => isTrue (by simp [Event.OnSubnets])
  | .subnetAdd (some n) _ =>
      decidable_of_iff (d.known n = true) (by simp [Event.OnSubnets, Daemon.known])
  | .subnetDel none _ => isFalse (by simp [Event.OnSubnets])
  | .subnetDel (some n) s => decidable_of_iff (s ∈ d.nodeSubnets n) (by simp [Event.OnSubnets])
  | .connectionAdd _ _ => isTrue trivial
  | .receive _ _ => isTrue trivial
  | .terminate _ _ => isTrue trivial
  | .agePastRequests _ => isTrue trivial
  | .nodeDel _ => isTrue trivial

instance Event.decidableAddsApart (e : Event) : Decidable (e.AddsApart d) :=
  match e with
  | .subnetAdd _ _ => inferInstanceAs (Decidable (∀ j ∈ _, _))
  | .receive _ _ => inferInstanceAs (Decidable (_ → _))
  | .subnetDel _ _ => isTrue trivial
  | .connectionAdd _ _ => isTrue trivial
  | .terminate _ _ => isTrue trivial
  | .agePastRequests _ => isTrue trivial
  | .nodeDel _ => isTrue trivial

/-- The subnet for IPv4 broadcasts that `setup_myself_reloadable` adds. -/
def broadcastSubnet : Subnet :=
  { owner := none, net := .ipv4 [255, 255, 255, 255] 32, weight := 10, expires := 0 }

/-- The daemon is set up, and `b` connects and announces a subnet. -/
def announces (subnet : Text) : List Event :=
  [.subnetAdd none broadcastSubnet, .connectionAdd 0 { name := ascii "<unknown>" },
    .receive 0 (ascii "0 b 17.7"), .receive 0 (ascii "4 655 10 c"),
    .receive 0 (ascii "10 1 b " ++ subnet)]

/-- `b` announces a network of its own, and withdraws it. -/
theorem subnet_tables_consistent_withdrawn :
    ((Daemon.init (.plain (ascii "a")) id).run (announces (ascii "10.0.0.0/8"))).subnetTree =
        [0, 1] ∧
      SubnetsAgree ((Daemon.init (.plain (ascii "a")) id).run
        (announces (ascii "10.0.0.0/8") ++ [.receive 0 (ascii "11 2 b 10.0.0.0/8")])) := by
  have he : Along Daemon.step Event.OnSubnets (.init (.plain (ascii "a")) id)
      (announces (ascii "10.0.0.0/8") ++ [.receive 0 (ascii "11 2 b 10.0.0.0/8")]) := by
    decide +kernel
  have ha : Along Daemon.step Event.AddsApart (.init (.plain (ascii "a")) id)
      (announces (ascii "10.0.0.0/8") ++ [.receive 0 (ascii "11 2 b 10.0.0.0/8")]) := by
    decide +kernel
  exact ⟨by decide +kernel, subnet_tables_consistent _ _ _ he ha⟩

/-- `b` announces the broadcast address: the subnet is in its tree, but not in `subnet_tree`. -/
theorem broadcast_subnet_shadows : ¬ ∀ (config : Config) (rand : ℕ → ℕ) (events : List Event),
    Along Daemon.step Event.OnSubnets (.init config rand) events →
      SubnetsAgree ((Daemon.init config rand).run events) := by
  intro h
  have hd := h (.plain (ascii "a")) id (announces (ascii "255.255.255.255")) (by decide +kernel)
  have howned := hd.owned 1 (by decide +kernel)
  have hb : ∃ n ∈ ((Daemon.init (.plain (ascii "a")) id).run
      (announces (ascii "255.255.255.255"))).nodeTree,
      1 ∈ ((Daemon.init (.plain (ascii "a")) id).run
        (announces (ascii "255.255.255.255"))).nodeSubnets n :=
    ⟨ascii "b", by decide +kernel, by decide +kernel⟩
  exact absurd (howned.mpr hb) (by decide +kernel)

end Tinc
