import TincQuic.Daemon.Links
import TincQuic.Daemon.SubnetTables

/-!
# `purge`, and strict subnets

`purge` of `net.c` takes the edges and subnets of nodes that are not reachable away, and then the
nodes themselves.  With `strictsubnets` the subnets are those of the local configuration, whatever
the peers say and however often `purge` runs.

* `Daemon.purge` is the function, `Happening` an event of the daemon or a call of `purge`.
* `Strict` says what stays: **the trees of subnets, and every node that owns one**.  Each operation
  keeps it: `Strict.addSubnetH`, `Strict.delSubnetH`, `Strict.purge`.
* `strict_subnets_kept` is the result for whole runs.
-/

namespace Tinc

open Bytes CText Function Run

variable (d : Daemon)

/-! ## The function -/

/-- `send_del_subnet` to everyone -/
def Daemon.announceDelSubnet (owner : Name) (s : SubnetId) : Daemon :=
  let (d, nonce) := d.draw
  d.send .everyone (words [decimal Request.delSubnet.number, hex nonce, owner, net2str (d.subnet s)])

/-- The first loop of `purge` removes the subnets and edges of a node that is not reachable. -/
def Daemon.purgeNode (n : Name) : Daemon :=
  if (d.node n).reachable then d
  else
    let d := (d.nodeSubnets n).foldl (fun d s =>
      let d := d.announceDelSubnet n s
      if d.config.strictsubnets then d else d.subnetDel (some n) s) d
    (d.edgeTree n).foldl (fun d e =>
      let d :=
        if d.config.tunnelserver then d
        else d.sendDelEdge .everyone (d.edge e).fromNode (d.edge e).toNode
      d.edgeDel e) d

/-- The second loop deletes the nodes that are not reachable.  It ends at the first to which there
still is an edge. -/
def Daemon.purgeNodes (autoconnect : Bool) : List Name → Daemon → Daemon
  | [], d => d
  | n :: nodes, d =>
      if (d.node n).reachable then Daemon.purgeNodes autoconnect nodes d
      else if d.edgeWeightTree.any fun e => (d.edge e).toNode = n then d
      else if ¬ autoconnect ∧ (¬ d.config.strictsubnets ∨ d.nodeSubnets n = []) then
        Daemon.purgeNodes autoconnect nodes (d.nodeDel n)
      else Daemon.purgeNodes autoconnect nodes d

/-- `purge` -/
def Daemon.purge (autoconnect : Bool) : Daemon :=
  let d := d.nodeTree.foldl Daemon.purgeNode d
  Daemon.purgeNodes autoconnect d.nodeTree d

/-- An event, or a call of `purge` with the value that `autoconnect` has then. -/
inductive Happening where
  | event (e : Event)
  | purge (autoconnect : Bool)

def Daemon.happen : Happening → Daemon
  | .event e => d.step e
  | .purge autoconnect => d.purge autoconnect

/-! ## What it leaves alone -/

variable {d} {d' : Daemon} {t : Tables} {n : Name}

lemma SameIndexes.announceDelSubnet (d : Daemon) (owner : Name) (s : SubnetId) :
    SameIndexes d (d.announceDelSubnet owner s) := (draw d).trans (send d.draw.1 .everyone _)

/-- The subnets are those of `t`, and the nodes that own them are known. -/
structure Strict (t : Tables) (d : Daemon) : Prop where
  strict : d.config.strictsubnets = true
  tables : d.tables = { t with nodeTree := d.nodeTree }
  nodes : OrdList.Sorted textKey d.nodeTree
  known : ∀ n, n ∉ d.nodeTree → d.nodeSubnets n = []

namespace Strict

lemma of_eq (h : Strict t d) (hc : d'.config = d.config) (ht : d'.tables = d.tables) :
    Strict t d' := by
  have hnodes : d'.nodeTree = d.nodeTree := congrArg Tables.nodeTree ht
  have hsubnets : d'.nodeSubnets = d.nodeSubnets := congrArg Tables.nodeSubnets ht
  refine ⟨hc ▸ h.strict, ?_, hnodes ▸ h.nodes, ?_⟩
  · rw [ht, hnodes, h.tables]
  · rw [hnodes, hsubnets]
    exact h.known

lemma of_same (h : Strict t d) (hs : SameIndexes d d') : Strict t d' := by
  refine h.of_eq ?_ (tables_of_same hs)
  obtain ⟨_, _, _, _, _, _, _, rfl⟩ := hs
  rfl

lemma of_conns (h : Strict t d) (hs : SameConns d d') (ht : d'.tables = d.tables) :
    Strict t d' := by
  refine h.of_eq ?_ ht
  obtain ⟨_, _, _, _, _, _, _, _, _, _, _, rfl⟩ := hs
  rfl

/-- A new node has no subnets. -/
lemma ensureNode (h : Strict t d) (n : Name) : Strict t (d.ensureNode n) := by
  unfold Daemon.ensureNode
  split
  · rename_i hnone
    have hn : d.nodeSubnets n = [] := h.known n ((lookupNode_eq_none h.nodes).mp hnone)
    have hself : update d.nodeSubnets n [] = d.nodeSubnets := by
      rw [← hn]
      exact update_eq_self n d.nodeSubnets
    have htables := h.tables
    refine ⟨h.strict, ?_, sorted_addNode h.nodes, fun m hm => ?_⟩
    · simp only [Daemon.tables, Daemon.addNode, hself, Tables.mk.injEq] at htables ⊢
      exact ⟨trivial, htables.2⟩
    · simp only [Daemon.addNode, hself]
      exact h.known m fun hin => hm ((mem_addNode h.nodes).mpr (.inr hin))
  · exact h

lemma applyAddSubnet (h : Strict t d) (c : ConnId) (request : Text) (owner : Name) (s : Subnet) :
    Strict t (d.applyAddSubnet c request owner s) := by
  unfold Daemon.applyAddSubnet
  rw [if_pos h.strict]
  split
  · exact h
  · split
    · exact h.of_same (SameIndexes.sendSubnet _ _ _ _ _)
    · split
      · exact h
      · exact h.of_same (SameIndexes.broadcastMeta _ _ _)

lemma addSubnetH (h : Strict t d) (c : ConnId) (request : Text) :
    Strict t (addSubnetH d c request).1 := by
  have hs := h.of_same (SameIndexes.seenRequest d request)
  rcases addSubnetH_cases d c request with he | he | ⟨name, s, -, he⟩
  · rw [he]
    exact h
  · rw [he]
    exact hs
  · rw [he]
    exact (hs.ensureNode name).applyAddSubnet c request name s

lemma applyDelSubnet (h : Strict t d) (c : ConnId) (request : Text) (owner : Name) (s : Subnet) :
    Strict t (d.applyDelSubnet c request owner s) := by
  unfold Daemon.applyDelSubnet
  split
  · rw [if_pos h.strict]
    exact h.of_same (SameIndexes.broadcastMeta _ _ _)
  · rw [if_pos h.strict]
    split
    · exact h.of_same (SameIndexes.sendSubnet _ _ _ _ _)
    · split
      · exact h
      · exact h.of_same (SameIndexes.tellRest _ _ _)

lemma delSubnetH (h : Strict t d) (c : ConnId) (request : Text) :
    Strict t (delSubnetH d c request).1 := by
  have hs := h.of_same (SameIndexes.seenRequest d request)
  rcases delSubnetH_cases d c request with he | he | ⟨name, s, he⟩
  · rw [he]
    exact h
  · rw [he]
    exact hs
  · rw [he]
    exact hs.applyDelSubnet c request name s

lemma addEdgeH (h : Strict t d) (c : ConnId) (request : Text) :
    Strict t (addEdgeH d c request).1 := by
  have hs := h.of_same (SameIndexes.seenRequest d request)
  rcases addEdgeH_cases d c request with he | he | ⟨r, -, -, -, he⟩
  · rw [he]
    exact h
  · rw [he]
    exact hs
  · rw [he]
    exact ((hs.ensureNode _).ensureNode _).of_conns (SameConns.applyAddEdge _ c request r)
      (tables_applyAddEdge _ c request r)

lemma delEdgeH (h : Strict t d) (c : ConnId) (request : Text) :
    Strict t (delEdgeH d c request).1 := by
  have hs := h.of_same (SameIndexes.seenRequest d request)
  rcases delEdgeH_cases d c request with he | he | ⟨_, _, -, -, -, -, -, he⟩
  · rw [he]
    exact h
  · rw [he]
    exact hs
  · rw [he]
    exact hs.of_conns (SameConns.applyDelEdge _ c request _ _)
      (tables_applyDelEdge _ c request _ _)

lemma ackH (h : Strict t d) (c : ConnId) (request : Text) : Strict t (ackH d c request).1 := by
  have hconfig := ackH_config d c request
  rcases tables_ackH d c request with ht | ht
  · exact h.of_eq hconfig ht
  · exact (h.ensureNode (d.conn c).name).of_eq
      (hconfig.trans (EdgeIndex.ensureNode_config d _).symm) ht

lemma foldl {β : Type} {f : Daemon → β → Daemon} (hf : ∀ d b, Strict t d → Strict t (f d b))
    (l : List β) (h : Strict t d) : Strict t (l.foldl f d) := by
  induction l generalizing d with
  | nil => exact h
  | cons b l ih => exact ih (hf d b h)

lemma edgeDel (h : Strict t d) (e : EdgeId) : Strict t (d.edgeDel e) :=
  h.of_conns (SameConns.edgeDel d e) (tables_edgeDel d e)

lemma purgeNode (h : Strict t d) (n : Name) : Strict t (d.purgeNode n) := by
  unfold Daemon.purgeNode
  split
  · exact h
  · refine foldl (fun d e h => ?_) _ (foldl (fun d s h => ?_) _ h)
    · refine edgeDel ?_ e
      split
      · exact h
      · exact h.of_same (SameIndexes.sendDelEdge _ _ _ _)
    · have hs := h.of_same (SameIndexes.announceDelSubnet d n s)
      rw [if_pos hs.strict]
      exact hs

/-- A node without subnets may go. -/
lemma nodeDel (h : Strict t d) (hn : d.nodeSubnets n = []) : Strict t (d.nodeDel n) := by
  unfold Daemon.nodeDel
  rw [hn, List.foldl_nil]
  have h' := foldl (fun _ e h => h.edgeDel e) (d.edgeTree n) h
  have ht := SubnetIndex.foldl_edgeDel (d.edgeTree n) d
  dsimp only
  generalize (d.edgeTree n).foldl Daemon.edgeDel d = d' at h' ht ⊢
  have hn' : d'.nodeSubnets n = [] := (congrFun (congrArg Tables.nodeSubnets ht) n).trans hn
  have htables := h'.tables
  refine ⟨h'.strict, ?_, h'.nodes.delete, fun m hm => ?_⟩
  · simp only [Daemon.tables, Tables.mk.injEq] at htables ⊢
    exact ⟨trivial, htables.2⟩
  · by_cases hmn : m = n
    · rw [hmn]
      exact hn'
    · refine h'.known m fun hin => hm ?_
      exact OrdList.mem_delete_of_ne hin fun h0 => hmn (strcmp_eq_zero.mp h0).symm

lemma purgeNodes (autoconnect : Bool) (nodes : List Name) (h : Strict t d) :
    Strict t (Daemon.purgeNodes autoconnect nodes d) := by
  induction nodes generalizing d with
  | nil => exact h
  | cons n nodes ih =>
      unfold Daemon.purgeNodes
      split
      · exact ih h
      · split
        · exact h
        · split
          · rename_i hdel
            exact ih (h.nodeDel (hdel.2.resolve_left (by simp [h.strict])))
          · exact ih h

lemma purge (h : Strict t d) (autoconnect : Bool) : Strict t (d.purge autoconnect) :=
  (foldl (fun _ n h => h.purgeNode n) d.nodeTree h).purgeNodes autoconnect _

end Strict

/-! ## Runs -/

/-- `load_node_from_json` on a host with this name and this subnet, if it has one.  That a subnet
which is there already is marked for the next reload is left out. -/
def Daemon.loadNode (d : Daemon) (host : Name × Option Subnet) : Daemon :=
  if host.1 = [] then d
  else
    let d := d.ensureNode host.1
    match host.2 with
    | none => d
    | some s => if d.lookupSubnet host.1 s ≠ none then d else d.subnetAdd (some host.1) s

/-- `setup_myself`: our own subnets, those for broadcasts, and the hosts of `hosts.json`. -/
def Daemon.setup (config : Config) (rand : ℕ → ℕ) (own broadcasts : List Subnet)
    (hosts : List (Name × Option Subnet)) : Daemon :=
  let d := own.foldl (fun d s => d.subnetAdd (some d.myself) s) (.init config rand)
  let d := broadcasts.foldl (fun d s => d.subnetAdd none s) d
  hosts.foldl Daemon.loadNode (graph d)

/-- No subnet or node is added or deleted by the daemon's own user. -/
def Happening.FromPeers : Happening → Prop
  | .event (.subnetAdd _ _) => False
  | .event (.subnetDel _ _) => False
  | .event (.nodeDel _) => False
  | _ => True

/-- Only nodes have subnets. -/
structure Loaded (config : Config) (d : Daemon) : Prop where
  same : d.config = config
  nodes : OrdList.Sorted textKey d.nodeTree
  known : ∀ n, n ∉ d.nodeTree → d.nodeSubnets n = []
  myself : config.myself ∈ d.nodeTree

namespace Loaded

variable {config : Config}

lemma foldl {β : Type} {f : Daemon → β → Daemon}
    (hf : ∀ d b, Loaded config d → Loaded config (f d b)) (l : List β) (h : Loaded config d) :
    Loaded config (l.foldl f d) := by
  induction l generalizing d with
  | nil => exact h
  | cons b l ih => exact ih (hf d b h)

lemma init (config : Config) (rand : ℕ → ℕ) : Loaded config (.init config rand) :=
  ⟨rfl, by simp [Daemon.init, OrdList.Sorted], fun _ _ => rfl, by simp [Daemon.init]⟩

lemma subnetAdd (h : Loaded config d) {owner : Option Name} (ho : ∀ n ∈ owner, n ∈ d.nodeTree)
    (s : Subnet) : Loaded config (d.subnetAdd owner s) := by
  refine ⟨h.same, h.nodes, fun n hn => ?_, h.myself⟩
  cases owner with
  | none => exact h.known n hn
  | some m =>
      have hne : n ≠ m := fun he => hn (he ▸ ho m rfl)
      simpa [Daemon.subnetAdd, hne] using h.known n hn

lemma ensureNode (h : Loaded config d) (n : Name) :
    Loaded config (d.ensureNode n) ∧ n ∈ (d.ensureNode n).nodeTree := by
  unfold Daemon.ensureNode
  split
  · refine ⟨⟨h.same, sorted_addNode h.nodes, fun m hm => ?_, ?_⟩, ?_⟩
    · by_cases hmn : m = n
      · simp [Daemon.addNode, hmn]
      · have hin : m ∉ d.nodeTree := fun hin => hm ((mem_addNode h.nodes).mpr (.inr hin))
        simpa [Daemon.addNode, hmn] using h.known m hin
    · exact (mem_addNode h.nodes).mpr (.inr h.myself)
    · exact (mem_addNode h.nodes).mpr (.inl rfl)
  · rename_i hsome
    refine ⟨h, ?_⟩
    by_contra hn
    exact hsome ((lookupNode_eq_none h.nodes).mpr hn)

lemma loadNode (h : Loaded config d) (host : Name × Option Subnet) :
    Loaded config (d.loadNode host) := by
  obtain ⟨h', hn⟩ := h.ensureNode host.1
  unfold Daemon.loadNode
  split
  · exact h
  · dsimp only
    split
    · exact h'
    · split
      · exact h'
      · exact h'.subnetAdd (by rintro _ ⟨⟩; exact hn) _

lemma setup (config : Config) (rand : ℕ → ℕ) (own broadcasts : List Subnet)
    (hosts : List (Name × Option Subnet)) :
    Loaded config (Daemon.setup config rand own broadcasts hosts) := by
  have hown : Loaded config
      (own.foldl (fun d s => d.subnetAdd (some d.myself) s) (.init config rand)) := by
    refine foldl (fun d s h => h.subnetAdd ?_ s) own (init config rand)
    rintro _ ⟨⟩
    rw [Daemon.myself, h.same]
    exact h.myself
  have hbroadcasts : Loaded config (broadcasts.foldl (fun d s => d.subnetAdd none s)
      (own.foldl (fun d s => d.subnetAdd (some d.myself) s) (.init config rand))) :=
    foldl (fun _ s h => h.subnetAdd (by simp) s) broadcasts hown
  have hgraph : Loaded config (graph (broadcasts.foldl (fun d s => d.subnetAdd none s)
      (own.foldl (fun d s => d.subnetAdd (some d.myself) s) (.init config rand)))) :=
    ⟨hbroadcasts.same, hbroadcasts.nodes, hbroadcasts.known, hbroadcasts.myself⟩
  exact foldl (fun _ host h => h.loadNode host) hosts hgraph

lemma strict (h : Loaded config d) (hs : config.strictsubnets = true) : Strict d.tables d :=
  ⟨h.same ▸ hs, rfl, h.nodes, h.known⟩

end Loaded

/-- What the peers do, and `purge`, keeps the subnets. -/
lemma Strict.happen (h : Strict t d) {x : Happening} (hx : x.FromPeers) :
    Strict t (d.happen x) := by
  cases x with
  | purge autoconnect => exact h.purge autoconnect
  | event e =>
      cases e with
      | connectionAdd c conn => exact h.of_eq rfl rfl
      | receive c request =>
          change Strict t (d.receive c request).1
          unfold Daemon.receive
          split
          · exact h
          · exact h
          · rename_i r hr
            cases r with
            | id =>
                obtain ⟨_, hb⟩ := idH_becomes d c request
                exact h.of_eq hb.1.config (tables_idH d c request)
            | ack => exact h.ackH c request
            | addSubnet => exact h.addSubnetH c request
            | delSubnet => exact h.delSubnetH c request
            | addEdge => exact h.addEdgeH c request
            | delEdge => exact h.delEdgeH c request
            | ping => exact h.of_same (SameIndexes.sendRequest d c _)
            | _ => exact h
      | terminate c report =>
          exact h.of_eq (Closes.terminateConnection d c report).config
            (tables_terminateConnection d c report)
      | subnetAdd owner s => exact hx.elim
      | subnetDel owner s => exact hx.elim
      | agePastRequests keep => exact h.of_eq rfl rfl
      | nodeDel n => exact hx.elim

/-- **With strict subnets the peers cannot change the routes**: after any requests, any ends of
connections and any calls of `purge`, the trees of subnets hold what was loaded from the local
configuration, and every node that owns a subnet is still there. -/
theorem strict_subnets_kept (config : Config) (hstrict : config.strictsubnets = true)
    (rand : ℕ → ℕ) (own broadcasts : List Subnet) (hosts : List (Name × Option Subnet))
    (happenings : List Happening) (hpeers : ∀ x ∈ happenings, x.FromPeers) :
    let loaded := Daemon.setup config rand own broadcasts hosts
    let d := happenings.foldl Daemon.happen loaded
    d.subnetTree = loaded.subnetTree ∧ d.nodeSubnets = loaded.nodeSubnets ∧
      d.subnet = loaded.subnet ∧ ∀ n, d.nodeSubnets n ≠ [] → n ∈ d.nodeTree := by
  have hloaded := (Loaded.setup config rand own broadcasts hosts).strict hstrict
  dsimp only
  generalize Daemon.setup config rand own broadcasts hosts = loaded at hloaded ⊢
  have hrun : Strict loaded.tables (happenings.foldl Daemon.happen loaded) := by
    generalize loaded.tables = t at hloaded
    induction happenings generalizing loaded with
    | nil => exact hloaded
    | cons x happenings ih =>
        exact ih (fun y hy => hpeers y (List.mem_cons_of_mem _ hy)) _
          (hloaded.happen (hpeers x List.mem_cons_self))
  have htables := hrun.tables
  refine ⟨congrArg Tables.subnetTree htables, congrArg Tables.nodeSubnets htables,
    congrArg Tables.subnet htables, fun n hn => ?_⟩
  by_contra hnot
  exact hn (hrun.known n hnot)

/-- Another node withdraws the subnet of `b` and announces one for it, and `purge` runs. -/
def meddling : List Happening :=
  [.event (.connectionAdd 0 { name := ascii "<unknown>" }),
    .event (.receive 0 (ascii "0 c 17.7")), .event (.receive 0 (ascii "4 655 10 c")),
    .event (.receive 0 (ascii "11 1 b 10.0.0.0/8")),
    .event (.receive 0 (ascii "10 2 b 192.0.2.0/24")), .purge false]

theorem strict_subnets_kept_meddling :
    let loaded := Daemon.setup { Config.plain (ascii "a") with strictsubnets := true } id [] []
      [(ascii "b", str2net (ascii "10.0.0.0/8"))]
    loaded.nodeSubnets (ascii "b") = [0] ∧
      (meddling.foldl Daemon.happen loaded).nodeSubnets = loaded.nodeSubnets ∧
      ascii "b" ∈ (meddling.foldl Daemon.happen loaded).nodeTree := by
  have h := strict_subnets_kept { Config.plain (ascii "a") with strictsubnets := true } rfl id [] []
    [(ascii "b", str2net (ascii "10.0.0.0/8"))] meddling (by simp [meddling, Happening.FromPeers])
  have hb : (Daemon.setup { Config.plain (ascii "a") with strictsubnets := true } id [] []
      [(ascii "b", str2net (ascii "10.0.0.0/8"))]).nodeSubnets (ascii "b") = [0] := by
    decide +kernel
  dsimp only at h ⊢
  refine ⟨hb, h.2.1, h.2.2.2 _ ?_⟩
  rw [h.2.1, hb]
  simp

end Tinc
