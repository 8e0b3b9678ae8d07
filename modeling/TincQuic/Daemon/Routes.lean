import TincQuic.Daemon.Purge
import TincQuic.Daemon.Reaching

/-!
# Who changes what is known of the nodes

`via`, `nexthop` and the other marks of a node are written by `graph`, and by `new_node` for a node
that is new.  Everything else that a daemon does leaves them alone.

* `SameNodes` is the frame, and `Evolves` what any sequence of operations may do to the nodes.
* **Every handler evolves the nodes**: `Evolves.handler`, `Evolves.terminateConnection`, and so does
  everything that may happen but a deletion: `Evolves.step`.
* **The daemon itself is always at home**: `atHome_always`.
-/

namespace Tinc

open Bytes CText Function

variable {d d' d'' : Daemon}

/-! ## The frame -/

/-- The nodes are the same, and so is what is known of them. -/
structure SameNodes (d d' : Daemon) : Prop where
  config : d'.config = d.config
  nodeTree : d'.nodeTree = d.nodeTree
  node : d'.node = d.node

namespace SameNodes

lemma refl (d : Daemon) : SameNodes d d := ⟨rfl, rfl, rfl⟩

lemma trans (h : SameNodes d d') (h' : SameNodes d' d'') : SameNodes d d'' :=
  ⟨h'.config.trans h.config, h'.nodeTree.trans h.nodeTree, h'.node.trans h.node⟩

lemma foldl {β : Type} {f : Daemon → β → Daemon} (hf : ∀ d b, SameNodes d (f d b))
    (l : List β) (d : Daemon) : SameNodes d (l.foldl f d) := by
  induction l generalizing d with
  | nil => exact refl d
  | cons b l ih => exact (hf d b).trans (ih (f d b))

lemma sendMeta (d : Daemon) (c : ConnId) (request : Text) :
    SameNodes d (d.sendMeta c request).1 := by
  unfold Daemon.sendMeta
  split <;> exact ⟨rfl, rfl, rfl⟩

lemma sendRequest (d : Daemon) (c : ConnId) (request : Text) :
    SameNodes d (d.sendRequest c request).1 := by
  unfold Daemon.sendRequest
  split
  · exact refl d
  · split <;> exact sendMeta d c request

lemma send (d : Daemon) (target : Target) (request : Text) :
    SameNodes d (d.send target request) := by
  cases target with
  | one c => exact sendRequest d c request
  | everyone =>
      unfold Daemon.send
      dsimp only
      split <;> exact ⟨rfl, rfl, rfl⟩

lemma draw (d : Daemon) : SameNodes d d.draw.1 := ⟨rfl, rfl, rfl⟩

lemma sendAddEdge (d : Daemon) (target : Target) (e : Edge) :
    SameNodes d (d.sendAddEdge target e) := (draw d).trans (send _ _ _)

lemma sendDelEdge (d : Daemon) (target : Target) (fromNode toNode : Name) :
    SameNodes d (d.sendDelEdge target fromNode toNode) := (draw d).trans (send _ _ _)

lemma sendSubnet (d : Daemon) (r : Request) (c : ConnId) (owner : Name) (s : Subnet) :
    SameNodes d (d.sendSubnet r c owner s) := (draw d).trans (send d.draw.1 (.one c) _)

lemma announceDelSubnet (d : Daemon) (owner : Name) (s : SubnetId) :
    SameNodes d (d.announceDelSubnet owner s) := (draw d).trans (send d.draw.1 .everyone _)

lemma seenRequest (d : Daemon) (request : Text) : SameNodes d (d.seenRequest request).1 := by
  unfold Daemon.seenRequest
  split <;> exact ⟨rfl, rfl, rfl⟩

lemma tellRest (d : Daemon) (c : ConnId) (request : Text) :
    SameNodes d (d.tellRest c request) := by
  unfold Daemon.tellRest
  split <;> exact ⟨rfl, rfl, rfl⟩

lemma sendEverything (d : Daemon) (c : ConnId) : SameNodes d (d.sendEverything c) := by
  have hs : ∀ (d : Daemon) (n : Name), SameNodes d
      ((d.nodeSubnets n).foldl (fun d s => d.sendSubnet .addSubnet c n (d.subnet s)) d) :=
    fun d n => foldl (fun d s => sendSubnet d _ _ _ _) _ d
  unfold Daemon.sendEverything
  dsimp only
  split
  · exact hs d _
  · exact foldl (fun d n => (hs d n).trans (foldl (fun d e => sendAddEdge d _ _) _ _)) _ d

lemma announceEdge (d : Daemon) (c : ConnId) : SameNodes d (d.announceEdge c) := by
  unfold Daemon.announceEdge
  split
  · exact refl d
  · exact sendAddEdge d _ _

lemma setConn (d : Daemon) (c : ConnId) (f : Conn → Conn) : SameNodes d (d.setConn c f) :=
  ⟨rfl, rfl, rfl⟩

lemma edgeAdd (d : Daemon) (e : EdgeId) : SameNodes d (d.edgeAdd e) := by
  unfold Daemon.edgeAdd Daemon.linkReverse
  dsimp only
  split
  · exact refl d
  · split <;> exact ⟨rfl, rfl, rfl⟩

lemma addNewEdge (d : Daemon) (e : Edge) : SameNodes d (d.addNewEdge e) := by
  have halloc : SameNodes d (d.allocEdge e).1 := ⟨rfl, rfl, rfl⟩
  exact halloc.trans (edgeAdd _ _)

lemma edgeDel (d : Daemon) (e : EdgeId) : SameNodes d (d.edgeDel e) := by
  unfold Daemon.edgeDel Daemon.unlinkReverse
  dsimp only
  split <;> exact ⟨rfl, rfl, rfl⟩

lemma changeEdge (d : Daemon) (e : EdgeId) (r : AddEdge) : SameNodes d (d.changeEdge e r) := by
  unfold Daemon.changeEdge Daemon.changeWeight
  split
  · exact ⟨rfl, rfl, rfl⟩
  · split <;> exact ⟨rfl, rfl, rfl⟩

lemma cleanUp (d : Daemon) (n : Name) : SameNodes d (d.cleanUp n) := by
  unfold Daemon.cleanUp
  split
  · exact refl d
  · split
    · exact refl d
    · refine trans ?_ (edgeDel _ _)
      split
      · exact refl d
      · exact sendDelEdge d _ _ _

lemma subnetAdd (d : Daemon) (owner : Option Name) (s : Subnet) :
    SameNodes d (d.subnetAdd owner s) := ⟨rfl, rfl, rfl⟩

lemma subnetDel (d : Daemon) (owner : Option Name) (s : SubnetId) :
    SameNodes d (d.subnetDel owner s) := ⟨rfl, rfl, rfl⟩

lemma handoff (d : Daemon) (s : Subnet) : SameNodes d (d.handoff s) := by
  unfold Daemon.handoff
  split
  · split
    · split <;> exact ⟨rfl, rfl, rfl⟩
    · exact refl d
  · exact refl d

lemma applyAddSubnet (d : Daemon) (c : ConnId) (request : Text) (owner : Name) (s : Subnet) :
    SameNodes d (d.applyAddSubnet c request owner s) := by
  unfold Daemon.applyAddSubnet
  split
  · exact refl d
  · split
    · exact sendSubnet d _ _ _ _
    · split
      · exact refl d
      · split
        · exact ⟨rfl, rfl, rfl⟩
        · exact ((subnetAdd d _ s).trans (tellRest _ c request)).trans (handoff _ s)

lemma applyDelSubnet (d : Daemon) (c : ConnId) (request : Text) (owner : Name) (s : Subnet) :
    SameNodes d (d.applyDelSubnet c request owner s) := by
  unfold Daemon.applyDelSubnet
  split
  · split <;> exact ⟨rfl, rfl, rfl⟩
  · split
    · exact sendSubnet d _ _ _ _
    · split
      · exact refl d
      · split
        · exact tellRest d c request
        · exact (tellRest d c request).trans (subnetDel _ _ _)

lemma delSubnetH (d : Daemon) (c : ConnId) (request : Text) :
    SameNodes d (delSubnetH d c request).1 := by
  rcases delSubnetH_cases d c request with he | he | ⟨name, s, he⟩
  · rw [he]
    exact refl d
  · rw [he]
    exact seenRequest d request
  · rw [he]
    exact (seenRequest d request).trans (applyDelSubnet _ c request name s)

lemma sendAck (d : Daemon) (c : ConnId) : SameNodes d (d.sendAck c).1 :=
  (setConn d c _).trans (sendRequest _ c _)

lemma sendId (d : Daemon) (c : ConnId) :
    SameNodes d (if (d.conn c).outgoing = none then d.sendId c else d) := by
  split
  · exact sendRequest d c _
  · exact refl d

lemma acceptId (d : Daemon) (c : ConnId) (r : IdRequest) : SameNodes d (d.acceptId c r).1 := by
  unfold Daemon.acceptId
  split
  · exact refl d
  · dsimp only
    split
    · exact ⟨rfl, rfl, rfl⟩
    · split
      · exact ⟨rfl, rfl, rfl⟩
      · exact (((setConn d c _).trans (setConn _ c _)).trans (sendId _ c)).trans (sendAck _ c)

lemma idH (d : Daemon) (c : ConnId) (request : Text) : SameNodes d (idH d c request).1 := by
  unfold Tinc.idH
  split
  · exact refl d
  · dsimp only
    split
    · exact (((setConn d c _).trans (setConn _ c _)).trans (sendId _ c)).trans
        (sendRequest _ c _)
    · split
      · exact ⟨rfl, rfl, rfl⟩
      · exact (setConn d c _).trans (acceptId _ c _)

/-- Before a node is deleted, its subnets and edges are. -/
lemma clearNode (d : Daemon) (n : Name) : SameNodes d
    ((((d.nodeSubnets n).foldl (fun d s => d.subnetDel (some n) s) d).edgeTree n).foldl
      Daemon.edgeDel ((d.nodeSubnets n).foldl (fun d s => d.subnetDel (some n) s) d)) :=
  (foldl (fun d s => subnetDel d (some n) s) _ d).trans (foldl (fun d e => edgeDel d e) _ _)

/-- The first loop of `purge` deletes no node. -/
lemma purgeNode (d : Daemon) (n : Name) : SameNodes d (d.purgeNode n) := by
  unfold Daemon.purgeNode
  split
  · exact refl d
  · refine (foldl (fun d s => ?_) _ d).trans (foldl (fun d e => ?_) _ _)
    · refine (announceDelSubnet d n s).trans ?_
      dsimp only
      split
      · exact refl _
      · exact subnetDel _ _ _
    · refine SameNodes.trans ?_ (edgeDel _ e)
      split
      · exact refl _
      · exact sendDelEdge _ _ _ _

end SameNodes

/-! ## What may happen to the nodes -/

/-- Nodes appear, and `graph` runs. -/
inductive Evolves : Daemon → Daemon → Prop where
  | same {d d' : Daemon} : SameNodes d d' → Evolves d d'
  | graph (d : Daemon) : Evolves d (Tinc.graph d)
  | ensureNode (d : Daemon) (n : Name) : Evolves d (d.ensureNode n)
  | trans {d d' d'' : Daemon} : Evolves d d' → Evolves d' d'' → Evolves d d''

namespace Evolves

lemma refl (d : Daemon) : Evolves d d := .same (.refl d)

lemma applyAddEdge (d : Daemon) (c : ConnId) (request : Text) (r : AddEdge) :
    Evolves d (d.applyAddEdge c request r) := by
  unfold Daemon.applyAddEdge
  split
  · split
    · exact refl d
    · split
      · exact .same (.sendAddEdge d _ _)
      · exact .trans (.same ((SameNodes.changeEdge d _ r).trans (.tellRest _ c request)))
          (.graph _)
  · split
    · refine .trans (.same ?_) (.same (.sendDelEdge _ _ _ _))
      exact ⟨rfl, rfl, rfl⟩
    · exact .trans (.same ((SameNodes.addNewEdge d _).trans (.tellRest _ c request))) (.graph _)

lemma applyDelEdge (d : Daemon) (c : ConnId) (request : Text) (fromName toName : Name) :
    Evolves d (d.applyDelEdge c request fromName toName) := by
  unfold Daemon.applyDelEdge
  split
  · exact refl d
  · split
    · refine .trans (.same ?_) (.same (.sendAddEdge _ _ _))
      exact ⟨rfl, rfl, rfl⟩
    · exact .trans (.trans (.same ((SameNodes.tellRest d c request).trans (.edgeDel _ _)))
        (.graph _)) (.same (.cleanUp _ _))

lemma detach (d : Daemon) (c : ConnId) (n : Name) : SameNodes d (d.detach c n) := by
  unfold Daemon.detach
  split <;> exact ⟨rfl, rfl, rfl⟩

lemma removeEdge (d : Daemon) (c : ConnId) (n : Name) (e : EdgeId) (report : Bool) :
    Evolves d (d.removeEdge c n e report) := by
  unfold Daemon.removeEdge
  dsimp only
  have hsent : SameNodes d (if report = true ∧ ¬ d.config.tunnelserver = true then
      d.sendDelEdge .everyone (d.edge e).fromNode (d.edge e).toNode else d) := by
    split
    · exact .sendDelEdge d _ _ _
    · exact .refl d
  have hdel := Evolves.trans (.same ((hsent.trans (.edgeDel _ e)).trans
    (.setConn _ c ({ · with edge := none })))) (.graph _)
  split
  · exact hdel.trans (.same (.cleanUp _ n))
  · exact hdel

lemma terminateConnection (d : Daemon) (c : ConnId) (report : Bool) :
    Evolves d (d.terminateConnection c report) := by
  have hdel : ∀ d : Daemon, SameNodes d (d.connectionDel c) := fun _ => ⟨rfl, rfl, rfl⟩
  unfold Daemon.terminateConnection
  split
  · exact .same (hdel d)
  · split
    · exact .same ((detach d c _).trans (hdel _))
    · exact .trans (.trans (.same (detach d c _)) (removeEdge _ c _ _ report)) (.same (hdel _))

lemma tieBreak (d : Daemon) (c old : ConnId) : Evolves d (d.tieBreak c old).1 := by
  have hmove : SameNodes d (d.moveOutgoing old c) := ⟨rfl, rfl, rfl⟩
  unfold Daemon.tieBreak
  dsimp only
  split
  · split
    · refine .trans (.trans (.same ?_) (terminateConnection _ old false)) (.graph _)
      split
      · exact hmove
      · exact .refl d
    · exact terminateConnection d c false
  · split
    · split
      · exact .trans (.trans (.same hmove) (terminateConnection _ old false)) (.graph _)
      · exact terminateConnection d c false
    · exact .trans (.trans (.same (.setConn d c _)) (terminateConnection _ old false)) (.graph _)

lemma activate (d : Daemon) (c : ConnId) (n : Name) (r : AckRequest) :
    Evolves d (d.activate c n r) := by
  have hbind : SameNodes d (d.bindNode c n r) := ⟨rfl, rfl, rfl⟩
  have hadd : ∀ d : Daemon, SameNodes d (d.addConnectionEdge c n r) := by
    intro d
    unfold Daemon.addConnectionEdge
    refine SameNodes.trans ?_ (.edgeAdd _ _)
    exact ⟨rfl, rfl, rfl⟩
  exact .trans (.same (((hbind.trans (.sendEverything _ c)).trans (hadd _)).trans
    (.announceEdge _ c))) (.graph _)

lemma ackH (d : Daemon) (c : ConnId) (request : Text) : Evolves d (ackH d c request).1 := by
  unfold Tinc.ackH
  split
  · exact refl d
  · dsimp only
    refine .trans (.ensureNode d (d.conn c).name) ?_
    split
    · exact activate _ c _ _
    · split
      · exact activate _ c _ _
      · split
        · exact .trans (tieBreak _ c _) (activate _ c _ _)
        · exact tieBreak _ c _

lemma addEdgeH (d : Daemon) (c : ConnId) (request : Text) : Evolves d (addEdgeH d c request).1 := by
  have hs : Evolves d (d.seenRequest request).1 := .same (.seenRequest d request)
  rcases addEdgeH_cases d c request with he | he | ⟨r, -, -, -, he⟩
  · rw [he]
    exact refl d
  · rw [he]
    exact hs
  · rw [he]
    exact ((hs.trans (.ensureNode _ _)).trans (.ensureNode _ _)).trans (applyAddEdge _ c request r)

lemma delEdgeH (d : Daemon) (c : ConnId) (request : Text) : Evolves d (delEdgeH d c request).1 := by
  have hs : Evolves d (d.seenRequest request).1 := .same (.seenRequest d request)
  rcases delEdgeH_cases d c request with he | he | ⟨_, _, -, -, -, -, -, he⟩
  · rw [he]
    exact refl d
  · rw [he]
    exact hs
  · rw [he]
    exact hs.trans (applyDelEdge _ c request _ _)

lemma addSubnetH (d : Daemon) (c : ConnId) (request : Text) :
    Evolves d (addSubnetH d c request).1 := by
  have hs : Evolves d (d.seenRequest request).1 := .same (.seenRequest d request)
  rcases addSubnetH_cases d c request with he | he | ⟨name, s, -, he⟩
  · rw [he]
    exact refl d
  · rw [he]
    exact hs
  · rw [he]
    exact (hs.trans (.ensureNode _ name)).trans (.same (.applyAddSubnet _ c request name s))

lemma handler (r : Request) (d : Daemon) (c : ConnId) (request : Text) :
    Evolves d (handler r d c request).1 := by
  cases r with
  | id => exact .same (.idH d c request)
  | ack => exact ackH d c request
  | addSubnet => exact addSubnetH d c request
  | delSubnet => exact .same (.delSubnetH d c request)
  | addEdge => exact addEdgeH d c request
  | delEdge => exact delEdgeH d c request
  | ping => exact .same (.sendRequest d c _)
  | _ => exact refl d

lemma receive (d : Daemon) (c : ConnId) (request : Text) : Evolves d (d.receive c request).1 := by
  unfold Daemon.receive
  split
  · exact refl d
  · exact refl d
  · exact handler _ d c request

/-- Every event but the deletion of a node evolves the nodes. -/
lemma step (d : Daemon) {e : Event} (he : ∀ n, e ≠ .nodeDel n) : Evolves d (d.step e) := by
  cases e with
  | connectionAdd c conn => exact .same ⟨rfl, rfl, rfl⟩
  | receive c request => exact receive d c request
  | terminate c report => exact terminateConnection d c report
  | subnetAdd owner s => exact .same (.subnetAdd d owner s)
  | subnetDel owner s => exact .same (.subnetDel d owner s)
  | agePastRequests keep => exact .same ⟨rfl, rfl, rfl⟩
  | nodeDel n => exact absurd rfl (he n)

end Evolves

/-! ## At home -/

/-- What the daemon knows of itself. -/
structure Home (d : Daemon) : Prop where
  nodes : OrdList.Sorted textKey d.nodeTree
  myself : d.myself ∈ d.nodeTree
  via : (d.node d.myself).via = some d.myself
  nexthop : (d.node d.myself).nexthop = some d.myself
  reachable : (d.node d.myself).reachable = true

namespace Home

lemma graph (hs : OrdList.Sorted textKey d.nodeTree) (h : d.myself ∈ d.nodeTree) :
    Home (graph d) := by
  have hstart : ssspBfs d d.node d.myself = bfsStart d d.node d.myself := bfsLoop_myself _ _ _
  have hvisited : (ssspBfs d d.node d.myself).visited = true := hstart ▸ (bfsStart_myself d).1
  refine ⟨hs, h, ?_, graph_nexthop_myself h, (graph_node_of_visited h hvisited).1⟩
  have hvia : (ssspBfs d d.node d.myself).via = some d.myself := by
    rw [hstart]
    simp [bfsStart]
  have hk : d.known d.myself = true := by simpa [Daemon.known] using h
  change (checkReachability d (ssspBfs d d.node) d.myself).via = some d.myself
  simp only [checkReachability, if_pos hk, updateReachable, hvisited]
  split
  · exact hvia
  · split <;> exact hvia

lemma same (h : Home d) (hs : SameNodes d d') : Home d' := by
  have hmyself : d'.myself = d.myself := congrArg Config.myself hs.config
  refine ⟨hs.nodeTree ▸ h.nodes, ?_, ?_, ?_, ?_⟩
  · rw [hmyself, hs.nodeTree]
    exact h.myself
  · rw [hmyself, hs.node]
    exact h.via
  · rw [hmyself, hs.node]
    exact h.nexthop
  · rw [hmyself, hs.node]
    exact h.reachable

lemma ensureNode (h : Home d) (n : Name) : Home (d.ensureNode n) := by
  unfold Daemon.ensureNode
  split
  · rename_i hn
    have hne : d.myself ≠ n := by
      rintro rfl
      exact (lookupNode_eq_none h.nodes).mp hn h.myself
    have hnode : (d.addNode n).node d.myself = d.node d.myself := update_of_ne hne _ _
    refine ⟨sorted_addNode h.nodes, (mem_addNode h.nodes).mpr (.inr h.myself), ?_, ?_, ?_⟩
    · exact (congrArg Node.via hnode).trans h.via
    · exact (congrArg Node.nexthop hnode).trans h.nexthop
    · exact (congrArg Node.reachable hnode).trans h.reachable
  · exact h

lemma evolves (h : Home d) (he : Evolves d d') : Home d' := by
  induction he with
  | same hs => exact h.same hs
  | graph d => exact graph h.nodes h.myself
  | ensureNode d n => exact h.ensureNode n
  | trans _ _ ih ih' => exact ih' (ih h)

/-- Another node may be deleted. -/
lemma nodeDel (h : Home d) {n : Name} (hn : n ≠ d.myself) : Home (d.nodeDel n) := by
  have hdel := SameNodes.clearNode d n
  have h' := h.same hdel
  have hmyself : (d.nodeDel n).myself = d.myself := congrArg Config.myself hdel.config
  refine ⟨h'.nodes.delete, ?_, h'.via, h'.nexthop, h'.reachable⟩
  refine OrdList.mem_delete_of_ne h'.myself fun h0 => hn ?_
  rw [strcmp_eq_zero.mp h0]
  exact hmyself

lemma purgeNode (h : Home d) (n : Name) : Home (d.purgeNode n) := h.same (.purgeNode d n)

lemma purgeNodes (autoconnect : Bool) (nodes : List Name) (h : Home d) :
    Home (Daemon.purgeNodes autoconnect nodes d) := by
  induction nodes generalizing d with
  | nil => exact h
  | cons n nodes ih =>
      unfold Daemon.purgeNodes
      split
      · exact ih h
      · rename_i hreach
        split
        · exact h
        · split
          · refine ih (h.nodeDel ?_)
            rintro rfl
            exact hreach h.reachable
          · exact ih h

lemma purge (h : Home d) (autoconnect : Bool) : Home (d.purge autoconnect) := by
  have hfold : ∀ (l : List Name) (d : Daemon), Home d → Home (l.foldl Daemon.purgeNode d) := by
    intro l
    induction l with
    | nil => exact fun _ h => h
    | cons n l ih => exact fun d h => ih _ (h.purgeNode n)
  exact (hfold d.nodeTree d h).purgeNodes autoconnect _

lemma setup (config : Config) (rand : ℕ → ℕ) (own broadcasts : List Subnet)
    (hosts : List (Name × Option Subnet)) : Home (.setup config rand own broadcasts hosts) := by
  have hload : ∀ (hosts : List (Name × Option Subnet)) (d : Daemon), Home d →
      Home (hosts.foldl Daemon.loadNode d) := by
    intro hosts
    induction hosts with
    | nil => exact fun _ h => h
    | cons host hosts ih =>
        intro d h
        refine ih _ ?_
        unfold Daemon.loadNode
        split
        · exact h
        · have hnode := h.ensureNode host.1
          dsimp only
          split
          · exact hnode
          · split
            · exact hnode
            · exact hnode.same (.subnetAdd _ _ _)
  have hinit : SameNodes (.init config rand) (broadcasts.foldl (fun d s => d.subnetAdd none s)
      (own.foldl (fun d s => d.subnetAdd (some d.myself) s) (.init config rand))) :=
    (SameNodes.foldl (fun d s => .subnetAdd d _ s) own _).trans
      (SameNodes.foldl (fun d s => .subnetAdd d _ s) broadcasts _)
  have hloaded := Loaded.init config rand
  refine hload hosts _ (graph ?_ ?_)
  · rw [hinit.nodeTree]
    exact hloaded.nodes
  · rw [Daemon.myself, hinit.config, hinit.nodeTree]
    exact hloaded.myself

end Home

/-- Whatever happens to a daemon, apart from the deletion of nodes other than by `purge`, it stays
reachable for itself without a hop between. -/
theorem atHome_always (config : Config) (rand : ℕ → ℕ) (own broadcasts : List Subnet)
    (hosts : List (Name × Option Subnet)) (happenings : List Happening)
    (hdel : ∀ n, .event (.nodeDel n) ∉ happenings) :
    Home (happenings.foldl Daemon.happen (.setup config rand own broadcasts hosts)) := by
  have hstart := Home.setup config rand own broadcasts hosts
  generalize Daemon.setup config rand own broadcasts hosts = d at hstart
  induction happenings generalizing d with
  | nil => exact hstart
  | cons x happenings ih =>
      have hrest : ∀ n, .event (.nodeDel n) ∉ happenings :=
        fun n hn => hdel n (List.mem_cons_of_mem _ hn)
      refine ih hrest _ ?_
      cases x with
      | purge autoconnect => exact hstart.purge autoconnect
      | event e =>
          refine hstart.evolves (.step d ?_)
          rintro n rfl
          exact hdel n List.mem_cons_self

end Tinc
