import TincQuic.Daemon.Filed

/-!
# Runs of a daemon

What can happen to a daemon, one event after the other: connections come and go, requests arrive
and pass the gate of `receive_request`, and the daemon itself changes subnets, forgets old
requests and deletes nodes.

* `Daemon.receive` is `receive_request` with the handlers of this development.  The others touch
  neither nodes, edges nor subnets.
* `Reachable` are the states of a run that began with nothing but `myself`.
* **Every reachable state is filed**: `Reachable.filed`.
-/

namespace Tinc

open Bytes CText Function

/-- A configuration with nothing special in it, on a system that converts no addresses. -/
def Config.plain (myself : Name) : Config where
  myself := myself
  myport := ascii "655"
  options := optionPmtuDiscovery ||| optionClampMss
  protocolMajor := 17
  protocolMinor := 7
  tunnelserver := false
  strictsubnets := false
  experimental := true
  controlcookie := ascii "cookie"
  pid := 1
  proxyHttp := false
  weight := none
  getaddrinfo := fun _ _ => none
  getnameinfo := fun _ => (ascii "unknown", ascii "unknown")
  rounds := 20

/-- A daemon that knows only itself. -/
def Daemon.init (config : Config) (rand : ℕ → ℕ) : Daemon where
  config := config
  nodeTree := [config.myself]
  node := fun _ => .new
  edgeTree := fun _ => []
  edgeWeightTree := []
  edge := fun _ => ⟨[], [], .unspec, .unspec, 0, 0, none, none⟩
  newEdge := 0
  subnetTree := []
  nodeSubnets := fun _ => []
  subnet := fun _ => ⟨none, .mac [], 0, 0⟩
  newSubnet := 0
  connectionList := []
  conn := fun _ => { name := [] }
  mst := fun _ => false
  nodeConnection := fun _ => none
  pastRequests := []
  rand := rand
  drawn := 0
  sent := []
  retries := []
  contradictingAddEdge := 0
  contradictingDelEdge := 0

variable (d : Daemon)

/-- The gate of `receive_request` for connection `c`. -/
def Daemon.gate (c : ConnId) (request : Text) : Verdict :=
  Tinc.gate d.config.proxyHttp ((d.conn c).outgoing ≠ none) (d.conn c).allowRequest request

/-- `request_handlers` -/
def handler : Request → Daemon → ConnId → Text → Daemon × Bool
  | .id => idH
  | .ack => ackH
  | .addSubnet => addSubnetH
  | .delSubnet => delSubnetH
  | .addEdge => addEdgeH
  | .delEdge => delEdgeH
  | .ping => fun d c _ => d.sendRequest c (decimal Request.pong.number)
  | .termreq => fun d _ _ => (d, false)
  | _ => fun d _ _ => (d, true)

/-- `receive_request` -/
def Daemon.receive (c : ConnId) (request : Text) : Daemon × Bool :=
  match d.gate c request with
  | .skipped => (d, true)
  | .refused => (d, false)
  | .admitted r => handler r d c request

/-- `node_del` -/
def Daemon.nodeDel (n : Name) : Daemon :=
  let d := (d.nodeSubnets n).foldl (fun d s => d.subnetDel (some n) s) d
  let d := (d.edgeTree n).foldl Daemon.edgeDel d
  { d with nodeTree := OrdList.delete (strcmp n) d.nodeTree }

/-- What happens to a daemon. -/
inductive Event where
  /-- A connection is opened or accepted. -/
  | connectionAdd (c : ConnId) (conn : Conn)
  | receive (c : ConnId) (request : Text)
  | terminate (c : ConnId) (report : Bool)
  /-- A subnet is configured or learned; without an owner it is for broadcasts. -/
  | subnetAdd (owner : Option Name) (s : Subnet)
  | subnetDel (owner : Option Name) (s : SubnetId)
  /-- `age_past_requests` keeps these. -/
  | agePastRequests (keep : List Text)
  | nodeDel (n : Name)

/-- One event. -/
def Daemon.step : Event → Daemon
  | .connectionAdd c conn =>
      { d.setConn c (fun _ => conn) with connectionList := d.connectionList ++ [c] }
  | .receive c request => (d.receive c request).1
  | .terminate c report => d.terminateConnection c report
  | .subnetAdd owner s => d.subnetAdd owner s
  | .subnetDel owner s => d.subnetDel owner s
  | .agePastRequests keep => d.agePastRequests keep
  | .nodeDel n => d.nodeDel n

/-- The daemon never deletes itself from its node tree. -/
def Event.Allowed (e : Event) : Prop := e ≠ .nodeDel d.myself

/-- The states of a run. -/
inductive Reachable (config : Config) (rand : ℕ → ℕ) : Daemon → Prop where
  | init : Reachable config rand (.init config rand)
  | step {d : Daemon} {e : Event} :
      Reachable config rand d → e.Allowed d → Reachable config rand (d.step e)

/-- The events of a list, one after the other. -/
def Daemon.run (events : List Event) : Daemon := events.foldl Daemon.step d

variable {d}

lemma Reachable.run {config : Config} {rand : ℕ → ℕ} (h : Reachable config rand d)
    (events : List Event) (ha : ∀ d, ∀ e ∈ events, e.Allowed d) :
    Reachable config rand (d.run events) := by
  induction events generalizing d with
  | nil => exact h
  | cons e events ih =>
      exact ih (h.step (ha d e List.mem_cons_self)) fun d e he => ha d e (List.mem_cons_of_mem _ he)

namespace Filed

lemma init (config : Config) (rand : ℕ → ℕ) : Filed (.init config rand) :=
  ⟨by simp [Daemon.init], by simp [Daemon.init], by simp [Daemon.init], by simp [Daemon.init],
    List.pairwise_singleton _ _, by simp [Daemon.init]⟩

lemma handler (h : Filed d) (r : Request) (c : ConnId) (request : Text) :
    Filed (handler r d c request).1 := by
  cases r with
  | id => exact h.idH c request
  | ack => exact h.ackH c request
  | addSubnet => exact h.addSubnetH c request
  | delSubnet => exact h.delSubnetH c request
  | addEdge => exact h.addEdgeH c request
  | delEdge => exact h.delEdgeH c request
  | ping => exact h.of_same (SameIndexes.sendRequest d c _)
  | _ => exact h

lemma receive (h : Filed d) (c : ConnId) (request : Text) : Filed (d.receive c request).1 := by
  unfold Daemon.receive
  split
  · exact h
  · exact h
  · exact h.handler _ c request

lemma foldl {β : Type} {f : Daemon → β → Daemon} (hf : ∀ d b, Filed d → Filed (f d b))
    (l : List β) (h : Filed d) : Filed (l.foldl f d) := by
  induction l generalizing d with
  | nil => exact h
  | cons b l ih => exact ih (hf d b h)

lemma edgeDel_config (d : Daemon) (e : EdgeId) :
    (d.edgeDel e).config = d.config ∧ (d.edgeDel e).nodeTree = d.nodeTree := by
  unfold Daemon.edgeDel Daemon.unlinkReverse
  split <;> exact ⟨rfl, rfl⟩

lemma nodeDel (h : Filed d) {n : Name} (hn : n ≠ d.myself) : Filed (d.nodeDel n) := by
  -- neither loop touches the configuration
  have hconf : ∀ (l : List SubnetId) (d : Daemon),
      (l.foldl (fun d s => d.subnetDel (some n) s) d).config = d.config := by
    intro l
    induction l with
    | nil => exact fun _ => rfl
    | cons s l ih => exact fun d => ih (d.subnetDel (some n) s)
  have hconf' : ∀ (l : List EdgeId) (d : Daemon),
      (l.foldl Daemon.edgeDel d).config = d.config := by
    intro l
    induction l with
    | nil => exact fun _ => rfl
    | cons e l ih => exact fun d => (ih (d.edgeDel e)).trans (edgeDel_config d e).1
  have h1 := foldl (f := fun d s => d.subnetDel (some n) s) (fun _ s h => h.subnetDel (some n) s)
    (d.nodeSubnets n) h
  have h2 := foldl (f := Daemon.edgeDel) (fun _ e h => h.edgeDel e)
    (((d.nodeSubnets n).foldl (fun d s => d.subnetDel (some n) s) d).edgeTree n) h1
  refine ⟨h2.edge, h2.weight, h2.subnet, h2.tree, h2.nodes.delete, ?_⟩
  refine OrdList.mem_delete_of_ne h2.myself ?_
  have hc : (d.nodeDel n).config = d.config := (hconf' _ _).trans (hconf _ _)
  rw [Daemon.myself, hc]
  exact fun h0 => hn (strcmp_eq_zero.mp h0)

lemma step (h : Filed d) {e : Event} (he : e.Allowed d) : Filed (d.step e) := by
  cases e with
  | connectionAdd c conn => exact h.of_conns _ _ _ _
  | receive c request => exact h.receive c request
  | terminate c report => exact h.terminateConnection c report
  | subnetAdd owner s => exact h.subnetAdd owner s
  | subnetDel owner s => exact h.subnetDel owner s
  | agePastRequests keep => exact h.of_same ⟨_, _, _, _, _, _, _, rfl⟩
  | nodeDel n => exact h.nodeDel fun hn => he (by rw [hn])

end Filed

/-- Every object is filed under its owner in every state of every run. -/
theorem Reachable.filed {config : Config} {rand : ℕ → ℕ} (h : Reachable config rand d) :
    Filed d := by
  induction h with
  | init => exact .init config rand
  | step _ he ih => exact ih.step he

end Tinc
