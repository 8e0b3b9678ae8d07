import TincQuic.Daemon.Run
import TincQuic.Lib.Run

/-!
# Requests that were seen before

ADD_EDGE, DEL_EDGE, ADD_SUBNET and DEL_SUBNET are forwarded to all other connections, so in a
network with cycles they come back.  `seen_request` remembers them, and `age_past_requests` forgets
what is older than `pinginterval`.

* `Remembers` says that the memory did not change.  Nothing but `seen_request` adds to it:
  `receive_pastRequests`.
* **A request that comes again before it is forgotten changes nothing**, whatever happened in
  between and wherever it comes from: `duplicates_ignored`.
* `Relaying` are daemons with requests in flight between them, in any order.  **Each daemon applies
  a request once at most**: `network_applied_once`.
-/

namespace Tinc

open Bytes CText Function Run

variable {d d' d'' : Daemon} {c : ConnId} {request : Text} {r : Request}

/-! ## The memory -/

/-- No request was remembered or forgotten. -/
def Remembers (d d' : Daemon) : Prop := d'.pastRequests = d.pastRequests

namespace Remembers

lemma refl (d : Daemon) : Remembers d d := rfl

lemma trans (h : Remembers d d') (h' : Remembers d' d'') : Remembers d d'' := Eq.trans h' h

lemma foldl {β : Type} {f : Daemon → β → Daemon} (hf : ∀ d b, Remembers d (f d b)) (l : List β)
    (d : Daemon) : Remembers d (l.foldl f d) := by
  induction l generalizing d with
  | nil => exact refl d
  | cons b l ih => exact (hf d b).trans (ih (f d b))

/-! ### Sending -/

lemma sendMeta (d : Daemon) (c : ConnId) (request : Text) :
    Remembers d (d.sendMeta c request).1 := by
  unfold Daemon.sendMeta
  split <;> rfl

lemma sendRequest (d : Daemon) (c : ConnId) (request : Text) :
    Remembers d (d.sendRequest c request).1 := by
  unfold Daemon.sendRequest
  split
  · exact refl d
  · split
    · exact sendMeta d c request
    · exact sendMeta d c request

lemma send (d : Daemon) (target : Target) (request : Text) :
    Remembers d (d.send target request) := by
  cases target with
  | one c => exact sendRequest d c request
  | everyone =>
      unfold Daemon.send
      dsimp only
      split <;> rfl

lemma sendAddEdge (d : Daemon) (target : Target) (e : Edge) :
    Remembers d (d.sendAddEdge target e) :=
  send d.draw.1 target _

lemma sendDelEdge (d : Daemon) (target : Target) (fromNode toNode : Name) :
    Remembers d (d.sendDelEdge target fromNode toNode) :=
  send d.draw.1 target _

lemma sendSubnet (d : Daemon) (r : Request) (c : ConnId) (owner : Name) (s : Subnet) :
    Remembers d (d.sendSubnet r c owner s) :=
  send d.draw.1 (.one c) _

lemma tellRest (d : Daemon) (c : ConnId) (request : Text) :
    Remembers d (d.tellRest c request) := by
  unfold Daemon.tellRest
  split <;> rfl

lemma sendEverything (d : Daemon) (c : ConnId) : Remembers d (d.sendEverything c) := by
  have hs : ∀ (d : Daemon) (n : Name), Remembers d
      ((d.nodeSubnets n).foldl (fun d s => d.sendSubnet .addSubnet c n (d.subnet s)) d) :=
    fun d n => foldl (fun d s => sendSubnet d _ _ _ _) _ d
  unfold Daemon.sendEverything
  dsimp only
  split
  · exact hs d _
  · exact foldl (fun d n => (hs d n).trans (foldl (fun d e => sendAddEdge d _ _) _ _)) _ d

lemma announceEdge (d : Daemon) (c : ConnId) : Remembers d (d.announceEdge c) := by
  unfold Daemon.announceEdge
  split
  · exact refl d
  · exact sendAddEdge d _ _

/-! ### Nodes, edges and subnets -/

lemma ensureNode (d : Daemon) (n : Name) : Remembers d (d.ensureNode n) := by
  unfold Daemon.ensureNode
  split <;> rfl

lemma linkReverse (d : Daemon) (e : EdgeId) : Remembers d (d.linkReverse e) := by
  unfold Daemon.linkReverse
  dsimp only
  split <;> rfl

lemma edgeAdd (d : Daemon) (e : EdgeId) : Remembers d (d.edgeAdd e) := by
  unfold Daemon.edgeAdd
  dsimp only
  split
  · exact refl d
  · exact linkReverse { d with edgeTree := _ } e

lemma edgeDel (d : Daemon) (e : EdgeId) : Remembers d (d.edgeDel e) := by
  unfold Daemon.edgeDel Daemon.unlinkReverse
  split <;> rfl

lemma addNewEdge (d : Daemon) (edge : Edge) : Remembers d (d.addNewEdge edge) :=
  edgeAdd (d.allocEdge edge).1 _

lemma changeEdge (d : Daemon) (e : EdgeId) (r : AddEdge) : Remembers d (d.changeEdge e r) := by
  unfold Daemon.changeEdge Daemon.changeWeight
  split
  · rfl
  · split <;> rfl

lemma subnetAdd (d : Daemon) (owner : Option Name) (s : Subnet) :
    Remembers d (d.subnetAdd owner s) := by
  unfold Daemon.subnetAdd
  cases owner <;> rfl

lemma subnetDel (d : Daemon) (owner : Option Name) (s : SubnetId) :
    Remembers d (d.subnetDel owner s) := by
  unfold Daemon.subnetDel
  cases owner <;> rfl

lemma handoff (d : Daemon) (s : Subnet) : Remembers d (d.handoff s) := by
  unfold Daemon.handoff
  split
  · split
    · split <;> rfl
    · rfl
  · rfl

lemma cleanUp (d : Daemon) (n : Name) : Remembers d (d.cleanUp n) := by
  unfold Daemon.cleanUp
  split
  · exact refl d
  · split
    · exact refl d
    · refine trans ?_ (edgeDel _ _)
      split
      · exact refl d
      · exact sendDelEdge d _ _ _

/-! ### Connections -/

lemma detach (d : Daemon) (c : ConnId) (n : Name) : Remembers d (d.detach c n) := by
  unfold Daemon.detach
  split <;> rfl

lemma removeEdge (d : Daemon) (c : ConnId) (n : Name) (e : EdgeId) (report : Bool) :
    Remembers d (d.removeEdge c n e report) := by
  have hsent : Remembers d
      (if report = true ∧ ¬ d.config.tunnelserver = true then
        d.sendDelEdge .everyone (d.edge e).fromNode (d.edge e).toNode
      else d) := by
    split
    · exact sendDelEdge d _ _ _
    · exact refl d
  have hgone := hsent.trans (edgeDel _ e)
  unfold Daemon.removeEdge
  dsimp only
  split
  · exact hgone.trans (cleanUp _ n)
  · exact hgone

lemma terminateConnection (d : Daemon) (c : ConnId) (report : Bool) :
    Remembers d (d.terminateConnection c report) := by
  unfold Daemon.terminateConnection
  split
  · rfl
  · split
    · exact detach d c _
    · exact (detach d c _).trans (removeEdge _ c _ _ report)

lemma tieBreak (d : Daemon) (c old : ConnId) : Remembers d (d.tieBreak c old).1 := by
  unfold Daemon.tieBreak
  dsimp only
  split
  · split
    · refine trans ?_ (terminateConnection _ old false)
      split <;> rfl
    · exact terminateConnection d c false
  · split
    · split
      · exact terminateConnection _ old false
      · exact terminateConnection d c false
    · exact terminateConnection _ old false

lemma activate (d : Daemon) (c : ConnId) (n : Name) (r : AckRequest) :
    Remembers d (d.activate c n r) := by
  have hbound : Remembers d (d.bindNode c n r) := rfl
  have hedge : ∀ d : Daemon, Remembers d (d.addConnectionEdge c n r) := fun d => edgeAdd _ _
  exact ((hbound.trans (sendEverything _ c)).trans (hedge _)).trans (announceEdge _ c)

lemma ackH (d : Daemon) (c : ConnId) (request : Text) : Remembers d (ackH d c request).1 := by
  unfold Tinc.ackH
  split
  · exact refl d
  · have hnode := ensureNode d (d.conn c).name
    dsimp only
    split
    · exact hnode.trans (activate _ _ _ _)
    · split
      · exact hnode.trans (activate _ _ _ _)
      · split
        · exact (hnode.trans (tieBreak _ _ _)).trans (activate _ _ _ _)
        · exact hnode.trans (tieBreak _ _ _)

lemma acceptId (d : Daemon) (c : ConnId) (r : IdRequest) : Remembers d (d.acceptId c r).1 := by
  have hid : ∀ d : Daemon, Remembers d (d.sendId c) := fun d => sendRequest d c _
  have hack : ∀ d : Daemon, Remembers d (d.sendAck c).1 := fun d => by
    unfold Daemon.sendAck
    dsimp only
    exact trans rfl (sendRequest (d.setConn c _) c _)
  unfold Daemon.acceptId
  dsimp only
  split
  · rfl
  · split
    · rfl
    · split
      · rfl
      · refine trans ?_ (hack _)
        split
        · exact trans rfl (hid (Daemon.setConn _ c _))
        · rfl

lemma idH (d : Daemon) (c : ConnId) (request : Text) : Remembers d (idH d c request).1 := by
  unfold Tinc.idH
  split
  · exact refl d
  · dsimp only
    split
    · unfold Daemon.acceptControl
      dsimp only
      refine trans ?_ (sendRequest _ c _)
      split
      · exact trans rfl (sendRequest (Daemon.setConn _ c _) c _)
      · rfl
    · split
      · rfl
      · exact acceptId _ c _

/-! ### What is applied -/

lemma applyAddEdge (d : Daemon) (c : ConnId) (request : Text) (r : AddEdge) :
    Remembers d (d.applyAddEdge c request r) := by
  unfold Daemon.applyAddEdge
  split
  · split
    · exact refl d
    · split
      · exact sendAddEdge d _ _
      · exact (changeEdge d _ r).trans (tellRest _ c request)
  · split
    · exact sendDelEdge { d with contradictingAddEdge := _ } _ _ _
    · exact (addNewEdge d _).trans (tellRest _ c request)

lemma applyAddSubnet (d : Daemon) (c : ConnId) (request : Text) (owner : Name) (s : Subnet) :
    Remembers d (d.applyAddSubnet c request owner s) := by
  unfold Daemon.applyAddSubnet
  split
  · exact refl d
  · split
    · exact sendSubnet d _ _ _ _
    · split
      · exact refl d
      · split
        · rfl
        · exact ((subnetAdd d _ s).trans (tellRest _ c request)).trans (handoff _ s)

lemma applyDelEdge (d : Daemon) (c : ConnId) (request : Text) (fromName toName : Name) :
    Remembers d (d.applyDelEdge c request fromName toName) := by
  unfold Daemon.applyDelEdge
  split
  · exact refl d
  · split
    · exact sendAddEdge { d with contradictingDelEdge := _ } _ _
    · exact ((tellRest d c request).trans (edgeDel _ _)).trans (cleanUp _ _)

lemma applyDelSubnet (d : Daemon) (c : ConnId) (request : Text) (owner : Name) (s : Subnet) :
    Remembers d (d.applyDelSubnet c request owner s) := by
  unfold Daemon.applyDelSubnet
  split
  · split <;> rfl
  · split
    · exact sendSubnet d _ _ _ _
    · split
      · exact refl d
      · split
        · exact tellRest d c request
        · exact (tellRest d c request).trans (subnetDel _ _ _)

end Remembers

/-! ## Requests that are flooded -/

/-- The requests that are forwarded to all other connections. -/
def Request.flooded : Request → Bool
  | .addEdge => true
  | .delEdge => true
  | .addSubnet => true
  | .delSubnet => true
  | _ => false

/-- The tests of a handler that come before `seen_request`. -/
def heeded (r : Request) (request : Text) : Bool :=
  match r with
  | .addEdge => (parseAddEdge request).any fun e => validEnds e.fromName e.toName
  | .delEdge => (parseTwoWords request).any fun w => validEnds w.1 w.2
  | .addSubnet => (parseTwoWords request).any fun w => checkId w.1 && (str2net w.2).isSome
  | .delSubnet => (parseTwoWords request).any fun w => checkId w.1 && (str2net w.2).isSome
  | _ => false

lemma seenRequest_mem (h : request ∈ d.pastRequests) : d.seenRequest request = (d, true) :=
  if_pos h

lemma seenRequest_notMem (h : request ∉ d.pastRequests) :
    d.seenRequest request = ({ d with pastRequests := request :: d.pastRequests }, false) :=
  if_neg h

lemma flooded_of_heeded (h : heeded r request = true) : r.flooded = true := by
  cases r <;> first | rfl | cases h

/-- What the tests of ADD_SUBNET and DEL_SUBNET let pass. -/
lemma heeded_subnet (h : heeded .addSubnet request = true) :
    ∃ name subnetstr s, parseTwoWords request = some (name, subnetstr) ∧ checkId name = true ∧
      str2net subnetstr = some s := by
  obtain ⟨w, hparse, hvalid⟩ := (Option.any_eq_true _ _).mp h
  obtain ⟨hid, hnet⟩ := Bool.and_eq_true_iff.mp hvalid
  obtain ⟨s, hs⟩ := Option.isSome_iff_exists.mp hnet
  exact ⟨w.1, w.2, s, hparse, hid, hs⟩

/-- What they do not let pass. -/
lemma refused_subnet (h : heeded .addSubnet request = false) :
    parseTwoWords request = none ∨ ∃ name subnetstr,
      parseTwoWords request = some (name, subnetstr) ∧
        (checkId name = true → str2net subnetstr = none) := by
  cases hparse : parseTwoWords request with
  | none => exact .inl rfl
  | some w =>
      refine .inr ⟨w.1, w.2, rfl, fun hid => ?_⟩
      unfold heeded at h
      dsimp only at h
      rw [hparse] at h
      simpa [hid] using h

/-- A handler of a request that is flooded: it tests the request, and then asks `seen_request`. -/
structure Screens (r : Request) (request : Text) : Prop where
  refused : heeded r request = false → ∀ d c, handler r d c request = (d, false)
  seen : heeded r request = true → ∀ d c, request ∈ d.pastRequests →
    handler r d c request = (d, true)
  new : heeded r request = true → ∀ d c, request ∉ d.pastRequests →
    (handler r d c request).1.pastRequests = request :: d.pastRequests

lemma screens_addEdge (request : Text) : Screens .addEdge request := by
  refine ⟨fun h d c => ?_, fun h d c hseen => ?_, fun h d c hnew => ?_⟩ <;>
    dsimp only [handler] <;> unfold addEdgeH
  · cases hparse : parseAddEdge request with
    | none => rfl
    | some e =>
        unfold heeded at h
        dsimp only at h
        rw [hparse] at h
        exact if_pos (Bool.eq_false_iff.mp h)
  · obtain ⟨e, hparse, hvalid⟩ := (Option.any_eq_true _ _).mp h
    simp [hparse, hvalid, seenRequest_mem hseen]
  · obtain ⟨e, hparse, hvalid⟩ := (Option.any_eq_true _ _).mp h
    simp only [hparse, hvalid, not_true_eq_false, if_false, seenRequest_notMem hnew]
    split
    · rfl
    · exact ((Remembers.ensureNode _ _).trans (.ensureNode _ _)).trans
        (.applyAddEdge _ c request e)

lemma screens_delEdge (request : Text) : Screens .delEdge request := by
  refine ⟨fun h d c => ?_, fun h d c hseen => ?_, fun h d c hnew => ?_⟩ <;>
    dsimp only [handler] <;> unfold delEdgeH
  · cases hparse : parseTwoWords request with
    | none => rfl
    | some w =>
        unfold heeded at h
        dsimp only at h
        rw [hparse] at h
        exact if_pos (Bool.eq_false_iff.mp h)
  · obtain ⟨w, hparse, hvalid⟩ := (Option.any_eq_true _ _).mp h
    simp [hparse, hvalid, seenRequest_mem hseen]
  · obtain ⟨w, hparse, hvalid⟩ := (Option.any_eq_true _ _).mp h
    simp only [hparse, hvalid, not_true_eq_false, if_false, seenRequest_notMem hnew]
    split
    · rfl
    · split
      · rfl
      · exact Remembers.applyDelEdge _ c request _ _

lemma screens_addSubnet (request : Text) : Screens .addSubnet request := by
  refine ⟨fun h d c => ?_, fun h d c hseen => ?_, fun h d c hnew => ?_⟩ <;>
    dsimp only [handler] <;> unfold addSubnetH
  · rcases refused_subnet h with hparse | ⟨name, subnetstr, hparse, hnet⟩ <;> simp only [hparse]
    split
    · rfl
    · rename_i hid
      rw [hnet (not_not.mp hid)]
  · obtain ⟨name, subnetstr, s, hparse, hid, hs⟩ := heeded_subnet h
    simp [hparse, hid, hs, seenRequest_mem hseen]
  · obtain ⟨name, subnetstr, s, hparse, hid, hs⟩ := heeded_subnet h
    simp only [hparse, hid, not_true_eq_false, if_false, hs, seenRequest_notMem hnew]
    split
    · rfl
    · exact (Remembers.ensureNode _ _).trans (.applyAddSubnet _ c request _ s)

lemma screens_delSubnet (request : Text) : Screens .delSubnet request := by
  refine ⟨fun h d c => ?_, fun h d c hseen => ?_, fun h d c hnew => ?_⟩ <;>
    dsimp only [handler] <;> unfold delSubnetH
  · rcases refused_subnet h with hparse | ⟨name, subnetstr, hparse, hnet⟩ <;> simp only [hparse]
    split
    · rfl
    · rename_i hid
      rw [hnet (not_not.mp hid)]
  · obtain ⟨name, subnetstr, s, hparse, hid, hs⟩ := heeded_subnet h
    simp [hparse, hid, hs, seenRequest_mem hseen]
  · obtain ⟨name, subnetstr, s, hparse, hid, hs⟩ := heeded_subnet h
    simp only [hparse, hid, not_true_eq_false, if_false, hs, seenRequest_notMem hnew]
    split
    · rfl
    · exact Remembers.applyDelSubnet _ c request _ s

/-- **Whatever is flooded, is screened.** -/
lemma screens (hf : r.flooded = true) (request : Text) : Screens r request := by
  cases r with
  | addEdge => exact screens_addEdge request
  | delEdge => exact screens_delEdge request
  | addSubnet => exact screens_addSubnet request
  | delSubnet => exact screens_delSubnet request
  | _ => cases hf

/-- The number of a request decides about its handler. -/
lemma gate_request (h : d.gate c request = .admitted r) :
    requestHandlers (atoi request) = some r := by
  have hcheck : checkRequest (d.conn c).allowRequest request = .admitted r := by
    unfold Daemon.gate gate at h
    split at h
    · split at h
      · cases h
      · cases h
      · exact h
    · exact h
  unfold checkRequest at hcheck
  dsimp only at hcheck
  split at hcheck
  · split at hcheck
    · cases hcheck
    · rename_i r' hr'
      split at hcheck
      · cases hcheck
      · rw [← Verdict.admitted.inj hcheck, hr']
  · cases hcheck

/-- A request that passed the tests of its handler. -/
def Flooded (request : Text) : Prop :=
  ∃ r, requestHandlers (atoi request) = some r ∧ heeded r request = true

/-- **Nothing but `seen_request` adds to the memory**, and it adds what is new. -/
lemma receive_pastRequests (d : Daemon) (c : ConnId) (request : Text) :
    (d.receive c request).1.pastRequests = d.pastRequests ∨
      request ∉ d.pastRequests ∧ Flooded request ∧
        (d.receive c request).1.pastRequests = request :: d.pastRequests := by
  unfold Daemon.receive
  cases hgate : d.gate c request with
  | skipped => exact .inl rfl
  | refused => exact .inl rfl
  | admitted r =>
      dsimp only
      by_cases hf : r.flooded = true
      · cases hheeded : heeded r request with
        | false =>
            rw [(screens hf request).refused hheeded]
            exact .inl rfl
        | true =>
            by_cases hseen : request ∈ d.pastRequests
            · rw [(screens hf request).seen hheeded d c hseen]
              exact .inl rfl
            · exact .inr ⟨hseen, ⟨r, gate_request hgate, hheeded⟩,
                (screens hf request).new hheeded d c hseen⟩
      · cases r with
        | id => exact .inl (Remembers.idH d c request)
        | ack => exact .inl (Remembers.ackH d c request)
        | ping => exact .inl (Remembers.sendRequest d c _)
        | addEdge => exact absurd rfl hf
        | delEdge => exact absurd rfl hf
        | addSubnet => exact absurd rfl hf
        | delSubnet => exact absurd rfl hf
        | _ => exact .inl rfl

/-- A request that was seen before is ignored on every connection on which it is admitted. -/
lemma receive_seen (hflooded : Flooded request) (hseen : request ∈ d.pastRequests)
    (hgate : d.gate c request = .admitted r) : d.receive c request = (d, true) := by
  obtain ⟨r', hr', hheeded⟩ := hflooded
  obtain rfl := Option.some.inj ((gate_request hgate).symm.trans hr')
  unfold Daemon.receive
  rw [hgate]
  exact (screens (flooded_of_heeded hheeded) request).seen hheeded d c hseen

lemma Remembers.nodeDel (d : Daemon) (n : Name) : Remembers d (d.nodeDel n) := by
  have hsubnets : Remembers d
      ((d.nodeSubnets n).foldl (fun d s => d.subnetDel (some n) s) d) :=
    foldl (fun d s => subnetDel d (some n) s) _ d
  exact hsubnets.trans (foldl edgeDel _ _)

/-- Of all that happens only `age_past_requests` forgets something. -/
lemma step_pastRequests {e : Event} (he : ∀ keep, e ≠ .agePastRequests keep) (d : Daemon) :
    (d.step e).pastRequests = d.pastRequests ∨ ∃ request, request ∉ d.pastRequests ∧
      Flooded request ∧ (d.step e).pastRequests = request :: d.pastRequests := by
  cases e with
  | connectionAdd c conn => exact .inl rfl
  | receive c request =>
      exact (receive_pastRequests d c request).imp_right fun h => ⟨request, h⟩
  | terminate c report => exact .inl (Remembers.terminateConnection d c report)
  | subnetAdd owner s => exact .inl (Remembers.subnetAdd d owner s)
  | subnetDel owner s => exact .inl (Remembers.subnetDel d owner s)
  | agePastRequests keep => exact absurd rfl (he keep)
  | nodeDel n => exact .inl (Remembers.nodeDel d n)

/-! ## With a clock -/

/-- A daemon with the clock, and when each request was first seen. -/
structure Timed where
  daemon : Daemon
  firstseen : Text → ℤ
  clock : ℤ

/-- What happens to a daemon with a clock. -/
inductive TimedEvent where
  | tick (seconds : ℕ)
  /-- the timer of `age_past_requests` expires -/
  | age
  | happen (e : Event)

/-- The daemon forgets nothing on its own. -/
def TimedEvent.Possible : TimedEvent → Prop
  | .happen e => ∀ keep, e ≠ .agePastRequests keep
  | _ => True

/-- One event, where `pinginterval` is the time after which requests are forgotten. -/
def Timed.step (pinginterval : ℤ) (s : Timed) : TimedEvent → Timed
  | .tick seconds => { s with clock := s.clock + seconds }
  | .age =>
      { s with
        daemon := s.daemon.agePastRequests
          (s.daemon.pastRequests.filter fun p => ¬ s.firstseen p + pinginterval ≤ s.clock) }
  | .happen e =>
      { s with
        daemon := s.daemon.step e
        firstseen := fun p =>
          if p ∉ s.daemon.pastRequests ∧ p ∈ (s.daemon.step e).pastRequests then s.clock
          else s.firstseen p }

variable {pinginterval : ℤ} {s : Timed}

/-- The clock does not go back. -/
lemma Timed.clock_le (s : Timed) (e : TimedEvent) : s.clock ≤ (s.step pinginterval e).clock := by
  cases e with
  | tick seconds => exact le_add_of_nonneg_right (Int.natCast_nonneg seconds)
  | age => exact le_rfl
  | happen e => exact le_rfl

lemma Timed.clock_le_run (s : Timed) (events : List TimedEvent) :
    s.clock ≤ (events.foldl (Timed.step pinginterval) s).clock := by
  induction events generalizing s with
  | nil => exact le_rfl
  | cons e events ih => exact (s.clock_le e).trans (ih _)

/-- A request is remembered since `time` at the earliest. -/
structure Timed.Knows (s : Timed) (request : Text) (time : ℤ) : Prop where
  mem : request ∈ s.daemon.pastRequests
  since : time ≤ s.firstseen request

/-- What is remembered stays so until it is old. -/
lemma Timed.Knows.step {time : ℤ} (h : s.Knows request time) {e : TimedEvent} (he : e.Possible)
    (hclock : s.clock < time + pinginterval) : (s.step pinginterval e).Knows request time := by
  cases e with
  | tick seconds => exact ⟨h.mem, h.since⟩
  | age =>
      refine ⟨List.mem_filter.mpr ⟨h.mem, decide_eq_true (List.mem_filter.mpr ⟨h.mem, ?_⟩)⟩,
        h.since⟩
      have hsince := h.since
      exact decide_eq_true (by omega)
  | happen e =>
      refine ⟨?_, ?_⟩
      · rcases step_pastRequests he s.daemon with heq | ⟨new, -, -, heq⟩
        · exact heq ▸ h.mem
        · exact heq ▸ List.mem_cons_of_mem new h.mem
      · unfold Timed.step
        dsimp only
        rw [if_neg fun hnew => hnew.1 h.mem]
        exact h.since

lemma Timed.Knows.run {time : ℤ} {events : List TimedEvent} (h : s.Knows request time)
    (he : ∀ e ∈ events, e.Possible)
    (hclock : (events.foldl (Timed.step pinginterval) s).clock < time + pinginterval) :
    (events.foldl (Timed.step pinginterval) s).Knows request time := by
  induction events generalizing s with
  | nil => exact h
  | cons e events ih =>
      have hnow := (s.clock_le_run (e :: events)).trans_lt hclock
      exact ih (h.step (he e List.mem_cons_self) hnow)
        (fun e' hmem => he e' (List.mem_cons_of_mem _ hmem)) hclock

/-- **A request that comes again within `pinginterval` changes nothing at all**, whatever happened
since it was new and on whatever connection it is admitted. -/
theorem duplicates_ignored (pinginterval : ℤ) (s : Timed) (c c' : ConnId) (request : Text)
    (r r' : Request) (events : List TimedEvent)
    (hgate : s.daemon.gate c request = .admitted r) (hflooded : r.flooded = true)
    (hnew : request ∉ s.daemon.pastRequests) (hok : (s.daemon.receive c request).2 = true)
    (he : ∀ e ∈ events, e.Possible) :
    let s' := events.foldl (Timed.step pinginterval)
      (s.step pinginterval (.happen (.receive c request)))
    s'.clock < s.clock + pinginterval → s'.daemon.gate c' request = .admitted r' →
      s'.daemon.receive c' request = (s'.daemon, true) := by
  intro s' hclock hgate'
  have hheeded : heeded r request = true := by
    by_contra hrefused
    unfold Daemon.receive at hok
    rw [hgate] at hok
    dsimp only at hok
    rw [(screens hflooded request).refused (Bool.eq_false_iff.mpr hrefused)] at hok
    cases hok
  have hpast : (s.daemon.receive c request).1.pastRequests =
      request :: s.daemon.pastRequests := by
    unfold Daemon.receive
    rw [hgate]
    exact (screens hflooded request).new hheeded s.daemon c hnew
  have hmem : request ∈ (s.daemon.receive c request).1.pastRequests :=
    hpast ▸ List.mem_cons_self
  have hknows : (s.step pinginterval (.happen (.receive c request))).Knows request s.clock := by
    refine ⟨hmem, ?_⟩
    unfold Timed.step
    dsimp only
    rw [if_pos ⟨hnew, hmem⟩]
  exact receive_seen ⟨r, gate_request hgate, hheeded⟩ (hknows.run he hclock).mem hgate'

/-- A daemon with an active connection to `b`. -/
def peered : Daemon :=
  (Daemon.init (.plain (ascii "a")) id).step
    (.connectionAdd 0 { name := ascii "b", allowRequest := allRequests })

/-- An edge from `b` to `c`. -/
def floodedEdge : Text := ascii "12 1 b c unspec unspec 0 7"

/-- After three seconds it comes again. -/
def comesAgain : Timed :=
  (([.tick 3] : List TimedEvent).foldl (Timed.step 3600)
    ((⟨peered, fun _ => 0, 0⟩ : Timed).step 3600 (.happen (.receive 0 floodedEdge))))

lemma peered_checked :
    peered.gate 0 floodedEdge = .admitted .addEdge ∧ floodedEdge ∉ peered.pastRequests ∧
      (peered.receive 0 floodedEdge).2 = true ∧ comesAgain.clock = 3 ∧
      comesAgain.daemon.gate 0 floodedEdge = .admitted .addEdge := by
  decide +kernel

theorem duplicates_ignored_edge :
    comesAgain.daemon.receive 0 floodedEdge = (comesAgain.daemon, true) := by
  obtain ⟨hgate, hnew, hok, hclock, hgate'⟩ := peered_checked
  have hin : comesAgain.clock < 0 + 3600 := by
    rw [hclock]
    decide
  exact duplicates_ignored 3600 ⟨peered, fun _ => 0, 0⟩ 0 0 floodedEdge .addEdge .addEdge [.tick 3]
    hgate rfl hnew hok (by simp [TimedEvent.Possible]) hin hgate'

/-! ## In a network -/

/-- Daemons with the requests that are in flight to them: to whom, on which connection, and the
text.  `applied` lists what the daemons took notice of. -/
structure Relaying (V : Type) where
  daemon : V → Daemon
  inFlight : List (V × ConnId × Text)
  applied : List (V × Text)

variable {V : Type} [DecidableEq V]

/-- What happens in a network: a request arrives, whichever of those in flight, or something happens
to a daemon by itself. -/
inductive RelayingEvent (V : Type) where
  | deliver (k : ℕ)
  | happen (v : V) (e : Event)

/-- No daemon forgets what it saw. -/
def RelayingEvent.Possible : RelayingEvent V → Prop
  | .deliver _ => True
  | .happen _ e => ∀ keep, e ≠ .agePastRequests keep

/-- Daemon `v` becomes `d`; what it sent is in flight now.  `wire` says where a connection ends. -/
def Relaying.become (wire : V → ConnId → V × ConnId) (n : Relaying V) (v : V) (d : Daemon) :
    Relaying V where
  daemon := update n.daemon v d
  inFlight := n.inFlight ++ (d.sent.drop (n.daemon v).sent.length).map fun m =>
    ((wire v m.1).1, (wire v m.1).2, m.2)
  applied := n.applied ++
    (d.pastRequests.take (d.pastRequests.length - (n.daemon v).pastRequests.length)).map (v, ·)

/-- One event. -/
def Relaying.step (wire : V → ConnId → V × ConnId) (n : Relaying V) : RelayingEvent V → Relaying V
  | .deliver k =>
      match n.inFlight[k]? with
      | none => n
      | some (v, c, request) =>
          { n with inFlight := n.inFlight.eraseIdx k }.become wire v
            ((n.daemon v).receive c request).1
  | .happen v e => n.become wire v ((n.daemon v).step e)

/-- What was applied is remembered, and nothing was applied twice. -/
structure Relaying.Once (n : Relaying V) : Prop where
  nodup : n.applied.Nodup
  seen : ∀ p ∈ n.applied, p.2 ∈ (n.daemon p.1).pastRequests ∧ Flooded p.2

lemma Relaying.Once.become {wire : V → ConnId → V × ConnId} {n : Relaying V} {v : V}
    (h : n.Once) (hd : d.pastRequests = (n.daemon v).pastRequests ∨
      ∃ request, request ∉ (n.daemon v).pastRequests ∧ Flooded request ∧
        d.pastRequests = request :: (n.daemon v).pastRequests) :
    (n.become wire v d).Once := by
  have hkeeps : ∀ p ∈ n.applied, p.2 ∈ ((n.become wire v d).daemon p.1).pastRequests := by
    intro p hp
    by_cases hv : p.1 = v
    · have hmem := (h.seen p hp).1
      rw [hv] at hmem
      simp only [Relaying.become, hv, update_self]
      rcases hd with heq | ⟨new, -, -, heq⟩
      · exact heq ▸ hmem
      · exact heq ▸ List.mem_cons_of_mem new hmem
    · simpa [Relaying.become, hv] using (h.seen p hp).1
  rcases hd with heq | ⟨new, hnew, hflooded, heq⟩
  · have happlied : (n.become wire v d).applied = n.applied := by
      simp [Relaying.become, heq]
    exact ⟨happlied ▸ h.nodup,
      fun p hp => ⟨hkeeps p (happlied ▸ hp), (h.seen p (happlied ▸ hp)).2⟩⟩
  · have happlied : (n.become wire v d).applied = n.applied ++ [(v, new)] := by
      simp [Relaying.become, heq]
    refine ⟨?_, fun p hp => ?_⟩
    · rw [happlied, List.nodup_append]
      refine ⟨h.nodup, List.nodup_singleton _, fun p hp q hq hpq => ?_⟩
      rw [List.mem_singleton] at hq
      subst hpq hq
      exact hnew (h.seen _ hp).1
    · rw [happlied] at hp
      rcases List.mem_append.mp hp with hp | hp
      · exact ⟨hkeeps p hp, (h.seen p hp).2⟩
      · obtain rfl := List.mem_singleton.mp hp
        refine ⟨?_, hflooded⟩
        simp [Relaying.become, heq]

lemma Relaying.Once.step {wire : V → ConnId → V × ConnId} {n : Relaying V} (h : n.Once)
    {e : RelayingEvent V} (he : e.Possible) : (n.step wire e).Once := by
  cases e with
  | deliver k =>
      unfold Relaying.step
      dsimp only
      cases n.inFlight[k]? with
      | none => exact h
      | some m =>
          obtain ⟨v, c, request⟩ := m
          have hless : ({ n with inFlight := n.inFlight.eraseIdx k } : Relaying V).Once :=
            ⟨h.nodup, h.seen⟩
          exact hless.become
            ((receive_pastRequests (n.daemon v) c request).imp_right fun hnew => ⟨request, hnew⟩)
  | happen v e => exact h.become (step_pastRequests he (n.daemon v))

/-- **Each daemon of a network applies a request once at most**, in whatever order requests arrive;
when it comes again, on any connection, the daemon stays as it is. -/
theorem network_applied_once (wire : V → ConnId → V × ConnId) (n : Relaying V)
    (hstart : n.applied = []) (events : List (RelayingEvent V)) (he : ∀ e ∈ events, e.Possible) :
    let n' := events.foldl (Relaying.step wire) n
    n'.applied.Nodup ∧ ∀ v request, (v, request) ∈ n'.applied → ∀ c r,
      (n'.daemon v).gate c request = .admitted r →
        (n'.daemon v).receive c request = (n'.daemon v, true) := by
  have hrun : (events.foldl (Relaying.step wire) n).Once := by
    have hinit : n.Once := by
      refine ⟨hstart ▸ List.nodup_nil, fun p hp => ?_⟩
      rw [hstart] at hp
      cases hp
    clear hstart
    induction events generalizing n with
    | nil => exact hinit
    | cons e events ih =>
        exact ih _ (fun e' hmem => he e' (List.mem_cons_of_mem _ hmem))
          (hinit.step (he e List.mem_cons_self))
  refine ⟨hrun.nodup, fun v request hmem c r hgate => ?_⟩
  obtain ⟨hseen, hflooded⟩ := hrun.seen _ hmem
  exact receive_seen hflooded hseen hgate

/-- Two copies of a request are in flight. -/
def twoCopies : Relaying Bool where
  daemon := fun _ => peered
  inFlight := [(true, 0, floodedEdge), (true, 0, floodedEdge)]
  applied := []

lemma twoCopies_checked :
    (([.deliver 0] : List (RelayingEvent Bool)).foldl (Relaying.step fun v c => (!v, c))
      twoCopies).applied = [(true, floodedEdge)] ∧
    ((([.deliver 0] : List (RelayingEvent Bool)).foldl (Relaying.step fun v c => (!v, c))
      twoCopies).daemon true).gate 0 floodedEdge = .admitted .addEdge := by
  decide +kernel

/-- The second copy is of no consequence. -/
theorem network_applied_once_copies :
    ((([.deliver 0] : List (RelayingEvent Bool)).foldl (Relaying.step fun v c => (!v, c))
      twoCopies).daemon true).receive 0 floodedEdge =
    (((([.deliver 0] : List (RelayingEvent Bool)).foldl (Relaying.step fun v c => (!v, c))
      twoCopies).daemon true), true) := by
  obtain ⟨happlied, hgate⟩ := twoCopies_checked
  refine (network_applied_once _ twoCopies rfl [.deliver 0] (by simp [RelayingEvent.Possible])).2
    true floodedEdge ?_ 0 .addEdge hgate
  rw [happlied]
  exact List.mem_singleton_self _

end Tinc
