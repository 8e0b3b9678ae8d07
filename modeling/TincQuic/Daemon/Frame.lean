import TincQuic.Daemon.Auth

/-!
# What a step leaves alone

Much of what a handler does is seen only from outside: it sends, it remembers the request, it lets
`graph` compute the routes.  `SameIndexes` says that nothing else happened, so that nodes, edges,
subnets and connections are what they were.
-/

namespace Tinc

open Bytes CText

variable {d d' d'' : Daemon}

/-- `d'` has the nodes, edges, subnets and connections of `d`. -/
def SameIndexes (d d' : Daemon) : Prop :=
  ∃ node mst past drawn sent add del, d' =
    { d with
      node := node, mst := mst, pastRequests := past, drawn := drawn, sent := sent,
      contradictingAddEdge := add, contradictingDelEdge := del }

namespace SameIndexes

lemma refl (d : Daemon) : SameIndexes d d := ⟨_, _, _, _, _, _, _, rfl⟩

lemma trans (h : SameIndexes d d') (h' : SameIndexes d' d'') : SameIndexes d d'' := by
  obtain ⟨_, _, _, _, _, _, _, rfl⟩ := h
  obtain ⟨_, _, _, _, _, _, _, rfl⟩ := h'
  exact ⟨_, _, _, _, _, _, _, rfl⟩

/-- A property that does not mention what may change is kept. -/
lemma keeps {P : Daemon → Prop}
    (hP : ∀ node mst past drawn sent add del, P d → P { d with
      node := node, mst := mst, pastRequests := past, drawn := drawn, sent := sent,
      contradictingAddEdge := add, contradictingDelEdge := del })
    (h : SameIndexes d d') (hd : P d) : P d' := by
  obtain ⟨node, mst, past, drawn, sent, add, del, rfl⟩ := h
  exact hP node mst past drawn sent add del hd

lemma graph (d : Daemon) : SameIndexes d (graph d) := ⟨_, _, _, _, _, _, _, rfl⟩

lemma sendMeta (d : Daemon) (c : ConnId) (request : Text) :
    SameIndexes d (d.sendMeta c request).1 := by
  unfold Daemon.sendMeta
  split
  · exact ⟨_, _, _, _, _, _, _, rfl⟩
  · exact refl d

lemma broadcastMeta (d : Daemon) (c : Option ConnId) (request : Text) :
    SameIndexes d (d.broadcastMeta c request) := ⟨_, _, _, _, _, _, _, rfl⟩

lemma sendRequest (d : Daemon) (c : ConnId) (request : Text) :
    SameIndexes d (d.sendRequest c request).1 := by
  unfold Daemon.sendRequest
  split
  · exact refl d
  · split
    · exact sendMeta d c request
    · exact sendMeta d c request

lemma send (d : Daemon) (target : Target) (request : Text) :
    SameIndexes d (d.send target request) := by
  cases target with
  | one c => exact sendRequest d c request
  | everyone =>
      unfold Daemon.send
      dsimp only
      split
      · exact refl d
      · exact broadcastMeta d none request

lemma draw (d : Daemon) : SameIndexes d d.draw.1 := ⟨_, _, _, _, _, _, _, rfl⟩

lemma sendAddEdge (d : Daemon) (target : Target) (e : Edge) :
    SameIndexes d (d.sendAddEdge target e) := (draw d).trans (send _ _ _)

lemma sendDelEdge (d : Daemon) (target : Target) (fromNode toNode : Name) :
    SameIndexes d (d.sendDelEdge target fromNode toNode) := (draw d).trans (send _ _ _)

lemma sendSubnet (d : Daemon) (r : Request) (c : ConnId) (owner : Name) (s : Subnet) :
    SameIndexes d (d.sendSubnet r c owner s) := (draw d).trans (send d.draw.1 (.one c) _)

lemma seenRequest (d : Daemon) (request : Text) : SameIndexes d (d.seenRequest request).1 := by
  unfold Daemon.seenRequest
  split
  · exact refl d
  · exact ⟨_, _, _, _, _, _, _, rfl⟩

lemma tellRest (d : Daemon) (c : ConnId) (request : Text) :
    SameIndexes d (d.tellRest c request) := by
  unfold Daemon.tellRest
  split
  · exact refl d
  · exact broadcastMeta d (some c) request

lemma sendId (d : Daemon) (c : ConnId) : SameIndexes d (d.sendId c) := sendRequest d c _

lemma foldl {β : Type} {f : Daemon → β → Daemon} (hf : ∀ d b, SameIndexes d (f d b))
    (l : List β) (d : Daemon) : SameIndexes d (l.foldl f d) := by
  induction l generalizing d with
  | nil => exact refl d
  | cons b l ih => exact (hf d b).trans (ih (f d b))

lemma sendEverything (d : Daemon) (c : ConnId) : SameIndexes d (d.sendEverything c) := by
  have hs : ∀ (d : Daemon) (n : Name), SameIndexes d
      ((d.nodeSubnets n).foldl (fun d s => d.sendSubnet .addSubnet c n (d.subnet s)) d) :=
    fun d n => foldl (fun d s => sendSubnet d _ _ _ _) _ d
  unfold Daemon.sendEverything
  dsimp only
  split
  · exact hs d _
  · exact foldl (fun d n => (hs d n).trans (foldl (fun d e => sendAddEdge d _ _) _ _)) _ d

lemma announceEdge (d : Daemon) (c : ConnId) : SameIndexes d (d.announceEdge c) := by
  unfold Daemon.announceEdge
  split
  · exact refl d
  · exact sendAddEdge d _ _

end SameIndexes

/-! ## Reverse pointers -/

/-- An edge without the pointer to its reverse. -/
def Edge.said (e : Edge) : Edge := { e with reverse := none }

lemma Edge.said_inj {e e' : Edge} (h : e.said = e'.said) :
    e.fromNode = e'.fromNode ∧ e.toNode = e'.toNode ∧ e.weight = e'.weight ∧
      e.connection = e'.connection := by
  cases e
  cases e'
  simp only [Edge.said, Edge.mk.injEq] at h
  exact ⟨h.1, h.2.1, h.2.2.2.2.2.1, h.2.2.2.2.2.2.1⟩

lemma setReverse_said (d : Daemon) (e i : EdgeId) (r : Option EdgeId) :
    ((d.setEdge e ({ · with reverse := r })).edge i).said = (d.edge i).said := by
  by_cases hi : i = e
  · subst hi
    simp [Daemon.setEdge, Edge.said]
  · simp [Daemon.setEdge, hi]

lemma linkReverse_eq (d : Daemon) (e : EdgeId) :
    d.linkReverse e = { d with edge := (d.linkReverse e).edge } := by
  unfold Daemon.linkReverse
  dsimp only
  split <;> rfl

/-- Only pointers to reverses change. -/
lemma linkReverse_said (d : Daemon) (e i : EdgeId) :
    ((d.linkReverse e).edge i).said = (d.edge i).said := by
  unfold Daemon.linkReverse
  dsimp only
  split
  · exact setReverse_said d e i _
  · exact (setReverse_said _ _ i _).trans (setReverse_said d e i _)

/-- The pointers of `e` and of the edge that `lookup_edge` finds change. -/
lemma linkReverse_reverse {e : EdgeId} (hne : (d.edge e).toNode ≠ (d.edge e).fromNode)
    (hfiled : ∀ n, ∀ i ∈ d.edgeTree n, (d.edge i).fromNode = n) (i : EdgeId) :
    ((d.linkReverse e).edge i).reverse =
      if d.lookupEdge (d.edge e).toNode (d.edge e).fromNode = some i then some e
      else if i = e then d.lookupEdge (d.edge e).toNode (d.edge e).fromNode
      else (d.edge i).reverse := by
  unfold Daemon.linkReverse
  dsimp only
  split
  · rename_i hrev
    by_cases hi : i = e
    · subst hi
      simp [Daemon.setEdge, hrev]
    · simp [Daemon.setEdge, hi, hrev]
  · rename_i r hrev
    -- the reverse starts elsewhere, so it is another edge
    have hre : r ≠ e := by
      rintro rfl
      exact hne (hfiled _ _ (OrdList.search_some hrev).1).symm
    by_cases hr : i = r
    · subst hr
      simp [Daemon.setEdge, hrev]
    · have hr' : ¬ r = i := fun h => hr h.symm
      by_cases hi : i = e
      · subst hi
        simp [Daemon.setEdge, hr, hr', hrev]
      · simp [Daemon.setEdge, hr, hr', hi, hrev]

lemma unlinkReverse_eq (d : Daemon) (e : EdgeId) :
    d.unlinkReverse e = { d with edge := (d.unlinkReverse e).edge } := by
  unfold Daemon.unlinkReverse
  split <;> rfl

lemma unlinkReverse_said (d : Daemon) (e i : EdgeId) :
    ((d.unlinkReverse e).edge i).said = (d.edge i).said := by
  unfold Daemon.unlinkReverse
  split
  · rfl
  · exact setReverse_said d _ i none

/-- The reverse of `e` points nowhere. -/
lemma unlinkReverse_reverse (d : Daemon) (e i : EdgeId) :
    ((d.unlinkReverse e).edge i).reverse =
      if (d.edge e).reverse = some i then none else (d.edge i).reverse := by
  unfold Daemon.unlinkReverse
  split
  · rename_i hrev
    simp [hrev]
  · rename_i r hrev
    by_cases hr : i = r
    · subst hr
      simp [Daemon.setEdge, hrev]
    · have hr' : ¬ r = i := fun h => hr h.symm
      simp [Daemon.setEdge, hr, hr', hrev]

/-! ## ID -/

/-- What `id_h` may make of connection `c`. -/
structure IdOutcome (d : Daemon) (c : ConnId) (x : Conn) : Prop where
  node : x.node = (d.conn c).node
  edge : x.edge = (d.conn c).edge
  outgoing : x.outgoing = (d.conn c).outgoing
  allow : x.allowRequest = (d.conn c).allowRequest ∨ x.allowRequest = Request.control.number ∨
    x.allowRequest = Request.ack.number
  /-- a name that is not the old one was checked, or the connection is for control -/
  name : x.name = (d.conn c).name ∨ x.allowRequest = Request.control.number ∨
    (checkId x.name ∧ x.name ≠ d.myself)
  ack : x.allowRequest = Request.ack.number → x.allowRequest ≠ (d.conn c).allowRequest →
    checkId x.name ∧ x.name ≠ d.myself

/-- Connection `c` becomes `x`, and nothing else in the indexes changes. -/
def Becomes (d : Daemon) (c : ConnId) (x : Conn) (d' : Daemon) : Prop :=
  SameIndexes (d.setConn c fun _ => x) d'

lemma Becomes.same {c : ConnId} {x : Conn} (h : Becomes d c x d') (h' : SameIndexes d' d'') :
    Becomes d c x d'' := h.trans h'

lemma Becomes.setConn {c : ConnId} {x : Conn} (h : Becomes d c x d') (f : Conn → Conn) :
    Becomes d c (f x) (d'.setConn c f) := by
  obtain ⟨node, mst, past, drawn, sent, add, del, rfl⟩ := h
  exact ⟨node, mst, past, drawn, sent, add, del, by simp [Daemon.setConn]⟩

lemma Becomes.refl (d : Daemon) (c : ConnId) : Becomes d c (d.conn c) d :=
  ⟨d.node, d.mst, d.pastRequests, d.drawn, d.sent, d.contradictingAddEdge, d.contradictingDelEdge,
    by simp [Daemon.setConn]⟩

lemma Becomes.sendId {c : ConnId} {x : Conn} (h : Becomes d c x d') :
    Becomes d c x (if (d'.conn c).outgoing = none then d'.sendId c else d') := by
  split
  · exact h.same (SameIndexes.sendId d' c)
  · exact h

lemma Becomes.sendAck {c : ConnId} {x : Conn} (h : Becomes d c x d') :
    ∃ w o, Becomes d c { x with estimatedWeight := w, options := o } (d'.sendAck c).1 :=
  ⟨_, _, (h.setConn _).same (SameIndexes.sendRequest _ c _)⟩

lemma Becomes.conn {c : ConnId} {x : Conn} (h : Becomes d c x d') : d'.conn c = x := by
  obtain ⟨_, _, _, _, _, _, _, rfl⟩ := h
  simp [Daemon.setConn]

lemma Becomes.config {c : ConnId} {x : Conn} (h : Becomes d c x d') : d'.config = d.config := by
  obtain ⟨_, _, _, _, _, _, _, rfl⟩ := h
  rfl

lemma idH_becomes (d : Daemon) (c : ConnId) (request : Text) :
    ∃ x, Becomes d c x (idH d c request).1 ∧ IdOutcome d c x := by
  unfold idH
  cases parseId request with
  | none => exact ⟨_, .refl d c, rfl, rfl, rfl, .inl rfl, .inl rfl, fun _ h => absurd rfl h⟩
  | some r =>
      have h := (Becomes.refl d c).setConn fun conn =>
        { conn with protocolMajor := r.major, protocolMinor := r.minor.getD conn.protocolMinor }
      dsimp only
      split
      · have hset := h.setConn ({ · with
          control := true, allowRequest := Request.control.number, name := ascii "<control>" })
        exact ⟨_, hset.sendId.same (SameIndexes.sendRequest _ c _), rfl, rfl, rfl,
          .inr (.inl rfl), .inr (.inl rfl), fun h => by simp [Request.number] at h⟩
      · split
        · exact ⟨_, h, rfl, rfl, rfl, .inl rfl, .inl rfl, fun _ h => absurd rfl h⟩
        · rename_i hname
          have hname : checkId r.name ∧ r.name ≠ d.myself := by
            rw [not_or, not_not] at hname
            exact hname
          have hset := h.setConn ({ · with name := r.name })
          unfold Daemon.acceptId
          split
          · exact ⟨_, h, rfl, rfl, rfl, .inl rfl, .inl rfl, fun _ h => absurd rfl h⟩
          · dsimp only
            split
            · exact ⟨_, hset, rfl, rfl, rfl, .inl rfl, .inr (.inr hname), fun _ h => absurd rfl h⟩
            · split
              · exact ⟨_, hset, rfl, rfl, rfl, .inl rfl, .inr (.inr hname),
                  fun _ h => absurd rfl h⟩
              · obtain ⟨w, o, hack⟩ := (hset.setConn
                  ({ · with allowRequest := Request.ack.number })).sendId.sendAck
                exact ⟨_, hack, rfl, rfl, rfl, .inr (.inr rfl), .inr (.inr hname),
                  fun _ _ => hname⟩

end Tinc
