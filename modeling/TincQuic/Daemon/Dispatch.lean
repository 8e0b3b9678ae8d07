import TincQuic.Daemon.Links
import TincQuic.Protocol.Rejection

/-!
# `receive_meta`: a connection and its own dispatcher

`receive_meta` reads one line after the other from the buffer of a connection and hands it to
`receive_request`, until a request fails or no line is left.  A handler may end the connection
itself, which frees it.

* `metaAccesses` are the states in which the dispatcher looks at its connection, in the order in
  which it does.
* `Ends` says that a line ends the connection on which it came.  That is so for an ACK that loses
  against another connection, and for a control connection that disconnects itself.
* **The connection is still there whenever the dispatcher looks at it**, exactly if no line that it
  hands over ends it: `dispatcher_safe_iff`.
-/

namespace Tinc

open Bytes CText Function

/-! ## `control_h` -/

/-- `REQ_DISCONNECT` -/
def reqDisconnect : ℤ := 12

/-- The handlers that are not part of this development.  None of them ends a connection, but for
the reload of the configuration, which ends outgoing connections and spares control connections. -/
structure Handlers where
  run : Request → Daemon → ConnId → Text → Daemon × Bool
  keeps : ∀ r d c request, c ∈ d.connectionList → (r = .control → (d.conn c).outgoing = none) →
    c ∈ (run r d c request).1.connectionList

variable (handlers : Handlers) (d : Daemon)

/-- One turn of the loop for `REQ_DISCONNECT`. -/
def Daemon.disconnectOne (name : Name) (d : Daemon) (other : ConnId) : Daemon :=
  if (d.conn other).name = name then
    d.terminateConnection other ((d.conn other).edge ≠ none)
  else d

/-- `terminate_connection` for every connection of that name. -/
def Daemon.disconnect (name : Name) : Daemon :=
  d.connectionList.foldl (disconnectOne name) d

/-- `control_return` -/
def Daemon.controlReturn (c : ConnId) (type error : ℤ) : Daemon × Bool :=
  d.sendRequest c (words [decimal Request.control.number, decimal type, decimal error])

/-- The type of a control request. -/
def parseControl (request : Text) : Option ℤ :=
  match (sscanf [.skip (.d none), .space, .conv (.d none)] request).1 with
  | [.int type] => some type
  | _ => none

/-- The name in a control request. -/
def parseControlName (request : Text) : Option Name :=
  match (sscanf [.skip (.d none), .space, .skip (.d none), .space, maxString] request).1 with
  | [.str name] => some name
  | _ => none

/-- `control_h` -/
def controlH (c : ConnId) (request : Text) : Daemon × Bool :=
  if ¬ (d.conn c).control ∨ (d.conn c).allowRequest ≠ Request.control.number then (d, false)
  else
    match parseControl request with
    | none => (d, false)
    | some type =>
        if type = reqDisconnect then
          match parseControlName request with
          | none => d.controlReturn c reqDisconnect (-1)
          | some name =>
              let found := ∃ other ∈ d.connectionList, (d.conn other).name = name
              (d.disconnect name).controlReturn c reqDisconnect (if found then 0 else -2)
        else handlers.run .control d c request

/-- `request_handlers`, all of them. -/
def handle : Request → Daemon → ConnId → Text → Daemon × Bool
  | .control => controlH handlers
  | .udpInfo => handlers.run .udpInfo
  | .mtuInfo => handlers.run .mtuInfo
  | .inviteJoin => handlers.run .inviteJoin
  | .inviteData => handlers.run .inviteData
  | .inviteCsr => handlers.run .inviteCsr
  | .inviteCert => handlers.run .inviteCert
  | r => handler r

/-! ## The dispatcher -/

section

variable {σ : Type} (disp : Dispatcher σ)

/-- `receive_request` looks at its connection after a handler failed, to log it. -/
def Obs.logged (o : Obs) : Bool := ¬ o.ok ∧ o.handler ≠ none ∧ o.handler ≠ some .termreq

/-- The states in which the loop of `receive_meta` looks at its connection. -/
def metaAccesses (s : σ) (line : List UInt8) : List UInt8 → List σ
  | [] => [s]
  | b :: rest =>
      if b = 10 then
        let (s', obs) := receiveRequest disp s (cstr line)
        s :: (if obs.logged then [s'] else []) ++ if obs.ok then metaAccesses s' [] rest else []
      else metaAccesses s (line ++ [b]) rest

/-- The lines that the loop hands to `receive_request`, with the state in which it does. -/
def handedOver (s : σ) (line : List UInt8) : List UInt8 → List (σ × Text)
  | [] => []
  | b :: rest =>
      if b = 10 then
        let (s', obs) := receiveRequest disp s (cstr line)
        (s, cstr line) :: if obs.ok then handedOver s' [] rest else []
      else handedOver s (line ++ [b]) rest

end

/-- How connection `c` of a daemon is dispatched, with all handlers. -/
def fullDispatcher (config : Config) (masquerading : Bool) (c : ConnId) : Dispatcher Daemon :=
  { Daemon.dispatcher config masquerading c with
    handle := fun r d request => handle handlers r d c request }

/-! ## The end of a connection -/

/-- The ACK on connection `c` is refused in favour of another connection to the same node. -/
structure Loses (c old : ConnId) : Prop where
  known : d.lookupNode (d.conn c).name ≠ none
  connected : d.nodeConnection (d.conn c).name = some old
  ne : old ≠ c
  name : ¬ strcmp (d.conn c).name d.myself < 0
  /-- the directions are the same, or only the old connection is outgoing -/
  outgoing : (d.conn c).outgoing ≠ none → (d.conn old).outgoing ≠ none

/-- The line ends the connection on which it came. -/
inductive Ends (c : ConnId) (line : Text) : Request → Prop where
  | ack (old : ConnId) : parseAck line ≠ none → Loses d c old → Ends c line .ack
  /-- a control connection gives its own name -/
  | disconnect : (d.conn c).control = true →
      (d.conn c).allowRequest = Request.control.number → parseControl line = some reqDisconnect →
      parseControlName line = some (d.conn c).name → Ends c line .control
  /-- a control connection that is outgoing, too, asks for something that ends it -/
  | control (type : ℤ) : (d.conn c).control = true →
      (d.conn c).allowRequest = Request.control.number → parseControl line = some type →
      type ≠ reqDisconnect → (d.conn c).outgoing ≠ none →
      c ∉ (handlers.run .control d c line).1.connectionList → Ends c line .control

variable {handlers d}

/-- The tie-breaker refuses the new connection or replaces the old one. -/
lemma tieBreak_list (c old : ConnId) :
    (d.tieBreak c old).1.connectionList =
      d.connectionList.filter (· ≠ if (d.tieBreak c old).2 then old else c) := by
  have hclose := fun (d : Daemon) (i : ConnId) => (Closes.terminateConnection d i false).list
  unfold Daemon.tieBreak
  dsimp only
  split
  · split
    · refine (hclose _ old).trans ?_
      split <;> rfl
    · exact hclose d c
  · split
    · split
      · exact hclose _ old
      · exact hclose d c
    · exact hclose _ old

lemma tieBreak_refused_iff (c old : ConnId) :
    (d.tieBreak c old).2 = false ↔ ¬ strcmp (d.conn c).name d.myself < 0 ∧
      ((d.conn c).outgoing ≠ none → (d.conn old).outgoing ≠ none) := by
  unfold Daemon.tieBreak
  dsimp only
  by_cases hold : (d.conn old).outgoing = none <;> by_cases hnew : (d.conn c).outgoing = none <;>
    by_cases hname : strcmp (d.conn c).name d.myself < 0 <;> simp [hold, hnew, hname]

/-- An ACK ends its connection if it loses against another one. -/
lemma ackH_removes_iff {c : ConnId} (hc : c ∈ d.connectionList) (line : Text) :
    c ∉ (ackH d c line).1.connectionList ↔ parseAck line ≠ none ∧ ∃ old, Loses d c old := by
  unfold ackH
  cases hparse : parseAck line with
  | none => simpa using hc
  | some r =>
      have hkeep : ∀ (d' : Daemon) (n : Name), c ∈ d'.connectionList →
          c ∈ (d'.activate c n r).connectionList := fun d' n h =>
        (Binds.activate d' c n r).list ▸ h
      by_cases hknown : d.lookupNode (d.conn c).name = none
      · have hnode : (d.ensureNode (d.conn c).name).nodeConnection (d.conn c).name = none := by
          simp [Daemon.ensureNode, hknown, Daemon.addNode]
        have hlist := (SameTable.ensureNode d (d.conn c).name).list
        simp only [hnode]
        refine iff_of_false (not_not.mpr (hkeep _ _ (hlist ▸ hc))) ?_
        rintro ⟨-, old, hloses⟩
        exact hloses.known hknown
      · have hnode : d.ensureNode (d.conn c).name = d := by
          simp [Daemon.ensureNode, hknown]
        simp only [hnode]
        cases hold : d.nodeConnection (d.conn c).name with
        | none =>
            refine iff_of_false (not_not.mpr (hkeep _ _ hc)) ?_
            rintro ⟨-, old, hloses⟩
            simp [hloses.connected] at hold
        | some old =>
            have hlist := tieBreak_list (d := d) c old
            by_cases hne : old = c
            · simp only [hne, if_true]
              refine iff_of_false (not_not.mpr (hkeep _ _ hc)) ?_
              rintro ⟨-, old', hloses⟩
              rw [hloses.connected] at hold
              exact hloses.ne ((Option.some.inj hold).trans hne)
            · simp only [hne, if_false]
              cases hresult : (d.tieBreak c old).2 with
              | true =>
                  rw [hresult] at hlist
                  simp only [if_true] at hlist ⊢
                  refine iff_of_false (not_not.mpr (hkeep _ _ ?_)) ?_
                  · rw [hlist]
                    exact List.mem_filter.mpr ⟨hc, by simpa using Ne.symm hne⟩
                  · rintro ⟨-, old', hloses⟩
                    obtain rfl := Option.some.inj (hold.symm.trans hloses.connected)
                    have hrefused := (tieBreak_refused_iff c old).mpr
                      ⟨hloses.name, hloses.outgoing⟩
                    simp [hresult] at hrefused
              | false =>
                  rw [hresult] at hlist
                  simp only [Bool.false_eq_true, if_false] at hlist ⊢
                  obtain ⟨hname, houtgoing⟩ := (tieBreak_refused_iff c old).mp hresult
                  refine iff_of_true ?_ ⟨by simp, old, hknown, hold, hne, hname, houtgoing⟩
                  rw [hlist]
                  simp

/-! ## `REQ_DISCONNECT` -/

section

variable {c : ConnId} {name : Name}

lemma disconnectOne_gone (other : ConnId) (h : c ∉ d.connectionList) :
    c ∉ (d.disconnectOne name other).connectionList := by
  unfold Daemon.disconnectOne
  split
  · rw [(Closes.terminateConnection _ _ _).list]
    exact fun hc => h (List.mem_filter.mp hc).1
  · exact h

/-- The other connections stay as they are. -/
lemma disconnectOne_other (name : Name) {other : ConnId} (hne : c ≠ other) :
    (d.disconnectOne name other).conn c = d.conn c ∧
      (c ∈ (d.disconnectOne name other).connectionList ↔ c ∈ d.connectionList) := by
  unfold Daemon.disconnectOne
  split
  · have hclose := Closes.terminateConnection d other ((d.conn other).edge ≠ none)
    refine ⟨hclose.conn c hne, ?_⟩
    rw [hclose.list]
    simp [hne]
  · exact ⟨rfl, Iff.rfl⟩

lemma foldl_disconnect_gone (l : List ConnId) (h : c ∉ d.connectionList) :
    c ∉ (l.foldl (Daemon.disconnectOne name) d).connectionList := by
  induction l generalizing d with
  | nil => exact h
  | cons other l ih => exact ih (disconnectOne_gone other h)

/-- The loop ends exactly the connections of that name. -/
lemma foldl_disconnect_iff (l : List ConnId) (h : c ∈ d.connectionList) :
    c ∉ (l.foldl (Daemon.disconnectOne name) d).connectionList ↔
      c ∈ l ∧ (d.conn c).name = name := by
  induction l generalizing d with
  | nil => simpa using h
  | cons other l ih =>
      by_cases hne : c = other
      · subst hne
        by_cases hname : (d.conn c).name = name
        · simp only [List.foldl_cons, List.mem_cons_self, hname, and_self, iff_true]
          refine foldl_disconnect_gone l ?_
          rw [Daemon.disconnectOne, if_pos hname, (Closes.terminateConnection _ _ _).list]
          simp
        · have hkeep : d.disconnectOne name c = d := if_neg hname
          rw [List.foldl_cons, hkeep, ih h]
          simp [hname]
      · obtain ⟨hconn, hlist⟩ := disconnectOne_other (d := d) name hne
        rw [List.foldl_cons, ih (hlist.mpr h), hconn]
        simp [hne]

lemma disconnect_removes_iff (h : c ∈ d.connectionList) :
    c ∉ (d.disconnect name).connectionList ↔ (d.conn c).name = name :=
  (foldl_disconnect_iff d.connectionList h).trans (by simp [h])

end

/-! ## The dispatcher looks at its connection -/

variable {c : ConnId} {line : Text}

lemma controlReturn_list (type error : ℤ) :
    (d.controlReturn c type error).1.connectionList = d.connectionList :=
  (SameTable.of_same (SameIndexes.sendRequest d c _)).list

/-- A control connection ends itself by its name, unless the other handlers end it. -/
lemma controlH_removes_iff (hc : c ∈ d.connectionList) :
    c ∉ (controlH handlers d c line).1.connectionList ↔ Ends handlers d c line .control := by
  unfold controlH
  by_cases hcontrol : (d.conn c).control = true ∧ (d.conn c).allowRequest = Request.control.number
  · rw [if_neg (by simp [hcontrol])]
    cases htype : parseControl line with
    | none =>
        refine iff_of_false (not_not.mpr hc) ?_
        rintro (⟨⟩ | ⟨-, -, h, -⟩ | ⟨_, -, -, h, -⟩)
        · rw [htype] at h
          cases h
        · rw [htype] at h
          cases h
    | some type =>
        dsimp only
        by_cases hdisconnect : type = reqDisconnect
        · rw [if_pos hdisconnect]
          cases hname : parseControlName line with
          | none =>
              dsimp only
              rw [controlReturn_list]
              refine iff_of_false (not_not.mpr hc) ?_
              rintro (⟨⟩ | ⟨-, -, -, h⟩ | ⟨_, -, -, h, hne, -⟩)
              · rw [hname] at h
                cases h
              · rw [htype] at h
                exact hne ((Option.some.inj h).symm.trans hdisconnect)
          | some name =>
              dsimp only
              rw [controlReturn_list, disconnect_removes_iff hc]
              constructor
              · intro h
                exact .disconnect hcontrol.1 hcontrol.2 (htype.trans (by rw [hdisconnect]))
                  (hname.trans (by rw [h]))
              · rintro (⟨⟩ | ⟨-, -, -, h⟩ | ⟨_, -, -, h, hne, -⟩)
                · exact (Option.some.inj (hname.symm.trans h)).symm
                · rw [htype] at h
                  exact absurd ((Option.some.inj h).symm.trans hdisconnect) hne
        · rw [if_neg hdisconnect]
          constructor
          · intro h
            refine .control type hcontrol.1 hcontrol.2 htype hdisconnect ?_ h
            exact fun hout => h (handlers.keeps _ _ _ _ hc fun _ => hout)
          · rintro (⟨⟩ | ⟨-, -, h, -⟩ | ⟨_, -, -, -, -, -, h⟩)
            · rw [htype] at h
              exact absurd (Option.some.inj h) hdisconnect
            · exact h
  · rw [if_pos (not_and_or.mp hcontrol)]
    refine iff_of_false (not_not.mpr hc) ?_
    rintro (⟨⟩ | ⟨h, h', -⟩ | ⟨_, h, h', -⟩)
    · exact hcontrol ⟨h, h'⟩
    · exact hcontrol ⟨h, h'⟩

/-- Only ACK and CONTROL end the connection they come on. -/
lemma Ends.request {r : Request} (h : Ends handlers d c line r) : r = .ack ∨ r = .control := by
  cases h with
  | ack => exact .inl rfl
  | disconnect => exact .inr rfl
  | control => exact .inr rfl

/-- What a handler does to its own connection. -/
lemma handle_removes_iff (hc : c ∈ d.connectionList) (r : Request) :
    c ∉ (handle handlers r d c line).1.connectionList ↔ Ends handlers d c line r := by
  have hkeep : ∀ {d' : Daemon}, c ∈ d'.connectionList → ¬ (r = .ack ∨ r = .control) →
      (c ∉ d'.connectionList ↔ Ends handlers d c line r) := by
    intro d' h hr
    exact iff_of_false (not_not.mpr h) fun hends => hr hends.request
  have hother : r ≠ .control → c ∈ (handlers.run r d c line).1.connectionList := fun hr =>
    handlers.keeps r d c line hc fun h => absurd h hr
  cases r with
  | ack =>
      refine (ackH_removes_iff hc line).trans ?_
      constructor
      · rintro ⟨hparse, old, h⟩
        exact .ack old hparse h
      · rintro ⟨old, hparse, h⟩
        exact ⟨hparse, old, h⟩
  | control => exact controlH_removes_iff hc
  | id =>
      obtain ⟨x, ⟨_, _, _, _, _, _, _, heq⟩, -⟩ := idH_becomes d c line
      refine hkeep ?_ (by simp)
      simp only [handle, handler]
      rw [heq]
      exact hc
  | udpInfo => exact hkeep (hother (by simp)) (by simp)
  | mtuInfo => exact hkeep (hother (by simp)) (by simp)
  | inviteJoin => exact hkeep (hother (by simp)) (by simp)
  | inviteData => exact hkeep (hother (by simp)) (by simp)
  | inviteCsr => exact hkeep (hother (by simp)) (by simp)
  | inviteCert => exact hkeep (hother (by simp)) (by simp)
  | termreq => exact hkeep hc (by simp)
  | pong => exact hkeep hc (by simp)
  | ping => exact hkeep ((SameTable.of_same (SameIndexes.sendRequest d c _)).list ▸ hc) (by simp)
  | addSubnet => exact hkeep ((SameTable.addSubnetH d c line).list ▸ hc) (by simp)
  | delSubnet => exact hkeep ((SameTable.delSubnetH d c line).list ▸ hc) (by simp)
  | addEdge => exact hkeep ((SameTable.addEdgeH d c line).list ▸ hc) (by simp)
  | delEdge => exact hkeep ((SameTable.delEdgeH d c line).list ▸ hc) (by simp)

section

variable {config : Config} {masquerading : Bool}

/-- The line is a request that ends its connection. -/
def EndsItself (handlers : Handlers) (config : Config) (c : ConnId) (d : Daemon) (line : Text) :
    Prop :=
  ∃ r, Tinc.gate config.proxyHttp ((d.conn c).outgoing ≠ none) (d.conn c).allowRequest line =
    .admitted r ∧ Ends handlers d c line r

/-- `receive_request` removes its connection by a handler that ends it, and then it returns true or
looks at the connection again. -/
lemma receiveRequest_removes_iff (handlers : Handlers) (config : Config) (masquerading : Bool)
    (line : Text) (hc : c ∈ d.connectionList) :
    c ∉ (receiveRequest (fullDispatcher handlers config masquerading c) d line).1.connectionList ↔
      EndsItself handlers config c d line := by
  have hgate : (fullDispatcher handlers config masquerading c).gate d line =
      Tinc.gate config.proxyHttp ((d.conn c).outgoing ≠ none) (d.conn c).allowRequest line := rfl
  unfold receiveRequest EndsItself
  rw [hgate]
  cases Tinc.gate config.proxyHttp ((d.conn c).outgoing ≠ none) (d.conn c).allowRequest line with
  | skipped => simpa using hc
  | refused => simpa using hc
  | admitted r =>
      have hhandle : (fullDispatcher handlers config masquerading c).handle r d line =
          handle handlers r d c line := rfl
      simpa [hhandle] using handle_removes_iff hc r

lemma logged_of_endsItself (masquerading : Bool) (h : EndsItself handlers config c d line)
    (hfail : (receiveRequest (fullDispatcher handlers config masquerading c) d line).2.ok = false) :
    (receiveRequest (fullDispatcher handlers config masquerading c) d line).2.logged = true := by
  obtain ⟨r, hr, hends⟩ := h
  have hgate : (fullDispatcher handlers config masquerading c).gate d line = .admitted r := hr
  unfold receiveRequest at hfail ⊢
  rw [hgate] at hfail ⊢
  have hne : r ≠ .termreq := by
    rintro rfl
    cases hends
  simpa [Obs.logged, hne] using hfail

lemma mem_metaAccesses {σ : Type} (disp : Dispatcher σ) (s : σ) (line inbuf : List UInt8) :
    s ∈ metaAccesses disp s line inbuf := by
  induction inbuf generalizing line with
  | nil => simp [metaAccesses]
  | cons b rest ih =>
      rw [metaAccesses]
      split
      · simp
      · exact ih _

/-- One line, and what comes behind it. -/
lemma metaAccesses_iff (handlers : Handlers) (config : Config) (masquerading : Bool) (d : Daemon)
    (c : ConnId) (hc : c ∈ d.connectionList) (line inbuf : List UInt8) :
    (∀ d' ∈ metaAccesses (fullDispatcher handlers config masquerading c) d line inbuf,
        c ∈ d'.connectionList) ↔
      ∀ p ∈ handedOver (fullDispatcher handlers config masquerading c) d line inbuf,
        ¬ EndsItself handlers config c p.1 p.2 := by
  induction inbuf generalizing d line with
  | nil => simpa [metaAccesses, handedOver] using hc
  | cons b rest ih =>
      rw [metaAccesses, handedOver]
      split
      · have hremoves := receiveRequest_removes_iff handlers config masquerading (cstr line) hc
        have hlogged := fun h : EndsItself handlers config c d (cstr line) =>
          logged_of_endsItself masquerading h
        generalize receiveRequest (fullDispatcher handlers config masquerading c) d (cstr line) =
          result at hremoves hlogged ⊢
        obtain ⟨d', obs⟩ := result
        dsimp only at hremoves hlogged ⊢
        by_cases hends : EndsItself handlers config c d (cstr line)
        · -- the connection is gone, and the dispatcher looks at it in the next turn at the latest
          refine iff_of_false ?_ fun h => h _ List.mem_cons_self hends
          intro h
          refine hremoves.mpr hends (h d' ?_)
          cases hok : obs.ok with
          | true => simp [mem_metaAccesses]
          | false => simp [hlogged hends hok]
        · have hc' : c ∈ d'.connectionList := not_not.mp fun h => hends (hremoves.mp h)
          have hrest := ih d' hc' []
          cases hok : obs.ok with
          | true => simp [hc, hends, hok, Obs.logged, hrest]
          | false => simp [hc, hc', hends]
      · exact ih d hc _

/-- **When the dispatcher finds its connection in the list each time that it looks at it**: exactly
if no line that it hands over ends the connection. -/
theorem dispatcher_safe_iff (handlers : Handlers) (config : Config) (masquerading : Bool)
    (d : Daemon) (c : ConnId) (hc : c ∈ d.connectionList) (inbuf : List UInt8) :
    (∀ d' ∈ metaAccesses (fullDispatcher handlers config masquerading c) d [] inbuf,
        c ∈ d'.connectionList) ↔
      ∀ p ∈ handedOver (fullDispatcher handlers config masquerading c) d [] inbuf,
        ¬ EndsItself handlers config c p.1 p.2 :=
  metaAccesses_iff handlers config masquerading d c hc [] inbuf

end

/-- Handlers that do nothing. -/
def Handlers.idle : Handlers where
  run := fun _ d _ _ => (d, true)
  keeps := fun _ _ _ _ h _ => h

/-- `b` is connected to `a` on connection 0, and introduced itself on connection 1, too. -/
def twiceIntroduced : Daemon :=
  (Daemon.init (.plain (ascii "a")) id).run
    [.connectionAdd 0 { name := ascii "<unknown>" }, .receive 0 (ascii "0 b 17.7"),
      .receive 0 (ascii "4 655 10 c"), .connectionAdd 1 { name := ascii "<unknown>" },
      .receive 1 (ascii "0 b 17.7")]

/-- The dispatcher of connection 0 may go on: neither a PING nor another ACK ends it. -/
theorem dispatcher_safe_first :
    0 ∈ twiceIntroduced.connectionList ∧
      ∀ p ∈ handedOver (fullDispatcher .idle (.plain (ascii "a")) true 0) twiceIntroduced []
        (ascii "8\n4 655 10 c\n8"), ¬ EndsItself .idle (.plain (ascii "a")) 0 p.1 p.2 :=
  ⟨by decide +kernel,
    (dispatcher_safe_iff .idle (.plain (ascii "a")) true twiceIntroduced 0 (by decide +kernel)
      (ascii "8\n4 655 10 c\n8")).mp (by decide +kernel)⟩

/-- The ACK of `b` on connection 1 ends that connection, as our name is the smaller one, and the
dispatcher looks at its buffer again. -/
theorem dispatcher_looks_again : ¬ ∀ (handlers : Handlers) (config : Config) (masquerading : Bool)
    (d : Daemon) (c : ConnId) (inbuf : List UInt8), c ∈ d.connectionList →
    ∀ d' ∈ metaAccesses (fullDispatcher handlers config masquerading c) d [] inbuf,
      c ∈ d'.connectionList := by
  intro h
  have hall := h .idle (.plain (ascii "a")) true twiceIntroduced 1 (ascii "4 655 10 c\n")
    (by decide +kernel)
  exact absurd hall (by decide +kernel)

end Tinc
