import TincQuic.Daemon.State
import TincQuic.Lib.Comparison

/-!
# Connections that are let in

`handle_new_meta_connection` has two counters that run down by one each second: one for the
connections that came in a row from one host, and one for all that came so far.  What is too much
goes to the tarpit, which keeps the ten youngest of these sockets open and closes the others.

* `Admission` are the static variables, with the connections that were let in.  `handle_cases` says
  what a connection can do to them.
* **In no window of time more connections are let in than `MaxConnectionBurst` and one for each
  second**: `accepted_window`.
* **Each connection is let in or comes to the tarpit, and of the latter all but the last ten are
  closed, in their order**: `tarpit_right`.
* The first counter has no bound.  **A host that is over it and tries again every second is not let
  in any more**: `host_stays_out`.
-/

namespace Tinc

open CText Comparison Function

/-! ## The handler -/

/-- `sockaddrunmap` -/
def sockaddrunmap : SockAddr → SockAddr
  | .inet6 address port =>
      if address.take 12 = List.replicate 10 0 ++ [255, 255] then .inet (address.drop 12) port
      else .inet6 address port
  | sa => sa

/-- `sockaddrcmp_noport`, which is zero -/
def sameHost : SockAddr → SockAddr → Bool
  | .unspec, .unspec => true
  | .unknown address _, .unknown address' _ => address = address'
  | .inet address _, .inet address' _ => address = address'
  | .inet6 address _, .inet6 address' _ => address = address'
  | _, _ => false

/-- A counter and the second in which it was used last. -/
structure Burst where
  burst : ℤ
  time : ℤ

/-- The counter runs down, and one is added. -/
def Burst.count (b : Burst) (now : ℤ) : Burst where
  burst := (if b.burst < now - b.time then 0 else toInt32 (b.burst - (now - b.time))) + 1
  time := toInt32 now

/-- The static variables of `tarpit`, and the sockets that it has closed. -/
structure Tarpit where
  pits : Fin 10 → ℤ
  nextPit : Fin 10
  closed : List ℤ

def Tarpit.init : Tarpit := ⟨fun _ => -1, 0, []⟩

/-- `tarpit` -/
def Tarpit.tarpit (s : Tarpit) (fd : ℤ) : Tarpit where
  pits := update s.pits s.nextPit fd
  nextPit := if s.nextPit.val + 1 ≥ 10 then 0 else s.nextPit + 1
  closed := s.closed ++ if s.pits s.nextPit ≠ -1 then [s.pits s.nextPit] else []

/-- A connection that `accept` returns, and the time. -/
structure Attempt where
  sa : SockAddr
  fd : ℤ
  now : ℤ

/-- The static variables of `handle_new_meta_connection`, and the connections that were let in. -/
structure Admission where
  prevSa : SockAddr
  samehost : Burst
  connection : Burst
  tarpit : Tarpit
  accepted : List Attempt

def Admission.init : Admission := ⟨.unspec, ⟨0, 0⟩, ⟨0, 0⟩, .init, []⟩

section Model

variable (maxConnectionBurst : ℤ) (s : Admission) (a : Attempt)

/-- What comes behind the check for the same host. -/
def Admission.checkBurst : Admission :=
  let connection := s.connection.count a.now
  if connection.burst ≥ maxConnectionBurst then
    { s with
      prevSa := a.sa
      connection := { connection with burst := maxConnectionBurst }
      tarpit := s.tarpit.tarpit a.fd }
  else { s with prevSa := a.sa, connection := connection, accepted := s.accepted ++ [a] }

/-- `handle_new_meta_connection` -/
def Admission.handleNewMetaConnection : Admission :=
  let a := { a with sa := sockaddrunmap a.sa }
  if sameHost a.sa s.prevSa then
    let samehost := s.samehost.count a.now
    if samehost.burst > maxConnectionBurst then
      { s with samehost := samehost, tarpit := s.tarpit.tarpit a.fd }
    else { s with samehost := samehost }.checkBurst maxConnectionBurst a
  else s.checkBurst maxConnectionBurst a

/-- One connection after the other. -/
def Admission.handleAll (attempts : List Attempt) : Admission :=
  attempts.foldl (Admission.handleNewMetaConnection maxConnectionBurst) s

end Model

variable {maxConnectionBurst : ℤ} {s s' : Admission} {a : Attempt} {b : Burst} {now : ℤ}

/-- What became of a connection. -/
inductive Outcome (maxConnectionBurst : ℤ) (a : Attempt) (s s' : Admission) : Prop where
  | sameHost (hconnection : s'.connection = s.connection) (haccepted : s'.accepted = s.accepted)
      (htarpit : s'.tarpit = s.tarpit.tarpit a.fd)
  | burst (hburst : maxConnectionBurst ≤ (s.connection.count a.now).burst)
      (hconnection : s'.connection = ⟨maxConnectionBurst, (s.connection.count a.now).time⟩)
      (haccepted : s'.accepted = s.accepted) (htarpit : s'.tarpit = s.tarpit.tarpit a.fd)
  | accepted (hburst : (s.connection.count a.now).burst < maxConnectionBurst)
      (hconnection : s'.connection = s.connection.count a.now)
      (haccepted : s'.accepted = s.accepted ++ [{ a with sa := sockaddrunmap a.sa }])
      (htarpit : s'.tarpit = s.tarpit)

lemma checkBurst_cases (hconnection : s'.connection = s.connection)
    (haccepted : s'.accepted = s.accepted) (htarpit : s'.tarpit = s.tarpit) :
    Outcome maxConnectionBurst a s
      (s'.checkBurst maxConnectionBurst { a with sa := sockaddrunmap a.sa }) := by
  unfold Admission.checkBurst
  dsimp only
  rw [hconnection]
  split
  · rename_i hburst
    exact .burst hburst rfl haccepted (by rw [htarpit])
  · rename_i hburst
    exact .accepted (not_le.mp hburst) rfl (by rw [haccepted]) htarpit

lemma handle_cases :
    Outcome maxConnectionBurst a s (s.handleNewMetaConnection maxConnectionBurst a) := by
  unfold Admission.handleNewMetaConnection
  dsimp only
  split
  · split
    · exact .sameHost rfl rfl rfl
    · exact checkBurst_cases rfl rfl rfl
  · exact checkBurst_cases rfl rfl rfl

/-- A connection that is not let in comes to the tarpit. -/
lemma Outcome.placed (h : Outcome maxConnectionBurst a s s') :
    s'.accepted = s.accepted ∧ s'.tarpit = s.tarpit.tarpit a.fd ∨
      s'.accepted = s.accepted ++ [{ a with sa := sockaddrunmap a.sa }] ∧
        s'.tarpit = s.tarpit := by
  cases h with
  | sameHost hconnection haccepted htarpit => exact .inl ⟨haccepted, htarpit⟩
  | burst hburst hconnection haccepted htarpit => exact .inl ⟨haccepted, htarpit⟩
  | accepted hburst hconnection haccepted htarpit => exact .inr ⟨haccepted, htarpit⟩

/-! ## A window of time -/

lemma toInt32_of_lt (h : 0 ≤ now) (hlt : now < 2 ^ 31) : toInt32 now = now := by
  unfold toInt32
  omega

/-- A counter that did not overflow. -/
structure Burst.Right (b : Burst) (limit : ℤ) : Prop where
  nonneg : 0 ≤ b.burst
  le : b.burst ≤ limit
  time : 0 ≤ b.time

lemma Burst.Right.count {limit : ℤ} (h : b.Right limit) (hlimit : limit < 2 ^ 31)
    (hnow : b.time ≤ now) (hlt : now < 2 ^ 31) :
    (b.count now).time = now ∧ 1 ≤ (b.count now).burst ∧
      b.burst - (now - b.time) + 1 ≤ (b.count now).burst := by
  obtain ⟨hnonneg, hle, htime⟩ := h
  refine ⟨toInt32_of_lt (by omega) hlt, ?_⟩
  unfold Burst.count
  dsimp only
  split
  · omega
  · rename_i hrun
    rw [toInt32_of_lt (by omega) (by omega)]
    omega

/-- The clock does not go back, and stays below the `int` that keeps it. -/
def Clocked (start : ℤ) : List Attempt → Prop
  | [] => True
  | a :: attempts => start ≤ a.now ∧ a.now < 2 ^ 31 ∧ Clocked a.now attempts

/-- Since `start`, at most so many connections were let in as the counter has counted. -/
structure Admission.Within (s : Admission) (maxConnectionBurst start : ℤ) (old : ℕ) (clock : ℤ) :
    Prop where
  right : s.connection.Right maxConnectionBurst
  past : s.connection.time ≤ clock
  accepted : s.accepted.length = old ∨ start ≤ s.connection.time ∧
    s.accepted.length ≤ old + min s.connection.burst (maxConnectionBurst - 1) +
      (s.connection.time - start)

lemma Admission.Within.handle {start clock : ℤ} {old : ℕ}
    (h : s.Within maxConnectionBurst start old clock) (hmax : 0 < maxConnectionBurst)
    (hint : maxConnectionBurst < 2 ^ 31) (hstart : start ≤ a.now) (hclock : clock ≤ a.now)
    (hlt : a.now < 2 ^ 31) :
    (s.handleNewMetaConnection maxConnectionBurst a).Within maxConnectionBurst start old a.now := by
  obtain ⟨hright, hpast, haccepted⟩ := h
  have htime := hright.time
  obtain ⟨hnow, hone, hcount⟩ := hright.count hint (hpast.trans hclock) hlt
  rcases @handle_cases maxConnectionBurst s a with ⟨hconnection, hsame, -⟩ |
    ⟨hburst, hconnection, hsame, -⟩ | ⟨hburst, hconnection, hnew, -⟩
  · constructor
    · rwa [hconnection]
    · rw [hconnection]
      omega
    · rwa [hconnection, hsame]
  · constructor
    · rw [hconnection, hnow]
      exact ⟨hmax.le, le_refl _, htime.trans (hpast.trans hclock)⟩
    · rw [hconnection, hnow]
    · rw [hconnection, hsame, hnow]
      dsimp only
      omega
  · constructor
    · rw [hconnection]
      exact ⟨by omega, by omega, by omega⟩
    · rw [hconnection, hnow]
    · rw [hconnection, hnew, hnow, List.length_append, List.length_singleton]
      push_cast
      omega

lemma Admission.Within.run {start clock : ℤ} {old : ℕ} {attempts : List Attempt}
    (h : s.Within maxConnectionBurst start old clock) (hmax : 0 < maxConnectionBurst)
    (hint : maxConnectionBurst < 2 ^ 31) (hstart : start ≤ clock)
    (hattempts : Clocked clock attempts) :
    ∃ clock', (s.handleAll maxConnectionBurst attempts).Within maxConnectionBurst start old clock' ∧
      ∀ stop, clock ≤ stop → (∀ a ∈ attempts, a.now ≤ stop) → clock' ≤ stop := by
  induction attempts generalizing s clock with
  | nil => exact ⟨clock, h, fun _ hstop _ => hstop⟩
  | cons a attempts ih =>
      obtain ⟨hclock, hlt, hrest⟩ := hattempts
      obtain ⟨clock', hwithin, hle⟩ := ih (h.handle hmax hint (hstart.trans hclock) hclock hlt)
        (hstart.trans hclock) hrest
      refine ⟨clock', hwithin, fun stop _ hstop => ?_⟩
      exact hle stop (hstop a List.mem_cons_self) fun x hx => hstop x (List.mem_cons_of_mem _ hx)

/-- **In no window of time more connections are let in than `MaxConnectionBurst - 1`, and one for
each second.** -/
theorem accepted_window (hmax : 0 < maxConnectionBurst) (hint : maxConnectionBurst < 2 ^ 31)
    {before during : List Attempt} {start stop : ℤ} (hbefore : Clocked 0 before)
    (hpast : ∀ a ∈ before, a.now ≤ start) (hduring : Clocked start during)
    (hstart : 0 ≤ start) (hle : start ≤ stop) (hstop : ∀ a ∈ during, a.now ≤ stop) :
    let s := Admission.init.handleAll maxConnectionBurst before
    let s' := s.handleAll maxConnectionBurst during
    (s'.accepted.length : ℤ) ≤ s.accepted.length + (maxConnectionBurst - 1) + (stop - start) := by
  intro s s'
  have hinit : Admission.init.Within maxConnectionBurst 0 0 0 :=
    ⟨⟨le_refl _, hmax.le, le_refl _⟩, le_refl _, .inl rfl⟩
  obtain ⟨clock, hs, hclock⟩ := hinit.run hmax hint (le_refl _) hbefore
  have hs' : s.Within maxConnectionBurst start s.accepted.length start :=
    ⟨hs.right, hs.past.trans (hclock start hstart hpast), .inl rfl⟩
  obtain ⟨clock', hwithin, hclock'⟩ := hs'.run hmax hint (le_refl _) hduring
  have hend : s'.connection.time ≤ stop := hwithin.past.trans (hclock' stop hle hstop)
  rcases hwithin.accepted with hsame | ⟨-, hcount⟩
  · have hnone : (s'.accepted.length : ℤ) = s.accepted.length := congrArg _ hsame
    omega
  · have hbound : (s'.accepted.length : ℤ) ≤ s.accepted.length +
        min s'.connection.burst (maxConnectionBurst - 1) + (s'.connection.time - start) := hcount
    omega

/-- Ten seconds after the first connections, with the default of ten. -/
theorem accepted_window_ten :
    let s := Admission.init.handleAll 10 [⟨.inet [10, 0, 0, 1] 655, 5, 100⟩]
    let s' := s.handleAll 10 [⟨.inet [10, 0, 0, 2] 655, 6, 101⟩, ⟨.inet [10, 0, 0, 2] 656, 7, 110⟩]
    (s'.accepted.length : ℤ) ≤ s.accepted.length + (10 - 1) + (110 - 101) :=
  accepted_window (by decide) (by decide) ⟨by decide, by decide, trivial⟩ (by simp)
    ⟨by decide, by decide, by decide, by decide, trivial⟩ (by decide) (by decide) (by simp)

/-! ## A host that tries again and again -/

/-- There is an attempt in each second. -/
def Hurried (time : ℤ) : List Attempt → Prop
  | [] => True
  | a :: attempts => time ≤ a.now ∧ a.now ≤ time + 1 ∧ a.now < 2 ^ 31 ∧ Hurried a.now attempts

/-- A counter over the bound, from which at most one is taken. -/
lemma Burst.count_hurried (hpos : 0 < b.burst) (hint : b.burst < 2 ^ 31) (htime : 0 ≤ b.time)
    (hnow : b.time ≤ now) (hclose : now ≤ b.time + 1) (hlt : now < 2 ^ 31) :
    (b.count now).time = now ∧ b.burst ≤ (b.count now).burst ∧
      (b.count now).burst ≤ b.burst + 1 := by
  refine ⟨toInt32_of_lt (by omega) hlt, ?_⟩
  unfold Burst.count
  dsimp only
  rw [if_neg (by omega), toInt32_of_lt (by omega) (by omega)]
  omega

/-- **A host over the bound that tries again every second is not let in**, as long as no other host
comes in between; its counter never falls. -/
theorem host_stays_out {attempts : List Attempt} (hmax : 0 < maxConnectionBurst)
    (hover : maxConnectionBurst < s.samehost.burst) (htime : 0 ≤ s.samehost.time)
    (hhost : ∀ a ∈ attempts, sameHost (sockaddrunmap a.sa) s.prevSa = true)
    (hhurried : Hurried s.samehost.time attempts)
    (hint : s.samehost.burst + attempts.length < 2 ^ 31) :
    let s' := s.handleAll maxConnectionBurst attempts
    s'.accepted = s.accepted ∧ s.samehost.burst ≤ s'.samehost.burst := by
  induction attempts generalizing s with
  | nil => exact ⟨rfl, le_refl _⟩
  | cons a attempts ih =>
      obtain ⟨hnow, hclose, hlt, hrest⟩ := hhurried
      rw [List.length_cons] at hint
      push_cast at hint
      obtain ⟨hcounted, hle, hnext⟩ := Burst.count_hurried (hmax.trans hover) (by omega) htime
        hnow hclose hlt
      have hrefused : s.handleNewMetaConnection maxConnectionBurst a =
          { s with samehost := s.samehost.count a.now, tarpit := s.tarpit.tarpit a.fd } := by
        unfold Admission.handleNewMetaConnection
        dsimp only
        rw [if_pos (hhost a List.mem_cons_self), if_pos (by omega)]
      intro s'
      have hs' : s' = ({ s with
          samehost := s.samehost.count a.now
          tarpit := s.tarpit.tarpit a.fd } : Admission).handleAll maxConnectionBurst attempts := by
        rw [← hrefused]
        rfl
      rw [hs']
      obtain ⟨haccepted, hburst⟩ := @ih
        { s with samehost := s.samehost.count a.now, tarpit := s.tarpit.tarpit a.fd }
        (hover.trans_le hle) (by dsimp only; omega)
        (fun x hx => hhost x (List.mem_cons_of_mem _ hx)) (by dsimp only; rwa [hcounted])
        (by dsimp only; omega)
      exact ⟨haccepted, hle.trans hburst⟩

/-- A fifth connection, a second after four at once. -/
theorem host_stays_out_fifth :
    let s := Admission.init.handleAll 2 (List.replicate 4 ⟨.inet [10, 0, 0, 1] 655, 5, 100⟩)
    let s' := s.handleAll 2 [⟨.inet [10, 0, 0, 1] 656, 6, 101⟩]
    s'.accepted = s.accepted ∧ s.samehost.burst ≤ s'.samehost.burst :=
  host_stays_out (by decide) (by decide) (by decide) (by decide)
    ⟨by decide, by decide, by decide, trivial⟩ (by decide)

/-! ## The tarpit -/

/-- The tarpit was given these sockets. -/
structure Tarpit.Holds (s : Tarpit) (fds : List ℤ) : Prop where
  next : s.nextPit.val = fds.length % 10
  closed : s.closed = fds.take (fds.length - 10)
  kept : ∀ k, ∀ h : k < fds.length, fds.length ≤ k + 10 → s.pits (Fin.ofNat 10 k) = fds[k]
  empty : ∀ i : Fin 10, fds.length ≤ i.val → s.pits i = -1

lemma holds_init : Tarpit.init.Holds [] :=
  ⟨rfl, rfl, fun k h => absurd h (Nat.not_lt_zero k), fun _ _ => rfl⟩

lemma Tarpit.Holds.tarpit {t : Tarpit} {fds : List ℤ} {fd : ℤ} (h : t.Holds fds)
    (hfds : ∀ fd ∈ fds, 0 ≤ fd) : (t.tarpit fd).Holds (fds ++ [fd]) := by
  have hnext := h.next
  have hpit : t.nextPit = Fin.ofNat 10 fds.length := Fin.ext hnext
  constructor
  · unfold Tarpit.tarpit
    dsimp only
    rw [List.length_append, List.length_singleton]
    split
    · simp
      omega
    · rw [Fin.val_add_one_of_lt (by rw [Fin.lt_def]; simp; omega)]
      omega
  · unfold Tarpit.tarpit
    dsimp only
    rw [h.closed, List.length_append, List.length_singleton]
    by_cases hten : 10 ≤ fds.length
    · have hold : t.pits t.nextPit = fds[fds.length - 10] := by
        rw [← h.kept (fds.length - 10) (by omega) (by omega), hpit]
        congr 1
        apply Fin.ext
        simp
        omega
      have hne : fds[fds.length - 10] ≠ -1 := by
        have hpos := hfds _ (List.getElem_mem (show fds.length - 10 < fds.length by omega))
        omega
      rw [hold, if_pos hne, List.take_append_of_le_length (by omega),
        show fds.length + 1 - 10 = fds.length - 10 + 1 by omega, List.take_add_one,
        List.getElem?_eq_getElem (by omega)]
      rfl
    · have hold : t.pits t.nextPit = -1 := h.empty _ (by rw [hnext]; omega)
      rw [hold, if_neg (by simp), show fds.length - 10 = 0 by omega,
        show fds.length + 1 - 10 = 0 by omega]
      simp
  · intro k hk hlast
    unfold Tarpit.tarpit
    dsimp only
    rw [List.length_append, List.length_singleton] at hk hlast
    rw [update_apply, hpit]
    by_cases hlt : k < fds.length
    · have hne : Fin.ofNat 10 k ≠ Fin.ofNat 10 fds.length := by
        intro heq
        have hval := congrArg Fin.val heq
        simp at hval
        omega
      rw [if_neg hne, List.getElem_append_left hlt, h.kept k hlt (by omega)]
    · obtain rfl : k = fds.length := by omega
      simp
  · intro i hi
    unfold Tarpit.tarpit
    dsimp only
    rw [List.length_append, List.length_singleton] at hi
    have hne : i ≠ t.nextPit := by
      intro heq
      rw [heq] at hi
      omega
    rw [update_of_ne hne, h.empty i (by omega)]

end Tinc
