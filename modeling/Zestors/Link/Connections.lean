import Mathlib.Data.String.Basic
import Mathlib.Logic.Function.Basic
import Zestors.Lib.Lts
import Zestors.Messaging.Pending

/-!
# The connection between two nodes

Two nodes dial each other, exchange hellos and register what comes out of it; a connection may be
closed at either end at any time, and the other end notices later. In the quiescent states both nodes
have registered the same connection, or neither has a live one (`Agree`), in the runs in which
`Inner::unregister` is only called for connections that are closed and `Inner::register` replaces no
live connection by a closed one (`agree_of_keepsLive`). A lane unregisters the connection when a write
fails, also when the connection is open.
-/

namespace Zestors

/-- The two nodes. -/
inductive Side
  | left
  | right
deriving DecidableEq

def Side.other : Side → Side
  | left => right
  | right => left

/-- Where one end of a connection is. The dialer connects, sends its hello and waits for the other
one; the acceptor waits for a hello and replies to it. Then both register the connection. -/
inductive EndStage
  | connecting
  | hello
  | replied
  | finished
deriving DecidableEq

/-- A connection, with the stage of each end and whether that end is closed (`is_closed`). -/
structure Connection where
  dialer : Side
  stage : Side → EndStage
  closed : Side → Bool

/-- Closed at one end at least. -/
def Connection.dead (conn : Connection) : Bool := conn.closed .left || conn.closed .right

def Connection.close (conn : Connection) (x : Side) : Connection :=
  { conn with closed := Function.update conn.closed x true }

def Connection.setStage (conn : Connection) (x : Side) (stage : EndStage) : Connection :=
  { conn with stage := Function.update conn.stage x stage }

/-- The one connection that a node keeps to its peer. -/
structure Registered where
  conn : ℕ
  generation : ℕ
  dialer : NodeName

/-- Whether `register` at `name` prefers a new connection to `peer` to the live one that is registered. -/
def Registered.keepNew (existing : Registered) (name peer : NodeName) (generation : ℕ) (dialer : NodeName) :
    Bool :=
  match compare generation existing.generation with
  | .gt => true
  | .lt => false
  | .eq =>
    if dialer = existing.dialer then true
    -- Both sides dialed at once: keep the one dialed by the smaller name.
    else
      let smaller := if name ≤ peer then name else peer
      dialer = smaller

/-- The two nodes and all connections there ever were between them. `replacedLive` says whether some
call of `register` replaced a live connection by a closed one. -/
structure Connections where
  name : Side → NodeName
  generation : Side → ℕ
  conns : List Connection
  registered : Side → Option Registered
  replacedLive : Bool

namespace Connections

/-- Two nodes that have not heard of each other. -/
def new (name : Side → NodeName) (generation : Side → ℕ) : Connections :=
  ⟨name, generation, [], fun _ => none, false⟩

inductive Event
  | dial (x : Side)
  | connect (c : ℕ)
  | connectFailed (c : ℕ)
  /-- The acceptor reads the hello and replies with its own. -/
  | acceptHello (c : ℕ)
  | registerAccepted (c : ℕ)
  | registerDialed (c : ℕ)
  /-- The handshake fails at `x`, which drops its end. -/
  | abandon (x : Side) (c : ℕ)
  | close (x : Side) (c : ℕ)
  /-- The end at `x` learns that the other one is closed. -/
  | notice (x : Side) (c : ℕ)
  /-- The receiving task at `x` finds the connection closed. -/
  | received (x : Side) (c : ℕ)
  /-- A lane at `x` fails to write to a stream on the connection. -/
  | writeFailed (x : Side) (c : ℕ)

variable {s s' : Connections} {e : Event} {x : Side} {c : ℕ} {conn : Connection}

/-- `Conn::is_closed` at `x`. -/
def isClosed (s : Connections) (x : Side) (c : ℕ) : Bool :=
  (s.conns[c]?).all fun conn => conn.closed x

/-- `Inner::live`. -/
def live (s : Connections) (x : Side) : Option ℕ :=
  ((s.registered x).map Registered.conn).filter fun c => !s.isClosed x c

/-- Some dial of `x` is under way, and so the lock of `connection` is held. -/
def dialing (s : Connections) (x : Side) : Bool :=
  s.conns.any fun conn => conn.dialer = x && conn.stage x ≠ .finished

def closeEnd (s : Connections) (x : Side) (c : ℕ) : Connections :=
  { s with conns := s.conns.modify c (·.close x) }

def setStage (s : Connections) (x : Side) (c : ℕ) (stage : EndStage) : Connections :=
  { s with conns := s.conns.modify c (·.setStage x stage) }

def setRegistered (s : Connections) (x : Side) (registered : Option Registered) : Connections :=
  { s with registered := Function.update s.registered x registered }

/-- `Inner::register` at `x`, and whether the connection was kept. -/
def register (s : Connections) (x : Side) (c generation : ℕ) (dialer : NodeName) :
    Connections × Bool :=
  let registered : Registered := ⟨c, generation, dialer⟩
  match s.registered x with
  | none => (s.setRegistered x (some registered), true)
  | some existing =>
    if s.isClosed x existing.conn then (s.setRegistered x (some registered), true)
    else if existing.keepNew (s.name x) (s.name x.other) generation dialer then
      ({ (s.closeEnd x existing.conn).setRegistered x (some registered) with
          replacedLive := s.replacedLive || s.isClosed x c }, true)
    else (s, false)

/-- `Inner::unregister` at `x`. -/
def unregister (s : Connections) (x : Side) (c : ℕ) : Connections :=
  if (s.registered x).map Registered.conn = some c then s.setRegistered x none else s

/-- The end of `connection` and of `accept`: a connection that is not kept is closed. -/
def registerEnd (s : Connections) (x : Side) (c : ℕ) (dialer : Side) : Connections :=
  let registered := s.register x c (s.generation x.other) (s.name dialer)
  if registered.2 then registered.1.setStage x c .finished
  else (registered.1.closeEnd x c).setStage x c .finished

def step (s : Connections) : Event → Option Connections
  | .dial x =>
    if s.dialing x || (s.live x).isSome then none
    else some { s with conns := s.conns ++ [⟨x, fun _ => .connecting, fun _ => false⟩] }
  | .connect c => do
    let conn ← s.conns[c]?
    if conn.stage conn.dialer = .connecting ∧ conn.stage conn.dialer.other = .connecting then
      some ((s.setStage .left c .hello).setStage .right c .hello)
    else none
  | .connectFailed c => do
    let conn ← s.conns[c]?
    if conn.stage conn.dialer = .connecting then
      let closed := (s.closeEnd .left c).closeEnd .right c
      some ((closed.setStage .left c .finished).setStage .right c .finished)
    else none
  | .acceptHello c => do
    let conn ← s.conns[c]?
    if conn.stage conn.dialer.other = .hello then some (s.setStage conn.dialer.other c .replied)
    else none
  | .registerAccepted c => do
    let conn ← s.conns[c]?
    if conn.stage conn.dialer.other = .replied then
      some (s.registerEnd conn.dialer.other c conn.dialer)
    else none
  | .registerDialed c => do
    let conn ← s.conns[c]?
    -- the other hello has arrived, whether or not the acceptor has registered the connection
    if conn.stage conn.dialer = .hello ∧ conn.stage conn.dialer.other ≠ .hello then
      some (s.registerEnd conn.dialer c conn.dialer)
    else none
  | .abandon x c => do
    let conn ← s.conns[c]?
    if conn.stage x = .hello ∨ conn.stage x = .replied then
      some ((s.closeEnd x c).setStage x c .finished)
    else none
  | .close x c => some (s.closeEnd x c)
  | .notice x c => if s.isClosed x.other c then some (s.closeEnd x c) else none
  | .received x c => if s.isClosed x c then some (s.unregister x c) else none
  | .writeFailed x c => some (s.unregister x c)

/-- Every interleaving of dials, accepts, hellos, registrations, closings and failed writes. -/
def runs : Lts Connections Event :=
  Lts.ofFun (fun s => ∃ name generation, s = new name generation) step

/-- No dial, no accept and no close notification is in progress. -/
def Quiescent (s : Connections) : Prop :=
  ∀ conn ∈ s.conns, conn.stage .left = .finished ∧ conn.stage .right = .finished ∧
    conn.closed .left = conn.closed .right

/-- When nothing is in progress, the nodes have registered the two ends of one connection, or neither
has a live one; and `register` has replaced no live connection by a closed one. -/
def Agree (s : Connections) : Prop :=
  (s.Quiescent →
    (∃ c ∈ (s.registered .left).map Registered.conn,
      (s.registered .right).map Registered.conn = some c) ∨
    s.live .left = none ∧ s.live .right = none) ∧
  s.replacedLive = false

instance (s : Connections) : Decidable s.Quiescent := by unfold Quiescent; infer_instance

instance (s : Connections) : Decidable s.Agree := by unfold Agree; infer_instance

/-- If the connection `c`, from `dialer`, is closed at `x` already, then no live connection would make
room for it. -/
def ReplacesNoLive (s : Connections) (x : Side) (c : ℕ) (dialer : Side) : Prop :=
  s.isClosed x c = true → ∀ existing ∈ s.registered x, s.isClosed x existing.conn = false →
    existing.keepNew (s.name x) (s.name x.other) (s.generation x.other) (s.name dialer) = false

instance (s : Connections) (x : Side) (c : ℕ) (dialer : Side) :
    Decidable (s.ReplacesNoLive x c dialer) := by
  unfold ReplacesNoLive; infer_instance

/-- A failed write unregisters no connection that is open at both ends, and no connection is closed
before it is registered in place of a live one. -/
def KeepsLive (s : Connections) : Event → Prop
  | .writeFailed x c =>
    (s.registered x).map Registered.conn = some c → ∀ conn ∈ s.conns[c]?, conn.dead = true
  | .registerAccepted c => ∀ conn ∈ s.conns[c]?, s.ReplacesNoLive conn.dialer.other c conn.dialer
  | .registerDialed c => ∀ conn ∈ s.conns[c]?, s.ReplacesNoLive conn.dialer c conn.dialer
  | _ => True

instance (s : Connections) (e : Event) : Decidable (s.KeepsLive e) := by
  cases e <;> unfold KeepsLive <;> infer_instance

/-- An end that is done with its handshake is registered, or the connection is closed. -/
structure Standing (s : Connections) : Prop where
  finished : ∀ c conn, s.conns[c]? = some conn → ∀ x, conn.stage x = .finished →
    (s.registered x).map Registered.conn = some c ∨ conn.dead = true
  replaced : s.replacedLive = false

theorem dead_of_closed (x : Side) (h : conn.closed x = true) : conn.dead = true := by
  cases x <;> simp [Connection.dead, h]

theorem dead_close (x : Side) : (conn.close x).dead = true :=
  dead_of_closed x (Function.update_self _ _ _)

@[simp] theorem dead_setStage (x : Side) (stage : EndStage) :
    (conn.setStage x stage).dead = conn.dead := rfl

theorem getElem?_closeEnd (s : Connections) (x : Side) (c k : ℕ) :
    (s.closeEnd x c).conns[k]? = (s.conns[k]?).map fun conn => if c = k then conn.close x else conn :=
  List.getElem?_modify _ _ _ _

theorem getElem?_setStage (s : Connections) (x : Side) (c k : ℕ) (stage : EndStage) :
    (s.setStage x c stage).conns[k]? =
      (s.conns[k]?).map fun conn => if c = k then conn.setStage x stage else conn :=
  List.getElem?_modify _ _ _ _

theorem Standing.registered_of_live (h : s.Standing) (hq : s.Quiescent) (hlive : s.live x = some c)
    (y : Side) : (s.registered y).map Registered.conn = some c ∧ s.isClosed y c = false := by
  obtain ⟨-, hopen⟩ := Option.filter_eq_some_iff.1 hlive
  have hopen : s.isClosed x c = false := by simpa using hopen
  unfold isClosed at hopen
  cases hc : s.conns[c]? with
  | none => rw [hc] at hopen; cases hopen
  | some conn =>
    rw [hc] at hopen
    have hopen : conn.closed x = false := hopen
    obtain ⟨hleft, hright, heq⟩ := hq conn (List.mem_of_getElem? hc)
    have hboth : conn.closed .left = false ∧ conn.closed .right = false := by
      cases x
      · exact ⟨hopen, heq ▸ hopen⟩
      · exact ⟨heq.trans hopen, hopen⟩
    refine ⟨(h.finished c conn hc y (by cases y <;> assumption)).resolve_right ?_, ?_⟩
    · simp [Connection.dead, hboth.1, hboth.2]
    · unfold isClosed; rw [hc]; cases y
      · exact hboth.1
      · exact hboth.2

theorem Standing.agree (h : s.Standing) : s.Agree := by
  refine ⟨fun hq => ?_, h.replaced⟩
  cases hleft : s.live .left with
  | some c =>
    exact .inl ⟨c, (h.registered_of_live hq hleft .left).1, (h.registered_of_live hq hleft .right).1⟩
  | none =>
    cases hright : s.live .right with
    | none => exact .inr ⟨rfl, rfl⟩
    | some c =>
      obtain ⟨hreg, hopen⟩ := h.registered_of_live hq hright .left
      have hlive : s.live .left = some c := by unfold live; rw [hreg]; simp [hopen]
      rw [hlive] at hleft; cases hleft

theorem standing_new (name : Side → NodeName) (generation : Side → ℕ) :
    (new name generation).Standing := ⟨nofun, rfl⟩

theorem Standing.closeEnd (h : s.Standing) (x : Side) (c : ℕ) : (s.closeEnd x c).Standing := by
  refine ⟨fun k conn' hk y hy => ?_, h.replaced⟩
  rw [getElem?_closeEnd] at hk
  obtain ⟨conn, hconn, rfl⟩ := Option.map_eq_some_iff.1 hk
  split
  · exact .inr (dead_close x)
  · rw [if_neg ‹_›] at hy
    exact h.finished k conn hconn y hy

theorem Standing.setStage (h : s.Standing) {stage : EndStage}
    (hok : stage = .finished → (s.registered x).map Registered.conn = some c ∨
      ∀ conn, s.conns[c]? = some conn → conn.dead = true) : (s.setStage x c stage).Standing := by
  refine ⟨fun k conn' hk y hy => ?_, h.replaced⟩
  rw [getElem?_setStage] at hk
  obtain ⟨conn, hconn, rfl⟩ := Option.map_eq_some_iff.1 hk
  split at hy
  · rename_i hck
    subst hck
    rw [if_pos rfl, dead_setStage]
    by_cases hyx : y = x
    · subst hyx
      have hstage : stage = .finished := (Function.update_self _ _ _).symm.trans hy
      exact (hok hstage).imp id fun hdead => hdead conn hconn
    · have hy : conn.stage y = .finished := (Function.update_of_ne hyx _ _).symm.trans hy
      exact h.finished c conn hconn y hy
  · rw [if_neg ‹_›]
    exact h.finished k conn hconn y hy

theorem Standing.setRegistered (h : s.Standing) (registered : Option Registered)
    (hdead : ∀ existing, s.registered x = some existing →
      ∀ conn, s.conns[existing.conn]? = some conn → conn.dead = true) :
    (s.setRegistered x registered).Standing := by
  refine ⟨fun k conn hk y hy => ?_, h.replaced⟩
  by_cases hyx : y = x
  · subst hyx
    rcases h.finished k conn hk y hy with hreg | hdead'
    · obtain ⟨existing, hexisting, rfl⟩ := Option.map_eq_some_iff.1 hreg
      exact .inr (hdead existing hexisting conn hk)
    · exact .inr hdead'
  · rw [show (s.setRegistered x registered).registered y = s.registered y from
      Function.update_of_ne hyx _ _]
    exact h.finished k conn hk y hy

theorem dead_of_isClosed (h : s.isClosed x c = true) (hc : s.conns[c]? = some conn) :
    conn.dead = true := by
  unfold isClosed at h
  rw [hc] at h
  exact dead_of_closed x h

theorem Standing.unregister (h : s.Standing)
    (hdead : (s.registered x).map Registered.conn = some c →
      ∀ conn, s.conns[c]? = some conn → conn.dead = true) : (s.unregister x c).Standing := by
  unfold Connections.unregister
  split
  · rename_i hreg
    refine h.setRegistered none fun existing hexisting => ?_
    rw [hexisting] at hreg
    cases hreg
    exact hdead (by rw [hexisting]; rfl)
  · exact h

theorem Standing.register (h : s.Standing) {dialer : Side} (hok : s.ReplacesNoLive x c dialer) :
    (s.register x c (s.generation x.other) (s.name dialer)).1.Standing ∧
      ((s.register x c (s.generation x.other) (s.name dialer)).2 = true →
        ((s.register x c (s.generation x.other) (s.name dialer)).1.registered x).map Registered.conn =
          some c) := by
  have hself : ∀ (s : Connections) (r : Registered), r.conn = c →
      ((s.setRegistered x (some r)).registered x).map Registered.conn = some c := by
    intro s r hr
    rw [show (s.setRegistered x (some r)).registered x = some r from Function.update_self _ _ _,
      Option.map_some, hr]
  unfold Connections.register
  cases hexisting : s.registered x with
  | none => exact ⟨h.setRegistered _ (by simp [hexisting]), fun _ => hself _ _ rfl⟩
  | some existing =>
    dsimp only
    split
    · rename_i hclosed
      refine ⟨h.setRegistered _ fun e he conn hconn => ?_, fun _ => hself _ _ rfl⟩
      rw [hexisting] at he; cases he
      exact dead_of_isClosed hclosed hconn
    split
    · rename_i hopen hkeep
      have hnew : s.isClosed x c = false := by
        by_contra hclosed
        have := hok (by simpa using hclosed) existing hexisting (by simpa using hopen)
        rw [hkeep] at this; cases this
      have hset := (h.closeEnd x existing.conn).setRegistered (x := x)
        (some ⟨c, s.generation x.other, s.name dialer⟩) fun e he conn hconn => by
          have he : s.registered x = some e := he
          rw [hexisting] at he; cases he
          rw [getElem?_closeEnd] at hconn
          obtain ⟨conn, -, rfl⟩ := Option.map_eq_some_iff.1 hconn
          rw [if_pos rfl]
          exact dead_close x
      refine ⟨⟨hset.finished, ?_⟩, fun _ => hself _ _ rfl⟩
      show (s.replacedLive || s.isClosed x c) = false
      rw [h.replaced, hnew]; rfl
    · exact ⟨h, nofun⟩

theorem Standing.registerEnd (h : s.Standing) {dialer : Side} (hok : s.ReplacesNoLive x c dialer) :
    (s.registerEnd x c dialer).Standing := by
  obtain ⟨hstanding, hkept⟩ := h.register hok
  unfold Connections.registerEnd
  dsimp only
  split
  · exact hstanding.setStage fun _ => .inl (hkept ‹_›)
  · refine (hstanding.closeEnd x c).setStage fun _ => .inr fun conn hconn => ?_
    rw [getElem?_closeEnd] at hconn
    obtain ⟨conn, -, rfl⟩ := Option.map_eq_some_iff.1 hconn
    rw [if_pos rfl]
    exact dead_close x

theorem Standing.dial (h : s.Standing) (x : Side) :
    Standing { s with conns := s.conns ++ [⟨x, fun _ => .connecting, fun _ => false⟩] } := by
  refine ⟨fun k conn hk y hy => ?_, h.replaced⟩
  have hk : (s.conns ++ [⟨x, fun _ => .connecting, fun _ => false⟩])[k]? = some conn := hk
  rw [List.getElem?_append] at hk
  split at hk
  · exact h.finished k conn hk y hy
  · rw [List.mem_singleton.1 (List.mem_of_getElem? hk)] at hy
    cases hy

theorem dead_closeEnd (hc : (s.closeEnd x c).conns[c]? = some conn) : conn.dead = true := by
  rw [getElem?_closeEnd] at hc
  obtain ⟨conn, -, rfl⟩ := Option.map_eq_some_iff.1 hc
  rw [if_pos rfl]
  exact dead_close x

theorem Standing.step (h : s.Standing) (hok : s.KeepsLive e) (hs : s.step e = some s') :
    s'.Standing := by
  cases e with
  | dial x =>
    simp only [Connections.step] at hs
    split at hs
    · cases hs
    · cases hs; exact h.dial x
  | connect c =>
    obtain ⟨conn, -, hs⟩ := Option.bind_eq_some_iff.1 hs
    split at hs
    · cases hs; refine (h.setStage ?_).setStage ?_ <;> exact nofun
    · cases hs
  | connectFailed c =>
    obtain ⟨conn, -, hs⟩ := Option.bind_eq_some_iff.1 hs
    split at hs
    · cases hs
      refine (((h.closeEnd _ _).closeEnd _ _).setStage ?_).setStage ?_
      · exact fun _ => .inr fun conn hconn => dead_closeEnd hconn
      · refine fun _ => .inr fun conn hconn => ?_
        rw [getElem?_setStage] at hconn
        obtain ⟨conn, hc, rfl⟩ := Option.map_eq_some_iff.1 hconn
        rw [if_pos rfl, dead_setStage]
        exact dead_closeEnd hc
    · cases hs
  | acceptHello c =>
    obtain ⟨conn, -, hs⟩ := Option.bind_eq_some_iff.1 hs
    split at hs
    · cases hs; exact h.setStage nofun
    · cases hs
  | registerAccepted c =>
    obtain ⟨conn, hc, hs⟩ := Option.bind_eq_some_iff.1 hs
    split at hs
    · cases hs; exact h.registerEnd (hok conn hc)
    · cases hs
  | registerDialed c =>
    obtain ⟨conn, hc, hs⟩ := Option.bind_eq_some_iff.1 hs
    split at hs
    · cases hs; exact h.registerEnd (hok conn hc)
    · cases hs
  | abandon x c =>
    obtain ⟨conn, -, hs⟩ := Option.bind_eq_some_iff.1 hs
    split at hs
    · cases hs
      exact (h.closeEnd x c).setStage fun _ => .inr fun conn hconn => dead_closeEnd hconn
    · cases hs
  | close x c => cases hs; exact h.closeEnd x c
  | notice x c =>
    simp only [Connections.step] at hs
    split at hs
    · cases hs; exact h.closeEnd x c
    · cases hs
  | received x c =>
    simp only [Connections.step] at hs
    split at hs
    · rename_i hclosed
      cases hs
      exact h.unregister fun _ conn hconn => dead_of_isClosed hclosed hconn
    · cases hs
  | writeFailed x c => cases hs; exact h.unregister hok

/-- The nodes agree in the runs that let go of closed connections only. -/
theorem agree_of_keepsLive (h : (runs.guard KeepsLive).Reachable s) : s.Agree := by
  refine (h.guard_invariant (I := Standing) ?_ fun s e s' hi hok hs => hi.step hok hs).agree
  rintro _ ⟨name, generation, rfl⟩
  exact standing_new name generation

/-- `a` and `b`. -/
def sample : Connections := new (fun x => match x with | .left => "a" | .right => "b") fun _ => 1

/-- Both nodes dial at once, and keep the connection that `a` dialed. -/
theorem agree_of_keepsLive_crossed : ∃ s, (runs.guard KeepsLive).Reachable s ∧
    (s.Quiescent ∧ s.live .left = some 0 ∧ s.live .right = some 0) ∧ s.Agree := by
  obtain ⟨s, hs, h⟩ : ∃ s, (runs.guard KeepsLive).Reachable s ∧ _ :=
    Lts.exists_guard_reachable_of_exec (f := step)
      (p := fun s => s.Quiescent ∧ s.live .left = some 0 ∧ s.live .right = some 0)
    (s := sample) ⟨_, _, rfl⟩
    [.dial .left, .dial .right, .connect 0, .connect 1, .acceptHello 0, .acceptHello 1,
      .registerAccepted 1, .registerAccepted 0, .registerDialed 0, .registerDialed 1, .notice .left 1,
      .notice .right 1]
    (by decide +kernel)
  exact ⟨s, hs, h, agree_of_keepsLive hs⟩

/-- A write fails at `a` while the connection stays open: `b` has a live connection to `a`, and `a` has
none to `b`. And when both have dialed at once, `a` prefers the connection that it dialed also when `b`
has already given up on it, and closes the live one. -/
theorem not_agree : (¬ ∀ s, runs.Reachable s → s.Agree) ∧
    ∃ s, runs.Reachable s ∧ s.replacedLive = true :=
  ⟨Lts.not_invariant_of_exec (s := sample) ⟨_, _, rfl⟩
    [.dial .left, .connect 0, .acceptHello 0, .registerAccepted 0, .registerDialed 0,
      .writeFailed .left 0]
    (by decide +kernel),
  Lts.exists_reachable_of_exec (s := sample) ⟨_, _, rfl⟩
    [.dial .left, .dial .right, .connect 0, .connect 1, .acceptHello 0, .acceptHello 1,
      .registerAccepted 1, .registerDialed 1, .abandon .right 0, .notice .left 0, .registerDialed 0]
    (by decide +kernel)⟩

end Connections

end Zestors
