import Zestors.Lib.IndexSet
import Zestors.Supervisor.SuperviseeMap

/-!
# What the supervision strategies share

The part of a supervisor that does not depend on its strategy: the supervisees, the inbox, the
supervisor's own restart budget, and the operations on them that every strategy uses. The readings
that `Instant::now` will return are part of the state (`clock`), and every permit consumes the next
of them. `starts` and `stops` are history variables: they record every start and every stop of a
supervisee and are never read.
-/

namespace Zestors

/-- Whether an event loop goes on. -/
inductive ControlFlow
  | cont
  | brk
deriving DecidableEq

inductive HealthStatus
  | healthy
  | degraded
  | unhealthy
deriving DecidableEq

/-- The messages a supervisor accepts. -/
inductive SupervisorInterface
  | children
  | health
  | register (spec : ChildSpec)
  | deregister (name : Name)

/-- The answers to them. -/
inductive Reply
  | children (descriptions : List ChildDescription)
  | health (status : HealthStatus)
  | register (result : Except DuplicateNameError Unit)
  | deregister (description : Option ChildDescription)

inductive InboxEvent
  | signal (signal : Signal)
  | message (msg : SupervisorInterface)

inductive SupervisorSourceEvent
  | added (spec : ChildSpec)
  | removed (name : Name)

/-- What `SupervisorInner::next` returns. -/
inductive InnerNext
  | inbox (ev : InboxEvent)
  | source (ev : SupervisorSourceEvent)
  | supervisee (name : Name) (item : SuperviseeItem)

/-- The supervisor's end of its channel, with the replies it has sent. It exists only while the
supervisor's task has not exited. -/
structure Inbox where
  status : ActorStatus
  init : InitState
  replies : List Reply
  live : status.isDead = false

namespace Inbox

/-- The inbox of an actor that has just been spawned. -/
def spawned : Inbox := ⟨.initializing, .auto, [], rfl⟩

def setManualInit (inbox : Inbox) : Inbox :=
  if inbox.init = .completed then inbox else { inbox with init := .manual }

def registerInitialized (inbox : Inbox) : Inbox :=
  if inbox.init = .completed then inbox
  else
    { inbox with
      init := .completed
      status := inbox.status.registerInitialized.1
      live := (ActorStatus.isDead_registerInitialized _).trans inbox.live }

def registerExiting (inbox : Inbox) : Inbox :=
  { inbox with
    status := inbox.status.registerExiting.1
    live := (ActorStatus.isDead_registerExiting _).trans inbox.live }

/-- Answers a message. -/
def reply (inbox : Inbox) (r : Reply) : Inbox := { inbox with replies := inbox.replies ++ [r] }

/-- The inbox after it has taken a signal from its queue, and what it yields. -/
def takeSignal (inbox : Inbox) (signal : SignalInterface) : Inbox × Option Signal :=
  ({ inbox with
      status := (inbox.status.handleSignal signal).1
      live := (ActorStatus.isDead_handleSignal _ _).trans inbox.live },
    (inbox.status.handleSignal signal).2)

variable {inbox : Inbox}

@[simp] theorem isExiting_registerExiting : inbox.registerExiting.status.isExiting = true :=
  ActorStatus.isExiting_registerExiting inbox.live

@[simp] theorem isExiting_registerInitialized :
    inbox.registerInitialized.status.isExiting = inbox.status.isExiting := by
  unfold registerInitialized
  split
  · rfl
  · exact ActorStatus.isExiting_registerInitialized _

@[simp] theorem isExiting_reply (r : Reply) :
    (inbox.reply r).status.isExiting = inbox.status.isExiting := rfl

end Inbox

/-- Who asked for a supervisee to be started. -/
inductive StartCause
  | startAll
  | addSpec
  | restart
deriving DecidableEq

/-- One start of a supervisee, and whether the supervisor was exiting at that moment. -/
structure StartEvent where
  cause : StartCause
  name : Name
  exiting : Bool
deriving DecidableEq

/-- Whether a supervisee was stopped by itself, or with all the others. -/
inductive StopCause
  | stop
  | stopAll
deriving DecidableEq

/-- One stop of a supervisee: among whom, as they were before, and whether the supervisor was exiting at
that moment. -/
structure StopCall where
  cause : StopCause
  name : Name
  supervisees : SuperviseeMap
  exiting : Bool

structure SupervisorInner where
  supervisees : SuperviseeMap
  inbox : Inbox
  /-- Whether the supervisor has a source of children. -/
  source : Bool
  restarter : RestartLimiter
  /-- The readings of the clock, in the order in which they are taken. -/
  clock : ℕ → Instant
  /-- How many readings have been taken. -/
  ticks : ℕ
  starts : List StartEvent
  stops : List StopCall

namespace SupervisorInner

def isInitializing (s : SupervisorInner) : Bool := s.inbox.status == .initializing

def isExiting (s : SupervisorInner) : Bool := s.inbox.status.isExiting

def health (_ : SupervisorInner) : HealthStatus := .healthy

/-- The next reading of the clock. -/
def now (s : SupervisorInner) : Instant := s.clock s.ticks

/-- `self.restarter.acquire_permit()`. -/
def acquirePermit (s : SupervisorInner) : SupervisorInner × Bool :=
  ({ s with restarter := (s.restarter.acquirePermit s.now).1, ticks := s.ticks + 1 },
    (s.restarter.acquirePermit s.now).2)

/-- `supervisee.acquire_restart_permit()`, on the supervisee called `name`. -/
def acquireRestartPermit (s : SupervisorInner) (name : Name) : SupervisorInner × Bool :=
  match s.supervisees.get? name with
  | none => (s, true)
  | some sv =>
    ({ s with
        supervisees := s.supervisees.set (sv.acquireRestartPermit s.now).1, ticks := s.ticks + 1 },
      (sv.acquireRestartPermit s.now).2)

/-- `supervisee.start()`, on the supervisee called `name`. -/
def start (s : SupervisorInner) (name : Name) (cause : StartCause) :
    SupervisorInner × Except SuperviseeIsShuttingDown Bool :=
  match s.supervisees.get? name with
  | none => (s, .ok false)
  | some sv =>
    ({ s with
        supervisees := s.supervisees.set sv.start.1
        starts := match sv.start.2 with
          | .ok true => s.starts ++ [⟨cause, name, s.isExiting⟩]
          | _ => s.starts },
      sv.start.2)

/-- `supervisee.stop()`, on the supervisee called `name`. -/
def stop (s : SupervisorInner) (name : Name) : SupervisorInner × StopOutcome :=
  match s.supervisees.get? name with
  | none => (s, .dead)
  | some sv =>
    ({ s with
        supervisees := s.supervisees.set sv.stop.1
        stops := s.stops ++ [⟨.stop, name, s.supervisees, s.isExiting⟩] },
      sv.stop.2)

/-- `supervisees.start_all()`. -/
def startAll (s : SupervisorInner) :
    SupervisorInner × Except (Name × SuperviseeIsShuttingDown) Unit :=
  ({ s with
      supervisees := s.supervisees.startAll.1
      starts := s.starts ++ (s.supervisees.names.filter fun n =>
        s.supervisees.stateOf n = some .dead).map fun n => ⟨.startAll, n, s.isExiting⟩ },
    s.supervisees.startAll.2)

/-- Takes the supervisor's permit and then, if that was granted, the child's. -/
def acquirePermits (s : SupervisorInner) (name : Name) : SupervisorInner × Bool :=
  if s.acquirePermit.2 then s.acquirePermit.1.acquireRestartPermit name
  else (s.acquirePermit.1, false)

def addSpec (s : SupervisorInner) (spec : ChildSpec) :
    SupervisorInner × Except DuplicateNameError Unit :=
  if s.isExiting then (s, .ok ())
  else
    match s.supervisees.add (Supervisee.new spec) with
    | (m, .error e) => ({ s with supervisees := m }, .error e)
    | (m, .ok ()) => (({ s with supervisees := m }.start spec.name .addSpec).1, .ok ())

def registerExiting (s : SupervisorInner) : SupervisorInner :=
  { s with inbox := s.inbox.registerExiting }

/-- Stops everybody at once; `Break` when nobody is left to wait for. -/
def shutdown (s : SupervisorInner) (exiting : IndexSet Name) :
    SupervisorInner × IndexSet Name × ControlFlow :=
  let s := s.registerExiting
  let exiting := exiting.extend s.supervisees.stopAll.2
  ({ s with
      supervisees := s.supervisees.stopAll.1
      stops := s.stops ++ s.supervisees.names.map fun n => ⟨.stopAll, n, s.supervisees, s.isExiting⟩ },
    exiting, if exiting.isEmpty then .brk else .cont)

def handleInitialized (s : SupervisorInner) (initializing : IndexSet Name) (name : Name) :
    SupervisorInner × IndexSet Name :=
  let removed := decide (name ∈ initializing)
  let initializing := initializing.swapRemove name
  if removed && s.isInitializing && initializing.isEmpty then
    ({ s with inbox := s.inbox.registerInitialized }, initializing)
  else (s, initializing)

def removeSpec (s : SupervisorInner) (initializing exiting : IndexSet Name) (name : Name) :
    SupervisorInner × IndexSet Name × IndexSet Name × Option Supervisee :=
  match s.supervisees.remove name with
  | (m, some sv) =>
    ({ s with supervisees := m }, initializing.swapRemove name, exiting.swapRemove name, some sv)
  | (m, none) => ({ s with supervisees := m }, initializing, exiting, none)

/-! ## Waiting for the next event -/

/-- What can happen to a supervisor from outside. -/
inductive Event
  /-- A signal reaches the front of the signal queue. -/
  | signal (signal : SignalInterface)
  | message (msg : SupervisorInterface)
  | source (ev : SupervisorSourceEvent)
  /-- A supervisee's stream yields an item. -/
  | supervisee (name : Name) (item : SuperviseeItem)

/-- `SupervisorInner::next` on an event: `none` if the event cannot occur, and no `InnerNext` if the
inbox deals with it by itself. -/
def next (s : SupervisorInner) : Event → Option (SupervisorInner × Option InnerNext)
  | .signal signal =>
    some ({ s with inbox := (s.inbox.takeSignal signal).1 },
      (s.inbox.takeSignal signal).2.map fun sig => .inbox (.signal sig))
  -- A suspended inbox takes signals only.
  | .message msg =>
    if s.inbox.status = .suspended then none else some (s, some (.inbox (.message msg)))
  | .source ev => if s.source then some (s, some (.source ev)) else none
  | .supervisee name item =>
    match s.supervisees.get? name with
    | none => none
    | some sv =>
      (sv.supervise item).map fun sv' =>
        ({ s with supervisees := s.supervisees.set sv' }, some (.supervisee name item))

/-! ## Before the loop -/

/-- A supervisor that has just been spawned with the children of its blueprint. -/
def new (specs : List ChildSpec) (intensity : RestartIntensity) (source : Bool)
    (clock : ℕ → Instant) : SupervisorInner :=
  ⟨SuperviseeMap.new specs, .spawned, source, .new intensity, clock, 0, [], []⟩

/-- Adds the children that the source had from the start; a name that is taken is an error. -/
def load (s : SupervisorInner) : List ChildSpec → Except DuplicateNameError SupervisorInner
  | [] => .ok s
  | spec :: specs =>
    match s.supervisees.add (Supervisee.new spec) with
    | (_, .error e) => .error e
    | (m, .ok ()) => load { s with supervisees := m } specs

/-! ## What the operations do to the supervisees -/

variable {s : SupervisorInner} {n j : Name} {cause : StartCause} {spec : ChildSpec}

/-- What the operations on the supervisees leave alone. -/
structure Frame (s s' : SupervisorInner) : Prop where
  isExiting : s'.isExiting = s.isExiting
  restarter : s'.restarter = s.restarter
  clock : s'.clock = s.clock
  ticks : s.ticks ≤ s'.ticks

namespace Frame
variable {s' s'' : SupervisorInner}

theorem refl (s : SupervisorInner) : Frame s s := ⟨rfl, rfl, rfl, le_rfl⟩

theorem trans (h : Frame s s') (h' : Frame s' s'') : Frame s s'' :=
  ⟨h'.isExiting.trans h.isExiting, h'.restarter.trans h.restarter, h'.clock.trans h.clock,
    h.ticks.trans h'.ticks⟩

end Frame

theorem frame_acquireRestartPermit : Frame s (s.acquireRestartPermit n).1 := by
  unfold acquireRestartPermit
  split
  · exact .refl s
  · exact ⟨rfl, rfl, rfl, Nat.le_succ _⟩

theorem frame_start : Frame s (s.start n cause).1 := by
  unfold start
  split
  · exact .refl s
  · exact ⟨rfl, rfl, rfl, le_rfl⟩

theorem frame_stop : Frame s (s.stop n).1 := by
  unfold stop
  split
  · exact .refl s
  · exact ⟨rfl, rfl, rfl, le_rfl⟩

/-! ### Permits -/

@[simp] theorem supervisees_acquirePermit : s.acquirePermit.1.supervisees = s.supervisees := rfl

@[simp] theorem starts_acquirePermit : s.acquirePermit.1.starts = s.starts := rfl

@[simp] theorem stops_acquirePermit : s.acquirePermit.1.stops = s.stops := rfl

@[simp] theorem inbox_acquirePermit : s.acquirePermit.1.inbox = s.inbox := rfl

@[simp] theorem stateOf_acquireRestartPermit :
    (s.acquireRestartPermit n).1.supervisees.stateOf j = s.supervisees.stateOf j := by
  unfold acquireRestartPermit
  split
  · rfl
  · rename_i sv h
    obtain rfl := SuperviseeMap.name_of_get? h
    simp only [SuperviseeMap.stateOf_set, Supervisee.name_acquireRestartPermit,
      Supervisee.state_acquireRestartPermit]
    split
    · subst j; exact (SuperviseeMap.stateOf_of_get? h).symm
    · rfl

@[simp] theorem modeOf_acquireRestartPermit :
    (s.acquireRestartPermit n).1.supervisees.modeOf j = s.supervisees.modeOf j := by
  unfold acquireRestartPermit
  split
  · rfl
  · rename_i sv h
    obtain rfl := SuperviseeMap.name_of_get? h
    simp only [SuperviseeMap.modeOf_set, Supervisee.name_acquireRestartPermit,
      Supervisee.cfg_acquireRestartPermit]
    split
    · subst j; exact (SuperviseeMap.modeOf_of_get? h).symm
    · rfl

@[simp] theorem keys_acquireRestartPermit :
    (s.acquireRestartPermit n).1.supervisees.keys = s.supervisees.keys := by
  unfold acquireRestartPermit
  split
  · rfl
  · rename_i sv h
    obtain rfl := SuperviseeMap.name_of_get? h
    exact SuperviseeMap.keys_set (by simp [h])

@[simp] theorem starts_acquireRestartPermit :
    (s.acquireRestartPermit n).1.starts = s.starts := by
  unfold acquireRestartPermit
  split <;> rfl

@[simp] theorem stops_acquireRestartPermit : (s.acquireRestartPermit n).1.stops = s.stops := by
  unfold acquireRestartPermit
  split <;> rfl

/-! ### Starting -/

/-- Only the dead are started. -/
@[simp] theorem stateOf_start : (s.start n cause).1.supervisees.stateOf j =
    if j = n ∧ s.supervisees.stateOf n = some .dead then some .starting
    else s.supervisees.stateOf j := by
  unfold start
  split
  · rename_i h
    simp [SuperviseeMap.stateOf_eq_none.2 h]
  · rename_i sv h
    obtain rfl := SuperviseeMap.name_of_get? h
    simp only [SuperviseeMap.stateOf_set, Supervisee.name_start, SuperviseeMap.stateOf_of_get? h,
      Option.some.injEq]
    by_cases hj : j = sv.name
    · subst hj
      by_cases hd : sv.state = .dead
      · simp [hd, Supervisee.start_of_dead hd]
      · simp [hd, Supervisee.start_of_not_dead hd, SuperviseeMap.stateOf_of_get? h]
    · simp [hj]

@[simp] theorem modeOf_start :
    (s.start n cause).1.supervisees.modeOf j = s.supervisees.modeOf j := by
  unfold start
  split
  · rfl
  · rename_i sv h
    obtain rfl := SuperviseeMap.name_of_get? h
    simp only [SuperviseeMap.modeOf_set, Supervisee.name_start, Supervisee.cfg_start]
    split
    · subst j; exact (SuperviseeMap.modeOf_of_get? h).symm
    · rfl

@[simp] theorem keys_start : (s.start n cause).1.supervisees.keys = s.supervisees.keys := by
  unfold start
  split
  · rfl
  · rename_i sv h
    obtain rfl := SuperviseeMap.name_of_get? h
    exact SuperviseeMap.keys_set (by simp [h])

theorem start_snd_eq : (s.start n cause).2 = .ok true ↔ s.supervisees.stateOf n = some .dead := by
  unfold start
  split
  · rename_i h
    simp [SuperviseeMap.stateOf_eq_none.2 h]
  · rename_i sv h
    rw [Supervisee.start_eq_ok_true, SuperviseeMap.stateOf_of_get? h, Option.some.injEq]

theorem starts_start : (s.start n cause).1.starts =
    if s.supervisees.stateOf n = some .dead then s.starts ++ [⟨cause, n, s.isExiting⟩]
    else s.starts := by
  unfold start
  split
  · rename_i h
    simp [SuperviseeMap.stateOf_eq_none.2 h]
  · rename_i sv h
    simp only [SuperviseeMap.stateOf_of_get? h, Option.some.injEq]
    by_cases hd : sv.state = .dead
    · simp [hd, Supervisee.start_of_dead hd]
    · have hne := mt Supervisee.start_eq_ok_true.1 hd
      rw [if_neg hd]
      split
      · exact absurd (by assumption) hne
      · rfl

@[simp] theorem stops_start : (s.start n cause).1.stops = s.stops := by
  unfold start
  split <;> rfl

theorem start_of_not_dead (h : s.supervisees.stateOf n ≠ some .dead) :
    (s.start n cause).1 = s := by
  have hs : (s.start n cause).1.starts =
      if s.supervisees.stateOf n = some .dead then s.starts ++ [⟨cause, n, s.isExiting⟩]
      else s.starts := starts_start
  rw [if_neg h] at hs
  unfold start at hs ⊢
  split
  · rfl
  · rename_i sv hget
    rw [SuperviseeMap.stateOf_of_get? hget, Ne, Option.some.injEq] at h
    simp only [hget] at hs
    simp only [hs, Supervisee.start_of_not_dead h, SuperviseeMap.set_of_get? hget]

/-! ### Stopping -/

/-- The state a supervisee is in after `stop`. -/
def stopped : SuperviseeState → SuperviseeState
  | .dead | .starting => .dead
  | .initializing | .alive | .shuttingDown => .shuttingDown

theorem state_stop_eq (sv : Supervisee) : sv.stop.1.state = stopped sv.state := by
  unfold Supervisee.stop
  split <;> simp_all [stopped]

@[simp] theorem stateOf_stop : (s.stop n).1.supervisees.stateOf j =
    if j = n then (s.supervisees.stateOf n).map stopped else s.supervisees.stateOf j := by
  unfold stop
  split
  · rename_i h
    exact SuperviseeMap.stateOf_of_get?_none h _
  · rename_i sv h
    obtain rfl := SuperviseeMap.name_of_get? h
    simp only [SuperviseeMap.stateOf_set, Supervisee.name_stop, SuperviseeMap.stateOf_of_get? h,
      Option.map_some, state_stop_eq]

@[simp] theorem modeOf_stop : (s.stop n).1.supervisees.modeOf j = s.supervisees.modeOf j := by
  unfold stop
  split
  · rfl
  · rename_i sv h
    obtain rfl := SuperviseeMap.name_of_get? h
    simp only [SuperviseeMap.modeOf_set, Supervisee.name_stop, Supervisee.cfg_stop]
    split
    · subst j; exact (SuperviseeMap.modeOf_of_get? h).symm
    · rfl

@[simp] theorem keys_stop : (s.stop n).1.supervisees.keys = s.supervisees.keys := by
  unfold stop
  split
  · rfl
  · rename_i sv h
    obtain rfl := SuperviseeMap.name_of_get? h
    exact SuperviseeMap.keys_set (by simp [h])

@[simp] theorem starts_stop : (s.stop n).1.starts = s.starts := by
  unfold stop
  split <;> rfl

theorem stops_stop : (s.stop n).1.stops = if s.supervisees.stateOf n = none then s.stops
    else s.stops ++ [⟨.stop, n, s.supervisees, s.isExiting⟩] := by
  unfold stop
  split
  · rename_i h
    rw [if_pos (SuperviseeMap.stateOf_eq_none.2 h)]
  · rename_i sv h
    rw [if_neg (by simp [SuperviseeMap.stateOf_of_get? h])]

/-- An exit is still to come exactly when the supervisee is left shutting down. -/
theorem stop_isShuttingDown : (s.stop n).2.isShuttingDown = true ↔
    (s.stop n).1.supervisees.stateOf n = some .shuttingDown := by
  unfold stop
  split
  · rename_i h
    simp [SuperviseeMap.stateOf_eq_none.2 h, StopOutcome.isShuttingDown]
  · rename_i sv h
    obtain rfl := SuperviseeMap.name_of_get? h
    simp only [SuperviseeMap.stateOf_set, Supervisee.name_stop, if_true, Option.some.injEq]
    rw [Supervisee.state_stop]
    split <;> simp_all

end SupervisorInner

end Zestors
