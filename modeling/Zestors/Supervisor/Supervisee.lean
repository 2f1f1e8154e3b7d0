import Zestors.ActorStatus
import Zestors.RestartLimiter

/-!
# One supervised child

A supervisee is a child's specification together with the state machine that starts it, watches it
and stops it.
-/

namespace Zestors

/-- The name an actor is registered under. -/
structure Name where
  val : String
deriving DecidableEq

inductive RestartMode
  | always
  | onError
  | never
deriving DecidableEq

structure ChildConfig where
  restartMode : RestartMode
  intensity : Option RestartIntensity
  abortTimeout : Duration
  initTimeout : Duration
  startTimeout : Duration
deriving DecidableEq

/-- A child's name and configuration; its blueprint and channel are the environment's. -/
structure ChildSpec where
  name : Name
  cfg : ChildConfig
deriving DecidableEq

structure ChildDescription where
  name : Name
  cfg : ChildConfig
deriving DecidableEq

inductive JoinError
  | panic
  | aborted
  | unhandledError
deriving DecidableEq

inductive StartSuperviseeError
  | concurrentInbox
  | instantiation
  | timeout
deriving DecidableEq

inductive SuperviseeExit
  | joinError (e : JoinError)
  | normalExit
  | normalShutdown
deriving DecidableEq

/-- What a supervisee's stream yields. -/
inductive SuperviseeItem
  | started (result : Except StartSuperviseeError Unit)
  | initialized (result : Except ExitStatus Unit)
  | exit (exit : SuperviseeExit)

inductive SuperviseeState
  | starting
  | initializing
  | alive
  | shuttingDown
  | dead
deriving DecidableEq

/-- What `Supervisee::stop` found. -/
inductive StopOutcome
  | dead
  | cancelled
  | shuttingDown
deriving DecidableEq

/-- Whether an exit event should still be waited for. -/
def StopOutcome.isShuttingDown : StopOutcome → Bool
  | shuttingDown => true
  | dead | cancelled => false

/-- The error of starting a supervisee that is shutting down. -/
inductive SuperviseeIsShuttingDown
  | mk
deriving DecidableEq

structure Supervisee where
  spec : ChildSpec
  state : SuperviseeState
  restarter : Option RestartLimiter
deriving DecidableEq

namespace Supervisee

def new (spec : ChildSpec) : Supervisee := ⟨spec, .dead, spec.cfg.intensity.map RestartLimiter.new⟩

def name (sv : Supervisee) : Name := sv.spec.name

def cfg (sv : Supervisee) : ChildConfig := sv.spec.cfg

def getDescription (sv : Supervisee) : ChildDescription := ⟨sv.name, sv.cfg⟩

/-- The supervisee in another state of its machine. -/
def withState (sv : Supervisee) (state : SuperviseeState) : Supervisee := { sv with state }

/-- Whether this type of exit requires the child to be restarted. -/
def requiresRestart (sv : Supervisee) (exit : SuperviseeExit) : Bool :=
  match sv.cfg.restartMode, exit with
  | .always, _ => true
  | .never, _ => false
  | .onError, .normalExit | .onError, .normalShutdown => false
  | .onError, .joinError _ => true

/-- Whether exiting with this status before initialization is over requires a restart. -/
def requiresRestartForInitExit (sv : Supervisee) (status : ExitStatus) : Bool :=
  match sv.cfg.restartMode, status with
  | .always, _ => true
  | .never, _ => false
  | .onError, .normal => false
  | .onError, _ => true

/-- Takes a permit from the child's own budget; a child without one is always allowed. -/
def acquireRestartPermit (sv : Supervisee) (now : Instant) : Supervisee × Bool :=
  match sv.restarter with
  | none => (sv, true)
  | some r => ({ sv with restarter := some (r.acquirePermit now).1 }, (r.acquirePermit now).2)

def start (sv : Supervisee) : Supervisee × Except SuperviseeIsShuttingDown Bool :=
  match sv.state with
  | .dead => (sv.withState .starting, .ok true)
  | .starting | .initializing | .alive => (sv, .ok false)
  | .shuttingDown => (sv, .error .mk)

def stop (sv : Supervisee) : Supervisee × StopOutcome :=
  match sv.state with
  | .dead => (sv, .dead)
  -- The start is cancelled on the spot: no exit event will follow.
  | .starting => (sv.withState .dead, .cancelled)
  | .initializing | .alive => (sv.withState .shuttingDown, .shuttingDown)
  | .shuttingDown => (sv, .shuttingDown)

/-- The supervisee after its stream has yielded `item`; `none` if its machine cannot yield it. -/
def supervise (sv : Supervisee) (item : SuperviseeItem) : Option Supervisee :=
  match sv.state, item with
  | .starting, .started (.ok _) => some (sv.withState .initializing)
  | .starting, .started (.error _) => some (sv.withState .dead)
  | .initializing, .initialized (.ok _) => some (sv.withState .alive)
  | .initializing, .initialized (.error _) => some (sv.withState .dead)
  | .alive, .exit .normalExit => some (sv.withState .dead)
  | .alive, .exit (.joinError _) => some (sv.withState .dead)
  | .shuttingDown, .exit .normalShutdown => some (sv.withState .dead)
  | .shuttingDown, .exit (.joinError _) => some (sv.withState .dead)
  | _, _ => none

variable {sv : Supervisee} {item : SuperviseeItem} {now : Instant}

@[simp] theorem name_new (spec : ChildSpec) : (new spec).name = spec.name := rfl

@[simp] theorem state_new (spec : ChildSpec) : (new spec).state = .dead := rfl

@[simp] theorem spec_withState (state : SuperviseeState) : (sv.withState state).spec = sv.spec := rfl

@[simp] theorem name_withState (state : SuperviseeState) : (sv.withState state).name = sv.name := rfl

@[simp] theorem cfg_withState (state : SuperviseeState) : (sv.withState state).cfg = sv.cfg := rfl

@[simp] theorem state_withState (state : SuperviseeState) :
    (sv.withState state).state = state := rfl

@[simp] theorem withState_withState (state state' : SuperviseeState) :
    (sv.withState state).withState state' = sv.withState state' := rfl

/-- A permit touches nothing but the budget. -/
@[simp] theorem spec_acquireRestartPermit : (sv.acquireRestartPermit now).1.spec = sv.spec := by
  unfold acquireRestartPermit; split <;> rfl

@[simp] theorem name_acquireRestartPermit : (sv.acquireRestartPermit now).1.name = sv.name := by
  simp [name]

@[simp] theorem cfg_acquireRestartPermit : (sv.acquireRestartPermit now).1.cfg = sv.cfg := by
  simp [cfg]

@[simp] theorem state_acquireRestartPermit : (sv.acquireRestartPermit now).1.state = sv.state := by
  unfold acquireRestartPermit; split <;> rfl

@[simp] theorem spec_start : sv.start.1.spec = sv.spec := by
  unfold start; split <;> rfl

@[simp] theorem name_start : sv.start.1.name = sv.name := by simp [name]

@[simp] theorem cfg_start : sv.start.1.cfg = sv.cfg := by simp [cfg]

theorem start_of_dead (h : sv.state = .dead) : sv.start = (sv.withState .starting, .ok true) := by
  simp [start, h]

/-- Only a dead supervisee is started anew. -/
theorem start_eq_ok_true : sv.start.2 = .ok true ↔ sv.state = .dead := by
  unfold start; split <;> simp_all

theorem start_of_not_dead (h : sv.state ≠ .dead) : sv.start.1 = sv := by
  unfold start; split <;> simp_all

@[simp] theorem spec_stop : sv.stop.1.spec = sv.spec := by
  unfold stop; split <;> rfl

@[simp] theorem name_stop : sv.stop.1.name = sv.name := by simp [name]

@[simp] theorem cfg_stop : sv.stop.1.cfg = sv.cfg := by simp [cfg]

/-- After `stop` the supervisee is shutting down if an exit is still to come, and dead if not. -/
theorem state_stop :
    sv.stop.1.state = if sv.stop.2.isShuttingDown then .shuttingDown else .dead := by
  unfold stop; split <;> simp_all [StopOutcome.isShuttingDown]

theorem stop_isShuttingDown :
    sv.stop.2.isShuttingDown = false ↔ sv.state = .dead ∨ sv.state = .starting := by
  unfold stop; split <;> simp_all [StopOutcome.isShuttingDown]

/-- A dead supervisee yields nothing. -/
theorem state_ne_dead_of_supervise {sv' : Supervisee} (h : sv.supervise item = some sv') :
    sv.state ≠ .dead := by
  intro hd
  simp [supervise, hd] at h

end Supervisee

/-- Why a strategy is told that a supervisee is gone. -/
inductive ExitReason
  | startFailure
  | initExit (status : ExitStatus)
  | exit (exit : SuperviseeExit)

def ExitReason.requiresRestart (reason : ExitReason) (sv : Supervisee) : Bool :=
  match reason with
  | .startFailure => sv.cfg.restartMode != .never
  | .initExit status => sv.requiresRestartForInitExit status
  | .exit e => sv.requiresRestart e

namespace ExitReason
variable {sv sv' : Supervisee} {reason : ExitReason}

/-- Whether a restart is due depends on the child's specification only. -/
theorem requiresRestart_congr (h : sv'.spec = sv.spec) :
    reason.requiresRestart sv' = reason.requiresRestart sv := by
  cases reason <;>
    simp [requiresRestart, Supervisee.requiresRestartForInitExit, Supervisee.requiresRestart,
      Supervisee.cfg, h]

/-- A child with `RestartMode::Never` is never restarted for its own exit. -/
theorem not_never_of_requiresRestart (h : reason.requiresRestart sv = true) :
    sv.cfg.restartMode ≠ .never := by
  intro hn
  cases reason <;>
    simp [requiresRestart, Supervisee.requiresRestartForInitExit, Supervisee.requiresRestart,
      hn] at h

end ExitReason

end Zestors
