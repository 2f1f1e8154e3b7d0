import Mathlib.Tactic.Common

/-!
# The status of an actor

The status machine that a channel runs its actor through, and what a signal does to it when the
actor takes it from the signal queue.
-/

namespace Zestors

/-- Why an actor's task ended without `Ok`. -/
inductive ExitError
  | panicked
  | aborted
  | unhandledError
deriving DecidableEq

/-- The final outcome of an actor's most recent run. -/
inductive ExitStatus
  | normal
  | panicked
  | aborted
  | unhandledError
deriving DecidableEq

/-- `ExitStatus::from_result`. -/
def ExitStatus.fromResult : Except ExitError Unit → ExitStatus
  | .ok _ => .normal
  | .error .panicked => .panicked
  | .error .aborted => .aborted
  | .error .unhandledError => .unhandledError

inductive ActorStatus
  | exited (status : ExitStatus)
  | initializing
  | running
  | suspended
  | exiting
deriving DecidableEq

/-- A status change that the machine does not allow. -/
structure InvalidStatusUpdate where
  fromStatus : ActorStatus
  toStatus : ActorStatus
deriving DecidableEq

/-- How an inbox leaves the status `Initializing`. -/
inductive InitState
  | auto
  | manual
  | completed
deriving DecidableEq

namespace ActorStatus

/-- Whether a message sent now is accepted. -/
def acceptsMessages : ActorStatus → Bool
  | initializing | running | suspended => true
  | exited _ | exiting => false

def isExiting : ActorStatus → Bool
  | exiting => true
  | _ => false

def isDead : ActorStatus → Bool
  | exited _ => true
  | _ => false

/-- `Channel::update_status`: `f` says which status to write, if any, and what to return. -/
def updateStatus {α : Type} (status : ActorStatus) (f : ActorStatus → Option ActorStatus × α) :
    ActorStatus × α :=
  ((f status).1.getD status, (f status).2)

/-- `Channel::register_spawned`. -/
def registerSpawned (status : ActorStatus) : ActorStatus × Except InvalidStatusUpdate Unit :=
  status.updateStatus fun
    | exited _ => (some initializing, .ok ())
    | exiting | initializing | running | suspended => (none, .error ⟨status, initializing⟩)

/-- `Channel::register_exited`. -/
def registerExited (status : ActorStatus) (reason : Except ExitError Unit) : ActorStatus × Bool :=
  status.updateStatus fun
    | exited _ => (none, false)
    | exiting | initializing | running | suspended =>
      (some (exited (ExitStatus.fromResult reason)), true)

/-- `Channel::register_initialized`. -/
def registerInitialized (status : ActorStatus) : ActorStatus × Except InvalidStatusUpdate Bool :=
  status.updateStatus fun
    | exiting | exited _ => (none, .error ⟨status, running⟩)
    | initializing => (some running, .ok true)
    | running | suspended => (none, .ok false)

/-- `Channel::register_suspended`. -/
def registerSuspended (status : ActorStatus) : ActorStatus × Except InvalidStatusUpdate Bool :=
  status.updateStatus fun
    | exiting | exited _ | initializing => (none, .error ⟨status, suspended⟩)
    | suspended => (none, .ok false)
    | running => (some suspended, .ok true)

/-- `Channel::register_resumed`. -/
def registerResumed (status : ActorStatus) : ActorStatus × Except InvalidStatusUpdate Bool :=
  status.updateStatus fun
    | exiting | exited _ | initializing => (none, .error ⟨status, running⟩)
    | running => (none, .ok false)
    | suspended => (some running, .ok true)

/-- `Channel::register_exiting`. -/
def registerExiting (status : ActorStatus) : ActorStatus × Except InvalidStatusUpdate Bool :=
  status.updateStatus fun
    | exited _ => (none, .error ⟨status, exiting⟩)
    | exiting => (none, .ok false)
    | initializing | running | suspended => (some exiting, .ok true)

@[simp] theorem isExiting_registerInitialized (status : ActorStatus) :
    status.registerInitialized.1.isExiting = status.isExiting := by
  cases status <;> rfl

theorem isExiting_registerExiting {status : ActorStatus} (h : status.isDead = false) :
    status.registerExiting.1.isExiting = true := by
  cases status <;> first | rfl | cases h

@[simp] theorem isDead_registerExiting (status : ActorStatus) :
    status.registerExiting.1.isDead = status.isDead := by
  cases status <;> rfl

@[simp] theorem isDead_registerInitialized (status : ActorStatus) :
    status.registerInitialized.1.isDead = status.isDead := by
  cases status <;> rfl

end ActorStatus

/-- What travels in a channel's signal queue. -/
inductive SignalInterface
  | shutdown
  | suspend
  | resume
  | ping
deriving DecidableEq

/-- A signal as the actor's event loop sees it; a ping never gets that far. -/
inductive Signal
  | shutdown
  | suspend
  | resume
deriving DecidableEq

def Signal.isShutdown : Signal → Bool
  | shutdown => true
  | _ => false

/-- `Channel::handle_signal`: the status after the signal, and what the event loop sees of it. -/
def ActorStatus.handleSignal (status : ActorStatus) : SignalInterface → ActorStatus × Option Signal
  | .shutdown => (status.registerExiting.1, some .shutdown)
  | .suspend =>
    if status = exiting then (status, none) else (status.registerSuspended.1, some .suspend)
  | .resume =>
    if status ≠ suspended then (status, none) else (status.registerResumed.1, some .resume)
  | .ping => (status, none)

namespace ActorStatus

theorem isDead_handleSignal (status : ActorStatus) (signal : SignalInterface) :
    (status.handleSignal signal).1.isDead = status.isDead := by
  cases status <;> cases signal <;> rfl

/-- Only a shutdown makes an actor exit. -/
theorem isExiting_handleSignal {status : ActorStatus} {signal : SignalInterface}
    (h : (status.handleSignal signal).2 ≠ some .shutdown) :
    (status.handleSignal signal).1.isExiting = status.isExiting := by
  cases signal with
  | shutdown => exact absurd rfl h
  | suspend | resume | ping => cases status <;> rfl

theorem handleSignal_eq_initializing {status : ActorStatus} {signal : SignalInterface}
    (h : (status.handleSignal signal).2 ≠ some .shutdown) :
    (status.handleSignal signal).1 = initializing ↔ status = initializing := by
  cases signal with
  | shutdown => exact absurd rfl h
  | suspend | resume | ping =>
    cases status <;> simp [handleSignal, registerSuspended, registerResumed, updateStatus]

theorem handleSignal_shutdown {status : ActorStatus} {signal : SignalInterface}
    (h : (status.handleSignal signal).2 = some .shutdown) :
    (status.handleSignal signal).1 = status.registerExiting.1 := by
  cases signal with
  | shutdown => rfl
  | suspend | resume | ping => cases status <;> simp [handleSignal] at h

end ActorStatus

end Zestors
