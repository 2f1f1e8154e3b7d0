import Mathlib.Data.List.Destutter
import Mathlib.Data.List.Sort
import Zestors.Supervisor.Strategy

/-!
# The rest-for-one strategy

One child that needs a restart makes the supervisor stop everybody who was started after it, one at
a time and last first, and then start the stopped ones again, one at a time.
-/

namespace Zestors

/-- Where a rest-for-one restart is. Each phase waits for `current`. -/
inductive Cascade
  | idle
  /-- Stopping; the next to stop is at the end of `pending`. -/
  | exiting (current : Name) (pending toRestart toDrop : List Name)
  /-- Starting again; the next to start is at the front of `pending`. -/
  | restarting (current : Name) (pending : List Name)
  /-- The supervisor is shutting down; the next to stop is at the end of `pending`. -/
  | shuttingDown (current : Name) (pending : List Name)
deriving DecidableEq

namespace Cascade

def current : Cascade → Option Name
  | idle => none
  | exiting current _ _ _ | restarting current _ | shuttingDown current _ => some current

/-- Whether `name` waits to be stopped by this cascade. -/
def pendingContains (name : Name) : Cascade → Bool
  | exiting _ pending _ _ | shuttingDown _ pending => decide (name ∈ pending)
  | idle | restarting _ _ => false

end Cascade

structure RestForOneSupervisor where
  inner : SupervisorInner
  initializing : IndexSet Name
  cascade : Cascade

namespace RestForOneSupervisor

def new (inner : SupervisorInner) : RestForOneSupervisor := ⟨inner, .empty, .idle⟩

/-- The loop of `advance_shutdown`, over the pending names from the last to the first. -/
def shutdownNext (s : RestForOneSupervisor) : List Name → RestForOneSupervisor × ControlFlow
  | [] => ({ s with cascade := .idle }, .brk)
  | next :: rest =>
    match s.inner.supervisees.get? next with
    | none => s.shutdownNext rest
    | some _ =>
      let inner := (s.inner.stop next).1
      if (s.inner.stop next).2.isShuttingDown then
        ({ s with inner, cascade := .shuttingDown next rest.reverse }, .cont)
      else { s with inner }.shutdownNext rest

def advanceShutdown (s : RestForOneSupervisor) (pending : List Name) :
    RestForOneSupervisor × ControlFlow :=
  s.shutdownNext pending.reverse

def shutdown (s : RestForOneSupervisor) : RestForOneSupervisor × ControlFlow :=
  match s.cascade with
  | .shuttingDown _ _ => (s, .cont)
  | _ =>
    { s with inner := s.inner.registerExiting }.advanceShutdown s.inner.supervisees.names

/-- Starts the next of the pending names that can be started, and waits for it. -/
def advanceRestart (s : RestForOneSupervisor) : List Name → RestForOneSupervisor × ControlFlow
  | [] => ({ s with cascade := .idle }, .cont)
  | next :: pending =>
    match s.inner.supervisees.get? next with
    | none => s.advanceRestart pending
    | some _ =>
      let inner := (s.inner.start next .restart).1
      match (s.inner.start next .restart).2 with
      | .ok true => ({ s with inner, cascade := .restarting next pending }, .cont)
      | .ok false => { s with inner }.advanceRestart pending
      | .error _ => { s with inner }.advanceRestart pending

/-- `remove_spec` for a name that the cascade does not wait for. -/
def dropSpec (s : RestForOneSupervisor) (name : Name) : RestForOneSupervisor × Option Supervisee :=
  let (inner, initializing, _, sv) := s.inner.removeSpec s.initializing .empty name
  ({ s with inner, initializing }, sv)

/-- Drops the specs of a list, one by one. -/
def dropAll (s : RestForOneSupervisor) (names : List Name) : RestForOneSupervisor :=
  names.foldl (fun s name => (s.dropSpec name).1) s

/-- The loop of `advance_stop`, over the pending names from the last to the first. The source calls
`remove_spec` at its end, which is `dropSpec` since every caller has set the cascade to `Idle`. -/
def stopNext (s : RestForOneSupervisor) :
    List Name → List Name → List Name → RestForOneSupervisor × ControlFlow
  | [], toRestart, toDrop => (s.dropAll toDrop).advanceRestart toRestart.reverse
  | next :: rest, toRestart, toDrop =>
    match s.inner.supervisees.get? next with
    | none => s.stopNext rest toRestart toDrop
    | some sv =>
      if sv.cfg.restartMode = .never then
        let inner := (s.inner.stop next).1
        if (s.inner.stop next).2.isShuttingDown then
          ({ s with inner, cascade := .exiting next rest.reverse toRestart (toDrop ++ [next]) },
            .cont)
        else { s with inner }.stopNext rest toRestart (toDrop ++ [next])
      else
        let permitted := (s.inner.acquireRestartPermit next).1
        if !(s.inner.acquireRestartPermit next).2 then { s with inner := permitted }.shutdown
        else
          let inner := (permitted.stop next).1
          if (permitted.stop next).2.isShuttingDown then
            ({ s with inner, cascade := .exiting next rest.reverse (toRestart ++ [next]) toDrop },
              .cont)
          else { s with inner }.stopNext rest (toRestart ++ [next]) toDrop

def advanceStop (s : RestForOneSupervisor) (pending toRestart toDrop : List Name) :
    RestForOneSupervisor × ControlFlow :=
  s.stopNext pending.reverse toRestart toDrop

/-- Goes on with whatever phase the cascade is in, now that its `current` is done. -/
def advanceCascade (s : RestForOneSupervisor) : RestForOneSupervisor × ControlFlow :=
  match s.cascade with
  | .idle => (s, .cont)
  | .exiting _ pending toRestart toDrop =>
    { s with cascade := .idle }.advanceStop pending toRestart toDrop
  | .restarting _ pending => { s with cascade := .idle }.advanceRestart pending
  | .shuttingDown _ pending => { s with cascade := .idle }.advanceShutdown pending

/-- The result of `advance_cascade` is ignored here, as it is in the source. -/
def removeSpec (s : RestForOneSupervisor) (name : Name) :
    RestForOneSupervisor × Option Supervisee :=
  match s.dropSpec name with
  | (s, none) => (s, none)
  | (s, some sv) => (if s.cascade.current = some name then s.advanceCascade.1 else s, some sv)

/-- Begins a cascade: everybody started after `trigger` is to be stopped. -/
def startCascade (s : RestForOneSupervisor) (trigger : Name) :
    Option (RestForOneSupervisor × ControlFlow) :=
  let all := s.inner.supervisees.names
  if trigger ∈ all then some (s.advanceStop (all.drop (all.idxOf trigger + 1)) [trigger] [])
  else none

/-- `sort_by_key` with the position among `all` as the key, and `dedup` after it. Two names or more
are compared, so then the position of each must be known. -/
def sortByPosition (all pending : List Name) : Option (List Name) :=
  if 2 ≤ pending.length ∧ ∃ n ∈ pending, n ∉ all then none
  else
    some ((pending.insertionSort fun a b => all.idxOf a ≤ all.idxOf b).destutter (· ≠ ·))

/-- Folds a trigger into a cascade that is still stopping: everybody between the trigger and
`current` who was not stopped yet is to be stopped too. -/
def mergeIntoStopping (s : RestForOneSupervisor) (trigger current : Name)
    (oldPending toRestart toDrop : List Name) : Option (RestForOneSupervisor × ControlFlow) :=
  let all := s.inner.supervisees.names
  if trigger ∈ all ∧ current ∈ all then
    let low := min (all.idxOf trigger) (all.idxOf current)
    let high := max (all.idxOf trigger) (all.idxOf current)
    let between := ((all.take high).drop (low + 1)).filter fun p => p ∉ toRestart ∧ p ∉ toDrop
    (sortByPosition all (between ++ oldPending)).map fun pending =>
      ({ s with cascade := .exiting current pending (toRestart ++ [trigger]) toDrop }, .cont)
  else none

/-- The exit of the name that the cascade waits for. -/
def handleCascadeCurrentExit (s : RestForOneSupervisor) (name : Name) (reason : ExitReason) :
    RestForOneSupervisor × ControlFlow :=
  match s.cascade with
  | .restarting _ _ =>
    match s.inner.supervisees.get? name with
    | none => s.advanceCascade
    | some sv =>
      if !reason.requiresRestart sv then ((s.removeSpec name).1, .cont)
      else
        let inner := (s.inner.acquireRestartPermit name).1
        if !(s.inner.acquireRestartPermit name).2 then { s with inner }.shutdown
        else ({ s with inner := (inner.start name .restart).1 }, .cont)
  | _ => s.advanceCascade

def handleExit (s : RestForOneSupervisor) (name : Name) (reason : ExitReason) :
    Option (RestForOneSupervisor × ControlFlow) :=
  if s.cascade.current = some name then some (s.handleCascadeCurrentExit name reason)
  else if s.cascade.pendingContains name then some (s, .cont)
  else
    match s.inner.supervisees.get? name with
    | none => some (s, .cont)
    | some sv =>
      if !reason.requiresRestart sv then some ((s.removeSpec name).1, .cont)
      else
        let inner := (s.inner.acquirePermits name).1
        if !(s.inner.acquirePermits name).2 then some { s with inner }.shutdown
        else
          match s.cascade with
          | .idle => { s with inner, cascade := .idle }.startCascade name
          | .exiting current pending toRestart toDrop =>
            { s with inner, cascade := .idle }.mergeIntoStopping name current pending toRestart
              toDrop
          | .restarting _ _ => { s with inner, cascade := .idle }.startCascade name
          | .shuttingDown _ _ => none

/-- What `Initialized(Ok)` of `current` means for the cascade: the next one's turn. -/
def afterInitialized (s : RestForOneSupervisor) (name : Name) :
    RestForOneSupervisor × ControlFlow :=
  if s.cascade.current = some name then s.advanceCascade else (s, .cont)

instance : Strategy RestForOneSupervisor where
  new := new
  inner := inner
  setInner s inner := { s with inner }
  initializing := initializing
  setInitializing s initializing := { s with initializing }
  handleExit := handleExit
  shutdown := shutdown
  removeSpec := removeSpec
  afterInitialized := afterInitialized

end RestForOneSupervisor

end Zestors
