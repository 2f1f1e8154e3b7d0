import Zestors.Supervisor.Strategy

/-!
# The one-for-all strategy

One child that needs a restart makes the supervisor stop all the others too; once everybody has
exited, the whole group is started again.
-/

namespace Zestors

structure OneForAllSupervisor where
  inner : SupervisorInner
  initializing : IndexSet Name
  exiting : IndexSet Name
  /-- The names that the running cascade still waits for. -/
  restarting : IndexSet Name
  /-- The members of the cascade that are started again when it is over. -/
  cascadeRestart : IndexSet Name
  /-- The members of the cascade that are dropped when it is over. -/
  cascadeDrop : IndexSet Name

namespace OneForAllSupervisor

def new (inner : SupervisorInner) : OneForAllSupervisor :=
  ⟨inner, .empty, .empty, .empty, .empty, .empty⟩

def shutdown (s : OneForAllSupervisor) : OneForAllSupervisor × ControlFlow :=
  let (inner, exiting, flow) := s.inner.shutdown s.exiting
  ({ s with inner, exiting }, flow)

/-- `remove_spec` where nobody waits for the removed name, so that no cascade is over by it. -/
def dropSpec (s : OneForAllSupervisor) (name : Name) : OneForAllSupervisor × Option Supervisee :=
  match s.inner.removeSpec s.initializing s.exiting name with
  | (inner, initializing, exiting, none) => ({ s with inner, initializing, exiting }, none)
  | (inner, initializing, exiting, some sv) =>
    ({ s with
        inner, initializing, exiting
        cascadeRestart := s.cascadeRestart.swapRemove name
        cascadeDrop := s.cascadeDrop.swapRemove name }, some sv)

/-- Drops the specs of a list, one by one. -/
def dropAll (s : OneForAllSupervisor) (names : List Name) : OneForAllSupervisor :=
  names.foldl (fun s name => (s.dropSpec name).1) s

/-- Starts the supervisees of a list, one by one; one that is shutting down is left alone. -/
def startEach (inner : SupervisorInner) (names : List Name) : SupervisorInner :=
  names.foldl (fun inner name => (inner.start name .restart).1) inner

/-- The end of a cascade: drops some of its members and starts the others again. The source calls
`remove_spec` here, which is `dropSpec` since the cascade waits for nobody. -/
def finishCascade (s : OneForAllSupervisor) : OneForAllSupervisor :=
  let s := { s with cascadeDrop := .empty }.dropAll s.cascadeDrop.toList
  { s with inner := startEach s.inner s.cascadeRestart.toList, cascadeRestart := .empty }

/-- Goes through the siblings of a trigger and folds them into the cascade. -/
def stopSiblings (s : OneForAllSupervisor) : List Name → OneForAllSupervisor × ControlFlow
  | [] => (if s.restarting.isEmpty then s.finishCascade else s, .cont)
  | name :: siblings =>
    match s.inner.supervisees.get? name with
    | none => s.stopSiblings siblings
    | some sv =>
      if sv.cfg.restartMode = .never then
        let inner := (s.inner.stop name).1
        let cascadeDrop := s.cascadeDrop.insert name
        if (s.inner.stop name).2.isShuttingDown then
          { s with inner, cascadeDrop, restarting := s.restarting.insert name }.stopSiblings siblings
        else { s with inner, cascadeDrop }.stopSiblings siblings
      else
        let permitted := (s.inner.acquireRestartPermit name).1
        if !(s.inner.acquireRestartPermit name).2 then { s with inner := permitted }.shutdown
        else
          let inner := (permitted.stop name).1
          let cascadeRestart := s.cascadeRestart.insert name
          if (permitted.stop name).2.isShuttingDown then
            { s with
                inner, cascadeRestart
                restarting := s.restarting.insert name }.stopSiblings siblings
          else { s with inner, cascadeRestart }.stopSiblings siblings

def startCascade (s : OneForAllSupervisor) (trigger : Name) : OneForAllSupervisor × ControlFlow :=
  s.stopSiblings (s.inner.supervisees.names.filter fun name =>
    name ≠ trigger ∧ name ∉ s.cascadeRestart ∧ name ∉ s.cascadeDrop)

def removeSpec (s : OneForAllSupervisor) (name : Name) : OneForAllSupervisor × Option Supervisee :=
  match s.inner.removeSpec s.initializing s.exiting name with
  | (inner, initializing, exiting, none) => ({ s with inner, initializing, exiting }, none)
  | (inner, initializing, exiting, some sv) =>
    let restarting := s.restarting.swapRemove name
    let s' := { s with inner, initializing, exiting, restarting }
    let s' := if name ∈ s.restarting ∧ restarting.isEmpty then s'.finishCascade else s'
    ({ s' with
        cascadeRestart := s'.cascadeRestart.swapRemove name
        cascadeDrop := s'.cascadeDrop.swapRemove name }, some sv)

def handleExit (s : OneForAllSupervisor) (name : Name) (reason : ExitReason) :
    OneForAllSupervisor × ControlFlow :=
  if name ∈ s.exiting then
    ({ s with exiting := s.exiting.swapRemove name },
      if (s.exiting.swapRemove name).isEmpty then .brk else .cont)
  else if name ∈ s.restarting then
    let s := { s with restarting := s.restarting.swapRemove name }
    (if s.restarting.isEmpty then s.finishCascade else s, .cont)
  else
    match s.inner.supervisees.get? name with
    | none => (s, .cont)
    | some sv =>
      if !reason.requiresRestart sv then ((s.removeSpec name).1, .cont)
      else
        let inner := (s.inner.acquirePermits name).1
        if !(s.inner.acquirePermits name).2 then { s with inner }.shutdown
        else { s with inner, cascadeRestart := s.cascadeRestart.insert name }.startCascade name

instance : Strategy OneForAllSupervisor where
  new := new
  inner := inner
  setInner s inner := { s with inner }
  initializing := initializing
  setInitializing s initializing := { s with initializing }
  handleExit s name reason := some (s.handleExit name reason)
  shutdown := shutdown
  removeSpec := removeSpec

end OneForAllSupervisor

end Zestors
