import Zestors.Supervisor.Strategy

/-!
# The one-for-one strategy

A child that needs a restart is restarted by itself.
-/

namespace Zestors

structure OneForOneSupervisor where
  inner : SupervisorInner
  initializing : IndexSet Name
  exiting : IndexSet Name

namespace OneForOneSupervisor

def new (inner : SupervisorInner) : OneForOneSupervisor := ⟨inner, .empty, .empty⟩

def shutdown (s : OneForOneSupervisor) : OneForOneSupervisor × ControlFlow :=
  let (inner, exiting, flow) := s.inner.shutdown s.exiting
  ({ s with inner, exiting }, flow)

def removeSpec (s : OneForOneSupervisor) (name : Name) : OneForOneSupervisor × Option Supervisee :=
  let (inner, initializing, exiting, sv) := s.inner.removeSpec s.initializing s.exiting name
  (⟨inner, initializing, exiting⟩, sv)

def handleExit (s : OneForOneSupervisor) (name : Name) (reason : ExitReason) :
    OneForOneSupervisor × ControlFlow :=
  if name ∈ s.exiting then
    ({ s with exiting := s.exiting.swapRemove name },
      if (s.exiting.swapRemove name).isEmpty then .brk else .cont)
  else
    match s.inner.supervisees.get? name with
    | none => (s, .cont)
    | some sv =>
      if !reason.requiresRestart sv then ((s.removeSpec name).1, .cont)
      else
        let inner := (s.inner.acquirePermits name).1
        if (s.inner.acquirePermits name).2 then
          ({ s with inner := (inner.start name .restart).1 }, .cont)
        else { s with inner }.shutdown

instance : Strategy OneForOneSupervisor where
  new := new
  inner := inner
  setInner s inner := { s with inner }
  initializing := initializing
  setInitializing s initializing := { s with initializing }
  handleExit s name reason := some (s.handleExit name reason)
  shutdown := shutdown
  removeSpec := removeSpec

end OneForOneSupervisor

end Zestors
