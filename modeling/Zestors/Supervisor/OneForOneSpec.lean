import Zestors.Supervisor.OneForOne
import Zestors.Supervisor.Standing
import Zestors.Supervisor.Steps

/-!
# What the one-for-one operations do
-/

namespace Zestors
namespace OneForOneSupervisor
open SupervisorInner

variable {s : OneForOneSupervisor} {n : Name}

/-- What the removal of a name can lead to. -/
inductive RemoveCase (s : OneForOneSupervisor) (n : Name) : OneForOneSupervisor → Prop
  | absent : s.inner.supervisees.stateOf n = none → RemoveCase s n s
  | drop {i : SupervisorInner} {initializing : IndexSet Name} :
    s.inner.supervisees.stateOf n ≠ none → Removed n s.inner i →
    RemoveCase s n ⟨i, initializing, s.exiting.swapRemove n⟩

theorem removeSpec_case (s : OneForOneSupervisor) (n : Name) :
    RemoveCase s n (s.removeSpec n).1 := by
  unfold removeSpec
  rcases hget : s.inner.supervisees.get? n with _ | sv
  · have hnone := SuperviseeMap.stateOf_eq_none.2 hget
    rw [SupervisorInner.removeSpec_of_none hnone]
    exact .absent hnone
  · have hr : Removed n s.inner (s.inner.removeSpec s.initializing s.exiting n).1 :=
      removed_removeSpec
    rw [SupervisorInner.removeSpec_of_some hget] at hr ⊢
    exact .drop (by simp [SuperviseeMap.stateOf_of_get? hget]) hr

/-- What the exit of a supervisee can lead to, after the item has been taken: `s` is the state in
which the supervisee called `n` is dead. -/
inductive ExitCase (s : OneForOneSupervisor) (n : Name) (reason : ExitReason) :
    OneForOneSupervisor × ControlFlow → Prop
  /-- The shutdown was waiting for this exit. -/
  | awaited : n ∈ s.exiting → ExitCase s n reason ({ s with exiting := s.exiting.swapRemove n },
      if (s.exiting.swapRemove n).isEmpty then .brk else .cont)
  /-- It needs no restart. -/
  | drop : n ∉ s.exiting → ExitCase s n reason ((s.removeSpec n).1, .cont)
  /-- It needs a restart, and a budget is used up. -/
  | refused : n ∉ s.exiting →
    ExitCase s n reason { s with inner := (s.inner.acquirePermits n).1 }.shutdown
  /-- It needs a restart, and is restarted. -/
  | restart : n ∉ s.exiting → Required s.inner n reason → (s.inner.acquirePermits n).2 = true →
    ExitCase s n reason
      ({ s with inner := ((s.inner.acquirePermits n).1.start n .restart).1 }, .cont)

theorem handleExit_case (reason : ExitReason) (hn : s.inner.supervisees.stateOf n = some .dead) :
    ExitCase s n reason (s.handleExit n reason) := by
  obtain ⟨sv, hsv, -⟩ := SuperviseeMap.stateOf_eq_some.1 hn
  unfold handleExit
  by_cases he : n ∈ s.exiting
  · rw [if_pos he]
    exact .awaited he
  rw [if_neg he]
  simp only [hsv]
  rcases hreq : reason.requiresRestart sv with _ | _
  · rw [if_pos (by rfl)]
    exact .drop he
  rw [if_neg (by simp)]
  rcases hpermit : (s.inner.acquirePermits n).2 with _ | _
  · rw [if_neg (by simp)]
    exact .refused he
  · rw [if_pos rfl]
    exact .restart he ⟨sv, hsv, hreq⟩ hpermit

end OneForOneSupervisor
end Zestors
