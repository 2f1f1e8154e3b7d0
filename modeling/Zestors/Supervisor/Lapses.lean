import Zestors.Supervisor.OneForAll
import Zestors.Supervisor.OneForOne
import Zestors.Supervisor.RestForOneSpec

/-!
# What the handlers do to the children that are waited for

Apart from `handle_initialized`, the handlers of all strategies do the same to `initializing`: a name
leaves the set when its supervisee is removed, and only then; and the inbox is left alone, unless the
supervisor begins to exit (`Lapses`).
-/

namespace Zestors
open SupervisorInner

namespace SupervisorInner

/-- Between the two states nobody has reported. Whoever was waited for is so, as long as he is there. -/
structure Lapses (i : SupervisorInner) (w : IndexSet Name) (i' : SupervisorInner) (w' : IndexSet Name) :
    Prop where
  inbox : i'.inbox = i.inbox ∨ i'.isExiting = true
  gone : ∀ n, i.supervisees.stateOf n = none → i'.supervisees.stateOf n = none
  mem : ∀ n, n ∈ w' ↔ n ∈ w ∧ (i'.supervisees.stateOf n = none → i.supervisees.stateOf n = none)

variable {i i' i'' : SupervisorInner} {w w' w'' exiting : IndexSet Name} {n : Name}

namespace Lapses

theorem of_eq (hi : i'.inbox = i.inbox ∨ i'.isExiting = true)
    (hs : ∀ n, i'.supervisees.stateOf n = none ↔ i.supervisees.stateOf n = none) : Lapses i w i' w :=
  ⟨hi, fun n => (hs n).2, fun n => (and_iff_left (hs n).1).symm⟩

theorem refl (i : SupervisorInner) (w : IndexSet Name) : Lapses i w i w := of_eq (.inl rfl) fun _ => .rfl

theorem trans (h : Lapses i w i' w') (h' : Lapses i' w' i'' w'') : Lapses i w i'' w'' where
  inbox := by
    rcases h'.inbox with hi' | hx
    · rcases h.inbox with hi | hx
      · exact .inl (hi'.trans hi)
      · exact .inr ((congrArg (·.status.isExiting) hi').trans hx)
    · exact .inr hx
  gone n hn := h'.gone n (h.gone n hn)
  mem n := by
    rw [h'.mem, h.mem, and_assoc]
    refine and_congr_right fun _ => ⟨fun ⟨h₁, h₂⟩ hn => h₁ (h₂ hn), fun h₁ => ⟨fun hn => ?_, fun hn => ?_⟩⟩
    · exact h₁ (h'.gone n hn)
    · exact h.gone n (h₁ hn)

theorem after (h' : Lapses i' w' i'' w'') (h : Lapses i w i' w') : Lapses i w i'' w'' := h.trans h'

theorem of_permit : Lapses i w (i.acquireRestartPermit n).1 w := by
  refine of_eq (.inl ?_) fun m => by rw [stateOf_acquireRestartPermit]
  unfold acquireRestartPermit
  split <;> rfl

theorem of_permits : Lapses i w (i.acquirePermits n).1 w := by
  have h : Lapses i w i.acquirePermit.1 w := of_eq (.inl rfl) fun _ => .rfl
  unfold acquirePermits
  split
  · exact h.trans of_permit
  · exact h

theorem of_start {cause : StartCause} : Lapses i w (i.start n cause).1 w := by
  refine of_eq (.inl ?_) fun m => ?_
  · unfold start
    split <;> rfl
  · rw [stateOf_start]
    split
    · rename_i h
      simp [h.1, h.2]
    · rfl

theorem of_stop : Lapses i w (i.stop n).1 w := by
  refine of_eq (.inl ?_) fun m => ?_
  · unfold stop
    split <;> rfl
  · rw [stateOf_stop]
    split
    · rename_i h
      rw [h, Option.map_eq_none_iff]
    · rfl

theorem of_setState {state : SuperviseeState} : Lapses i w (i.setState n state) w := by
  refine of_eq (.inl ?_) fun m => ?_
  · unfold setState
    split <;> rfl
  · rw [stateOf_setState]
    split
    · rename_i h
      rw [h, Option.map_eq_none_iff]
    · rfl

theorem of_registerExiting : Lapses i w i.registerExiting w :=
  of_eq (.inr isExiting_registerExiting) fun _ => .rfl

theorem of_shutdown (exiting : IndexSet Name) : Lapses i w (i.shutdown exiting).1 w :=
  of_eq (.inr isExiting_shutdown) fun n => by rw [stateOf_shutdown, Option.map_eq_none_iff]

theorem of_removeSpec (exiting : IndexSet Name) :
    Lapses i w (i.removeSpec w exiting n).1 (i.removeSpec w exiting n).2.1 := by
  have hr : Removed n i (i.removeSpec w exiting n).1 := removed_removeSpec
  rcases hget : i.supervisees.get? n with _ | sv
  · rw [removeSpec_of_none (SuperviseeMap.stateOf_eq_none.2 hget)]
    exact refl i w
  · rw [removeSpec_of_some hget] at hr ⊢
    refine ⟨.inl rfl, fun m hm => ?_, fun m => ?_⟩
    · rw [hr.stateOf, hm, ite_self]
    · rw [IndexSet.mem_swapRemove, hr.stateOf, and_comm]
      refine and_congr_right fun _ => ?_
      split
      · rename_i hmn
        simp [hmn, SuperviseeMap.stateOf_of_get? hget]
      · rename_i hmn
        exact iff_of_true hmn id

end Lapses
end SupervisorInner

section
variable {σ : Type} [Strategy σ]

/-- `Lapses`, for the states of a strategy. -/
abbrev Lapsed (s s' : σ) : Prop :=
  Lapses (Strategy.inner s) (Strategy.initializing s) (Strategy.inner s') (Strategy.initializing s')

end

/-! ## One for one -/

namespace OneForOneSupervisor
variable {s : OneForOneSupervisor} {n : Name}

theorem lapsed_removeSpec : Lapsed s (s.removeSpec n).1 := .of_removeSpec s.exiting

theorem lapsed_shutdown : Lapsed s s.shutdown.1 := .of_shutdown s.exiting

theorem lapsed_handleExit {reason : ExitReason} : Lapsed s (s.handleExit n reason).1 := by
  unfold handleExit
  split
  · exact .refl _ _
  split
  · exact .refl _ _
  split
  · exact lapsed_removeSpec
  dsimp only
  split
  · exact Lapses.of_permits.trans .of_start
  · exact Lapses.of_permits.trans (.of_shutdown s.exiting)

end OneForOneSupervisor

/-! ## One for all -/

namespace OneForAllSupervisor
variable {s : OneForAllSupervisor} {n : Name} {l : List Name}

theorem lapsed_dropSpec : Lapsed s (s.dropSpec n).1 := by
  have h : Lapses s.inner s.initializing (s.inner.removeSpec s.initializing s.exiting n).1
    (s.inner.removeSpec s.initializing s.exiting n).2.1 := .of_removeSpec s.exiting
  unfold dropSpec
  split <;> rename_i heq <;> rw [heq] at h <;> exact h

theorem lapsed_dropAll : Lapsed s (s.dropAll l) := by
  induction l generalizing s with
  | nil => exact .refl _ _
  | cons n l ih => exact Lapses.trans lapsed_dropSpec ih

theorem lapses_startEach {i : SupervisorInner} {w : IndexSet Name} : Lapses i w (startEach i l) w := by
  induction l generalizing i with
  | nil => exact .refl _ _
  | cons n l ih => exact Lapses.after ih .of_start

theorem lapsed_finishCascade : Lapsed s s.finishCascade :=
  Lapses.trans (lapsed_dropAll (s := { s with cascadeDrop := .empty })) lapses_startEach

theorem lapsed_shutdown : Lapsed s s.shutdown.1 := .of_shutdown s.exiting

theorem lapsed_stopSiblings : Lapsed s (s.stopSiblings l).1 := by
  induction l generalizing s with
  | nil =>
    unfold stopSiblings
    split
    · exact lapsed_finishCascade
    · exact .refl _ _
  | cons next rest ih =>
    unfold stopSiblings
    split
    · exact ih
    split
    · dsimp only
      split
      · exact Lapses.after ih .of_stop
      · exact Lapses.after ih .of_stop
    dsimp only
    split
    · exact Lapses.of_permit.trans (.of_shutdown s.exiting)
    split
    · exact Lapses.after ih (Lapses.of_permit.trans .of_stop)
    · exact Lapses.after ih (Lapses.of_permit.trans .of_stop)

theorem lapsed_removeSpec : Lapsed s (s.removeSpec n).1 := by
  have h : Lapses s.inner s.initializing (s.inner.removeSpec s.initializing s.exiting n).1
    (s.inner.removeSpec s.initializing s.exiting n).2.1 := .of_removeSpec s.exiting
  unfold removeSpec
  split <;> rename_i heq <;> rw [heq] at h
  · exact h
  · dsimp only
    split
    · exact Lapses.after (lapsed_finishCascade (s := ⟨_, _, _, s.restarting.swapRemove n, _, _⟩)) h
    · exact h

theorem lapsed_handleExit {reason : ExitReason} : Lapsed s (s.handleExit n reason).1 := by
  unfold handleExit
  split
  · exact .refl _ _
  split
  · dsimp only
    split
    · exact lapsed_finishCascade (s := { s with restarting := s.restarting.swapRemove n })
    · exact .refl _ _
  split
  · exact .refl _ _
  split
  · exact lapsed_removeSpec
  dsimp only
  split
  · exact Lapses.of_permits.trans (.of_shutdown s.exiting)
  · exact Lapses.after lapsed_stopSiblings .of_permits

end OneForAllSupervisor

/-! ## Rest for one -/

namespace RestForOneSupervisor
variable {s : RestForOneSupervisor} {n : Name} {l r d : List Name}

theorem lapsed_shutdownNext : Lapsed s (s.shutdownNext l).1 := by
  induction l generalizing s with
  | nil => exact .refl _ _
  | cons next rest ih =>
    unfold shutdownNext
    split
    · exact ih
    dsimp only
    split
    · exact .of_stop
    · exact Lapses.after ih .of_stop

theorem lapsed_shutdown : Lapsed s s.shutdown.1 := by
  unfold shutdown
  split
  · exact .refl _ _
  · exact Lapses.of_registerExiting.trans
      (lapsed_shutdownNext (s := { s with inner := s.inner.registerExiting }))

theorem lapsed_advanceRestart : Lapsed s (s.advanceRestart l).1 := by
  induction l generalizing s with
  | nil => exact .refl _ _
  | cons next rest ih =>
    unfold advanceRestart
    split
    · exact ih
    dsimp only
    split
    · exact .of_start
    · exact Lapses.after ih .of_start
    · exact Lapses.after ih .of_start

theorem lapsed_dropSpec : Lapsed s (s.dropSpec n).1 := .of_removeSpec .empty

theorem lapsed_dropAll : Lapsed s (s.dropAll l) := by
  induction l generalizing s with
  | nil => exact .refl _ _
  | cons n l ih => exact Lapses.trans lapsed_dropSpec ih

theorem lapsed_stopNext : Lapsed s (s.stopNext l r d).1 := by
  induction l generalizing s r d with
  | nil =>
    unfold stopNext
    exact Lapses.trans lapsed_dropAll lapsed_advanceRestart
  | cons next rest ih =>
    unfold stopNext
    split
    · exact ih
    split
    · dsimp only
      split
      · exact .of_stop
      · exact Lapses.after ih .of_stop
    dsimp only
    split
    · exact Lapses.of_permit.trans
        (lapsed_shutdown (s := { s with inner := (s.inner.acquireRestartPermit next).1 }))
    split
    · exact Lapses.of_permit.trans .of_stop
    · exact Lapses.after ih (Lapses.of_permit.trans .of_stop)

theorem lapsed_advanceCascade : Lapsed s s.advanceCascade.1 := by
  unfold advanceCascade
  split
  · exact .refl _ _
  · exact lapsed_stopNext (s := { s with cascade := .idle })
  · exact lapsed_advanceRestart (s := { s with cascade := .idle })
  · exact lapsed_shutdownNext (s := { s with cascade := .idle })

theorem lapsed_removeSpec : Lapsed s (s.removeSpec n).1 := by
  have h := lapsed_dropSpec (s := s) (n := n)
  unfold removeSpec
  split <;> rename_i heq <;> rw [heq] at h
  · exact h
  · dsimp only
    split
    · exact Lapses.trans h lapsed_advanceCascade
    · exact h

theorem lapsed_afterInitialized : Lapsed s (s.afterInitialized n).1 := by
  unfold afterInitialized
  split
  · exact lapsed_advanceCascade
  · exact .refl _ _

theorem lapsed_handleCascadeCurrentExit {reason : ExitReason} :
    Lapsed s (s.handleCascadeCurrentExit n reason).1 := by
  unfold handleCascadeCurrentExit
  split
  · split
    · exact lapsed_advanceCascade
    split
    · exact lapsed_removeSpec
    dsimp only
    split
    · exact Lapses.of_permit.trans
        (lapsed_shutdown (s := { s with inner := (s.inner.acquireRestartPermit n).1 }))
    · exact Lapses.of_permit.trans .of_start
  · exact lapsed_advanceCascade

theorem lapsed_startCascade {x : RestForOneSupervisor × ControlFlow} (h : s.startCascade n = some x) :
    Lapsed s x.1 := by
  unfold startCascade at h
  dsimp only at h
  split at h
  · cases h
    exact lapsed_stopNext
  · cases h

theorem lapsed_handleExit {reason : ExitReason} {x : RestForOneSupervisor × ControlFlow}
    (h : s.handleExit n reason = some x) : Lapsed s x.1 := by
  unfold handleExit at h
  split at h
  · cases h
    exact lapsed_handleCascadeCurrentExit
  split at h
  · cases h
    exact .refl _ _
  split at h
  · cases h
    exact .refl _ _
  split at h
  · cases h
    exact lapsed_removeSpec
  dsimp only at h
  split at h
  · cases h
    exact Lapses.of_permits.trans
      (lapsed_shutdown (s := { s with inner := (s.inner.acquirePermits n).1 }))
  have hp : Lapses s.inner s.initializing (s.inner.acquirePermits n).1 s.initializing := .of_permits
  split at h
  · exact hp.trans (lapsed_startCascade h)
  · obtain ⟨pending, rfl, -⟩ := mergeIntoStopping_spec h
    exact hp
  · exact hp.trans (lapsed_startCascade h)
  · cases h

end RestForOneSupervisor
end Zestors
