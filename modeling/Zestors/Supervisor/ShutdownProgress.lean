import Zestors.Supervisor.Awaits

/-!
# The shutdown of one-for-one and one-for-all supervisors

A supervisor that is exiting leaves its loop with the exit of the last supervisee it waits for. It
has somebody to wait for until then (`ExitsOwed`), as long as that last one is not removed: a removal
takes the name out of `exiting` and does not leave the loop.
-/

namespace Zestors
open SupervisorInner LoopState Strategy

variable {i i' : SupervisorInner} {exiting exiting' : IndexSet Name} {n : Name} {ev : Event}

/-- A supervisor that is exiting waits for somebody. -/
def Waiting (i : SupervisorInner) (exiting : IndexSet Name) : Prop :=
  i.isExiting = true → exiting.isEmpty = false

/-- A supervisor that is exiting waits for somebody, and for supervisees that are shutting down
only. -/
def ExitsOwed (i : SupervisorInner) (exiting : IndexSet Name) : Prop :=
  i.isExiting = true → exiting.isEmpty = false ∧
    ∀ n ∈ exiting, i.supervisees.stateOf n = some .shuttingDown

/-- Whether the event does not remove the only name that the shutdown waits for. -/
def KeepsAwaited (exiting : IndexSet Name) (ev : Event) : Prop :=
  match ev.removes with
  | some n => n ∈ exiting → ∃ m ∈ exiting.toList, m ≠ n
  | none => True

instance (exiting : IndexSet Name) (ev : Event) : Decidable (KeepsAwaited exiting ev) := by
  unfold KeepsAwaited
  exact match ev.removes with
    | some _ | none => inferInstance

theorem Waiting.mono (h : Waiting i exiting) (hx : i'.isExiting = i.isExiting)
    (he : ∀ n ∈ exiting, n ∈ exiting') : Waiting i' exiting' := fun hx' => by
  obtain ⟨n, hn⟩ := IndexSet.isEmpty_eq_false.1 (h (hx ▸ hx'))
  exact IndexSet.isEmpty_eq_false.2 ⟨n, he n hn⟩

theorem Waiting.removed (h : Waiting i exiting) (hx : i'.isExiting = i.isExiting)
    (hok : n ∈ exiting → ∃ m ∈ exiting, m ≠ n) : Waiting i' (exiting.swapRemove n) := fun hx' =>
  IndexSet.isEmpty_swapRemove_eq_false (h (hx ▸ hx')) hok

theorem KeepsAwaited.removes (h : KeepsAwaited exiting ev) (hr : ev.removes = some n)
    (hn : n ∈ exiting) : ∃ m ∈ exiting, m ≠ n := by
  rw [KeepsAwaited, hr] at h
  exact h hn

/-! ## One for one -/

namespace OneForOneSupervisor
variable {s : OneForOneSupervisor}

theorem shutdown_waiting : (ofFlow s.shutdown).Sat (fun s => Waiting s.inner s.exiting)
    fun _ => True := by
  show (ofFlow (_, (s.inner.shutdown s.exiting).2.2)).Sat _ _
  rw [shutdown_flow]
  split
  · trivial
  · exact fun _ => Bool.eq_false_iff.2 (by assumption)

theorem removeSpec_waiting (h : Waiting s.inner s.exiting)
    (hok : n ∈ s.exiting → ∃ m ∈ s.exiting, m ≠ n) :
    Waiting (s.removeSpec n).1.inner (s.removeSpec n).1.exiting := by
  have hcase := removeSpec_case s n
  generalize (s.removeSpec n).1 = s' at hcase ⊢
  cases hcase with
  | absent _ => exact h
  | drop _ hr => exact h.removed hr.isExiting hok

theorem handleExit_waiting {reason : ExitReason} (h : Waiting s.inner s.exiting)
    (hn : s.inner.supervisees.stateOf n = some .dead) :
    (ofFlow (s.handleExit n reason)).Sat (fun s => Waiting s.inner s.exiting) fun _ => True := by
  have hcase := handleExit_case reason hn
  have hp := permitted_acquirePermits (s := s.inner) (n := n)
  generalize s.handleExit n reason = x at hcase ⊢
  cases hcase with
  | awaited _ =>
    split
    · trivial
    · exact fun _ => Bool.eq_false_iff.2 (by assumption)
  | drop he => exact removeSpec_waiting h fun hn => absurd hn he
  | refused _ => exact shutdown_waiting
  | restart _ _ _ => exact h.mono (frame_start.isExiting.trans hp.isExiting) fun _ hm => hm

theorem waiting_obligations : Obligations
    (fun s : OneForOneSupervisor => Waiting s.inner s.exiting ∧ AwaitsAll s.inner s.exiting)
    (fun s => KeepsAwaited s.exiting) (fun s => Waiting s.inner s.exiting) fun _ => True where
  keep s h := h.1
  inbox s inbox h hx := h.mono hx fun _ hm => hm
  shutdown s inbox h hx := shutdown_waiting
  add s ev spec h _ _ := by
    refine h.1.mono ?_ fun _ hm => hm
    show (s.inner.addSpec spec).1.isExiting = s.inner.isExiting
    rcases addSpec_cases s.inner spec with heq | hadd
    · rw [heq]
    · exact hadd.isExiting
  remove s ev name h hok hr := removeSpec_waiting h.1 (hok.removes hr)
  item s name item i h _ hy := by
    cases hy with
    | started _ => exact h.1.mono frame_setState.isExiting fun _ hm => hm
    | initialized _ =>
      exact h.1.mono (same_handleInitialized.isExiting.trans frame_setState.isExiting) fun _ hm => hm
    | exit hst hr hfit =>
      rw [handleItem_of_exitReason hr]
      exact handleExit_waiting (s := { s with inner := s.inner.setState name .dead })
        (h.1.mono frame_setState.isExiting fun _ hm => hm)
        (stateOf_setState_dead (not_gone_of_fits hst hfit))

end OneForOneSupervisor

/-! ## One for all -/

namespace OneForAllSupervisor
variable {s : OneForAllSupervisor}

theorem shutdown_waiting : (ofFlow s.shutdown).Sat (fun s => Waiting s.inner s.exiting)
    fun _ => True := by
  show (ofFlow (_, (s.inner.shutdown s.exiting).2.2)).Sat _ _
  rw [shutdown_flow]
  split
  · trivial
  · exact fun _ => Bool.eq_false_iff.2 (by assumption)

/-- The end of a cascade that is to drop nobody of those who are awaited. -/
theorem finishCascade_waiting (h : Waiting s.inner s.exiting)
    (hd : ∀ n ∈ s.exiting, n ∉ s.cascadeDrop) :
    Waiting s.finishCascade.inner s.finishCascade.exiting :=
  have hf := cascadeFinished_finishCascade s
  h.mono hf.isExiting fun n hn => (hf.mem_exiting n).2 ⟨hn, fun hm => absurd hm (hd n hn)⟩

/-- Whoever the shutdown waits for and the cascade is to drop, the cascade waits for too. -/
theorem Folding.mem_restarting (h : Folding s) (hn : n ∈ s.exiting) (hd : n ∈ s.cascadeDrop) :
    n ∈ s.restarting := by
  rcases h.drop n hd with he | ⟨-, hr⟩
  · exact absurd he (by simp [h.awaits.shuttingDown n hn])
  · exact hr

theorem foldEnds_waiting {l : List Name} {x : OneForAllSupervisor × ControlFlow}
    (h : Waiting s.inner s.exiting) (hf : Folding s) (hx : FoldEnds s l x) :
    (ofFlow x).Sat (fun s => Waiting s.inner s.exiting) fun _ => True := by
  cases hx with
  | refused _ _ => exact shutdown_waiting
  | @done s' hs' =>
    have h' : Waiting s'.inner s'.exiting := h.mono hs'.isExiting fun n hn => hs'.exiting ▸ hn
    split
    · rename_i hempty
      refine finishCascade_waiting h' fun n hn hd => ?_
      exact IndexSet.isEmpty_iff.1 hempty n ((hf.folded hs').mem_restarting hn hd)
    · exact h'

theorem removeSpec_waiting (h : Waiting s.inner s.exiting) (hf : Folding s)
    (hok : n ∈ s.exiting → ∃ m ∈ s.exiting, m ≠ n) :
    Waiting (s.removeSpec n).1.inner (s.removeSpec n).1.exiting := by
  have hr := removed_forget (s := s) (n := n)
  have h' : Waiting (s.forget n).inner (s.forget n).exiting := h.removed hr.isExiting hok
  have hcase := removeSpec_case s n
  generalize (s.removeSpec n).1 = s' at hcase ⊢
  cases hcase with
  | absent _ => exact h
  | drop _ _ => exact h'
  | finish _ _ hall =>
    refine finishCascade_waiting h' fun m hm hd => ?_
    obtain ⟨hmn, hm⟩ := IndexSet.mem_swapRemove.1 hm
    exact hmn (hall m (hf.mem_restarting hm hd))

theorem handleExit_waiting {reason : ExitReason} (h : Waiting s.inner s.exiting) (hf : Folding s)
    (hn : ¬ Gone s.inner n) :
    (ofFlow ({ s with inner := s.inner.setState n .dead }.handleExit n reason)).Sat
      (fun s => Waiting s.inner s.exiting) fun _ => True := by
  have hcase := handleExit_case (s := { s with inner := s.inner.setState n .dead })
    reason (stateOf_setState_dead hn)
  have hp := permitted_acquirePermits (s := s.inner.setState n .dead) (n := n)
  have h' : Waiting (s.inner.setState n .dead) s.exiting :=
    h.mono frame_setState.isExiting fun _ hm => hm
  have hset : n ∉ s.exiting → Folding { s with inner := s.inner.setState n .dead } := fun he =>
    hf.setState he fun _ => rfl
  generalize OneForAllSupervisor.handleExit _ n reason = x at hcase ⊢
  cases hcase with
  | awaited _ =>
    split
    · trivial
    · exact fun _ => Bool.eq_false_iff.2 (by assumption)
  | member _ _ _ => exact h'
  | last he _ hall =>
    refine finishCascade_waiting h' fun m hm hd => ?_
    exact he (hall m (hf.mem_restarting hm hd) ▸ hm)
  | drop he _ => exact removeSpec_waiting h' (hset he) fun hn => absurd hn he
  | refused _ _ => exact shutdown_waiting
  | trigger he _ _ _ _ hends =>
    refine foldEnds_waiting ?_ ?_ hends
    · exact h'.mono hp.isExiting fun _ hm => hm
    · exact (hset he).permitted hp

theorem waiting_obligations : Obligations
    (fun s : OneForAllSupervisor => Waiting s.inner s.exiting ∧ Folding s)
    (fun s => KeepsAwaited s.exiting) (fun s => Waiting s.inner s.exiting) fun _ => True where
  keep s h := h.1
  inbox s inbox h hx := h.mono hx fun _ hm => hm
  shutdown s inbox h hx := shutdown_waiting
  add s ev spec h _ _ := by
    refine h.1.mono ?_ fun _ hm => hm
    show (s.inner.addSpec spec).1.isExiting = s.inner.isExiting
    rcases addSpec_cases s.inner spec with heq | hadd
    · rw [heq]
    · exact hadd.isExiting
  remove s ev name h hok hr := removeSpec_waiting h.1 h.2 (hok.removes hr)
  item s name item i h _ hy := by
    cases hy with
    | started _ => exact h.1.mono frame_setState.isExiting fun _ hm => hm
    | initialized _ =>
      exact h.1.mono (same_handleInitialized.isExiting.trans frame_setState.isExiting) fun _ hm => hm
    | exit hst hr hfit =>
      rw [handleItem_of_exitReason hr]
      exact handleExit_waiting h.1 h.2 (not_gone_of_fits hst hfit)

end OneForAllSupervisor

/-! ## Runs -/

/-- The shutdown of a one-for-one or one-for-all supervisor does not get stuck: as long as the only
name that it waits for is not removed, it waits for somebody, and for supervisees that still owe it
an exit. -/
theorem exitsOwed_of_keepsAwaited (s : OneForOneSupervisor) (t : OneForAllSupervisor) :
    ((runsWhere fun s : OneForOneSupervisor => KeepsAwaited s.exiting).Reachable (.running s) →
      ExitsOwed s.inner s.exiting) ∧
    ((runsWhere fun s : OneForAllSupervisor => KeepsAwaited s.exiting).Reachable (.running t) →
      ExitsOwed t.inner t.exiting) := by
  constructor <;> intro hr hx
  · have ha : AwaitsAll s.inner s.exiting :=
      OneForOneSupervisor.awaitsAll_of_reachable (runs_of_runsWhere hr)
    refine ⟨?_, ha.shuttingDown⟩
    refine runsWhere_invariant (fun _ => OneForOneSupervisor.awaitsAll_of_reachable)
      (fun st hst => ?_) OneForOneSupervisor.waiting_obligations hr hx
    obtain ⟨s₀, s, initializing, hfresh, rfl⟩ := fresh_of_begins hst
    exact fun he => absurd (he.symm.trans hfresh.notExiting) (by simp)
  · have ha : OneForAllSupervisor.Folding t :=
      OneForAllSupervisor.folding_of_reachable (runs_of_runsWhere hr)
    refine ⟨?_, ha.awaits.shuttingDown⟩
    refine runsWhere_invariant (fun _ => OneForAllSupervisor.folding_of_reachable)
      (fun st hst => ?_) OneForAllSupervisor.waiting_obligations hr hx
    obtain ⟨s₀, s, initializing, hfresh, rfl⟩ := fresh_of_begins hst
    exact fun he => absurd (he.symm.trans hfresh.notExiting) (by simp)

/-- `a` and `b` are being shut down. -/
def shuttingBothDown : List Event :=
  comesUp "a" ++ comesUp "b" ++ [.signal .shutdown]

/-- `a` may be removed then: the shutdown still waits for `b`. -/
theorem exitsOwed_of_keepsAwaited_both :
    ∃ (s : OneForOneSupervisor) (t : OneForAllSupervisor),
      (s.inner.isExiting = true ∧ ExitsOwed s.inner s.exiting) ∧
      (t.inner.isExiting = true ∧ ExitsOwed t.inner t.exiting) := by
  have hnodup : ([childSpec "a" .always none, childSpec "b" .never none].map ChildSpec.name).Nodup :=
    by decide
  obtain ⟨s, hs, hsx⟩ := exists_running_where
    (fun s : OneForOneSupervisor => KeepsAwaited s.exiting)
    (p := fun s => s.inner.isExiting = true) (begins_booted _ hnodup .default)
    (shuttingBothDown ++ [.source (.removed ⟨"a"⟩)]) (by decide)
  obtain ⟨t, ht, htx⟩ := exists_running_where
    (fun s : OneForAllSupervisor => KeepsAwaited s.exiting)
    (p := fun s => s.inner.isExiting = true) (begins_booted _ hnodup .default)
    (shuttingBothDown ++ [.source (.removed ⟨"a"⟩)]) (by decide)
  have h := exitsOwed_of_keepsAwaited s t
  exact ⟨s, t, ⟨hsx, h.1 hs⟩, htx, h.2 ht⟩

/-- Once both of them have been removed, the supervisor waits for nobody and does not stop. -/
theorem not_exitsOwed :
    (¬ ∀ s : OneForOneSupervisor, (runs OneForOneSupervisor).Reachable (.running s) →
      ExitsOwed s.inner s.exiting) ∧
    ¬ ∀ s : OneForAllSupervisor, (runs OneForAllSupervisor).Reachable (.running s) →
      ExitsOwed s.inner s.exiting := by
  have hnodup : ([childSpec "a" .always none, childSpec "b" .never none].map ChildSpec.name).Nodup :=
    by decide
  have hbad : ∀ {i : SupervisorInner} {exiting : IndexSet Name},
      i.isExiting = true ∧ exiting.isEmpty = true → ¬ ExitsOwed i exiting := fun h howed => by
    simp [(howed h.1).1] at h
  constructor <;> intro hall
  · obtain ⟨s, hr, hs⟩ := exists_running
      (p := fun s : OneForOneSupervisor => s.inner.isExiting = true ∧ s.exiting.isEmpty = true)
      (begins_booted _ hnodup .default)
      (shuttingBothDown ++ [.source (.removed ⟨"a"⟩), .source (.removed ⟨"b"⟩)]) (by decide)
    exact hbad hs (hall s hr)
  · obtain ⟨s, hr, hs⟩ := exists_running
      (p := fun s : OneForAllSupervisor => s.inner.isExiting = true ∧ s.exiting.isEmpty = true)
      (begins_booted _ hnodup .default)
      (shuttingBothDown ++ [.source (.removed ⟨"a"⟩), .source (.removed ⟨"b"⟩)]) (by decide)
    exact hbad hs (hall s hr)

end Zestors
