import Zestors.Supervisor.OneForAllSpec
import Zestors.Supervisor.OneForOneSpec
import Zestors.Supervisor.RestForOneSpec

/-!
# Every start is recorded

The history variable `starts` misses nothing: whoever becomes `Starting` in a turn of the loop is
recorded in it, together with whether the supervisor was exiting (`traced_of_step`). So what is
proved about `starts` is proved about the states of the supervisees.
-/

namespace Zestors
open SupervisorInner LoopState Strategy

namespace SupervisorInner
variable {i i' i'' : SupervisorInner} {l : List Name} {n : Name}

/-- Between `i` and `i'` every start was recorded, and a supervisor that was exiting still is. -/
structure Traced (i i' : SupervisorInner) : Prop where
  exiting : i.isExiting = true → i'.isExiting = true
  recorded : ∃ new, i'.starts = i.starts ++ new ∧
    (i.isExiting = true → ∀ e ∈ new, e.exiting = true) ∧
    ∀ n, i'.supervisees.stateOf n = some .starting →
      i.supervisees.stateOf n = some .starting ∨ ∃ e ∈ new, e.name = n

namespace Traced

theorem of_starts_eq (hx : i.isExiting = true → i'.isExiting = true) (hs : i'.starts = i.starts)
    (h : ∀ n, i'.supervisees.stateOf n = some .starting →
      i.supervisees.stateOf n = some .starting) : Traced i i' :=
  ⟨hx, [], by simpa using hs, by simp, fun n hn => .inl (h n hn)⟩

theorem refl (i : SupervisorInner) : Traced i i := of_starts_eq id rfl fun _ => id

theorem trans (h : Traced i i') (h' : Traced i' i'') : Traced i i'' := by
  obtain ⟨hx, new, hs, he, hn⟩ := h
  obtain ⟨hx', new', hs', he', hn'⟩ := h'
  refine ⟨hx' ∘ hx, new ++ new', by rw [hs', hs, List.append_assoc], fun h e hm => ?_, fun n h => ?_⟩
  · exact (List.mem_append.1 hm).elim (he h e) (he' (hx h) e)
  · rcases hn' n h with h | ⟨e, hm, rfl⟩
    · exact (hn n h).imp_right fun ⟨e, hm, heq⟩ => ⟨e, List.mem_append_left _ hm, heq⟩
    · exact .inr ⟨e, List.mem_append_right _ hm, rfl⟩

theorem of_stopped (h : Stopped l i i') : Traced i i' := by
  refine of_starts_eq (fun hx => h.isExiting.trans hx) h.starts fun n hn => ?_
  rw [h.stateOf] at hn
  split at hn
  · obtain ⟨st, -, hst⟩ := Option.map_eq_some_iff.1 hn
    cases st <;> cases hst
  · exact hn

theorem of_permitted (h : Permitted i i') : Traced i i' :=
  of_starts_eq (fun hx => h.isExiting.trans hx) h.starts fun n hn => h.stateOf n ▸ hn

theorem of_removed (h : Removed n i i') : Traced i i' :=
  of_starts_eq (fun hx => h.isExiting.trans hx) h.starts fun _ hj => (stateOf_of_removed h hj).1

theorem of_setState {state : SuperviseeState} (hne : state ≠ .starting) :
    Traced i (i.setState n state) := by
  refine of_starts_eq (fun hx => frame_setState.isExiting.trans hx) starts_setState fun j hj => ?_
  rw [stateOf_setState] at hj
  split at hj
  · obtain ⟨_, -, rfl⟩ := Option.map_eq_some_iff.1 hj
    exact absurd rfl hne
  · exact hj

theorem of_start {cause : StartCause} : Traced i (i.start n cause).1 := by
  by_cases hd : i.supervisees.stateOf n = some .dead
  · refine ⟨fun hx => frame_start.isExiting.trans hx, [⟨cause, n, i.isExiting⟩], ?_, ?_, fun j hj => ?_⟩
    · rw [starts_start, if_pos hd]
    · simp
    · rw [stateOf_start] at hj
      split at hj
      · exact .inr ⟨_, List.mem_singleton_self _, (‹_ ∧ _› : j = n ∧ _).1.symm⟩
      · exact .inl hj
  · rw [start_of_not_dead hd]
    exact .refl i

theorem of_addSpec (spec : ChildSpec) : Traced i (i.addSpec spec).1 := by
  rcases addSpec_cases i spec with heq | hadd
  · rw [heq]; exact .refl i
  · refine ⟨fun hx => hadd.isExiting.trans hx, [⟨.addSpec, spec.name, false⟩], hadd.starts,
      fun hx => by simp [hadd.notExiting] at hx, fun j hj => ?_⟩
    rw [hadd.stateOf] at hj
    split at hj
    · exact .inr ⟨_, List.mem_singleton_self _, (‹_› : j = spec.name).symm⟩
    · exact .inl hj

theorem of_shutdown (exiting : IndexSet Name) : Traced i (i.shutdown exiting).1 := by
  refine of_starts_eq (fun _ => isExiting_shutdown) rfl fun n hn => ?_
  rw [stateOf_shutdown] at hn
  obtain ⟨st, -, hst⟩ := Option.map_eq_some_iff.1 hn
  cases st <;> cases hst

theorem of_registerExiting : Traced i i.registerExiting :=
  of_starts_eq (fun _ => isExiting_registerExiting) rfl fun _ => id

end Traced
end SupervisorInner

/-! ## One for one -/

namespace OneForOneSupervisor
variable {s : OneForOneSupervisor} {n : Name}

theorem traced_removeSpec : Traced s.inner (s.removeSpec n).1.inner := by
  have hcase := removeSpec_case s n
  generalize (s.removeSpec n).1 = s' at hcase ⊢
  cases hcase with
  | absent _ => exact .refl _
  | drop _ hr => exact .of_removed hr

theorem traced_handleExit {reason : ExitReason} (hn : s.inner.supervisees.stateOf n = some .dead) :
    Traced s.inner (s.handleExit n reason).1.inner := by
  have hcase := handleExit_case reason hn
  have hp := Traced.of_permitted (permitted_acquirePermits (s := s.inner) (n := n))
  generalize s.handleExit n reason = x at hcase ⊢
  cases hcase with
  | awaited _ => exact .refl _
  | drop _ => exact traced_removeSpec
  | refused _ => exact hp.trans (.of_shutdown s.exiting)
  | restart _ _ _ => exact hp.trans .of_start

end OneForOneSupervisor

/-! ## One for all -/

namespace OneForAllSupervisor
variable {s : OneForAllSupervisor} {l : List Name} {n : Name}

theorem traced_finishCascade : Traced s.inner s.finishCascade.inner := by
  have hf := cascadeFinished_finishCascade s
  obtain ⟨l, -, hl, hstarts⟩ := hf.starts
  refine ⟨fun hx => hf.isExiting.trans hx, _, hstarts, fun hx e he => ?_, fun n hn => ?_⟩
  · obtain ⟨_, -, rfl⟩ := List.mem_map.1 he
    exact hx
  · rw [hf.stateOf] at hn
    split_ifs at hn with hdrop hrestart
    · exact .inr ⟨_, List.mem_map.2 ⟨n, (hl n).2 ⟨hrestart.1, hdrop, hrestart.2⟩, rfl⟩, rfl⟩
    · exact .inl hn

theorem traced_foldEnds {x : OneForAllSupervisor × ControlFlow} (h : FoldEnds s l x) :
    Traced s.inner x.1.inner := by
  cases h with
  | @refused s' pre post c _ hf =>
    have hp : Traced s'.inner (s'.inner.acquireRestartPermit c).1 :=
      .of_starts_eq (fun hx => frame_acquireRestartPermit.isExiting.trans hx)
        starts_acquireRestartPermit fun n hn => by simpa using hn
    exact ((Traced.of_stopped hf.toStopped).trans hp).trans (.of_shutdown s'.exiting)
  | @done s' hf =>
    refine (Traced.of_stopped hf.toStopped).trans ?_
    show Traced s'.inner (if s'.restarting.isEmpty then s'.finishCascade else s').inner
    split
    · exact traced_finishCascade
    · exact .refl _

theorem traced_removeSpec : Traced s.inner (s.removeSpec n).1.inner := by
  have hr := Traced.of_removed (removed_forget (s := s) (n := n))
  have hcase := removeSpec_case s n
  generalize (s.removeSpec n).1 = s' at hcase ⊢
  cases hcase with
  | absent _ => exact .refl _
  | drop _ _ => exact hr
  | finish _ _ _ => exact hr.trans traced_finishCascade

theorem traced_handleExit {reason : ExitReason} (hn : s.inner.supervisees.stateOf n = some .dead) :
    Traced s.inner (s.handleExit n reason).1.inner := by
  have hcase := handleExit_case reason hn
  have hp := Traced.of_permitted (permitted_acquirePermits (s := s.inner) (n := n))
  generalize s.handleExit n reason = x at hcase ⊢
  cases hcase with
  | awaited _ => exact .refl _
  | member _ _ _ => exact .refl _
  | last _ _ _ =>
    exact traced_finishCascade (s := { s with restarting := s.restarting.swapRemove n })
  | drop _ _ => exact traced_removeSpec
  | refused _ _ => exact hp.trans (.of_shutdown s.exiting)
  | trigger _ _ _ _ _ hends => exact hp.trans (traced_foldEnds hends)

end OneForAllSupervisor

/-! ## Rest for one -/

namespace RestForOneSupervisor
variable {s : RestForOneSupervisor} {l r d : List Name} {n : Name}

theorem traced_shutdownNext : Traced s.inner (s.shutdownNext l).1.inner := by
  rcases shutdownNext_spec s l with ⟨i, heq, hst, -⟩ | ⟨i, pre, c, post, -, heq, hst, -⟩ <;>
    rw [heq] <;> exact .of_stopped hst

theorem traced_shutdown : Traced s.inner s.shutdown.1.inner := by
  rcases shutdown_cases s with ⟨-, heq⟩ | ⟨c, p, hc, heq⟩ <;> rw [heq]
  · exact Traced.of_registerExiting.trans
      (traced_shutdownNext (s := { s with inner := s.inner.registerExiting }))
  · exact .refl _

theorem traced_advanceRestart : Traced s.inner (s.advanceRestart l).1.inner := by
  rcases advanceRestart_spec s l with ⟨heq, -⟩ | ⟨pre, c, post, -, heq, -⟩ <;> rw [heq]
  · exact .refl _
  · exact .of_start

theorem traced_stopNext : Traced s.inner (s.stopNext l r d).1.inner := by
  have hends := stopNext_ends s l r d
  generalize s.stopNext l r d = x at hends ⊢
  cases hends with
  | waits _ hst _ _ => exact .of_stopped hst
  | @refused i pre post c _ hst _ _ _ _ =>
    have hp : Traced i (i.acquireRestartPermit c).1 :=
      .of_starts_eq (fun hx => frame_acquireRestartPermit.isExiting.trans hx)
        starts_acquireRestartPermit fun n hn => by simpa using hn
    exact ((Traced.of_stopped hst).trans hp).trans
      (traced_shutdown (s := { s with inner := (i.acquireRestartPermit c).1 }))
  | @done i hst _ =>
    have hd := droppedAll { s with inner := i } (d ++ l.filter fun n => Droppable s.inner n)
    refine (Traced.of_stopped hst).trans (.trans ?_ traced_advanceRestart)
    refine .of_starts_eq (fun hx => hd.isExiting.trans hx) hd.starts fun n hn => ?_
    rw [hd.stateOf] at hn
    split at hn
    · cases hn
    · exact hn

theorem traced_advanceCascade : Traced s.inner s.advanceCascade.1.inner := by
  unfold advanceCascade
  split
  · exact .refl _
  · exact traced_stopNext (s := { s with cascade := .idle })
  · exact traced_advanceRestart (s := { s with cascade := .idle })
  · exact traced_shutdownNext (s := { s with cascade := .idle })

theorem traced_removeSpec : Traced s.inner (s.removeSpec n).1.inner := by
  have hr := Traced.of_removed (removed_dropSpec (s := s) (n := n))
  have hcase := removeSpec_case s n
  generalize (s.removeSpec n).1 = s' at hcase ⊢
  cases hcase with
  | absent _ => exact .refl _
  | other _ => exact hr
  | current _ _ => exact hr.trans traced_advanceCascade

theorem traced_handleExit {reason : ExitReason} (hn : s.inner.supervisees.stateOf n = some .dead) :
    (ofOutcome (s.handleExit n reason)).Sat (fun s' => Traced s.inner s'.inner)
      fun s' => Traced s.inner s'.inner := by
  have hcase := handleExit_case reason hn
  have hp := Traced.of_permitted (permitted_acquirePermits (s := s.inner) (n := n))
  have hpermit : Traced s.inner (s.inner.acquireRestartPermit n).1 :=
    .of_starts_eq (fun hx => frame_acquireRestartPermit.isExiting.trans hx)
      starts_acquireRestartPermit fun n hn => by simpa using hn
  have hd := Traced.of_removed (removed_dropSpec (s := s) (n := n))
  have hall : ∀ {x : RestForOneSupervisor × ControlFlow}, Traced s.inner x.1.inner →
      (ofFlow x).Sat (fun s' => Traced s.inner s'.inner) fun s' => Traced s.inner s'.inner :=
    fun h => sat_of_fst h h
  generalize s.handleExit n reason = x at hcase ⊢
  cases hcase with
  | advance _ _ => exact hall traced_advanceCascade
  | dropCurrent _ => exact hd.trans traced_advanceCascade
  | giveUp _ => exact hall (hpermit.trans
      (traced_shutdown (s := { s with inner := (s.inner.acquireRestartPermit n).1 })))
  | retry _ _ _ => exact hpermit.trans .of_start
  | queued _ _ => exact .refl _
  | drop _ => exact hd
  | refused _ _ => exact hall (hp.trans
      (traced_shutdown (s := { s with inner := (s.inner.acquirePermits n).1 })))
  | trigger _ _ _ _ => exact hall (hp.trans (traced_stopNext
      (s := { s with inner := (s.inner.acquirePermits n).1, cascade := .idle })))
  | @merge c p r d _ _ _ _ _ =>
    rcases hm : mergeIntoStopping _ n c p r d with _ | x
    · trivial
    · obtain ⟨pending, rfl, -, -⟩ := mergeIntoStopping_spec hm
      exact hp
  | unreachable => trivial

end RestForOneSupervisor

/-! ## Turns of the loop -/

variable {σ : Type} [Strategy σ] {s : σ}

/-- The loop state comes after `i`, with every start recorded. -/
def LoopState.TracedFrom (i : SupervisorInner) : LoopState σ → Prop :=
  Sat (fun s => Traced i (inner s)) fun s => Traced i (inner s)

/-- What a strategy has to show of its own handlers. -/
structure TracedHandlers (σ : Type) [Strategy σ] : Prop where
  inner_setInner : ∀ (s : σ) i, inner (setInner s i) = i
  inner_setInitializing : ∀ (s : σ) initializing, inner (setInitializing s initializing) = inner s
  shutdown : ∀ s : σ, Traced (inner s) (inner (shutdown s).1)
  removeSpec : ∀ (s : σ) n, Traced (inner s) (inner (removeSpec s n).1)
  afterInitialized : ∀ (s : σ) n, Traced (inner s) (inner (afterInitialized s n).1)
  handleExit : ∀ (s : σ) n reason, (inner s).supervisees.stateOf n = some .dead →
    (ofOutcome (handleExit s n reason)).TracedFrom (inner s)

theorem TracedHandlers.obligations (h : TracedHandlers σ) (s₀ : σ) : Obligations (· = s₀)
    (fun _ _ => True) (fun s => Traced (inner s₀) (inner s)) fun s => Traced (inner s₀) (inner s) where
  keep s hs := hs ▸ .refl _
  inbox s inbox hs hx := by
    refine hs.trans ?_
    rw [withInbox, h.inner_setInner]
    exact .of_stopped (Same.of_inbox hx)
  shutdown s inbox hs hx := by
    subst hs
    have hin : Traced (inner s) (inner (withInbox s inbox)) := by
      rw [withInbox, h.inner_setInner]
      exact .of_starts_eq (fun _ => hx) rfl fun _ => id
    exact sat_of_fst (hin.trans (h.shutdown _)) (hin.trans (h.shutdown _))
  add s ev spec hs _ _ := by
    subst hs
    show Traced (inner s) (inner (setInner s ((inner s).addSpec spec).1))
    rw [h.inner_setInner]
    exact .of_addSpec spec
  remove s ev name hs _ _ := hs ▸ h.removeSpec s name
  item s name item i hs _ hy := by
    subst hs
    have hset : ∀ j, inner (setInner s j) = j := h.inner_setInner s
    cases hy with
    | started _ =>
      show Traced (inner s) (inner (setInner s _))
      rw [hset]
      exact .of_setState (by simp)
    | initialized _ =>
      have hup : Traced (inner s) (inner (Strategy.handleInitialized
          (setInner s ((inner s).setState name .alive)) name)) := by
        rw [Strategy.handleInitialized, h.inner_setInitializing, h.inner_setInner, hset]
        exact (Traced.of_setState (by simp)).trans (.of_stopped same_handleInitialized)
      exact sat_of_fst (hup.trans (h.afterInitialized _ _)) (hup.trans (h.afterInitialized _ _))
    | exit hst hr hfit =>
      rw [handleItem_of_exitReason hr]
      have hdead := stateOf_setState_dead (not_gone_of_fits hst hfit)
      have := h.handleExit (setInner s ((inner s).setState name .dead)) name ‹_› (by rw [hset]; exact hdead)
      rw [hset] at this
      exact this.mono (fun _ hs => (Traced.of_setState (by simp)).trans hs)
        fun _ hs => (Traced.of_setState (by simp)).trans hs

theorem OneForOneSupervisor.tracedHandlers : TracedHandlers OneForOneSupervisor where
  inner_setInner _ _ := rfl
  inner_setInitializing _ _ := rfl
  shutdown s := .of_shutdown s.exiting
  removeSpec _ _ := traced_removeSpec
  afterInitialized _ _ := .refl _
  handleExit _ _ _ hn := sat_of_fst (traced_handleExit hn) (traced_handleExit hn)

theorem OneForAllSupervisor.tracedHandlers : TracedHandlers OneForAllSupervisor where
  inner_setInner _ _ := rfl
  inner_setInitializing _ _ := rfl
  shutdown s := .of_shutdown s.exiting
  removeSpec _ _ := traced_removeSpec
  afterInitialized _ _ := .refl _
  handleExit _ _ _ hn := sat_of_fst (traced_handleExit hn) (traced_handleExit hn)

theorem RestForOneSupervisor.tracedHandlers : TracedHandlers RestForOneSupervisor where
  inner_setInner _ _ := rfl
  inner_setInitializing _ _ := rfl
  shutdown _ := traced_shutdown
  removeSpec _ _ := traced_removeSpec
  afterInitialized s n := by
    show Traced s.inner (RestForOneSupervisor.afterInitialized s n).1.inner
    unfold RestForOneSupervisor.afterInitialized
    split
    · exact traced_advanceCascade
    · exact .refl _
  handleExit _ _ _ hn := traced_handleExit hn

theorem TracedHandlers.traced_of_step (h : TracedHandlers σ) {ev : Event} {st : LoopState σ}
    (hs : step (.running s) ev = some st) : st.TracedFrom (inner s) :=
  (h.obligations s).step rfl trivial hs

end Zestors
