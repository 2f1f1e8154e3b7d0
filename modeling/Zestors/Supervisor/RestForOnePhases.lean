import Zestors.Supervisor.RestForOneSpec

/-!
# The phases of a rest-for-one supervisor

What every run of the strategy keeps, whatever is registered or removed on the way (`Phased`): the
name that the cascade waits for is in the state that the phase needs, a supervisor that is exiting
is in the phase `ShuttingDown` (or has nobody left to wait for), and nobody is started by then.
-/

namespace Zestors
namespace RestForOneSupervisor
open SupervisorInner LoopState Strategy

variable {s : RestForOneSupervisor} {l r d p : List Name} {n : Name}

/-- The phases of a supervisor that is exiting. -/
def ExitPhase (i : SupervisorInner) : Cascade → Prop
  | .shuttingDown c p =>
    i.supervisees.stateOf c = some .shuttingDown ∧ ∀ n, n ≠ c → n ∉ p → Gone i n
  | .idle => ∀ n, Gone i n
  | .exiting _ _ _ _ | .restarting _ _ => False

/-- The phases of a supervisor that is not exiting. -/
def RunPhase (i : SupervisorInner) : Cascade → Prop
  | .idle => True
  | .exiting c _ _ _ => i.supervisees.stateOf c = some .shuttingDown
  | .restarting c _ =>
    i.supervisees.stateOf c = some .starting ∨ i.supervisees.stateOf c = some .initializing
  | .shuttingDown _ _ => False

section
variable {i i' : SupervisorInner} {c : Cascade}

theorem ExitPhase.mono (h : ExitPhase i c)
    (hc : ∀ n, c.current = some n → i'.supervisees.stateOf n = i.supervisees.stateOf n)
    (hg : ∀ n, Gone i n → Gone i' n) : ExitPhase i' c := by
  cases c with
  | idle => exact fun n => hg n (h n)
  | exiting | restarting => exact h
  | shuttingDown c p => exact ⟨(hc c rfl).trans h.1, fun n hn hp => hg n (h.2 n hn hp)⟩

theorem RunPhase.mono (h : RunPhase i c)
    (hc : ∀ n, c.current = some n → i'.supervisees.stateOf n = i.supervisees.stateOf n) :
    RunPhase i' c := by
  cases c with
  | idle => trivial
  | exiting c => exact (hc c rfl).trans h
  | restarting c => exact h.imp (hc c rfl).trans (hc c rfl).trans
  | shuttingDown => exact h

theorem RunPhase.not_shuttingDown (h : RunPhase i c) (n : Name) (p : List Name) :
    c ≠ .shuttingDown n p := by
  rintro rfl; exact h

end

structure Phased (s : RestForOneSupervisor) : Prop where
  exiting : s.inner.isExiting = true → ExitPhase s.inner s.cascade
  running : s.inner.isExiting = false → RunPhase s.inner s.cascade
  starts : QuietStarts s.inner

/-- What holds when the loop is left. -/
structure Finished (s : RestForOneSupervisor) : Prop extends Phased s where
  gone : ∀ n, Gone s.inner n
  isExiting : s.inner.isExiting = true

/-- What does not touch the current name, and nobody who is gone, keeps the phase. -/
theorem Phased.mono {i : SupervisorInner} {initializing : IndexSet Name} (h : Phased s)
    (hx : i.isExiting = s.inner.isExiting)
    (hc : ∀ n, s.cascade.current = some n → i.supervisees.stateOf n = s.inner.supervisees.stateOf n)
    (hg : i.isExiting = true → ∀ n, Gone s.inner n → Gone i n) (hq : QuietStarts i) :
    Phased ⟨i, initializing, s.cascade⟩ :=
  ⟨fun he => (h.exiting (hx ▸ he)).mono hc (hg he), fun he => (h.running (hx ▸ he)).mono hc, hq⟩

/-! ## The loops -/

/-- A pass of the shutdown over names that cover everybody who is not gone. -/
theorem shutdownNext_sat (hx : s.inner.isExiting = true) (hq : QuietStarts s.inner)
    (hl : ∀ n, n ∉ l → Gone s.inner n) : (ofFlow (s.shutdownNext l)).Sat Phased Finished := by
  have hexit : ∀ {l' i}, Stopped l' s.inner i → i.isExiting = true := fun h =>
    h.toFrame.isExiting.trans hx
  rcases shutdownNext_spec s l with ⟨i, heq, hst, hall⟩ | ⟨i, pre, c, post, rfl, heq, hst, hall, hc⟩
  · rw [heq]
    have hgone : ∀ n, Gone i n := fun n =>
      if h : n ∈ l then hall n h else (hl n h).of_stopped hst
    exact ⟨⟨fun _ => hgone, fun h => by simp [hexit hst] at h, hq.of_eq hst.starts⟩, hgone, hexit hst⟩
  · rw [heq]
    refine ⟨fun _ => ⟨hc, fun n hn hp => ?_⟩, fun h => by simp [hexit hst] at h, hq.of_eq hst.starts⟩
    by_cases hpre : n ∈ pre
    · exact hall n hpre
    · exact (hl n (by simp_all)).of_stopped hst

theorem shutdown_sat (hq : QuietStarts s.inner) (hns : ∀ c p, s.cascade ≠ .shuttingDown c p) :
    (ofFlow s.shutdown).Sat Phased Finished := by
  rw [shutdown_of_ne hns]
  refine shutdownNext_sat isExiting_registerExiting hq fun n hn => .inl ?_
  rw [List.mem_reverse, SuperviseeMap.mem_names_iff_stateOf, not_not] at hn
  exact hn

theorem advanceRestart_sat (hx : s.inner.isExiting = false) (hq : QuietStarts s.inner) :
    (ofFlow (s.advanceRestart l)).Sat Phased Finished := by
  rcases advanceRestart_spec s l with ⟨heq, -⟩ | ⟨pre, c, post, -, heq, -, hc⟩
  · rw [heq]
    exact ⟨fun h => by simp [hx] at h, fun _ => trivial, hq⟩
  · rw [heq]
    have hx' : (s.inner.start c .restart).1.isExiting = false := frame_start.isExiting.trans hx
    refine ⟨fun h => by simp [hx'] at h, fun _ => .inl ?_, hq.start hx⟩
    show (s.inner.start c .restart).1.supervisees.stateOf c = _
    rw [stateOf_start, if_pos ⟨rfl, hc⟩]

theorem stopNext_sat (hx : s.inner.isExiting = false) (hq : QuietStarts s.inner)
    (hi : s.cascade = .idle) : (ofFlow (s.stopNext l r d)).Sat Phased Finished := by
  have hexit : ∀ {l' i}, Stopped l' s.inner i → i.isExiting = false := fun h =>
    h.toFrame.isExiting.trans hx
  have hends := stopNext_ends s l r d
  generalize s.stopNext l r d = x at hends ⊢
  cases hends with
  | waits _ hst _ hc =>
    exact ⟨fun h => by simp [hexit hst] at h, fun _ => hc, hq.of_eq hst.starts⟩
  | refused _ hst _ _ _ _ =>
    refine shutdown_sat ((hq.of_eq hst.starts).of_eq starts_acquireRestartPermit) ?_
    simp [hi]
  | @done i hst _ =>
    have hd := droppedAll { s with inner := i } (d ++ l.filter fun n => Droppable s.inner n)
    exact advanceRestart_sat (hd.toFrame.isExiting.trans (hexit hst))
      ((hq.of_eq hst.starts).of_eq hd.starts)

/-! ## The handlers -/

theorem Phased.congr_inner {i : SupervisorInner} {initializing : IndexSet Name} (h : Phased s)
    (hi : Same s.inner i) : Phased ⟨i, initializing, s.cascade⟩ :=
  h.mono hi.isExiting (fun c _ => hi.stateOf_eq c) (fun _ _ hj => hj.of_stopped hi)
    (h.starts.of_eq hi.starts)

/-- `Phased` once the name that the cascade waits for is done. -/
structure CurrentDone (s : RestForOneSupervisor) : Prop where
  exiting : s.inner.isExiting = true →
    ∃ c p, s.cascade = .shuttingDown c p ∧ ∀ n, n ∉ p → Gone s.inner n
  running : s.inner.isExiting = false → s.cascade ≠ .idle ∧ ∀ c p, s.cascade ≠ .shuttingDown c p
  starts : QuietStarts s.inner

theorem advanceCascade_sat (h : CurrentDone s) :
    (ofFlow s.advanceCascade).Sat Phased Finished := by
  unfold advanceCascade
  rcases hx : s.inner.isExiting with _ | _
  · obtain ⟨hni, hns⟩ := h.running hx
    split <;> rename_i heq
    · exact absurd heq hni
    · exact stopNext_sat hx h.starts rfl
    · exact advanceRestart_sat hx h.starts
    · exact absurd heq (hns _ _)
  · obtain ⟨c, p, hc, hp⟩ := h.exiting hx
    rw [hc]
    exact shutdownNext_sat hx h.starts fun n hn => hp n (by simpa using hn)

theorem fst_of_sat {x : RestForOneSupervisor × ControlFlow} (h : (ofFlow x).Sat Phased Finished) :
    Phased x.1 := by
  obtain ⟨s, _ | _⟩ := x
  · exact h
  · exact h.toPhased

/-- The current name is done when it is gone: it was removed, it has exited, or it has started. -/
theorem Phased.currentDone {i : SupervisorInner} {initializing : IndexSet Name} (h : Phased s)
    (hc : s.cascade.current = some n) (hx : i.isExiting = s.inner.isExiting)
    (hn : i.isExiting = true → Gone i n)
    (hg : i.isExiting = true → ∀ j, j ≠ n → Gone s.inner j → Gone i j) (hq : QuietStarts i) :
    CurrentDone ⟨i, initializing, s.cascade⟩ := by
  refine ⟨fun he => ?_, fun he => ⟨?_, (h.running (hx ▸ he)).not_shuttingDown⟩, hq⟩
  · have hphase := h.exiting (hx ▸ he)
    cases hcas : s.cascade with
    | shuttingDown c p =>
      rw [hcas] at hphase hc
      obtain rfl : c = n := Option.some.inj hc
      refine ⟨c, p, rfl, fun j hj => ?_⟩
      by_cases hjc : j = c
      · exact hjc ▸ hn he
      · exact hg he j hjc (hphase.2 j hjc hj)
    | idle => rw [hcas] at hc; cases hc
    | exiting | restarting => rw [hcas] at hphase; exact hphase.elim
  · intro hi
    change s.cascade = .idle at hi
    rw [hi] at hc; cases hc

theorem dropSpec_phased (h : Phased s) (hn : s.cascade.current ≠ some n) :
    Phased (s.dropSpec n).1 := by
  have hr := removed_dropSpec (s := s) (n := n)
  refine h.mono hr.isExiting (fun c hc => ?_) (fun _ j hj => hj.removed hr) (h.starts.of_eq hr.starts)
  refine (hr.stateOf c).trans (if_neg ?_)
  rintro rfl; exact hn hc

theorem dropSpec_currentDone (h : Phased s) (hc : s.cascade.current = some n) :
    CurrentDone (s.dropSpec n).1 := by
  have hr := removed_dropSpec (s := s) (n := n)
  refine h.currentDone hc hr.isExiting (fun _ => .inl ?_) (fun _ j _ hj => hj.removed hr)
    (h.starts.of_eq hr.starts)
  exact (hr.stateOf n).trans (if_pos rfl)

theorem CurrentDone.dropSpec (h : CurrentDone s) : CurrentDone (s.dropSpec n).1 := by
  have hr := removed_dropSpec (s := s) (n := n)
  refine ⟨fun hx => ?_, fun hx => h.running (hr.isExiting ▸ hx), h.starts.of_eq hr.starts⟩
  obtain ⟨c, p, hc, hp⟩ := h.exiting (hr.isExiting ▸ hx)
  exact ⟨c, p, hc, fun j hj => (hp j hj).removed hr⟩

theorem removeSpec_phased (h : Phased s) : Phased (s.removeSpec n).1 := by
  have hcase := removeSpec_case s n
  generalize (s.removeSpec n).1 = s' at hcase ⊢
  cases hcase with
  | absent => exact h
  | other hc => exact dropSpec_phased h hc
  | current hc => exact fst_of_sat (advanceCascade_sat (dropSpec_currentDone h hc))

theorem addSpec_phased (h : Phased s) (spec : ChildSpec) :
    Phased { s with inner := (s.inner.addSpec spec).1 } := by
  rcases addSpec_cases s.inner spec with heq | hadd
  · rw [heq]; exact h
  · refine h.mono hadd.isExiting (fun c hc => ?_) (fun hx => ?_) fun e he => ?_
    · rw [hadd.stateOf, if_neg]
      -- A name that the cascade waits for is taken.
      rintro rfl
      have hphase := h.running hadd.notExiting
      cases hcas : s.cascade <;> rw [hcas] at hc hphase <;> cases hc <;>
        simp [RunPhase, hadd.fresh] at hphase
    · rw [hadd.isExiting, hadd.notExiting] at hx; cases hx
    · rw [hadd.starts, List.mem_append, List.mem_singleton] at he
      rcases he with he | rfl
      · exact h.starts e he
      · rfl

theorem setState_phased {state : SuperviseeState} {initializing : IndexSet Name} (h : Phased s)
    (hc : s.cascade.current ≠ some n) (hn : ¬ Gone s.inner n) :
    Phased ⟨s.inner.setState n state, initializing, s.cascade⟩ := by
  refine h.mono frame_setState.isExiting (fun c hcur => ?_) (fun _ j hj => hj.setState hn)
    (h.starts.of_eq starts_setState)
  rw [stateOf_setState, if_neg]
  rintro rfl; exact hc hcur

theorem Phased.running_of_restarting {c : Name} (h : Phased s) (hc : s.cascade = .restarting c p) :
    s.inner.isExiting = false := by
  by_contra he
  have := h.exiting (by simpa using he)
  rwa [hc] at this

theorem Phased.running_of_exiting {c : Name} (h : Phased s) (hc : s.cascade = .exiting c p r d) :
    s.inner.isExiting = false := by
  by_contra he
  have := h.exiting (by simpa using he)
  rwa [hc] at this

theorem Phased.running_of_trigger (h : Phased s) (hn : ¬ Gone s.inner n)
    (hc : s.cascade = .idle ∨ ∃ c p, c ≠ n ∧ s.cascade = .restarting c p) :
    s.inner.isExiting = false := by
  rcases hc with hc | ⟨c, p, -, hc⟩
  · by_contra hx
    have hphase := h.exiting (by simpa using hx)
    rw [hc] at hphase
    exact hn (hphase n)
  · exact h.running_of_restarting hc

theorem permitted_phased {i : SupervisorInner} (h : Phased s) (hp : Permitted s.inner i) :
    Phased { s with inner := i } := by
  refine h.mono hp.isExiting (fun c _ => hp.stateOf c) (fun _ j hj => ?_) (h.starts.of_eq hp.starts)
  unfold Gone
  rwa [hp.stateOf]

theorem handleExit_sat {reason : ExitReason} (h : Phased s) (hn : ¬ Gone s.inner n) :
    (ofOutcome (handleExit { s with inner := s.inner.setState n .dead } n reason)).Sat
      Phased Finished := by
  set i := s.inner.setState n .dead with hi
  have hdead : i.supervisees.stateOf n = some .dead := stateOf_setState_dead hn
  have hx : i.isExiting = s.inner.isExiting := frame_setState.isExiting
  have hq : QuietStarts i := h.starts.of_eq starts_setState
  have hcase := handleExit_case (s := { s with inner := i }) reason hdead
  have hp := permitted_acquirePermits (s := i) (n := n)
  have hphased : s.cascade.current ≠ some n → Phased { s with inner := i } := fun hc =>
    setState_phased h hc hn
  have hdone : s.cascade.current = some n → CurrentDone { s with inner := i } := fun hc =>
    h.currentDone hc hx (fun _ => .inr hdead) (fun _ j _ hj => hj.setState hn) hq
  generalize handleExit { s with inner := i } n reason = x at hcase ⊢
  cases hcase with
  | advance hc _ => exact advanceCascade_sat (hdone hc)
  | dropCurrent hc => exact fst_of_sat (advanceCascade_sat (hdone (by rw [hc]; rfl)).dropSpec)
  | giveUp hc =>
    refine shutdown_sat (hq.of_eq starts_acquireRestartPermit) ?_
    simp_all
  | @retry p hc _ _ =>
    have hrun := h.running_of_restarting hc
    have hrun' : (i.acquireRestartPermit n).1.isExiting = false :=
      frame_acquireRestartPermit.isExiting.trans (hx.trans hrun)
    have hfinal : ((i.acquireRestartPermit n).1.start n .restart).1.isExiting = false :=
      frame_start.isExiting.trans hrun'
    refine ⟨fun he => by simp [hfinal] at he, fun _ => ?_,
      (hq.of_eq starts_acquireRestartPermit).start hrun'⟩
    rw [hc]
    refine .inl ?_
    rw [stateOf_start, stateOf_acquireRestartPermit, if_pos ⟨rfl, hdead⟩]
  | queued hc _ => exact hphased hc
  | drop hc => exact dropSpec_phased (hphased hc) hc
  | refused hc _ =>
    rcases shutdown_cases { s with inner := (i.acquirePermits n).1 } with ⟨hns, -⟩ | ⟨c, p, -, heq⟩
    · exact shutdown_sat (hq.of_eq hp.starts) hns
    · rw [heq]
      exact permitted_phased (s := { s with inner := i }) (hphased hc) hp
  | trigger hc _ _ _ =>
    refine stopNext_sat ?_ (hq.of_eq hp.starts) rfl
    exact hp.isExiting.trans (hx.trans (h.running_of_trigger hn hc))
  | @merge c p r d hc hne _ _ _ =>
    have hrun := h.running_of_exiting hc
    have hrun' := hp.isExiting.trans (hx.trans hrun)
    rcases hm : mergeIntoStopping _ n c p r d with _ | x
    · trivial
    · obtain ⟨pending, rfl, -, -⟩ := mergeIntoStopping_spec hm
      refine ⟨fun he => by simp [hrun'] at he, fun _ => ?_, hq.of_eq hp.starts⟩
      have hphase := h.running hrun
      rw [show s.cascade = .exiting c p r d from hc] at hphase
      refine (hp.stateOf c).trans ?_
      rw [hi, stateOf_setState, if_neg (Ne.symm hne)]
      exact hphase
  | unreachable => trivial

/-- A supervisee that has just initialized and that the cascade waits for was being restarted. -/
theorem initialized_currentDone {i : SupervisorInner} {initializing : IndexSet Name} (h : Phased s)
    (hn : s.inner.supervisees.stateOf n = some .initializing)
    (hi : Same (s.inner.setState n .alive) i) (hc : s.cascade.current = some n) :
    CurrentDone ⟨i, initializing, s.cascade⟩ := by
  have hgone : ¬ Gone s.inner n := not_gone_of_state hn (by simp)
  have hx : i.isExiting = s.inner.isExiting := hi.isExiting.trans frame_setState.isExiting
  have hq : QuietStarts i := (h.starts.of_eq starts_setState).of_eq hi.starts
  refine h.currentDone hc hx (fun he => ?_) (fun _ j hj hg => (hg.setState hgone).of_stopped hi) hq
  have hphase := h.exiting (hx ▸ he)
  cases hcas : s.cascade <;> rw [hcas] at hphase hc <;> cases hc
  · exact hphase.elim
  · exact hphase.elim
  · rw [ExitPhase, hn] at hphase
    cases hphase.1

theorem afterInitialized_sat {i : SupervisorInner} {initializing : IndexSet Name} (h : Phased s)
    (hn : s.inner.supervisees.stateOf n = some .initializing)
    (hi : Same (s.inner.setState n .alive) i) :
    (ofFlow (afterInitialized ⟨i, initializing, s.cascade⟩ n)).Sat Phased Finished := by
  have hgone : ¬ Gone s.inner n := not_gone_of_state hn (by simp)
  unfold afterInitialized
  split
  · exact advanceCascade_sat (initialized_currentDone h hn hi ‹_›)
  · have hset : Phased ⟨s.inner.setState n .alive, s.initializing, s.cascade⟩ :=
      setState_phased h ‹_› hgone
    exact hset.congr_inner hi

/-! ## Runs -/

theorem started_phased (h : Phased s) (hn : s.inner.supervisees.stateOf n = some .starting) :
    Phased { s with inner := s.inner.setState n .initializing } := by
  have hgone : ¬ Gone s.inner n := not_gone_of_state hn (by simp)
  by_cases hc : s.cascade.current = some n
  · have hnew : (s.inner.setState n .initializing).supervisees.stateOf n = some .initializing := by
      rw [stateOf_setState, if_pos rfl, hn]; rfl
    have hx : (s.inner.setState n .initializing).isExiting = s.inner.isExiting :=
      frame_setState.isExiting
    refine ⟨fun he => ?_, fun he => ?_, h.starts.of_eq starts_setState⟩
    · have hphase := h.exiting (hx ▸ he)
      cases hcas : s.cascade <;> rw [hcas] at hphase hc <;> cases hc
      · exact hphase.elim
      · exact hphase.elim
      · rw [ExitPhase, hn] at hphase
        cases hphase.1
    · have hphase := h.running (hx ▸ he)
      cases hcas : s.cascade <;> rw [hcas] at hphase hc <;> cases hc
      · rw [RunPhase, hn] at hphase
        cases hphase
      · exact .inr hnew
      · exact hphase.elim
  · exact setState_phased h hc hgone

theorem phased_obligations :
    Obligations Phased (fun _ _ => True) Phased (Finished : RestForOneSupervisor → Prop) where
  keep s h := h
  inbox s inbox h hx := h.congr_inner (.of_inbox hx)
  shutdown s inbox h hx := by
    rcases shutdown_cases (withInbox s inbox) with ⟨hns, -⟩ | ⟨c, p, hc, heq⟩
    · exact shutdown_sat h.starts hns
    · have heq : Strategy.shutdown (withInbox s inbox) = (withInbox s inbox, .cont) := heq
      rw [heq]
      have hexit : s.inner.isExiting = true := by
        by_contra hne
        have := h.running (by simpa using hne)
        rw [show s.cascade = .shuttingDown c p from hc] at this
        exact this
      exact h.congr_inner (.of_inbox (hx.trans hexit.symm))
  add s ev spec h _ _ := addSpec_phased h spec
  remove s ev name h _ _ := removeSpec_phased h
  item s name item i h _ hy := by
    cases hy with
    | started hst => exact started_phased h hst
    | initialized hst => exact afterInitialized_sat (s := s) h hst same_handleInitialized
    | exit hst hr hfit =>
      rw [handleItem_of_exitReason hr]
      exact handleExit_sat h (not_gone_of_fits hst hfit)

theorem phased_of_reachable {st : LoopState RestForOneSupervisor}
    (h : (runs RestForOneSupervisor).Reachable st) : st.Sat Phased Finished := by
  refine runs_invariant (fun st hst => ?_) phased_obligations h
  obtain ⟨s₀, s, initializing, hfresh, rfl⟩ := fresh_of_begins hst
  exact ⟨fun he => absurd (he.symm.trans hfresh.notExiting) (by simp), fun _ => trivial,
    fun e he => (hfresh.starts e he).2⟩

end RestForOneSupervisor
end Zestors
