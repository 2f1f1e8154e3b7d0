import Zestors.Supervisor.Awaits
import Zestors.Supervisor.RestForOnePhases
import Zestors.Supervisor.Traced

/-!
# Nobody is started during a shutdown

A supervisor that is exiting starts nobody, and has nobody left who is not dead when it leaves its
loop (`StaysDead`). One-for-all supervisors keep to this unless a removal ends a cascade that was
under way when the shutdown began: `remove_spec` starts its members again then.
-/

namespace Zestors
open SupervisorInner LoopState Strategy

/-- A run of `M` that has come to `st` started nobody during a shutdown, and does not do so in its
next step; where it has ended, everybody is gone. -/
structure StaysDead {σ : Type} [Strategy σ] (M : Lts (LoopState σ) Event) (st : LoopState σ) :
    Prop where
  /-- No start in the history happened during a shutdown. -/
  quiet : st.Sat (fun s => QuietStarts (inner s)) fun s => QuietStarts (inner s)
  /-- In a step of a shutdown nobody who is dead becomes `Starting`. -/
  dead : ∀ s ev st', st = .running s → (inner s).isExiting = true → M.step st ev st' →
    ∀ n, (inner s).supervisees.stateOf n = some .dead →
      st'.Sat (fun s => (inner s).supervisees.stateOf n ≠ some .starting)
        fun s => (inner s).supervisees.stateOf n ≠ some .starting
  gone : ∀ s, st = .broken s → ∀ n, Gone (inner s) n

theorem not_starting_of_traced {i i' : SupervisorInner} {n : Name} (h : Traced i i')
    (hx : i.isExiting = true) (hq : QuietStarts i') (hd : i.supervisees.stateOf n = some .dead) :
    i'.supervisees.stateOf n ≠ some .starting := by
  obtain ⟨-, new, hs, he, hn⟩ := h
  intro hstart
  rcases hn n hstart with h | ⟨e, hm, -⟩
  · cases hd.symm.trans h
  · have := hq e (by rw [hs]; exact List.mem_append_right _ hm)
    simp [he hx e hm] at this

/-- Runs without starts during a shutdown leave the dead alone. -/
theorem staysDead_of_quiet {σ : Type} [Strategy σ] {M : Lts (LoopState σ) Event}
    (ht : TracedHandlers σ) (hstep : ∀ s ev st, M.step (.running s) ev st →
      step (.running s) ev = some st)
    (h : ∀ st, M.Reachable st → st.Sat (fun s => QuietStarts (inner s)) fun s => AllGone (inner s))
    {st : LoopState σ} (hr : M.Reachable st) : StaysDead M st where
  quiet := (h st hr).mono (fun _ h => h) fun _ h => h.2
  dead := by
    rintro s ev st' rfl hx hs n hd
    have hq : st'.Sat (fun s => QuietStarts (inner s)) fun s => QuietStarts (inner s) :=
      (h st' (.step hr hs)).mono (fun _ h => h) fun _ h => h.2
    have htraced := ht.traced_of_step (hstep s ev st' hs)
    cases st' with
    | running s' => exact not_starting_of_traced htraced hx hq hd
    | broken s' => exact not_starting_of_traced htraced hx hq hd
    | panicked => trivial
  gone := by
    rintro s rfl
    exact (h _ hr).1

/-! ## One for all -/

namespace OneForAllSupervisor
variable {s : OneForAllSupervisor} {i : SupervisorInner} {n : Name}

/-- Whether the event does not remove the last name that a cascade waits for, during a shutdown and
with dead members left that the end of the cascade would start. -/
def EndsNoCascade (s : OneForAllSupervisor) (ev : Event) : Prop :=
  match ev.removes with
  | some n =>
    s.inner.isExiting = true → n ∈ s.restarting → (∀ m ∈ s.restarting.toList, m = n) →
      ∀ m ∈ s.cascadeRestart.toList, m ≠ n → m ∉ s.cascadeDrop →
        s.inner.supervisees.stateOf m ≠ some .dead
  | none => True

instance (s : OneForAllSupervisor) (ev : Event) : Decidable (EndsNoCascade s ev) := by
  unfold EndsNoCascade
  exact match ev.removes with
    | some _ | none => inferInstance

theorem awaitsAll_of_running {exiting : IndexSet Name} (hx : i.isExiting = false)
    (he : ∀ n, n ∉ exiting) (hq : QuietStarts i) : AwaitsAll i exiting :=
  ⟨⟨fun _ => he, fun n hn => absurd hn (he n)⟩, fun h => by simp [hx] at h, hq⟩

theorem shutdown_sat
    (h : ∀ n ∈ s.exiting, s.inner.supervisees.stateOf n = some .shuttingDown)
    (hq : QuietStarts s.inner) :
    (ofFlow s.shutdown).Sat (fun s => AwaitsAll s.inner s.exiting) fun s => AllGone s.inner := by
  have ha := awaitsAll_shutdown h hq
  show (ofFlow (_, (s.inner.shutdown s.exiting).2.2)).Sat _ _
  rw [shutdown_flow]
  split
  · exact ha.allGone isExiting_shutdown ‹_›
  · exact ha

/-- The end of a cascade that starts nobody, if it comes during a shutdown. -/
theorem finishCascade_awaitsAll (h : AwaitsAll s.inner s.exiting)
    (hno : s.inner.isExiting = true → ∀ m ∈ s.cascadeRestart, m ∉ s.cascadeDrop →
      s.inner.supervisees.stateOf m ≠ some .dead) :
    AwaitsAll s.finishCascade.inner s.finishCascade.exiting := by
  have hf := cascadeFinished_finishCascade s
  obtain ⟨l, -, hl, hstarts⟩ := hf.starts
  refine ⟨awaits_finished h.toAwaits hf, fun hx n hn => ?_, fun e he => ?_⟩
  · have hx : s.inner.isExiting = true := hf.isExiting ▸ hx
    have hdrop : n ∉ s.cascadeDrop := fun hd => hn (.inl ((hf.stateOf n).trans (if_pos hd)))
    have hsame : s.finishCascade.inner.supervisees.stateOf n = s.inner.supervisees.stateOf n := by
      rw [hf.stateOf, if_neg hdrop, if_neg fun hr => hno hx n hr.1 hdrop hr.2]
    refine (hf.mem_exiting n).2 ⟨h.all hx n fun hg => hn ?_, fun hd => absurd hd hdrop⟩
    unfold Gone
    rwa [hsame]
  · rw [hstarts, List.mem_append] at he
    rcases he with he | he
    · exact h.starts e he
    · obtain ⟨n, hn, rfl⟩ := List.mem_map.1 he
      obtain ⟨hr, hd, hdead⟩ := (hl n).1 hn
      by_contra hx
      exact hno (by simpa using hx) n hr hd hdead

theorem foldEnds_sat {l : List Name} {x : OneForAllSupervisor × ControlFlow}
    (hx : s.inner.isExiting = false) (he : ∀ n, n ∉ s.exiting) (hq : QuietStarts s.inner)
    (h : FoldEnds s l x) :
    (ofFlow x).Sat (fun s => AwaitsAll s.inner s.exiting) fun s => AllGone s.inner := by
  cases h with
  | @refused s' pre post c _ hf =>
    have he' : ∀ n, n ∉ s'.exiting := fun n => hf.exiting ▸ he n
    exact shutdown_sat (s := { s' with inner := (s'.inner.acquireRestartPermit c).1 })
      (fun n hn => absurd hn (he' n)) ((hq.of_eq hf.starts).of_eq starts_acquireRestartPermit)
  | @done s' hf =>
    have hx' : s'.inner.isExiting = false := hf.isExiting.trans hx
    have ha : AwaitsAll s'.inner s'.exiting :=
      awaitsAll_of_running hx' (fun n => hf.exiting ▸ he n) (hq.of_eq hf.starts)
    show AwaitsAll (if s'.restarting.isEmpty then s'.finishCascade else s').inner
      (if s'.restarting.isEmpty then s'.finishCascade else s').exiting
    split
    · exact finishCascade_awaitsAll ha fun h => by simp [hx'] at h
    · exact ha

theorem removeSpec_awaitsAll {ev : Event} (h : AwaitsAll s.inner s.exiting)
    (hok : EndsNoCascade s ev) (hev : ev.removes = some n) :
    AwaitsAll (s.removeSpec n).1.inner (s.removeSpec n).1.exiting := by
  have hr := removed_forget (s := s) (n := n)
  have h' : AwaitsAll (s.forget n).inner (s.forget n).exiting := h.removed hr
  have hcase := removeSpec_case s n
  generalize (s.removeSpec n).1 = s' at hcase ⊢
  cases hcase with
  | absent _ => exact h
  | drop _ _ => exact h'
  | finish _ hn hall =>
    simp only [EndsNoCascade, hev] at hok
    refine finishCascade_awaitsAll h' fun hx m hm hd hdead => ?_
    obtain ⟨hdead, hmn⟩ := stateOf_of_removed hr hdead
    exact hok (hr.isExiting ▸ hx) hn hall m hm hmn hd hdead

theorem handleExit_sat {reason : ExitReason} (h : AwaitsAll s.inner s.exiting)
    (hn : ¬ Gone s.inner n) :
    (ofFlow ({ s with inner := s.inner.setState n .dead }.handleExit n reason)).Sat
      (fun s => AwaitsAll s.inner s.exiting) fun s => AllGone s.inner := by
  have hcase := handleExit_case (s := { s with inner := s.inner.setState n .dead })
    reason (stateOf_setState_dead hn)
  have hp := permitted_acquirePermits (s := s.inner.setState n .dead) (n := n)
  have hx : (s.inner.setState n .dead).isExiting = s.inner.isExiting := frame_setState.isExiting
  have hq : QuietStarts (s.inner.setState n .dead) := h.starts.of_eq starts_setState
  -- A supervisor that is exiting awaits everybody who can exit.
  have hrun : n ∉ s.exiting → s.inner.isExiting = false := fun he => by
    by_contra hx
    exact he (h.all (by simpa using hx) n hn)
  have hset : n ∉ s.exiting → AwaitsAll (s.inner.setState n .dead) s.exiting := fun he =>
    h.setState he hn
  generalize OneForAllSupervisor.handleExit _ n reason = x at hcase ⊢
  cases hcase with
  | awaited he =>
    have ha := h.exited hn
    split
    · exact ha.allGone (hx.trans (h.isExiting he)) ‹_›
    · exact ha
  | member he _ _ => exact hset he
  | last he _ _ =>
    refine finishCascade_awaitsAll (hset he) fun hx' => ?_
    cases (hx'.symm.trans hx).trans (hrun he)
  | drop he hnr =>
    have hcase := removeSpec_case { s with inner := s.inner.setState n .dead } n
    have hr := removed_forget (s := { s with inner := s.inner.setState n .dead }) (n := n)
    have ha := (hset he).removed hr
    generalize (removeSpec _ n).1 = s' at hcase ⊢
    cases hcase with
    | absent _ => exact hset he
    | drop _ _ => exact ha
    | finish _ hm _ => exact absurd hm hnr
  | refused he _ =>
    have ha := (hset he).toAwaits.permitted hp
    exact shutdown_sat ha.shuttingDown (hq.of_eq hp.starts)
  | trigger he _ _ _ _ hends =>
    refine foldEnds_sat ?_ ?_ ?_ hends
    · exact hp.isExiting.trans (hx.trans (hrun he))
    · exact h.quiet (hrun he)
    · exact hq.of_eq hp.starts

theorem awaitsAll_obligations : Obligations
    (fun s : OneForAllSupervisor => AwaitsAll s.inner s.exiting) EndsNoCascade
    (fun s => AwaitsAll s.inner s.exiting) fun s => AllGone s.inner where
  keep s h := h
  inbox s inbox h hx := h.congr (.of_inbox hx)
  shutdown s inbox h hx := shutdown_sat (s := { s with inner := { s.inner with inbox } })
    h.shuttingDown h.starts
  add s ev spec h _ _ := by
    rcases addSpec_cases s.inner spec with heq | hadd
    · show AwaitsAll (s.inner.addSpec spec).1 s.exiting
      rw [heq]; exact h
    · exact h.added hadd
  remove s ev name h hok hr := removeSpec_awaitsAll h hok hr
  item s name item i h _ hy := by
    cases hy with
    | started hst =>
      exact h.setState (h.not_mem hst (by simp)) (not_gone_of_state hst (by simp))
    | initialized hst =>
      exact (h.setState (h.not_mem hst (by simp)) (not_gone_of_state hst (by simp))).congr
        same_handleInitialized
    | exit hst hr hfit =>
      rw [handleItem_of_exitReason hr]
      exact handleExit_sat h (not_gone_of_fits hst hfit)

theorem awaitsAll_of_reachable {st : LoopState OneForAllSupervisor}
    (hr : (runsWhere EndsNoCascade).Reachable st) :
    st.Sat (fun s => AwaitsAll s.inner s.exiting) fun s => AllGone s.inner := by
  refine runsWhere_obligations (fun st hst => ?_) awaitsAll_obligations hr
  obtain ⟨s₀, s, initializing, hfresh, rfl⟩ := fresh_of_begins hst
  exact awaitsAll_of_running hfresh.notExiting IndexSet.not_mem_empty
    fun e he => (hfresh.starts e he).2

end OneForAllSupervisor

/-! ## Runs -/

/-- No supervisee is started during a shutdown, and nobody is left alive at its end: for the runs of
one-for-one and rest-for-one supervisors, and for the runs of one-for-all supervisors in which no
removal ends a cascade during the shutdown. -/
theorem staysDead_runs (s : LoopState OneForOneSupervisor) (t : LoopState RestForOneSupervisor)
    (u : LoopState OneForAllSupervisor) :
    ((runs OneForOneSupervisor).Reachable s → StaysDead (runs OneForOneSupervisor) s) ∧
      ((runs RestForOneSupervisor).Reachable t → StaysDead (runs RestForOneSupervisor) t) ∧
      ((runsWhere OneForAllSupervisor.EndsNoCascade).Reachable u →
        StaysDead (runsWhere OneForAllSupervisor.EndsNoCascade) u) := by
  refine ⟨?_, ?_, ?_⟩
  · exact staysDead_of_quiet OneForOneSupervisor.tracedHandlers (fun _ _ _ hs => hs) fun st hr =>
      (OneForOneSupervisor.awaitsAll_of_reachable hr).mono (fun _ h => h.starts) fun _ h => h
  · exact staysDead_of_quiet RestForOneSupervisor.tracedHandlers (fun _ _ _ hs => hs) fun st hr =>
      (RestForOneSupervisor.phased_of_reachable hr).mono (fun _ h => h.starts)
        fun _ h => ⟨h.gone, h.starts⟩
  · exact staysDead_of_quiet (M := runsWhere OneForAllSupervisor.EndsNoCascade)
      OneForAllSupervisor.tracedHandlers (fun _ _ _ hs => hs.1) fun st hr =>
      (OneForAllSupervisor.awaitsAll_of_reachable hr).mono (fun _ h => h.starts) fun _ h => h

/-- `a` has panicked, and `b` is being stopped because of it, when the shutdown begins. -/
def shutDownInCascade : List Event :=
  comesUp "a" ++ comesUp "b" ++ [.supervisee ⟨"a"⟩ (.exit (.joinError .panic)), .signal .shutdown]

/-- Up to here nobody has been started again. -/
theorem staysDead_runs_shutDownInCascade :
    ∃ s : OneForAllSupervisor, s.inner.isExiting = true ∧
      s.inner.supervisees.stateOf ⟨"a"⟩ = some .dead ∧
      StaysDead (runsWhere OneForAllSupervisor.EndsNoCascade) (.running s) := by
  obtain ⟨s, hr, hx, ha⟩ := exists_running_where OneForAllSupervisor.EndsNoCascade
    (p := fun s => s.inner.isExiting = true ∧ s.inner.supervisees.stateOf ⟨"a"⟩ = some .dead)
    (begins_booted [childSpec "a" .always none, childSpec "b" .always none]
      (by decide) .default)
    shutDownInCascade (by decide)
  have h := staysDead_runs .panicked .panicked (.running s)
  exact ⟨s, hx, ha, h.2.2 hr⟩

/-- The removal of `b` starts `a` again. -/
theorem not_staysDead :
    ¬ ∀ u, (runs OneForAllSupervisor).Reachable u → StaysDead (runs OneForAllSupervisor) u := by
  intro h
  obtain ⟨s, hr, e, he, hx⟩ := exists_running
    (p := fun s : OneForAllSupervisor => ∃ e ∈ s.inner.starts, e.exiting = true)
    (begins_booted [childSpec "a" .always none, childSpec "b" .always none]
      (by decide) .default)
    (shutDownInCascade ++ [.source (.removed ⟨"b"⟩)]) (by decide)
  cases hx.symm.trans ((h _ hr).quiet e he)

end Zestors
