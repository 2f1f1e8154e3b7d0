import Zestors.Supervisor.OneForAllSpec
import Zestors.Supervisor.OneForOneSpec

/-!
# Whom a shutdown waits for

One-for-one and one-for-all supervisors keep the names that a shutdown waits for in the set
`exiting`. In every run these are supervisees that are shutting down (`Awaits`). One-for-one
supervisors moreover wait for everybody who is not gone (`AwaitsAll`).
-/

namespace Zestors
open SupervisorInner LoopState Strategy

namespace SupervisorInner
variable {i i' : SupervisorInner} {exiting exiting' : IndexSet Name} {n : Name}

/-- Nobody is awaited before the shutdown, and those who are awaited are shutting down. -/
structure Awaits (i : SupervisorInner) (exiting : IndexSet Name) : Prop where
  quiet : i.isExiting = false → ∀ n, n ∉ exiting
  shuttingDown : ∀ n ∈ exiting, i.supervisees.stateOf n = some .shuttingDown

/-- A supervisor that is exiting waits for everybody who is not gone, and has started nobody. -/
structure AwaitsAll (i : SupervisorInner) (exiting : IndexSet Name) : Prop
    extends Awaits i exiting where
  all : i.isExiting = true → ∀ n, ¬ Gone i n → n ∈ exiting
  starts : QuietStarts i

/-- Everybody is gone, and nobody was started during the shutdown. -/
def AllGone (i : SupervisorInner) : Prop := (∀ n, Gone i n) ∧ QuietStarts i

theorem Awaits.isExiting (h : Awaits i exiting) (hn : n ∈ exiting) : i.isExiting = true := by
  by_contra hx
  exact h.quiet (by simpa using hx) n hn

theorem Awaits.mono (h : Awaits i exiting) (hx : i'.isExiting = i.isExiting)
    (he : ∀ n ∈ exiting', n ∈ exiting ∧ i'.supervisees.stateOf n = i.supervisees.stateOf n) :
    Awaits i' exiting' where
  quiet hx' n hn := h.quiet (hx ▸ hx') n (he n hn).1
  shuttingDown n hn := (he n hn).2.trans (h.shuttingDown n (he n hn).1)

theorem AwaitsAll.mono (h : AwaitsAll i exiting) (hx : i'.isExiting = i.isExiting)
    (he : ∀ n ∈ exiting', n ∈ exiting ∧ i'.supervisees.stateOf n = i.supervisees.stateOf n)
    (hall : i'.isExiting = true → ∀ n, ¬ Gone i' n → ¬ Gone i n ∧ (n ∈ exiting → n ∈ exiting'))
    (hq : QuietStarts i') : AwaitsAll i' exiting' where
  toAwaits := h.toAwaits.mono hx he
  all hx' n hn := (hall hx' n hn).2 (h.all (hx ▸ hx') n (hall hx' n hn).1)
  starts := hq

theorem Awaits.congr (h : Awaits i exiting) (hs : Same i i') : Awaits i' exiting :=
  h.mono hs.isExiting fun n hn => ⟨hn, hs.stateOf_eq n⟩

theorem AwaitsAll.congr (h : AwaitsAll i exiting) (hs : Same i i') : AwaitsAll i' exiting := by
  refine h.mono hs.isExiting (fun n hn => ⟨hn, hs.stateOf_eq n⟩) (fun _ n hn => ⟨?_, id⟩)
    (h.starts.of_eq hs.starts)
  exact fun hg => hn (hg.of_stopped hs)

theorem AwaitsAll.allGone (h : AwaitsAll i exiting) (hx : i.isExiting = true)
    (he : exiting.isEmpty = true) : AllGone i := by
  refine ⟨fun n => ?_, h.starts⟩
  by_contra hn
  exact IndexSet.isEmpty_iff.1 he n (h.all hx n hn)

/-! ## The shared operations -/

theorem awaits_shutdown (h : ∀ n ∈ exiting, i.supervisees.stateOf n = some .shuttingDown) :
    Awaits (i.shutdown exiting).1 (i.shutdown exiting).2.1 where
  quiet hx := by simp at hx
  shuttingDown n hn := by
    rcases mem_shutdown.1 hn with hn | hn
    · rw [stateOf_shutdown, h n hn]; rfl
    · exact hn

theorem awaitsAll_shutdown (h : ∀ n ∈ exiting, i.supervisees.stateOf n = some .shuttingDown)
    (hq : QuietStarts i) : AwaitsAll (i.shutdown exiting).1 (i.shutdown exiting).2.1 where
  toAwaits := awaits_shutdown h
  all _ n hn := by
    refine mem_shutdown.2 (.inr ?_)
    unfold Gone at hn
    simp only [stateOf_shutdown] at hn ⊢
    generalize i.supervisees.stateOf n = o at hn ⊢
    rcases o with _ | _ | _ | _ | _ | _ <;> simp_all [stopped]
  starts := hq

theorem Awaits.added {spec : ChildSpec} (h : Awaits i exiting) (ha : Added spec i i') :
    Awaits i' exiting := by
  refine h.mono ha.isExiting fun n hn => ⟨hn, (ha.stateOf n).trans (if_neg ?_)⟩
  rintro rfl
  exact h.quiet ha.notExiting _ hn

theorem AwaitsAll.added {spec : ChildSpec} (h : AwaitsAll i exiting) (ha : Added spec i i') :
    AwaitsAll i' exiting where
  toAwaits := h.toAwaits.added ha
  all hx := by simp [ha.isExiting, ha.notExiting] at hx
  starts e he := by
    rw [ha.starts, List.mem_append, List.mem_singleton] at he
    rcases he with he | rfl
    · exact h.starts e he
    · rfl

theorem Awaits.removed (h : Awaits i exiting) (hr : Removed n i i') :
    Awaits i' (exiting.swapRemove n) := by
  refine h.mono hr.isExiting fun j hj => ?_
  obtain ⟨hjn, hj⟩ := IndexSet.mem_swapRemove.1 hj
  exact ⟨hj, (hr.stateOf j).trans (if_neg hjn)⟩

theorem AwaitsAll.removed (h : AwaitsAll i exiting) (hr : Removed n i i') :
    AwaitsAll i' (exiting.swapRemove n) where
  toAwaits := h.toAwaits.removed hr
  all hx j hj := by
    refine IndexSet.mem_swapRemove.2 ⟨?_, h.all (hr.isExiting ▸ hx) j fun hg => hj (hg.removed hr)⟩
    rintro rfl
    exact hj (.inl ((hr.stateOf j).trans (if_pos rfl)))
  starts := h.starts.of_eq hr.starts

/-- A supervisee that is not shutting down is not awaited, so it may take any other state. -/
theorem Awaits.setState {state : SuperviseeState} (h : Awaits i exiting) (hn : n ∉ exiting) :
    Awaits (i.setState n state) exiting := by
  refine h.mono frame_setState.isExiting fun j hj => ⟨hj, ?_⟩
  rw [stateOf_setState, if_neg]
  rintro rfl; exact hn hj

theorem AwaitsAll.setState {state : SuperviseeState} (h : AwaitsAll i exiting) (hn : n ∉ exiting)
    (hgone : ¬ Gone i n) : AwaitsAll (i.setState n state) exiting where
  toAwaits := h.toAwaits.setState hn
  all hx j hj :=
    h.all (frame_setState.isExiting ▸ hx) j fun hg => hj (hg.setState hgone)
  starts := h.starts.of_eq starts_setState

theorem Awaits.exited (h : Awaits i exiting) :
    Awaits (i.setState n .dead) (exiting.swapRemove n) := by
  refine h.mono frame_setState.isExiting fun j hj => ?_
  obtain ⟨hjn, hj⟩ := IndexSet.mem_swapRemove.1 hj
  exact ⟨hj, stateOf_setState.trans (if_neg hjn)⟩

theorem AwaitsAll.exited (h : AwaitsAll i exiting) (hgone : ¬ Gone i n) :
    AwaitsAll (i.setState n .dead) (exiting.swapRemove n) where
  toAwaits := h.toAwaits.exited
  all hx j hj := by
    refine IndexSet.mem_swapRemove.2 ⟨?_, h.all (frame_setState.isExiting ▸ hx) j fun hg =>
      hj (hg.setState hgone)⟩
    rintro rfl
    exact hj (.inr (stateOf_setState_dead hgone))
  starts := h.starts.of_eq starts_setState

theorem Awaits.permitted (h : Awaits i exiting) (hp : Permitted i i') : Awaits i' exiting :=
  h.mono hp.isExiting fun n hn => ⟨hn, hp.stateOf n⟩

theorem Awaits.not_mem {st : SuperviseeState} (h : Awaits i exiting)
    (hst : i.supervisees.stateOf n = some st) (hne : st ≠ .shuttingDown) : n ∉ exiting := fun hn =>
  hne (Option.some.inj (hst.symm.trans (h.shuttingDown n hn)))

end SupervisorInner

/-! ## One for one -/

namespace OneForOneSupervisor
variable {s : OneForOneSupervisor} {n : Name}

theorem shutdown_sat
    (h : ∀ n ∈ s.exiting, s.inner.supervisees.stateOf n = some .shuttingDown)
    (hq : QuietStarts s.inner) :
    (ofFlow s.shutdown).Sat (fun s => AwaitsAll s.inner s.exiting) fun s => AllGone s.inner := by
  have ha := awaitsAll_shutdown h hq
  show (ofFlow (_, (s.inner.shutdown s.exiting).2.2)).Sat _ _
  rw [shutdown_flow]
  split
  · exact ha.allGone isExiting_shutdown ‹_›
  · exact ha

theorem handleExit_sat {reason : ExitReason} (h : AwaitsAll s.inner s.exiting)
    (hn : ¬ Gone s.inner n) :
    (ofFlow ({ s with inner := s.inner.setState n .dead }.handleExit n reason)).Sat
      (fun s => AwaitsAll s.inner s.exiting) fun s => AllGone s.inner := by
  have hcase := handleExit_case (s := { s with inner := s.inner.setState n .dead })
    reason (stateOf_setState_dead hn)
  have hp := permitted_acquirePermits (s := s.inner.setState n .dead) (n := n)
  have hx : (s.inner.setState n .dead).isExiting = s.inner.isExiting := frame_setState.isExiting
  generalize OneForOneSupervisor.handleExit _ n reason = x at hcase ⊢
  cases hcase with
  | awaited he =>
    have ha := h.exited hn
    split
    · exact ha.allGone (hx.trans (h.isExiting he)) ‹_›
    · exact ha
  | drop he =>
    have ha : AwaitsAll (s.inner.setState n .dead) s.exiting := h.setState he hn
    have hcase := removeSpec_case { s with inner := s.inner.setState n .dead } n
    generalize (removeSpec _ n).1 = s' at hcase ⊢
    cases hcase with
    | absent _ => exact ha
    | drop _ hr => exact ha.removed hr
  | refused he =>
    have hset : Awaits (s.inner.setState n .dead) s.exiting := h.toAwaits.setState he
    have ha := hset.permitted hp
    exact shutdown_sat ha.shuttingDown ((h.starts.of_eq starts_setState).of_eq hp.starts)
  | restart he _ _ =>
    -- The exit of a supervisee that is not awaited, so the supervisor is not exiting.
    have hrun : s.inner.isExiting = false := by
      by_contra hx
      exact he (h.all (by simpa using hx) n hn)
    have hrun' : ((s.inner.setState n .dead).acquirePermits n).1.isExiting = false :=
      hp.isExiting.trans (hx.trans hrun)
    have hstart : (((s.inner.setState n .dead).acquirePermits n).1.start n .restart).1.isExiting =
        false := frame_start.isExiting.trans hrun'
    have hnone : ∀ j, j ∉ s.exiting := h.quiet hrun
    exact ⟨⟨fun _ => hnone, fun j hj => absurd hj (hnone j)⟩, fun hx => by simp [hstart] at hx,
      ((h.starts.of_eq starts_setState).of_eq hp.starts).start hrun'⟩

theorem awaitsAll_obligations : Obligations
    (fun s : OneForOneSupervisor => AwaitsAll s.inner s.exiting) (fun _ _ => True)
    (fun s => AwaitsAll s.inner s.exiting) fun s => AllGone s.inner where
  keep s h := h
  inbox s inbox h hx := h.congr (.of_inbox hx)
  shutdown s inbox h hx := shutdown_sat (s := { s with inner := { s.inner with inbox } })
    h.shuttingDown h.starts
  add s ev spec h _ _ := by
    rcases addSpec_cases s.inner spec with heq | hadd
    · show AwaitsAll (s.inner.addSpec spec).1 s.exiting
      rw [heq]; exact h
    · exact h.added hadd
  remove s ev name h _ _ := by
    have hcase := removeSpec_case s name
    show AwaitsAll (s.removeSpec name).1.inner (s.removeSpec name).1.exiting
    generalize (s.removeSpec name).1 = s' at hcase ⊢
    cases hcase with
    | absent _ => exact h
    | drop _ hr => exact h.removed hr
  item s name item i h _ hy := by
    cases hy with
    | started hst =>
      exact h.setState (h.not_mem hst (by simp)) (not_gone_of_state hst (by simp))
    | initialized hst =>
      exact (h.setState (h.not_mem hst (by simp)) (not_gone_of_state hst (by simp))).congr
        same_handleInitialized
    | exit hst hr hfit =>
      rw [handleItem_of_exitReason hr]
      exact handleExit_sat h (not_gone_of_fits hst hfit)

/-- Every one-for-one supervisor that is exiting waits for exactly those who are not gone. -/
theorem awaitsAll_of_reachable {st : LoopState OneForOneSupervisor}
    (h : (runs OneForOneSupervisor).Reachable st) :
    st.Sat (fun s => AwaitsAll s.inner s.exiting) fun s => AllGone s.inner := by
  refine runs_invariant (fun st hst => ?_) awaitsAll_obligations h
  obtain ⟨s₀, s, initializing, hfresh, rfl⟩ := fresh_of_begins hst
  exact ⟨⟨fun _ => IndexSet.not_mem_empty, fun n hn => absurd hn (IndexSet.not_mem_empty n)⟩,
    fun hx => absurd (hx.symm.trans hfresh.notExiting) (by simp),
    fun e he => (hfresh.starts e he).2⟩

end OneForOneSupervisor

/-! ## One for all -/

namespace OneForAllSupervisor
variable {s s' : OneForAllSupervisor} {i : SupervisorInner} {l : List Name} {n : Name}

/-- Whoever the cascade is to drop is dead, or is shutting down and waited for. -/
structure Folding (s : OneForAllSupervisor) : Prop where
  awaits : Awaits s.inner s.exiting
  drop : ∀ n ∈ s.cascadeDrop, s.inner.supervisees.stateOf n = some .dead ∨
    s.inner.supervisees.stateOf n = some .shuttingDown ∧ n ∈ s.restarting

theorem Folding.mono (h : Folding s) (ha : Awaits s'.inner s'.exiting)
    (hd : ∀ n ∈ s'.cascadeDrop, s'.inner.supervisees.stateOf n = some .dead ∨
      n ∈ s.cascadeDrop ∧ s'.inner.supervisees.stateOf n = s.inner.supervisees.stateOf n ∧
        (n ∈ s.restarting → n ∈ s'.restarting)) : Folding s' := by
  refine ⟨ha, fun n hn => ?_⟩
  rcases hd n hn with hdead | ⟨hmem, heq, hr⟩
  · exact .inl hdead
  · rw [heq]
    exact (h.drop n hmem).imp_right fun h => ⟨h.1, hr h.2⟩

theorem Folding.permitted {cascadeRestart : IndexSet Name} (h : Folding s)
    (hp : Permitted s.inner i) : Folding { s with inner := i, cascadeRestart } :=
  h.mono (h.awaits.permitted hp) fun n hn => .inr ⟨hn, hp.stateOf n, id⟩

theorem Folding.congr {initializing : IndexSet Name} (h : Folding s) (hi : Same s.inner i) :
    Folding { s with inner := i, initializing } :=
  h.mono (h.awaits.congr hi) fun n hn => .inr ⟨hn, hi.stateOf_eq n, id⟩

theorem shutdown_folding (hdown : ∀ n ∈ s.exiting, s.inner.supervisees.stateOf n = some .shuttingDown)
    (h : ∀ n ∈ s.cascadeDrop, s.inner.supervisees.stateOf n = some .dead ∨
      s.inner.supervisees.stateOf n = some .shuttingDown ∧ n ∈ s.restarting) :
    Folding s.shutdown.1 where
  awaits := awaits_shutdown hdown
  drop n hn := by
    show (s.inner.shutdown s.exiting).1.supervisees.stateOf n = _ ∨
      (s.inner.shutdown s.exiting).1.supervisees.stateOf n = _ ∧ _
    rw [stateOf_shutdown]
    rcases h n hn with hn | ⟨hn, hr⟩ <;> rw [hn]
    · exact .inl rfl
    · exact .inr ⟨rfl, hr⟩

/-- The end of a cascade touches nobody who is shutting down, except to drop him. -/
theorem awaits_finished (h : Awaits s.inner s.exiting) (hf : CascadeFinished s s') :
    Awaits s'.inner s'.exiting := by
  refine h.mono hf.isExiting fun n hn => ?_
  obtain ⟨hn, hdrop⟩ := (hf.mem_exiting n).1 hn
  have hdown := h.shuttingDown n hn
  refine ⟨hn, (hf.stateOf n).trans ?_⟩
  rw [if_neg (fun hd => by simp [hdrop hd] at hdown), if_neg (by simp [hdown])]

theorem folding_finished (h : Awaits s.inner s.exiting) : Folding s.finishCascade :=
  have hf := cascadeFinished_finishCascade s
  ⟨awaits_finished h hf, fun n hn => absurd hn (hf.cascadeDrop n)⟩

theorem Folding.folded (h : Folding s) (hf : Folded l s s') : Folding s' where
  awaits := by
    refine h.awaits.mono hf.isExiting fun n hn => ?_
    rw [hf.exiting] at hn
    refine ⟨hn, (hf.stateOf n).trans ?_⟩
    rw [h.awaits.shuttingDown n hn]
    split <;> rfl
  drop n hn := by
    rw [hf.mem_restarting]
    rcases (hf.mem_cascadeDrop n).1 hn with hn | ⟨hn, hd⟩
    · rw [hf.stateOf]
      rcases h.drop n hn with he | ⟨he, hr⟩ <;> rw [he] <;> split <;> simp [stopped, *]
    · have hpresent : s.inner.supervisees.stateOf n ≠ none := fun he => by
        rw [Droppable, SuperviseeMap.modeOf_eq_none.2 (SuperviseeMap.stateOf_eq_none.1 he)] at hd
        cases hd
      rcases hf.toStopped.gone_or_shuttingDown hn with (he | he) | he
      · rw [hf.stateOf, if_pos hn] at he
        exact absurd (Option.map_eq_none_iff.1 he) hpresent
      · exact .inl he
      · exact .inr ⟨he, .inr ⟨hn, he⟩⟩

theorem foldEnds_folding {x : OneForAllSupervisor × ControlFlow} (h : Folding s)
    (hx : FoldEnds s l x) : Folding x.1 := by
  cases hx with
  | @refused s' pre post c _ hf =>
    have h' := h.folded hf
    exact shutdown_folding (s := { s' with inner := (s'.inner.acquireRestartPermit c).1 })
      (by simpa using h'.awaits.shuttingDown) (by simpa using h'.drop)
  | @done s' hf =>
    show Folding (if s'.restarting.isEmpty then s'.finishCascade else s')
    split
    · exact folding_finished (h.folded hf).awaits
    · exact h.folded hf

theorem removeSpec_folding (h : Folding s) : Folding (s.removeSpec n).1 := by
  have hr := removed_forget (s := s) (n := n)
  have ha : Awaits (s.forget n).inner (s.forget n).exiting := h.awaits.removed hr
  have hcase := removeSpec_case s n
  generalize (s.removeSpec n).1 = s' at hcase ⊢
  cases hcase with
  | absent _ => exact h
  | drop _ _ =>
    refine h.mono ha fun j hj => .inr ?_
    obtain ⟨hjn, hj⟩ := IndexSet.mem_swapRemove.1 hj
    exact ⟨hj, (hr.stateOf j).trans (if_neg hjn), fun hm => IndexSet.mem_swapRemove.2 ⟨hjn, hm⟩⟩
  | finish _ _ _ => exact folding_finished ha

theorem addSpec_folding (h : Folding s) (spec : ChildSpec) :
    Folding { s with inner := (s.inner.addSpec spec).1 } := by
  rcases addSpec_cases s.inner spec with heq | hadd
  · rw [heq]; exact h
  · refine h.mono (h.awaits.added hadd) fun n hn => .inr ⟨hn, (hadd.stateOf n).trans (if_neg ?_), id⟩
    -- Whoever the cascade is to drop is there.
    rintro rfl
    rcases h.drop _ hn with he | ⟨he, -⟩ <;> cases hadd.fresh.symm.trans he

theorem Folding.setState {state : SuperviseeState} (h : Folding s) (hn : n ∉ s.exiting)
    (hd : n ∈ s.cascadeDrop → state = .dead) : Folding { s with inner := s.inner.setState n state } := by
  refine h.mono (h.awaits.setState hn) fun j hj => ?_
  show (s.inner.setState n state).supervisees.stateOf j = _ ∨
    _ ∧ (s.inner.setState n state).supervisees.stateOf j = _ ∧ _
  rw [stateOf_setState]
  by_cases hjn : j = n
  · subst hjn
    rw [if_pos rfl, hd hj]
    rcases h.drop j hj with he | ⟨he, -⟩ <;> rw [he] <;> exact .inl rfl
  · rw [if_neg hjn]
    exact .inr ⟨hj, rfl, id⟩

/-- The exit of a supervisee whom the shutdown does not wait for, or does no longer wait for. -/
theorem Folding.exited {restarting : IndexSet Name} (h : Folding s)
    (hr : ∀ j ∈ s.restarting, j ≠ n → j ∈ restarting) : Folding { s with
      inner := s.inner.setState n .dead
      exiting := s.exiting.swapRemove n
      restarting } := by
  refine h.mono h.awaits.exited fun j hj => ?_
  show (s.inner.setState n .dead).supervisees.stateOf j = _ ∨
    _ ∧ (s.inner.setState n .dead).supervisees.stateOf j = _ ∧ _
  rw [stateOf_setState]
  by_cases hjn : j = n
  · subst hjn
    rw [if_pos rfl]
    rcases h.drop j hj with he | ⟨he, -⟩ <;> rw [he] <;> exact .inl rfl
  · rw [if_neg hjn]
    exact .inr ⟨hj, rfl, fun hm => hr j hm hjn⟩

theorem handleExit_folding {reason : ExitReason} (h : Folding s) (hn : ¬ Gone s.inner n) :
    Folding ({ s with inner := s.inner.setState n .dead }.handleExit n reason).1 := by
  have hcase := handleExit_case (s := { s with inner := s.inner.setState n .dead })
    reason (stateOf_setState_dead hn)
  have hp := permitted_acquirePermits (s := s.inner.setState n .dead) (n := n)
  have hset : n ∉ s.exiting → Folding { s with inner := s.inner.setState n .dead } := fun he =>
    h.setState he fun _ => rfl
  generalize OneForAllSupervisor.handleExit _ n reason = x at hcase ⊢
  cases hcase with
  | awaited _ => exact h.exited fun _ hj _ => hj
  | member he _ _ =>
    refine (hset he).mono (hset he).awaits fun j hj => ?_
    by_cases hjn : j = n
    · subst hjn
      exact .inl (stateOf_setState_dead hn)
    · exact .inr ⟨hj, rfl, fun hm => IndexSet.mem_swapRemove.2 ⟨hjn, hm⟩⟩
  | last he _ _ => exact folding_finished (hset he).awaits
  | drop he _ => exact removeSpec_folding (hset he)
  | refused he _ =>
    have h' : Folding { s with inner := ((s.inner.setState n .dead).acquirePermits n).1 } :=
      (hset he).permitted hp
    exact shutdown_folding h'.awaits.shuttingDown h'.drop
  | trigger he _ _ _ _ hends => exact foldEnds_folding ((hset he).permitted hp) hends

theorem folding_obligations : Obligations (Folding : OneForAllSupervisor → Prop) (fun _ _ => True)
    Folding fun _ => True where
  keep s h := h
  inbox s inbox h hx := h.congr (.of_inbox hx)
  shutdown s inbox h hx := sat_of_fst (shutdown_folding
    (s := { s with inner := { s.inner with inbox } }) h.awaits.shuttingDown h.drop) trivial
  add s ev spec h _ _ := addSpec_folding h spec
  remove s ev name h _ _ := removeSpec_folding h
  item s name item i h _ hy := by
    -- Whoever the cascade is to drop yields nothing but an exit.
    have hdrop : ∀ {st}, s.inner.supervisees.stateOf name = some st → st ≠ .dead →
        st ≠ .shuttingDown → name ∉ s.cascadeDrop := by
      intro st hst hd hs hn
      rcases h.drop name hn with he | ⟨he, -⟩ <;> cases hst.symm.trans he
      · exact hd rfl
      · exact hs rfl
    cases hy with
    | started hst =>
      exact h.setState (h.awaits.not_mem hst (by simp)) fun hn =>
        absurd hn (hdrop hst (by simp) (by simp))
    | initialized hst =>
      have halive : Folding { s with inner := s.inner.setState name .alive } :=
        h.setState (h.awaits.not_mem hst (by simp)) fun hn =>
          absurd hn (hdrop hst (by simp) (by simp))
      exact halive.congr same_handleInitialized
    | exit hst hr hfit =>
      rw [handleItem_of_exitReason hr]
      exact sat_of_fst (handleExit_folding h (not_gone_of_fits hst hfit)) trivial

/-- Every one-for-all supervisor waits for supervisees that are shutting down, and for nobody before
its shutdown. -/
theorem folding_of_reachable {st : LoopState OneForAllSupervisor}
    (h : (runs OneForAllSupervisor).Reachable st) : st.Sat Folding fun _ => True := by
  refine runs_invariant (fun st hst => ?_) folding_obligations h
  obtain ⟨s₀, s, initializing, hfresh, rfl⟩ := fresh_of_begins hst
  exact ⟨⟨fun _ => IndexSet.not_mem_empty, fun n hn => absurd hn (IndexSet.not_mem_empty n)⟩,
    fun n hn => absurd hn (IndexSet.not_mem_empty n)⟩

end OneForAllSupervisor
end Zestors
