import Zestors.Supervisor.RestForOnePhases

/-!
# The shutdown of rest-for-one supervisors

A rest-for-one supervisor that is exiting waits for the `current` of a cascade in the phase
`ShuttingDown` (`Busy`), unless the removal of `current` was what the last step of the shutdown
waited for: `remove_spec` ignores that the loop should be left then.
-/

namespace Zestors
open SupervisorInner LoopState Strategy

namespace SupervisorInner
variable {i i' : SupervisorInner} {l pre post : List Name} {n m : Name}

/-- A shutdown has nothing to wait for: there is no supervisee called `n`, or stopping it leaves it
dead at once. -/
def NeedsNoWait (i : SupervisorInner) (n : Name) : Prop :=
  Gone i n ∨ i.supervisees.stateOf n = some .starting

instance (i : SupervisorInner) (n : Name) : Decidable (NeedsNoWait i n) := by
  unfold NeedsNoWait; infer_instance

/-- Stopping others, or him, does not make a difference to who ends at once. -/
theorem NeedsNoWait.of_stopped (h : Stopped l i i') (he : NeedsNoWait i' n) : NeedsNoWait i n := by
  unfold NeedsNoWait Gone at *
  rw [h.stateOf] at he
  generalize i.supervisees.stateOf n = o at he ⊢
  split at he <;> rcases o with _ | _ | _ | _ | _ | _ <;> simp_all [stopped]

theorem NeedsNoWait.of_removed (hr : Removed m i i') (hne : n ≠ m) (h : NeedsNoWait i' n) :
    NeedsNoWait i n := by
  unfold NeedsNoWait Gone at *
  rwa [hr.stateOf, if_neg hne] at h

/-- Whether somebody's own budget refuses a permit, when the permits of those in the list whom a
cascade restarts are taken one after the other, the first of them at the reading number `ticks`. -/
def Refuses (i : SupervisorInner) (ticks : ℕ) : List Name → Prop
  | [] => False
  | m :: l =>
    if Restartable i m then
      ((i.supervisees.get? m).any fun sv => !(sv.acquireRestartPermit (i.clock ticks)).2) ∨
        Refuses i (ticks + 1) l
    else Refuses i ticks l

instance decidableRefuses (i : SupervisorInner) (ticks : ℕ) :
    (l : List Name) → Decidable (Refuses i ticks l)
  | [] => isFalse id
  | m :: l => by
    have := decidableRefuses i (ticks + 1) l
    have := decidableRefuses i ticks l
    unfold Refuses
    infer_instance

theorem refuses_append {ticks : ℕ} (hm : Restartable i m)
    (h : ((i.supervisees.get? m).any fun sv => !(sv.acquireRestartPermit
      (i.clock (ticks + pre.countP fun n => Restartable i n))).2) = true) :
    Refuses i ticks (pre ++ m :: post) := by
  induction pre generalizing ticks with
  | nil => rw [List.nil_append, Refuses, if_pos hm]; exact .inl h
  | cons n pre ih =>
    rw [List.cons_append, Refuses]
    split_ifs with hn
    · refine .inr (ih ?_)
      rw [List.countP_cons_of_pos (by simpa using hn)] at h
      rwa [Nat.add_assoc, Nat.add_comm 1]
    · refine ih ?_
      rwa [List.countP_cons_of_neg (by simpa using hn)] at h

end SupervisorInner

namespace RestForOneSupervisor

variable {s : RestForOneSupervisor} {l r d p : List Name} {n c : Name}

/-- A supervisor that is exiting is in the middle of its shutdown; and a cascade stops nobody
twice. -/
structure Busy (s : RestForOneSupervisor) : Prop where
  busy : s.inner.isExiting = true → s.cascade ≠ .idle
  nodup : ∀ c p r d, s.cascade = .exiting c p r d → (c :: p).Nodup

/-- Whether the event does not remove `current` when the shutdown has nobody else to wait for: in the
phase `ShuttingDown`, or in the phase `Exiting` if the pass that goes on then is refused a permit. -/
def KeepsCurrent (s : RestForOneSupervisor) (ev : Event) : Prop :=
  match ev.removes, s.cascade with
  | some n, .shuttingDown c p => n = c → ∃ m ∈ p, m ≠ c ∧ ¬ NeedsNoWait s.inner m
  | some n, .exiting c p _ _ =>
    n = c → Refuses s.inner s.inner.ticks p.reverse →
      ∃ m ∈ s.inner.supervisees.names, m ≠ c ∧ ¬ NeedsNoWait s.inner m
  | _, _ => True

instance (s : RestForOneSupervisor) (ev : Event) : Decidable (KeepsCurrent s ev) := by
  unfold KeepsCurrent
  exact match ev.removes, s.cascade with
    | none, _ | some _, .idle | some _, .restarting .. | some _, .shuttingDown .. |
      some _, .exiting .. => inferInstance

/-! ## The loops -/

theorem shutdownNext_busy : (ofFlow (s.shutdownNext l)).Sat Busy fun _ => True := by
  rcases shutdownNext_spec s l with ⟨i, heq, -⟩ | ⟨i, pre, c, post, -, heq, -⟩ <;> rw [heq]
  · trivial
  · exact ⟨fun _ => by simp, fun _ _ _ _ h => by simp at h⟩

theorem shutdown_busy : (ofFlow s.shutdown).Sat Busy fun _ => True := by
  rcases shutdown_cases s with ⟨-, heq⟩ | ⟨c, p, hc, heq⟩ <;> rw [heq]
  · exact shutdownNext_busy
  · exact ⟨fun _ => by simp [hc], fun _ _ _ _ h => by simp [hc] at h⟩

theorem advanceRestart_busy (hx : s.inner.isExiting = false) : Busy (s.advanceRestart l).1 := by
  rcases advanceRestart_spec s l with ⟨heq, -⟩ | ⟨pre, c, post, -, heq, -⟩ <;> rw [heq]
  · exact ⟨fun h => by simp [hx] at h, fun _ _ _ _ h => by simp at h⟩
  · exact ⟨fun _ => by simp, fun _ _ _ _ h => by simp at h⟩

theorem stopNext_busy (hx : s.inner.isExiting = false) (hl : l.Nodup) :
    (ofFlow (s.stopNext l r d)).Sat Busy fun _ => True := by
  have hends := stopNext_ends s l r d
  generalize s.stopNext l r d = x at hends ⊢
  cases hends with
  | @waits i pre post c hl' hst _ _ =>
    subst hl'
    refine ⟨fun _ => by simp, fun c' p' r' d' h => ?_⟩
    obtain ⟨rfl, rfl, -, -⟩ := Cascade.exiting.inj h
    simpa using (List.nodup_append.1 hl).2.1
  | refused _ _ _ _ _ _ => exact shutdown_busy
  | @done i hst _ =>
    have hd := droppedAll { s with inner := i } (d ++ l.filter fun n => Droppable s.inner n)
    exact sat_of_fst (advanceRestart_busy (hd.isExiting.trans (hst.isExiting.trans hx))) trivial

theorem advanceCascade_busy (h : CurrentDone s)
    (hn : ∀ c p r d, s.cascade = .exiting c p r d → (c :: p).Nodup) :
    (ofFlow s.advanceCascade).Sat Busy fun _ => True := by
  unfold advanceCascade
  rcases hx : s.inner.isExiting with _ | _
  · obtain ⟨hni, hns⟩ := h.running hx
    split <;> rename_i heq
    · exact absurd heq hni
    · exact stopNext_busy hx (List.nodup_reverse.2 (List.nodup_cons.1 (hn _ _ _ _ heq)).2)
    · exact sat_of_fst (advanceRestart_busy hx) trivial
    · exact absurd heq (hns _ _)
  · obtain ⟨c, p, hc, -⟩ := h.exiting hx
    rw [hc]
    exact shutdownNext_busy

/-! ## Removals -/

theorem get?_dropSpec {m : Name} (hm : m ≠ n) :
    (s.dropSpec n).1.inner.supervisees.get? m = s.inner.supervisees.get? m := by
  rw [dropSpec_fst]
  rcases hget : s.inner.supervisees.get? n with _ | sv
  · rw [SupervisorInner.removeSpec_of_none (SuperviseeMap.stateOf_eq_none.2 hget)]
  · rw [SupervisorInner.removeSpec_of_some hget, SuperviseeMap.get?_remove, if_neg hm]

/-- The pass that goes on after the removal of `current` is refused the permits that the pass over
the supervisees before the removal is refused. -/
theorem refuses_of_refused {i : SupervisorInner} {pre post : List Name} {m : Name}
    (hticks₀ : (s.dropSpec n).1.inner.ticks = s.inner.ticks)
    (hn : n ∉ pre ++ m :: post) (hnodup : (pre ++ m :: post).Nodup)
    (hst : Stopped pre (s.dropSpec n).1.inner i) (hm : Restartable (s.dropSpec n).1.inner m)
    (hticks : i.ticks = (s.dropSpec n).1.inner.ticks +
      pre.countP fun n' => Restartable (s.dropSpec n).1.inner n')
    (hno : (i.acquireRestartPermit m).2 = false) :
    Refuses s.inner s.inner.ticks (pre ++ m :: post) := by
  have hr := removed_dropSpec (s := s) (n := n)
  have hR : ∀ j ∈ pre ++ m :: post,
      (Restartable (s.dropSpec n).1.inner j ↔ Restartable s.inner j) := fun j hj => by
    refine Restartable.congr ((hr.modeOf j).trans (if_neg ?_))
    rintro rfl; exact hn hj
  have hmpre : m ∉ pre := fun h => (List.nodup_append.1 hnodup).2.2 m h m List.mem_cons_self rfl
  have hmn : m ≠ n := by rintro rfl; exact hn (by simp)
  refine refuses_append ((hR m (by simp)).1 hm) ?_
  have hcount : pre.countP (fun n' => Restartable (s.dropSpec n).1.inner n') =
      pre.countP fun n' => Restartable s.inner n' := by
    refine List.countP_congr fun j hj => ?_
    rw [decide_eq_true_eq, decide_eq_true_eq]
    exact hR j (List.mem_append_left _ hj)
  have hnow : i.now = s.inner.clock (s.inner.ticks + pre.countP fun n' => Restartable s.inner n') := by
    rw [SupervisorInner.now, hst.clock, hticks, hcount, hticks₀]
    exact congrFun hr.clock _
  rw [acquireRestartPermit_snd, hst.get? m hmpre, get?_dropSpec hmn, hnow] at hno
  rcases hget : s.inner.supervisees.get? m with _ | sv
  · simp [hget] at hno
  · simpa [hget] using hno

theorem ticks_dropSpec : (s.dropSpec n).1.inner.ticks = s.inner.ticks := by
  rw [dropSpec_fst]
  rcases hget : s.inner.supervisees.get? n with _ | sv
  · rw [SupervisorInner.removeSpec_of_none (SuperviseeMap.stateOf_eq_none.2 hget)]
  · rw [SupervisorInner.removeSpec_of_some hget]

theorem busy_of_shutdownNext {m : Name} (hm : m ∈ l) (hwait : ¬ NeedsNoWait s.inner m) :
    Busy (s.shutdownNext l).1 := by
  rcases shutdownNext_spec s l with ⟨i, -, hst, hall⟩ | ⟨i, pre, c, post, -, heq, -⟩
  · exact absurd (NeedsNoWait.of_stopped hst (.inl (hall m hm))) hwait
  · rw [heq]
    exact ⟨fun _ => by simp, fun _ _ _ _ h => by simp at h⟩

theorem removeSpec_busy {ev : Event} (h : Busy s) (hp : Phased s) (hok : KeepsCurrent s ev)
    (hev : ev.removes = some n) : Busy (s.removeSpec n).1 := by
  have hr := removed_dropSpec (s := s) (n := n)
  have hcase := removeSpec_case s n
  generalize (s.removeSpec n).1 = s' at hcase ⊢
  cases hcase with
  | absent _ => exact h
  | other _ => exact ⟨fun hx => h.busy (hr.isExiting ▸ hx), h.nodup⟩
  | current hc hpresent =>
    unfold advanceCascade
    rw [cascade_dropSpec]
    cases hcas : s.cascade with
    | idle => rw [hcas] at hc; cases hc
    | restarting c p =>
      exact advanceRestart_busy (hr.isExiting.trans (hp.running_of_restarting hcas))
    | shuttingDown c p =>
      obtain rfl : c = n := by rw [hcas] at hc; exact Option.some.inj hc
      simp only [KeepsCurrent, hev, hcas] at hok
      obtain ⟨m, hm, hmc, hwait⟩ := hok trivial
      exact busy_of_shutdownNext (List.mem_reverse.2 hm)
        fun he => hwait (.of_removed hr hmc he)
    | exiting c p r d =>
      obtain rfl : c = n := by rw [hcas] at hc; exact Option.some.inj hc
      have hrun : (s.dropSpec c).1.inner.isExiting = false :=
        hr.isExiting.trans (hp.running_of_exiting hcas)
      have hnodup := List.nodup_cons.1 (h.nodup _ _ _ _ hcas)
      simp only [KeepsCurrent, hev, hcas] at hok
      have hends := stopNext_ends { (s.dropSpec c).1 with cascade := .idle } p.reverse r d
      have hbusy := stopNext_busy (s := { (s.dropSpec c).1 with cascade := .idle }) (r := r) (d := d)
        hrun (List.nodup_reverse.2 hnodup.2)
      show Busy (stopNext { (s.dropSpec c).1 with cascade := .idle } p.reverse r d).1
      generalize stopNext _ p.reverse r d = x at hends hbusy ⊢
      cases hends with
      | waits _ _ _ _ => exact hbusy
      | done _ _ =>
        refine advanceRestart_busy ?_
        rename_i i hst _
        have hd := droppedAll { (s.dropSpec c).1 with inner := i, cascade := .idle }
          (d ++ p.reverse.filter fun n => Droppable (s.dropSpec c).1.inner n)
        exact hd.isExiting.trans (hst.isExiting.trans hrun)
      | @refused i pre post m hl hst _ hm hticks hno =>
        -- The shutdown that begins here has somebody to wait for.
        have href : Refuses s.inner s.inner.ticks p.reverse := hl ▸ refuses_of_refused ticks_dropSpec
          (hl ▸ fun hm => hnodup.1 (List.mem_reverse.1 hm)) (hl ▸ List.nodup_reverse.2 hnodup.2) hst
          hm hticks hno
        obtain ⟨j, hj, hjc, hwait⟩ := hok trivial href
        rw [shutdown_of_ne (by simp)]
        have hpresent : i.supervisees.stateOf j ≠ none := by
          have hj' := SuperviseeMap.mem_names_iff_stateOf.1 hj
          rw [hst.stateOf]
          have : (s.dropSpec c).1.inner.supervisees.stateOf j ≠ none := by
            rwa [hr.stateOf, if_neg hjc]
          split
          · simpa using this
          · exact this
        refine busy_of_shutdownNext (m := j) ?_ fun he => hwait (.of_removed hr hjc ?_)
        · rw [List.mem_reverse, SuperviseeMap.mem_names_iff_stateOf, stateOf_acquireRestartPermit]
          exact hpresent
        · refine NeedsNoWait.of_stopped hst ?_
          unfold NeedsNoWait Gone at he ⊢
          simpa using he

/-! ## Exits -/

theorem handleExit_busy {reason : ExitReason} (h : Busy s) (hp : Phased s)
    (hn : ¬ Gone s.inner n) :
    (ofOutcome (handleExit { s with inner := s.inner.setState n .dead } n reason)).Sat
      Busy fun _ => True := by
  set i := s.inner.setState n .dead with hi
  have hdead : i.supervisees.stateOf n = some .dead := stateOf_setState_dead hn
  have hx : i.isExiting = s.inner.isExiting := frame_setState.isExiting
  have hcase := handleExit_case (s := { s with inner := i }) reason hdead
  have hperm := permitted_acquirePermits (s := i) (n := n)
  have hbusy : Busy { s with inner := i } := ⟨fun he => h.busy (hx ▸ he), h.nodup⟩
  have hdone : s.cascade.current = some n → CurrentDone { s with inner := i } := fun hc =>
    hp.currentDone hc hx (fun _ => .inr hdead) (fun _ j _ hj => hj.setState hn)
      (hp.starts.of_eq starts_setState)
  have hdrop := removed_dropSpec (s := { s with inner := i }) (n := n)
  generalize handleExit { s with inner := i } n reason = x at hcase ⊢
  cases hcase with
  | advance hc _ => exact advanceCascade_busy (hdone hc) h.nodup
  | @dropCurrent p hc =>
    have hrun : (dropSpec { s with inner := i } n).1.inner.isExiting = false :=
      hdrop.isExiting.trans (hx.trans (hp.running_of_restarting hc))
    unfold advanceCascade
    rw [cascade_dropSpec, hc]
    exact advanceRestart_busy hrun
  | giveUp _ => exact shutdown_busy
  | @retry p hc _ _ =>
    have hc : s.cascade = .restarting n p := hc
    exact ⟨fun _ => by simp [hc], h.nodup⟩
  | queued _ _ => exact hbusy
  | drop _ => exact ⟨fun he => hbusy.busy (hdrop.isExiting ▸ he), h.nodup⟩
  | refused _ _ => exact shutdown_busy
  | @trigger before after hc _ _ hnames =>
    refine stopNext_busy (hperm.isExiting.trans (hx.trans (hp.running_of_trigger hn hc))) ?_
    have hnodup : (before ++ n :: after).Nodup := hnames ▸ SuperviseeMap.nodup_names _
    exact List.nodup_reverse.2 (List.nodup_cons.1 (List.nodup_append.1 hnodup).2.1).2
  | @merge c p r d hc _ _ _ _ =>
    have hc : s.cascade = .exiting c p r d := hc
    rcases hm : mergeIntoStopping _ n c p r d with _ | x
    · trivial
    · obtain ⟨pending, rfl, hnodup, hmem⟩ := mergeIntoStopping_spec hm
      refine ⟨fun _ => by simp, fun c' p' r' d' heq => ?_⟩
      obtain ⟨rfl, rfl, -, -⟩ := Cascade.exiting.inj heq
      refine List.nodup_cons.2 ⟨fun hcp => ?_, hnodup⟩
      rcases (hmem c).1 hcp with ⟨h₁, h₂, -⟩ | hcp
      · omega
      · exact (List.nodup_cons.1 (h.nodup _ _ _ _ hc)).1 hcp
  | unreachable => trivial

theorem afterInitialized_busy {i : SupervisorInner} {initializing : IndexSet Name} (h : Busy s)
    (hp : Phased s) (hn : s.inner.supervisees.stateOf n = some .initializing)
    (hi : Same (s.inner.setState n .alive) i) :
    (ofFlow (afterInitialized ⟨i, initializing, s.cascade⟩ n)).Sat Busy fun _ => True := by
  unfold afterInitialized
  split
  · exact advanceCascade_busy (initialized_currentDone hp hn hi ‹_›) h.nodup
  · exact ⟨fun hx => h.busy (frame_setState.isExiting ▸ hi.isExiting ▸ hx), h.nodup⟩

theorem busy_obligations : Obligations (fun s => Busy s ∧ Phased s) KeepsCurrent Busy
    (fun _ : RestForOneSupervisor => True) where
  keep s h := h.1
  inbox s inbox h hx := ⟨fun he => h.busy (hx ▸ he), h.nodup⟩
  shutdown s inbox h hx := shutdown_busy
  add s ev spec h _ _ := by
    refine ⟨fun hx => h.1.busy ?_, h.1.nodup⟩
    rcases addSpec_cases s.inner spec with heq | hadd
    · exact heq ▸ hx
    · exact hadd.isExiting ▸ hx
  remove s ev name h hok hr := removeSpec_busy h.1 h.2 hok hr
  item s name item i h _ hy := by
    cases hy with
    | started _ => exact ⟨fun hx => h.1.busy (frame_setState.isExiting ▸ hx), h.1.nodup⟩
    | initialized hst => exact afterInitialized_busy (s := s) h.1 h.2 hst same_handleInitialized
    | exit hst hr hfit =>
      rw [handleItem_of_exitReason hr]
      exact handleExit_busy h.1 h.2 (not_gone_of_fits hst hfit)

theorem busy_of_reachable {st : LoopState RestForOneSupervisor}
    (hr : (runsWhere KeepsCurrent).Reachable st) : st.Sat Busy fun _ => True := by
  refine runsWhere_invariant (fun _ => phased_of_reachable) (fun st hst => ?_) busy_obligations hr
  obtain ⟨s₀, s, initializing, hfresh, rfl⟩ := fresh_of_begins hst
  exact ⟨fun he => absurd (he.symm.trans hfresh.notExiting) (by simp), fun _ _ _ _ h => by cases h⟩

/-! ## The last supervisee -/

/-- The cascade of a shutdown waits for a supervisee that is shutting down. -/
def Stopping (s : RestForOneSupervisor) : Prop :=
  ∃ c p, s.cascade = .shuttingDown c p ∧ s.inner.supervisees.stateOf c = some .shuttingDown

theorem stopping_of_busy (h : Busy s) (hp : Phased s) (hx : s.inner.isExiting = true) :
    Stopping s := by
  have hphase := hp.exiting hx
  cases hcas : s.cascade with
  | idle => exact absurd hcas (h.busy hx)
  | exiting | restarting => rw [hcas] at hphase; exact hphase.elim
  | shuttingDown c p => rw [hcas] at hphase; exact ⟨c, p, hcas, hphase.1⟩

/-- A pass of the shutdown over supervisees that are gone leaves the loop. -/
theorem shutdownNext_of_gone (h : ∀ n ∈ l, Gone s.inner n) : (s.shutdownNext l).2 = .brk := by
  rcases shutdownNext_spec s l with ⟨i, heq, -⟩ | ⟨i, pre, c, post, rfl, -, hst, -, hc⟩
  · rw [heq]
  · rcases (h c (by simp)).of_stopped hst with hg | hg <;> cases hc.symm.trans hg

/-- The exit of the only supervisee that is not gone leaves the loop. -/
theorem broken_of_last_exit {item : SuperviseeItem} {st : LoopState RestForOneSupervisor}
    (h : Stopping s) (hall : ∀ m, m ≠ n → Gone s.inner m) (hitem : item.exitReason.isSome = true)
    (hs : step (.running s) (.supervisee n item) = some st) : ∃ s', st = .broken s' := by
  obtain ⟨c, p, hc, hdown⟩ := h
  obtain rfl : n = c := by
    by_contra hne
    rcases hall c (Ne.symm hne) with hg | hg <;> cases hdown.symm.trans hg
  obtain ⟨⟨i, o⟩, hnext, rfl⟩ := Option.map_eq_some_iff.1 hs
  obtain ⟨rfl, hy⟩ := yields_of_next hnext
  cases hy with
  | started _ => cases hitem
  | initialized _ => cases hitem
  | @exit _ reason st hst hr hfit =>
    have hngone := not_gone_of_fits hst hfit
    have hlast : handleItem { s with inner := s.inner.setState n .dead } n item =
        some (shutdownNext { s with inner := s.inner.setState n .dead, cascade := .idle }
          p.reverse) := by
      rw [handleItem_of_exitReason hr]
      show RestForOneSupervisor.handleExit _ n reason = _
      unfold RestForOneSupervisor.handleExit handleCascadeCurrentExit advanceCascade
      simp only [hc, Cascade.current, if_true]
      rfl
    have hbrk := shutdownNext_of_gone (l := p.reverse)
      (s := { s with inner := s.inner.setState n .dead, cascade := .idle }) fun m _ => by
        by_cases hm : m = n
        · subst hm
          exact .inr (stateOf_setState_dead hngone)
        · exact (hall m hm).setState hngone
    show ∃ s', ofOutcome (handleItem { s with inner := s.inner.setState n .dead } n item) = _
    rw [hlast]
    generalize shutdownNext _ p.reverse = x at hbrk
    obtain ⟨s', flow⟩ := x
    obtain rfl : flow = .brk := hbrk
    exact ⟨s', rfl⟩

/-- The shutdown of a rest-for-one supervisor does not get stuck: as long as `current` is not removed
when nobody else is left to wait for, the cascade is in its phase `ShuttingDown` and waits for a
supervisee that still owes an exit, and the event that leaves nobody leaves the loop. -/
theorem stopping_of_keepsCurrent (hr : (runsWhere KeepsCurrent).Reachable (.running s))
    (hx : s.inner.isExiting = true) : Stopping s ∧
      ∀ ev n st, (ev.exits = some n ∨ ev.removes = some n) → KeepsCurrent s ev → (∀ m, m ≠ n → Gone s.inner m) →
        step (.running s) ev = some st → ∃ s', st = .broken s' := by
  have hstop : Stopping s :=
    stopping_of_busy (busy_of_reachable hr) (phased_of_reachable (runs_of_runsWhere hr)) hx
  refine ⟨hstop, fun ev n st hev hok hall hs => ?_⟩
  rcases hev with hev | hev
  · cases ev with
    | supervisee name item =>
      simp only [Event.exits, Option.ite_none_right_eq_some] at hev
      obtain ⟨hitem, hname⟩ := hev
      obtain rfl := Option.some.inj hname
      exact broken_of_last_exit hstop hall hitem hs
    | signal | message | source => cases hev
  -- The condition rules out that the last one is removed.
  have hremove : ev.removes ≠ some n := by
    intro hev
    obtain ⟨c, p, hc, hdown⟩ := hstop
    simp only [KeepsCurrent, hev, hc] at hok
    by_cases hnc : n = c
    · obtain ⟨m, -, hm, hwait⟩ := hok hnc
      exact hwait (.inl (hall m (hnc ▸ hm)))
    · rcases hall c (Ne.symm hnc) with hg | hg <;> cases hdown.symm.trans hg
  exact absurd hev hremove

/-- The shutdown waits for `b`, and `a` comes after it. -/
theorem stopping_of_keepsCurrent_both : ∃ s : RestForOneSupervisor, Stopping s := by
  obtain ⟨s, hr, hx⟩ := exists_running_where KeepsCurrent
    (p := fun s : RestForOneSupervisor => s.inner.isExiting = true)
    (begins_booted [childSpec "a" .always none, childSpec "b" .always none]
      (by decide) .default) (comesUp "a" ++ comesUp "b" ++ [.signal .shutdown]) (by decide)
  exact ⟨s, (stopping_of_keepsCurrent hr hx).1⟩

/-- The only child is removed during the shutdown: the supervisor waits for nobody then. -/
theorem not_stopping : ¬ ∀ s : RestForOneSupervisor,
    (runs RestForOneSupervisor).Reachable (.running s) → s.inner.isExiting = true → Stopping s := by
  intro hall
  obtain ⟨s, hr, hx, hi⟩ := exists_running
    (p := fun s : RestForOneSupervisor => s.inner.isExiting = true ∧ s.cascade = .idle)
    (begins_booted [childSpec "a" .always none] (by decide) .default)
    (comesUp "a" ++ [.signal .shutdown, .source (.removed ⟨"a"⟩)]) (by decide)
  obtain ⟨c, p, hc, -⟩ := hall s hr hx
  rw [hi] at hc
  cases hc

end RestForOneSupervisor
end Zestors
