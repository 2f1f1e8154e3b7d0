import Zestors.Supervisor.RestForOnePhases

/-!
# The order of rest-for-one shutdowns

The calls of `stop` that a shutdown makes go down the start order, and each of them is made only when
everybody who comes later is gone (`stops_inReverse`).
-/

namespace Zestors

/-- The supervisee called `n`, if there is one, is dead when the call is made. -/
def StopCall.Gone (c : StopCall) (n : Name) : Prop :=
  c.supervisees.stateOf n = none ∨ c.supervisees.stateOf n = some .dead

instance (c : StopCall) (n : Name) : Decidable (c.Gone n) := by
  unfold StopCall.Gone; infer_instance

/-- The call is one of a shutdown, and reaches a supervisee that is not dead yet. -/
def StopCall.Told (c : StopCall) : Prop := c.exiting = true ∧ ¬ c.Gone c.name

instance (c : StopCall) : Decidable c.Told := by unfold StopCall.Told; infer_instance

/-- Whom the shutdown has told to stop, in this order. -/
def SupervisorInner.told (i : SupervisorInner) : List StopCall := i.stops.filter fun c => c.Told

namespace RestForOneSupervisor
open SupervisorInner LoopState Strategy

/-! ## A shutdown goes down the start order -/

variable {s s' : RestForOneSupervisor} {i i' : SupervisorInner} {l p : List Name} {n : Name}
  {T : List StopCall} {a b : StopCall}

/-- Each call is on somebody who comes before those of the calls so far, and everybody who comes after
him is gone. -/
structure Descending (T : List StopCall) : Prop where
  order : T.Pairwise fun a b => [b.name, a.name].Sublist a.supervisees.names
  gone : ∀ a ∈ T, ∀ m, [a.name, m].Sublist a.supervisees.names → a.Gone m

/-- The calls so far, where those in `l` are still to be told, the last of them next. -/
structure Descent (i : SupervisorInner) (l : List Name) (T : List StopCall) : Prop
    extends Descending T where
  sorted : l.reverse.Sublist i.supervisees.keys
  told : ∀ a ∈ T, a.Told
  keys : ∀ a ∈ T, a.supervisees.keys = i.supervisees.keys
  present : ∀ a ∈ T, ∀ n, i.supervisees.stateOf n ≠ none → a.supervisees.stateOf n ≠ none
  before : ∀ a ∈ T, ∀ m ∈ l, ¬ Gone i m → [m, a.name].Sublist i.supervisees.keys

def left : Cascade → List Name
  | .shuttingDown _ p => p.reverse
  | .idle | .exiting _ _ _ _ | .restarting _ _ => []

/-- What the shutdown has told so far. -/
structure Stops (s : RestForOneSupervisor) : Prop where
  exiting : s.inner.isExiting = true → Descent s.inner (left s.cascade) s.inner.told ∧
    ∀ c p, s.cascade = .shuttingDown c p → c ∈ s.inner.told.map StopCall.name
  running : s.inner.isExiting = false → s.inner.told = []

theorem Descent.mono (h : Descent i l T) (hk : i'.supervisees.keys = i.supervisees.keys)
    (hp : ∀ n, i'.supervisees.stateOf n ≠ none → i.supervisees.stateOf n ≠ none)
    (hg : ∀ n, Gone i n → Gone i' n) : Descent i' l T where
  toDescending := h.toDescending
  sorted := hk ▸ h.sorted
  told := h.told
  keys a ha := (h.keys a ha).trans hk.symm
  present a ha n hn := h.present a ha n (hp n hn)
  before a ha m hm hgone := hk ▸ h.before a ha m hm (mt (hg m) hgone)

theorem Descent.tail (h : Descent i (n :: l) T) : Descent i l T where
  toDescending := h.toDescending
  sorted := (List.reverse_cons ▸ List.sublist_append_left _ _).trans h.sorted
  told := h.told
  keys := h.keys
  present := h.present
  before a ha m hm := h.before a ha m (List.mem_cons_of_mem _ hm)

theorem sublist_names {supervisees : SuperviseeMap} {n m : Name} (h : [n, m].Sublist supervisees.keys)
    (hn : supervisees.stateOf n ≠ none) (hm : supervisees.stateOf m ≠ none) :
    [n, m].Sublist supervisees.names := by
  have hn' := SuperviseeMap.mem_names.1 (SuperviseeMap.mem_names_iff_stateOf.2 hn)
  have hm' := SuperviseeMap.mem_names.1 (SuperviseeMap.mem_names_iff_stateOf.2 hm)
  rw [SuperviseeMap.names_eq_filter]
  have hfilter := h.filter fun n => (supervisees.get? n).isSome
  simpa only [List.filter_cons, hn', hm', if_true, List.filter_nil] using hfilter

/-- The next one is told when everybody else who is not gone is still to come. -/
theorem Descent.tell (h : Descent i (n :: l) T) (hx : i.isExiting = true) (hn : ¬ Gone i n)
    (hl : ∀ m, m ∉ n :: l → Gone i m) : Descent i l (T ++ [⟨.stop, n, i.supervisees, i.isExiting⟩]) := by
  have hpresent : i.supervisees.stateOf n ≠ none := fun h => hn (.inl h)
  have hsorted : (l.reverse ++ [n]).Sublist i.supervisees.keys := List.reverse_cons ▸ h.sorted
  have hearlier : ∀ m ∈ l, [m, n].Sublist i.supervisees.keys := fun m hm =>
    .trans (List.Sublist.append (List.singleton_sublist.2 (List.mem_reverse.2 hm)) (.refl [n])) hsorted
  have hold : ∀ a ∈ T, [n, a.name].Sublist a.supervisees.names := fun a ha =>
    sublist_names (h.keys a ha ▸ h.before a ha n List.mem_cons_self hn) (h.present a ha n hpresent)
      fun e => (h.told a ha).2 (.inl e)
  refine ⟨⟨?_, ?_⟩, ?_, ?_, ?_, ?_, ?_⟩
  · exact List.pairwise_append.2 ⟨h.order, List.pairwise_singleton _ _, by simpa using hold⟩
  · refine List.forall_mem_append.2 ⟨h.gone, List.forall_mem_singleton.2 fun m hm => hl m ?_⟩
    have hnodup : i.supervisees.keys.Nodup := SuperviseeMap.nodup_keys _
    have hlater : [n, m].Sublist i.supervisees.keys := hm.trans (SuperviseeMap.names_sublist_keys _)
    rw [List.mem_cons, not_or]
    refine ⟨?_, fun hml => hnodup.not_sublist_swap hlater (hearlier m hml)⟩
    rintro rfl; simpa using hnodup.sublist hlater
  · exact h.tail.sorted
  · exact List.forall_mem_append.2 ⟨h.told, List.forall_mem_singleton.2 ⟨hx, hn⟩⟩
  · exact List.forall_mem_append.2 ⟨h.keys, List.forall_mem_singleton.2 rfl⟩
  · exact List.forall_mem_append.2 ⟨h.present, List.forall_mem_singleton.2 fun _ => id⟩
  · exact List.forall_mem_append.2 ⟨h.tail.before, List.forall_mem_singleton.2 fun m hm _ => hearlier m hm⟩

theorem told_of_stops_eq (h : i'.stops = i.stops) : i'.told = i.told := by
  rw [told, told, h]

theorem told_of_stopped (h : Stopped l i i') (hx : i.isExiting = false) : i'.told = i.told := by
  obtain ⟨calls, hcalls, hon⟩ := h.stops
  have hnone : calls.filter (fun c => c.Told) = [] :=
    List.filter_eq_nil_iff.2 fun c hc htold => by
      have hexit := (of_decide_eq_true htold).1
      rw [hon.exiting c hc, hx] at hexit
      cases hexit
  rw [told, hcalls, List.filter_append, hnone, List.append_nil]
  rfl

theorem told_stop (hx : i.isExiting = true) (hn : ¬ Gone i n) :
    (i.stop n).1.told = i.told ++ [⟨.stop, n, i.supervisees, i.isExiting⟩] := by
  rw [told, stops_stop, if_neg fun hnone => hn (.inl hnone), List.filter_append]
  congr 1
  exact List.filter_cons_of_pos (decide_eq_true ⟨hx, hn⟩)

theorem told_stop_of_gone (hn : Gone i n) : (i.stop n).1.told = i.told := by
  rw [told, stops_stop]
  split
  · rfl
  · rw [List.filter_append, List.filter_cons_of_neg (by simpa using fun h => h.2 hn)]
    exact List.append_nil _

/-- A pass of the shutdown over names that cover everybody who is not gone. -/
theorem shutdownNext_stops (hx : s.inner.isExiting = true) (hl : ∀ n, n ∉ l → Gone s.inner n)
    (h : Descent s.inner l s.inner.told) : Stops (s.shutdownNext l).1 := by
  induction l generalizing s with
  | nil => exact ⟨fun _ => ⟨h, fun c p hc => by cases hc⟩, fun h => by cases hx.symm.trans h⟩
  | cons next rest ih =>
    unfold shutdownNext
    rcases hget : s.inner.supervisees.get? next with _ | sv
    · -- Nobody of that name: the loop goes on.
      have hgone : Gone s.inner next := .inl (SuperviseeMap.stateOf_eq_none.2 hget)
      refine ih hx (fun n hn => ?_) h.tail
      by_cases hnext : n = next
      · exact hnext ▸ hgone
      · exact hl n (by simp [hnext, hn])
    have hst : Stopped [next] s.inner (s.inner.stop next).1 := .of_stop
    have hx' : (s.inner.stop next).1.isExiting = true := hst.isExiting.trans hx
    have hmono : ∀ {l T}, Descent s.inner l T → Descent (s.inner.stop next).1 l T := fun h =>
      h.mono hst.keys (fun n => (hst.present_iff n).1) fun _ hg => hg.of_stopped hst
    have hrest : Gone (s.inner.stop next).1 next → ∀ n, n ∉ rest → Gone (s.inner.stop next).1 n := by
      intro hgone n hn
      by_cases hnext : n = next
      · exact hnext ▸ hgone
      · exact (hl n (by simp [hnext, hn])).of_stopped hst
    by_cases hdead : Gone s.inner next
    · -- He is dead already: the call does not reach him.
      have hgone : Gone (s.inner.stop next).1 next := hdead.of_stopped hst
      have hwait : ¬ (s.inner.stop next).2.isShuttingDown = true := fun hb =>
        not_gone_of_state (stop_isShuttingDown.1 hb) (by simp) hgone
      dsimp only
      rw [if_neg hwait]
      exact ih hx' (hrest hgone) (told_stop_of_gone hdead ▸ hmono h.tail)
    · have htell : Descent (s.inner.stop next).1 rest (s.inner.stop next).1.told := by
        rw [told_stop hx hdead]
        exact hmono (h.tell hx hdead hl)
      dsimp only
      rcases stop_gone_or_shuttingDown s.inner next with ⟨hb, -⟩ | ⟨hb, hgone⟩
      · rw [if_pos hb]
        refine ⟨fun _ => ⟨?_, fun c p hc => ?_⟩, fun h => by cases hx'.symm.trans h⟩
        · simpa [left] using htell
        · cases hc
          rw [told_stop hx hdead, List.map_append]
          exact List.mem_append_right _ (List.mem_singleton_self _)
      · rw [if_neg (by simp [hb])]
        exact ih hx' (hrest hgone) htell

theorem Stops.mono (h : Stops s) (hc : s'.cascade = s.cascade)
    (hx : s'.inner.isExiting = s.inner.isExiting) (ht : s'.inner.stops = s.inner.stops)
    (hk : s'.inner.isExiting = true → s'.inner.supervisees.keys = s.inner.supervisees.keys)
    (hp : s'.inner.isExiting = true →
      ∀ n, s'.inner.supervisees.stateOf n ≠ none → s.inner.supervisees.stateOf n ≠ none)
    (hg : s'.inner.isExiting = true → ∀ n, Gone s.inner n → Gone s'.inner n) : Stops s' := by
  refine ⟨fun he => ?_, fun he => (told_of_stops_eq ht).trans (h.running (hx ▸ he))⟩
  rw [hc, told_of_stops_eq ht]
  obtain ⟨hdesc, hcur⟩ := h.exiting (hx ▸ he)
  exact ⟨hdesc.mono (hk he) (hp he) (hg he), hcur⟩

theorem stops_of_running (hx : s.inner.isExiting = false) (ht : s.inner.told = []) : Stops s :=
  ⟨fun h => (Bool.false_ne_true (hx.symm.trans h)).elim, fun _ => ht⟩

/-- A shutdown that is in progress is left alone. Any other begins to tell, unless there is nobody left
to tell. -/
theorem shutdown_stops (hin : ∀ c p, s.cascade = .shuttingDown c p → Stops s)
    (hnew : (∀ c p, s.cascade ≠ .shuttingDown c p) →
      s.inner.told = [] ∨ Descent s.inner [] s.inner.told ∧ ∀ n, Gone s.inner n) :
    Stops s.shutdown.1 := by
  rcases shutdown_cases s with ⟨hns, heq⟩ | ⟨c, p, hc, heq⟩ <;> rw [heq]
  · refine shutdownNext_stops isExiting_registerExiting (fun n hn => .inl ?_) ?_
    · rw [List.mem_reverse, SuperviseeMap.mem_names_iff_stateOf, not_not] at hn
      exact hn
    · have hsorted : s.inner.supervisees.names.reverse.reverse.Sublist s.inner.supervisees.keys := by
        rw [List.reverse_reverse]
        exact SuperviseeMap.names_sublist_keys _
      show Descent s.inner.registerExiting _ s.inner.told
      rcases hnew hns with hnone | ⟨hdesc, hgone⟩
      · rw [hnone]
        exact ⟨⟨.nil, by simp⟩, hsorted, by simp, by simp, by simp, by simp⟩
      · exact ⟨hdesc.toDescending, hsorted, hdesc.told, hdesc.keys, hdesc.present,
          fun _ _ m _ hm => absurd (hgone m) hm⟩
  · exact hin c p hc

theorem shutdown_stops_of_running (hx : s.inner.isExiting = false) (ht : s.inner.told = []) :
    Stops s.shutdown.1 :=
  shutdown_stops (fun _ _ _ => stops_of_running hx ht) fun _ => .inl ht

/-! ## The other loops -/

theorem advanceRestart_stops (hx : s.inner.isExiting = false) (ht : s.inner.told = []) :
    Stops (s.advanceRestart l).1 := by
  obtain ⟨hexiting, hstops⟩ := inner_advanceRestart s l
  exact stops_of_running (hexiting.trans hx) ((told_of_stops_eq hstops).trans ht)

/-- The pass of a cascade tells nobody on behalf of a shutdown, unless it begins one. -/
theorem stopNext_stops {r d : List Name} (hx : s.inner.isExiting = false) (ht : s.inner.told = []) :
    Stops (s.stopNext l r d).1 := by
  have hends := stopNext_ends s l r d
  generalize s.stopNext l r d = x at hends ⊢
  cases hends with
  | waits _ hst _ _ => exact stops_of_running (hst.isExiting.trans hx) ((told_of_stopped hst hx).trans ht)
  | @refused i pre post c _ hst _ _ _ _ =>
    have hpermit : (i.acquireRestartPermit c).1.isExiting = i.isExiting := frame_acquireRestartPermit.isExiting
    have htold : (i.acquireRestartPermit c).1.told = i.told := told_of_stops_eq stops_acquireRestartPermit
    exact shutdown_stops_of_running (s := { s with inner := (i.acquireRestartPermit c).1 })
      (hpermit.trans (hst.isExiting.trans hx)) (htold.trans ((told_of_stopped hst hx).trans ht))
  | @done i hst _ =>
    have hdrop := droppedAll { s with inner := i } (d ++ l.filter fun n => Droppable s.inner n)
    exact advanceRestart_stops (hdrop.isExiting.trans (hst.isExiting.trans hx))
      ((told_of_stops_eq hdrop.stops).trans ((told_of_stopped hst hx).trans ht))

theorem advanceCascade_stops (h : Stops s) (hdone : CurrentDone s) : Stops s.advanceCascade.1 := by
  unfold advanceCascade
  rcases hx : s.inner.isExiting with _ | _
  · obtain ⟨hni, hns⟩ := hdone.running hx
    have ht := h.running hx
    cases hc : s.cascade with
    | idle => exact absurd hc hni
    | shuttingDown c p => exact absurd hc (hns c p)
    | exiting c p r d => exact stopNext_stops hx ht
    | restarting c p => exact advanceRestart_stops hx ht
  · obtain ⟨c, p, hc, hp⟩ := hdone.exiting hx
    obtain ⟨hdesc, -⟩ := h.exiting hx
    rw [hc] at hdesc
    rw [hc]
    exact shutdownNext_stops hx (fun n hn => hp n (by simpa using hn)) hdesc

/-! ## The handlers -/

theorem dropSpec_stops (h : Stops s) : Stops (s.dropSpec n).1 := by
  have hr := removed_dropSpec (s := s) (n := n)
  refine h.mono rfl hr.isExiting hr.stops (fun _ => hr.keys) (fun _ j hj => ?_) fun _ j hj => hj.removed hr
  obtain ⟨st, hst⟩ := Option.ne_none_iff_exists'.1 hj
  rw [(stateOf_of_removed hr hst).1]
  simp

theorem removeSpec_stops (h : Stops s) (hp : Phased s) : Stops (s.removeSpec n).1 := by
  have hcase := removeSpec_case s n
  generalize (s.removeSpec n).1 = s' at hcase ⊢
  cases hcase with
  | absent => exact h
  | other _ => exact dropSpec_stops h
  | current hc => exact advanceCascade_stops (dropSpec_stops h) (dropSpec_currentDone hp hc)

theorem setState_stops {state : SuperviseeState} {initializing : IndexSet Name} (h : Stops s)
    (hn : ¬ Gone s.inner n) : Stops ⟨s.inner.setState n state, initializing, s.cascade⟩ := by
  refine h.mono rfl frame_setState.isExiting stops_setState (fun _ => keys_setState) (fun _ j hj => ?_)
    fun _ j hj => hj.setState hn
  change (s.inner.setState n state).supervisees.stateOf j ≠ none at hj
  rw [stateOf_setState] at hj
  split at hj
  · subst j
    simpa using hj
  · exact hj

theorem Stops.permitted (h : Stops s) (hp : Permitted s.inner i) : Stops { s with inner := i } :=
  h.mono rfl hp.isExiting hp.stops (fun _ => hp.keys) (fun _ j hj => hp.stateOf j ▸ hj) fun _ j hj => by
    unfold Gone
    rwa [hp.stateOf]

theorem shutdown_stops_of_phased (h : Stops s) (hp : Phased s) : Stops s.shutdown.1 := by
  refine shutdown_stops (fun _ _ _ => h) fun hns => ?_
  rcases hx : s.inner.isExiting with _ | _
  · exact .inl (h.running hx)
  · -- Unless a shutdown is in progress, everybody is gone.
    have hphase := hp.exiting hx
    obtain ⟨hdesc, -⟩ := h.exiting hx
    cases hc : s.cascade with
    | idle =>
      rw [hc] at hphase hdesc
      exact .inr ⟨hdesc, hphase⟩
    | exiting | restarting => rw [hc] at hphase; exact hphase.elim
    | shuttingDown c p => exact absurd hc (hns c p)

theorem handleExit_stops {reason : ExitReason} (h : Stops s) (hp : Phased s) (hn : ¬ Gone s.inner n) :
    (ofOutcome (handleExit { s with inner := s.inner.setState n .dead } n reason)).Sat Stops Stops := by
  set i := s.inner.setState n .dead with hi
  have hdead : i.supervisees.stateOf n = some .dead := stateOf_setState_dead hn
  have hx : i.isExiting = s.inner.isExiting := frame_setState.isExiting
  have hset : Stops { s with inner := i } := setState_stops h hn
  have hperm := permitted_acquirePermits (s := i) (n := n)
  have hphased : s.cascade.current ≠ some n → Phased { s with inner := i } := fun hc =>
    setState_phased hp hc hn
  have hdone : s.cascade.current = some n → CurrentDone { s with inner := i } := fun hc =>
    hp.currentDone hc hx (fun _ => .inr hdead) (fun _ j _ hj => hj.setState hn)
      (hp.starts.of_eq starts_setState)
  have hall : ∀ {x : RestForOneSupervisor × ControlFlow}, Stops x.1 → (ofFlow x).Sat Stops Stops := fun h =>
    sat_of_fst h h
  have hcase := handleExit_case (s := { s with inner := i }) reason hdead
  generalize handleExit { s with inner := i } n reason = x at hcase ⊢
  cases hcase with
  | advance hc _ => exact hall (advanceCascade_stops hset (hdone hc))
  | dropCurrent hc =>
    exact advanceCascade_stops (dropSpec_stops hset) (hdone (by rw [hc]; rfl)).dropSpec
  | @giveUp p hc =>
    have hrun : i.isExiting = false := hx.trans (hp.running_of_restarting hc)
    have hpermit : (i.acquireRestartPermit n).1.isExiting = i.isExiting := frame_acquireRestartPermit.isExiting
    have htold : (i.acquireRestartPermit n).1.told = i.told := told_of_stops_eq stops_acquireRestartPermit
    exact hall (shutdown_stops_of_running (s := { s with inner := (i.acquireRestartPermit n).1 })
      (hpermit.trans hrun) (htold.trans (hset.running hrun)))
  | @retry p hc _ _ =>
    have hrun : i.isExiting = false := hx.trans (hp.running_of_restarting hc)
    refine stops_of_running ?_ ?_
    · exact frame_start.isExiting.trans (frame_acquireRestartPermit.isExiting.trans hrun)
    · exact (told_of_stops_eq (stops_start.trans stops_acquireRestartPermit)).trans (hset.running hrun)
  | queued => exact hset
  | drop _ => exact dropSpec_stops hset
  | refused hc _ =>
    exact hall (shutdown_stops_of_phased (hset.permitted hperm)
      (permitted_phased (s := { s with inner := i }) (hphased hc) hperm))
  | trigger hc _ _ _ =>
    have hrun : i.isExiting = false := hx.trans (hp.running_of_trigger hn hc)
    exact hall (stopNext_stops (hperm.isExiting.trans hrun)
      ((told_of_stops_eq hperm.stops).trans (hset.running hrun)))
  | @merge c p r d hc _ _ _ _ =>
    have hrun : i.isExiting = false := hx.trans (hp.running_of_exiting hc)
    rcases hm : mergeIntoStopping _ n c p r d with _ | x
    · trivial
    · obtain ⟨pending, rfl, -, -⟩ := mergeIntoStopping_spec hm
      exact stops_of_running (hperm.isExiting.trans hrun)
        ((told_of_stops_eq hperm.stops).trans (hset.running hrun))
  | unreachable => trivial

theorem Stops.of_same (h : Stops s) {initializing : IndexSet Name} (hi : Same s.inner i) :
    Stops ⟨i, initializing, s.cascade⟩ :=
  h.mono rfl hi.isExiting hi.stops_eq (fun _ => hi.keys) (fun _ n hn => (hi.stateOf_eq n) ▸ hn)
    fun _ _ hg => hg.of_stopped hi

theorem addSpec_stops (h : Stops s) (spec : ChildSpec) :
    Stops { s with inner := (s.inner.addSpec spec).1 } := by
  rcases addSpec_cases s.inner spec with heq | hadd
  · rw [heq]
    exact h
  · exact stops_of_running (hadd.isExiting.trans hadd.notExiting)
      ((told_of_stops_eq hadd.stops).trans (h.running hadd.notExiting))

theorem afterInitialized_stops {initializing : IndexSet Name} (h : Stops s) (hp : Phased s)
    (hn : s.inner.supervisees.stateOf n = some .initializing)
    (hi : Same (s.inner.setState n .alive) i) :
    (ofFlow (afterInitialized ⟨i, initializing, s.cascade⟩ n)).Sat Stops Stops := by
  have hset : Stops ⟨s.inner.setState n .alive, s.initializing, s.cascade⟩ :=
    setState_stops h (not_gone_of_state hn (by simp))
  have hsame : Stops ⟨i, initializing, s.cascade⟩ := hset.of_same hi
  unfold afterInitialized
  split
  · have hnext := advanceCascade_stops hsame (initialized_currentDone hp hn hi ‹_›)
    exact sat_of_fst hnext hnext
  · exact hsame

/-! ## Runs -/

theorem stops_obligations : Obligations (fun s => Stops s ∧ Phased s) (fun _ _ => True) Stops
    (Stops : RestForOneSupervisor → Prop) where
  keep s h := h.1
  inbox s inbox h hx := h.of_same (.of_inbox hx)
  shutdown s inbox h hx := by
    have hshut : Stops (withInbox s inbox).shutdown.1 := by
      rcases hrun : s.inner.isExiting with _ | _
      · -- The phase begins here.
        exact shutdown_stops (fun c p hc => absurd hc ((h.2.running hrun).not_shuttingDown c p))
          fun _ => .inl (h.1.running hrun)
      · have hi : Same s.inner { s.inner with inbox } := .of_inbox (hx.trans hrun.symm)
        exact shutdown_stops_of_phased (h.1.of_same hi) (h.2.congr_inner hi)
    exact sat_of_fst hshut hshut
  add s ev spec h _ _ := addSpec_stops h.1 spec
  remove s ev name h _ _ := removeSpec_stops h.1 h.2
  item s name item i h _ hy := by
    cases hy with
    | started hst => exact setState_stops h.1 (not_gone_of_state hst (by simp))
    | initialized hst => exact afterInitialized_stops (s := s) h.1 h.2 hst same_handleInitialized
    | exit hst hr hfit =>
      rw [handleItem_of_exitReason hr]
      exact handleExit_stops h.1 h.2 (not_gone_of_fits hst hfit)

theorem outcome_eq_none {x : Option (RestForOneSupervisor × ControlFlow)}
    (h : ofOutcome x = .panicked) : x = none := by
  rcases x with _ | ⟨s, _ | _⟩
  · rfl
  · cases h
  · cases h

/-- Only the exit of a supervisee makes a turn panic. -/
theorem panics {ev : Event} (h : step (.running s) ev = some .panicked) :
    ∃ n item reason, ev = .supervisee n item ∧ ¬ Gone s.inner n ∧ item.exitReason = some reason ∧
      s.inner.next ev = some (s.inner.setState n .dead, some (.supervisee n item)) ∧
      handleExit { s with inner := s.inner.setState n .dead } n reason = none := by
  obtain ⟨⟨i, o⟩, hnext, h⟩ := Option.map_eq_some_iff.1 h
  cases ev with
  | signal signal =>
    cases o with
    | none => cases h
    | some received =>
      simp only [next, Option.some.injEq, Prod.mk.injEq, Option.map_eq_some_iff] at hnext
      obtain ⟨-, sig, -, rfl⟩ := hnext
      cases outcome_eq_none h
  | message msg =>
    simp only [next] at hnext
    split at hnext <;> cases hnext
    cases h
  | source ev =>
    simp only [next] at hnext
    split at hnext <;> cases hnext
    cases h
  | supervisee n item =>
    obtain ⟨rfl, hy⟩ := yields_of_next hnext
    have hnone := outcome_eq_none h
    cases hy with
    | started | initialized => cases hnone
    | @exit _ reason st hst hr hfit =>
      refine ⟨n, item, reason, rfl, not_gone_of_fits hst hfit, hr, hnext, ?_⟩
      change handleItem _ n item = none at hnone
      rwa [handleItem_of_exitReason hr] at hnone

/-- In the phase `ShuttingDown` no turn panics. -/
theorem step_ne_panicked {c : Name} {ev : Event} (hp : Phased s) (hc : s.cascade = .shuttingDown c p) :
    step (.running s) ev ≠ some .panicked := by
  intro hs
  obtain ⟨n, item, reason, rfl, hn, -, -, hnone⟩ := panics hs
  have hx : s.inner.isExiting = true := by
    by_contra hx
    exact (hp.running (by simpa using hx)).not_shuttingDown c p hc
  have hphase := hp.exiting hx
  rw [hc] at hphase
  have hcase := handleExit_case (s := { s with inner := s.inner.setState n .dead }) reason
    (stateOf_setState_dead hn)
  rw [hnone] at hcase
  generalize hy : (none : Option (RestForOneSupervisor × ControlFlow)) = y at hcase
  cases hcase with
  | merge hc' => cases hc.symm.trans hc'
  | unreachable hc' hne hnp =>
    cases hc.symm.trans hc'
    exact hn (hphase.2 n hne hnp)
  | _ => cases hy

theorem Stops.descending (h : Stops s) : Descending s.inner.told := by
  rcases hx : s.inner.isExiting with _ | _
  · rw [h.running hx]
    exact ⟨.nil, by simp⟩
  · exact (h.exiting hx).1.toDescending

theorem stops_of_reachable {st : LoopState RestForOneSupervisor}
    (h : (runs RestForOneSupervisor).Reachable st) : st.Sat Stops Stops := by
  have hguard : (runsWhere fun (_ : RestForOneSupervisor) _ => True).Reachable st :=
    h.to_guard fun st ev _ _ _ => by cases st <;> trivial
  refine runsWhere_invariant (fun st => phased_of_reachable) (fun st hst => ?_) stops_obligations hguard
  obtain ⟨s₀, s, initializing, hfresh, rfl⟩ := fresh_of_begins hst
  have hnone : s.told = [] := by rw [told, hfresh.stops]; rfl
  exact stops_of_running hfresh.notExiting hnone

theorem Descending.nodup (h : Descending T) : (T.map StopCall.name).Nodup := by
  rw [List.Nodup, List.pairwise_map]
  refine h.order.imp fun {a b} hab heq => ?_
  have hne := (SuperviseeMap.nodup_names _).sublist hab
  simp [heq] at hne

/-- A rest-for-one shutdown tells the supervisees to stop in the reverse of the start order, each of
them only when everybody who comes later is dead or removed, and nobody twice. Whoever is not dead was
told, or waits for its turn; the loop is left when everybody is dead or removed; and no exit makes the
phase `ShuttingDown` panic. -/
theorem stops_inReverse {st : LoopState RestForOneSupervisor}
    (h : (runs RestForOneSupervisor).Reachable st) :
    st.Sat (fun s => Descending s.inner.told ∧ (s.inner.told.map StopCall.name).Nodup ∧
        (s.inner.isExiting = true → ∀ n, ¬ Gone s.inner n →
          n ∈ s.inner.told.map StopCall.name ∨ s.cascade.pendingContains n = true))
      (fun s => Descending s.inner.told ∧ (s.inner.told.map StopCall.name).Nodup ∧
        ∀ n, Gone s.inner n) ∧
      ∀ s c p ev, st = .running s → s.cascade = .shuttingDown c p → step st ev ≠ some .panicked := by
  have hstops := stops_of_reachable h
  have hphased := phased_of_reachable h
  constructor
  · cases st with
    | panicked => trivial
    | broken s =>
      have hstops : Stops s := hstops
      exact ⟨hstops.descending, hstops.descending.nodup, Finished.gone hphased⟩
    | running s =>
      have hstops : Stops s := hstops
      refine ⟨hstops.descending, hstops.descending.nodup, fun hx n hn => ?_⟩
      have hphase := Phased.exiting hphased hx
      cases hc : s.cascade with
      | idle => rw [hc] at hphase; exact absurd (hphase n) hn
      | exiting | restarting => rw [hc] at hphase; exact hphase.elim
      | shuttingDown c p =>
        rw [hc] at hphase
        by_cases hnc : n = c
        · exact .inl (hnc ▸ (hstops.exiting hx).2 c p hc)
        · by_cases hnp : n ∈ p
          · exact .inr (by simpa [Cascade.pendingContains] using hnp)
          · exact absurd (hphase.2 n hnc hnp) hn
  · rintro s c p ev rfl hc
    exact step_ne_panicked hphased hc

/-- The shutdown comes when `b` is being stopped because of `a`: `b` is told again, and `c`, which was
registered in between, before it. -/
theorem stops_inReverse_midway : ∃ s, (runs RestForOneSupervisor).Reachable (.running s) ∧
    s.inner.told.map StopCall.name = [⟨"c"⟩, ⟨"b"⟩] ∧ Descending s.inner.told := by
  let children := [childSpec "a" .always none, childSpec "b" .always none]
  obtain ⟨s, hr, htold⟩ : ∃ s : RestForOneSupervisor, (runs RestForOneSupervisor).Reachable (.running s) ∧
      s.inner.told.map StopCall.name = [⟨"c"⟩, ⟨"b"⟩] :=
    exists_running (begins_booted children (by decide) .default)
      (comesUp "a" ++ comesUp "b" ++ [.supervisee ⟨"a"⟩ (.exit .normalExit),
        .source (.added (childSpec "c" .always none))] ++ comesUp "c" ++ [.signal .shutdown,
        .supervisee ⟨"c"⟩ (.exit .normalShutdown)]) (by decide)
  exact ⟨s, hr, htold, (stops_inReverse hr).1.1⟩

end RestForOneSupervisor
end Zestors
