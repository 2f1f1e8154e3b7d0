import Zestors.Supervisor.RestForOnePhases

/-!
# Rest-for-one and its dead children

A dead supervisee that the cascade does not name is never started again. The cascade names all of
them (`Tracks`), except that the trigger of a new cascade, while another one is starting its members
again, makes the supervisor forget those that precede the trigger and have not been started yet.
-/

namespace Zestors

/-- Whether the cascade names `n`. -/
def Cascade.Names (n : Name) : Cascade → Prop
  | idle => False
  | exiting c p r d => n = c ∨ n ∈ p ∨ n ∈ r ∨ n ∈ d
  | restarting c p => n = c ∨ n ∈ p
  | shuttingDown c p => n = c ∨ n ∈ p

instance (n : Name) (c : Cascade) : Decidable (c.Names n) := by
  unfold Cascade.Names
  split <;> infer_instance

namespace RestForOneSupervisor
open SupervisorInner LoopState Strategy

variable {s : RestForOneSupervisor} {i i' : SupervisorInner} {l r d p : List Name} {n : Name}

/-- Every dead supervisee is in the list. -/
def DeadIn (i : SupervisorInner) (l : List Name) : Prop :=
  ∀ n, i.supervisees.stateOf n = some .dead → n ∈ l

/-- Nobody is shutting down. -/
def NoneStopping (i : SupervisorInner) : Prop :=
  ∀ n, i.supervisees.stateOf n ≠ some .shuttingDown

/-- Where the dead supervisees, and the one that is shutting down, are in each phase. -/
def Tracks (i : SupervisorInner) : Cascade → Prop
  | .idle => DeadIn i [] ∧ NoneStopping i
  | .exiting c p r d =>
    DeadIn i (p ++ r ++ d) ∧ c ∈ r ++ d ∧
      ∀ n, i.supervisees.stateOf n = some .shuttingDown → n = c
  | .restarting _ p => DeadIn i p ∧ NoneStopping i
  | .shuttingDown _ _ => True

/-- `Tracks`, for a supervisor that is not exiting. -/
def Tracked (s : RestForOneSupervisor) : Prop :=
  s.inner.isExiting = false → Tracks s.inner s.cascade

theorem Tracks.names {c : Cascade} (h : Tracks i c) (hs : ∀ n p, c ≠ .shuttingDown n p)
    (hn : i.supervisees.stateOf n = some .dead) : c.Names n := by
  cases c with
  | idle => simpa using h.1 n hn
  | exiting c p r d =>
    have := h.1 n hn
    simp only [List.mem_append, or_assoc] at this
    exact .inr this
  | restarting c p => exact .inr (h.1 n hn)
  | shuttingDown c p => exact absurd rfl (hs c p)

theorem tracked_of_exiting (h : s.inner.isExiting = true) : Tracked s := fun he => by
  simp [he] at h

/-! ## The loops -/

theorem isExiting_shutdownNext : ∀ (s : RestForOneSupervisor) (l : List Name),
    (s.shutdownNext l).1.inner.isExiting = s.inner.isExiting := by
  intro s l
  rcases shutdownNext_spec s l with ⟨i, heq, hst, -⟩ | ⟨i, pre, c, post, -, heq, hst, -, -⟩ <;>
    rw [heq] <;> exact hst.isExiting

theorem isExiting_shutdown_of_ne (h : ∀ c p, s.cascade ≠ .shuttingDown c p) :
    s.shutdown.1.inner.isExiting = true := by
  rw [shutdown_of_ne h]
  exact (isExiting_shutdownNext _ _).trans isExiting_registerExiting

theorem shutdown_tracked (s : RestForOneSupervisor) : Tracked s.shutdown.1 := by
  rcases shutdown_cases s with ⟨hns, -⟩ | ⟨c, p, hc, heq⟩
  · exact tracked_of_exiting (isExiting_shutdown_of_ne hns)
  · rw [heq]
    intro _
    rw [hc]
    trivial

theorem advanceRestart_tracked (hd : DeadIn s.inner l) (hs : NoneStopping s.inner) :
    Tracked (s.advanceRestart l).1 := by
  rcases advanceRestart_spec s l with ⟨heq, hl⟩ | ⟨pre, c, post, rfl, heq, hpre, hc⟩ <;> rw [heq]
  · exact fun _ => ⟨fun n hn => absurd hn (hl n (hd n hn)), hs⟩
  · refine fun _ => ⟨fun n hn => ?_, fun n hn => ?_⟩
    · -- Whoever is still dead comes after `c`.
      simp only [stateOf_start, hc] at hn
      have hne : n ≠ c := by rintro rfl; simp at hn
      rw [if_neg (by simp [hne])] at hn
      rcases List.mem_append.1 (hd n hn) with h | h
      · exact absurd hn (hpre n h)
      · exact (List.mem_cons.1 h).resolve_left hne
    · simp only [stateOf_start] at hn
      split at hn
      · cases hn
      · exact hs n hn

/-- A stopped supervisee is in the list of those to restart or in the list of those to drop. -/
theorem mem_filters (hl : n ∈ l) (hn : i.supervisees.stateOf n ≠ none) :
    n ∈ l.filter (fun n => Restartable i n) ∨ n ∈ l.filter (fun n => Droppable i n) := by
  have hm : i.supervisees.modeOf n ≠ none := by
    rwa [Ne, SuperviseeMap.modeOf_eq_none, ← SuperviseeMap.stateOf_eq_none]
  by_cases hd : Droppable i n
  · exact .inr (List.mem_filter.2 ⟨hl, by simpa using hd⟩)
  · exact .inl (List.mem_filter.2 ⟨hl, by simpa using ⟨hm, hd⟩⟩)

theorem stopNext_tracked (hd : DeadIn s.inner (l ++ r ++ d))
    (hs : NoneStopping s.inner) : Tracked (s.stopNext l r d).1 := by
  have hends := stopNext_ends s l r d
  generalize s.stopNext l r d = x at hends ⊢
  -- Whoever a pass over `l'` leaves dead or shutting down was there before the pass.
  have hpresent : ∀ {l' i n st}, Stopped l' s.inner i → i.supervisees.stateOf n = some st →
      s.inner.supervisees.stateOf n ≠ none := by
    intro l' i n st hst hn hnone
    rw [hst.stateOf, hnone] at hn
    split at hn <;> cases hn
  cases hends with
  | @waits i pre post c hl hst hpre hc =>
    subst hl
    refine fun _ => ⟨fun n hn => ?_, ?_, fun n hn => ?_⟩
    · simp only [List.mem_append, List.mem_reverse]
      by_cases hmem : n ∈ pre ++ [c]
      · rcases mem_filters hmem (hpresent hst hn) with hr | hdrop
        · exact .inl (.inr (.inr hr))
        · exact .inr (.inr hdrop)
      · rw [hst.stateOf, if_neg hmem] at hn
        simp only [List.mem_append, List.mem_singleton, not_or] at hmem
        rcases List.mem_append.1 (hd n hn) with hn | hn
        · rcases List.mem_append.1 hn with hn | hn
          · have hpost := List.mem_cons.1 ((List.mem_append.1 hn).resolve_left hmem.1)
            exact .inl (.inl (hpost.resolve_left hmem.2))
          · exact .inl (.inr (.inl hn))
        · exact .inr (.inl hn)
    · rcases mem_filters (l := pre ++ [c]) (n := c) (by simp) (hpresent hst hc) with hr | hdrop
      · exact List.mem_append_left _ (List.mem_append_right _ hr)
      · exact List.mem_append_right _ (List.mem_append_right _ hdrop)
    · by_contra hne
      by_cases hmem : n ∈ pre
      · rcases hpre n hmem with h | h <;> rw [h] at hn <;> cases hn
      · rw [hst.stateOf, if_neg (by simp [hmem, hne])] at hn
        exact hs n hn
  | refused _ hst _ _ _ _ => exact shutdown_tracked _
  | @done i hst hgone =>
    have hdrop := droppedAll { s with inner := i } (d ++ l.filter fun n => Droppable s.inner n)
    refine advanceRestart_tracked (fun n hn => ?_) fun n hn => ?_
    · rw [hdrop.stateOf] at hn
      split at hn
      · cases hn
      rename_i hnd
      simp only [List.mem_append, List.mem_reverse, not_or] at hnd ⊢
      by_cases hmem : n ∈ l
      · exact .inr ((mem_filters hmem (hpresent hst hn)).resolve_right hnd.2)
      · rw [hst.stateOf, if_neg hmem] at hn
        have hlist := (List.mem_append.1 (hd n hn)).resolve_right hnd.1
        exact .inl ((List.mem_append.1 hlist).resolve_left hmem)
    · rw [hdrop.stateOf] at hn
      split at hn
      · cases hn
      by_cases hmem : n ∈ l
      · rcases hgone n hmem with h | h <;> rw [h] at hn <;> cases hn
      · rw [hst.stateOf, if_neg hmem] at hn
        exact hs n hn

/-! ## The handlers -/

theorem Tracks.mono {c : Cascade} (h : Tracks i c)
    (hd : ∀ n, i'.supervisees.stateOf n = some .dead → i.supervisees.stateOf n = some .dead)
    (hs : ∀ n, i'.supervisees.stateOf n = some .shuttingDown →
      i.supervisees.stateOf n = some .shuttingDown) : Tracks i' c := by
  cases c with
  | idle => exact ⟨fun n hn => h.1 n (hd n hn), fun n hn => h.2 n (hs n hn)⟩
  | exiting c p r d => exact ⟨fun n hn => h.1 n (hd n hn), h.2.1, fun n hn => h.2.2 n (hs n hn)⟩
  | restarting c p => exact ⟨fun n hn => h.1 n (hd n hn), fun n hn => h.2 n (hs n hn)⟩
  | shuttingDown => trivial

/-- `Tracks` once the name that the cascade waits for is done. -/
def Settled (i : SupervisorInner) : Cascade → Prop
  | .exiting _ p r d => DeadIn i (p ++ r ++ d) ∧ NoneStopping i
  | .restarting _ p => DeadIn i p ∧ NoneStopping i
  | .idle | .shuttingDown _ _ => True

theorem Tracks.settled {c : Cascade} (h : Tracks i c) (hc : c.current = some n)
    (hd : ∀ j, i'.supervisees.stateOf j = some .dead → i.supervisees.stateOf j = some .dead ∨
      j = n ∧ ∀ p, c ≠ .restarting n p)
    (hs : ∀ j, i'.supervisees.stateOf j = some .shuttingDown →
      i.supervisees.stateOf j = some .shuttingDown ∧ j ≠ n) : Settled i' c := by
  cases c with
  | idle | shuttingDown => trivial
  | exiting c p r d =>
    obtain rfl : c = n := Option.some.inj hc
    refine ⟨fun j hj => ?_, fun j hj => (hs j hj).2 (h.2.2 j (hs j hj).1)⟩
    rcases hd j hj with hj | ⟨rfl, -⟩
    · exact h.1 j hj
    · rw [List.append_assoc]; exact List.mem_append_right _ h.2.1
  | restarting c p =>
    obtain rfl : c = n := Option.some.inj hc
    refine ⟨fun j hj => ?_, fun j hj => h.2 j (hs j hj).1⟩
    rcases hd j hj with hj | ⟨-, hne⟩
    · exact h.1 j hj
    · exact absurd rfl (hne p)

theorem advanceCascade_tracked (hc : CurrentDone s)
    (h : s.inner.isExiting = false → Settled s.inner s.cascade) : Tracked s.advanceCascade.1 := by
  rcases hx : s.inner.isExiting with _ | _
  · obtain ⟨hni, hns⟩ := hc.running hx
    have hset := h hx
    unfold advanceCascade
    split <;> rename_i heq <;> rw [heq] at hset
    · exact absurd heq hni
    · refine stopNext_tracked (fun n hn => ?_) hset.2
      simpa using hset.1 n hn
    · exact advanceRestart_tracked hset.1 hset.2
    · exact absurd heq (hns _ _)
  · obtain ⟨c, p, heq, -⟩ := hc.exiting hx
    refine tracked_of_exiting ?_
    simp only [advanceCascade, heq]
    exact (isExiting_shutdownNext _ _).trans hx

theorem removeSpec_tracked (h : Tracked s) (hp : Phased s) : Tracked (s.removeSpec n).1 := by
  have hr := removed_dropSpec (s := s) (n := n)
  have hstate : ∀ {j st}, (s.dropSpec n).1.inner.supervisees.stateOf j = some st →
      s.inner.supervisees.stateOf j = some st ∧ j ≠ n := stateOf_of_removed hr
  have hcase := removeSpec_case s n
  generalize (s.removeSpec n).1 = s' at hcase ⊢
  cases hcase with
  | absent => exact h
  | other hc =>
    exact fun hx => (h (hr.isExiting ▸ hx)).mono (fun j hj => (hstate hj).1) fun j hj => (hstate hj).1
  | current hc =>
    refine advanceCascade_tracked (dropSpec_currentDone hp hc) fun hx => ?_
    exact (h (hr.isExiting ▸ hx)).settled hc (fun j hj => .inl (hstate hj).1) fun j hj => hstate hj

/-- Whether the event leaves nobody behind: while a cascade is starting its members again, the
trigger of a new one comes before everybody who is dead. -/
def LeavesNobody (s : RestForOneSupervisor) : Event → Prop
  | .supervisee n item =>
    match s.cascade, item.exitReason with
    | .restarting c _, some reason =>
      n ≠ c → Required s.inner n reason → (s.inner.acquirePermits n).2 = true →
        ∀ m ∈ s.inner.supervisees.names, s.inner.supervisees.stateOf m = some .dead →
          s.inner.supervisees.names.idxOf n < s.inner.supervisees.names.idxOf m
    | _, _ => True
  | _ => True

instance (s : RestForOneSupervisor) (ev : Event) : Decidable (LeavesNobody s ev) := by
  unfold LeavesNobody
  split
  · split <;> infer_instance
  · infer_instance

theorem LeavesNobody.lt {item : SuperviseeItem} {reason : ExitReason} {c m : Name}
    (h : LeavesNobody s (.supervisee n item)) (hr : item.exitReason = some reason)
    (hc : s.cascade = .restarting c p) (hn : n ≠ c) (hreq : Required s.inner n reason)
    (hgrant : (s.inner.acquirePermits n).2 = true)
    (hm : s.inner.supervisees.stateOf m = some .dead) :
    s.inner.supervisees.names.idxOf n < s.inner.supervisees.names.idxOf m := by
  simp only [LeavesNobody, hc, hr] at h
  exact h hn hreq hgrant m (SuperviseeMap.mem_names_iff_stateOf.2 (by simp [hm])) hm

theorem LeavesNobody.mem_after {item : SuperviseeItem} {reason : ExitReason} {c m : Name}
    {before after : List Name} (h : LeavesNobody s (.supervisee n item))
    (hr : item.exitReason = some reason) (hc : s.cascade = .restarting c p) (hn : n ≠ c)
    (hreq : Required s.inner n reason) (hgrant : (s.inner.acquirePermits n).2 = true)
    (hnames : s.inner.supervisees.names = before ++ n :: after)
    (hm : s.inner.supervisees.stateOf m = some .dead) : m ∈ after := by
  have hlt := h.lt hr hc hn hreq hgrant hm
  have hmem : m ∈ before ++ n :: after := hnames ▸ SuperviseeMap.mem_names_iff_stateOf.2 (by simp [hm])
  have hnodup : (before ++ n :: after).Nodup := hnames ▸ SuperviseeMap.nodup_names _
  rw [hnames] at hlt
  exact List.mem_of_idxOf_lt hnodup hmem hlt

/-- `n` is dead now, and everybody else is as they were. -/
structure Exits (i i' : SupervisorInner) (n : Name) : Prop where
  dead : i'.supervisees.stateOf n = some .dead
  others : ∀ j, j ≠ n → i'.supervisees.stateOf j = i.supervisees.stateOf j

theorem exits_setState (hn : ¬ Gone i n) : Exits i (i.setState n .dead) n :=
  ⟨stateOf_setState_dead hn, fun j hj => by rw [stateOf_setState, if_neg hj]⟩

namespace Exits

theorem deads (h : Exits i i' n) {j : Name} (hj : i'.supervisees.stateOf j = some .dead) :
    i.supervisees.stateOf j = some .dead ∨ j = n := by
  by_cases hjn : j = n
  · exact .inr hjn
  · exact .inl (h.others j hjn ▸ hj)

theorem stops (h : Exits i i' n) {j : Name} (hj : i'.supervisees.stateOf j = some .shuttingDown) :
    i.supervisees.stateOf j = some .shuttingDown ∧ j ≠ n := by
  have hjn : j ≠ n := by
    rintro rfl
    rw [h.dead] at hj
    cases hj
  exact ⟨h.others j hjn ▸ hj, hjn⟩

end Exits

theorem Tracks.retry (h : Tracks i (.restarting n p)) (he : Exits i i' n) :
    Tracks ((i'.acquireRestartPermit n).1.start n .restart).1 (.restarting n p) := by
  have hstate : ∀ {j st}, st ≠ .starting →
      ((i'.acquireRestartPermit n).1.start n .restart).1.supervisees.stateOf j = some st →
      j ≠ n ∧ i'.supervisees.stateOf j = some st := by
    intro j st hne hj
    simp only [stateOf_start, stateOf_acquireRestartPermit, he.dead, and_true] at hj
    split at hj
    · cases hj; exact absurd rfl hne
    · exact ⟨‹_›, hj⟩
  refine ⟨fun j hj => ?_, fun j hj => ?_⟩
  · obtain ⟨hjn, hj⟩ := hstate (by simp) hj
    exact h.1 j ((he.deads hj).resolve_right hjn)
  · exact h.2 j (he.stops (hstate (by simp) hj).2).1

theorem Tracks.queued {c : Name} (h : Tracks i (.exiting c p r d)) (he : Exits i i' n) (hn : n ∈ p) :
    Tracks i' (.exiting c p r d) := by
  refine ⟨fun j hj => ?_, h.2.1, fun j hj => h.2.2 j (he.stops hj).1⟩
  rcases he.deads hj with hj | rfl
  · exact h.1 j hj
  · simp [hn]

theorem Tracks.merge {c : Name} {pending : List Name} (h : Tracks i (.exiting c p r d))
    (he : Exits i i' n) (hpending : ∀ j ∈ p, j ∈ pending) :
    Tracks i' (.exiting c pending (r ++ [n]) d) := by
  refine ⟨fun j hj => ?_, ?_, fun j hj => h.2.2 j (he.stops hj).1⟩
  · simp only [List.mem_append, List.mem_singleton]
    rcases he.deads hj with hj | rfl
    · rcases List.mem_append.1 (h.1 j hj) with hj | hj
      · exact .inl ((List.mem_append.1 hj).imp (hpending j) .inl)
      · exact .inr hj
    · exact .inl (.inr (.inr rfl))
  · rcases List.mem_append.1 h.2.1 with hc | hc
    · exact List.mem_append_left _ (List.mem_append_left _ hc)
    · exact List.mem_append_right _ hc

theorem handleExit_tracked {item : SuperviseeItem} {reason : ExitReason} (h : Tracked s)
    (hp : Phased s) (hok : LeavesNobody s (.supervisee n item))
    (hr : item.exitReason = some reason) (hn : ¬ Gone s.inner n) :
    (ofOutcome (handleExit { s with inner := s.inner.setState n .dead } n reason)).Sat
      Tracked fun _ => True := by
  have hexit := exits_setState hn
  set i := s.inner.setState n .dead with hi
  have hx : i.isExiting = s.inner.isExiting := frame_setState.isExiting
  have hcase := handleExit_case (s := { s with inner := i }) reason hexit.dead
  have hperm := permitted_acquirePermits (s := i) (n := n)
  have hexit' : Exits s.inner (i.acquirePermits n).1 n :=
    ⟨(hperm.stateOf n).trans hexit.dead, fun j hj => (hperm.stateOf j).trans (hexit.others j hj)⟩
  have hdone : s.cascade.current = some n → CurrentDone { s with inner := i } := fun hc =>
    hp.currentDone hc hx (fun _ => .inr hexit.dead) (fun _ j _ hj => hj.setState hn)
      (hp.starts.of_eq starts_setState)
  have hdrop := removed_dropSpec (s := { s with inner := i }) (n := n)
  generalize handleExit { s with inner := i } n reason = x at hcase ⊢
  cases hcase with
  | advance hc hnr =>
    refine sat_of_fst (advanceCascade_tracked (hdone hc) fun he => ?_) trivial
    exact (h (hx ▸ he)).settled hc (fun j hj => (hexit.deads hj).imp_right fun e => ⟨e, hnr n⟩)
      fun j hj => hexit.stops hj
  | @dropCurrent p hc =>
    have hc' : s.cascade.current = some n := by rw [show s.cascade = .restarting n p from hc]; rfl
    refine advanceCascade_tracked (hdone hc').dropSpec fun he => ?_
    refine (h ((hdrop.isExiting.trans hx) ▸ he)).settled hc' (fun j hj => ?_) fun j hj => ?_
    · obtain ⟨hj, hjn⟩ := stateOf_of_removed hdrop hj
      exact .inl ((hexit.deads hj).resolve_right hjn)
    · exact hexit.stops (stateOf_of_removed hdrop hj).1
  | giveUp _ | refused _ _ => exact sat_of_fst (shutdown_tracked _) trivial
  | @retry p hc _ _ =>
    intro _
    have htr := h (hp.running_of_restarting hc)
    rw [show s.cascade = .restarting n p from hc] at htr ⊢
    exact htr.retry hexit
  | queued _ hq =>
    intro he
    have htr := h (hx ▸ he)
    cases hcas : s.cascade with
    | idle | restarting => simp [hcas, Cascade.pendingContains] at hq
    | shuttingDown => trivial
    | exiting c p r d =>
      rw [hcas] at htr
      exact htr.queued hexit (by simpa [hcas, Cascade.pendingContains] using hq)
  | drop _ =>
    intro he
    refine (h ((hdrop.isExiting.trans hx) ▸ he)).mono (fun j hj => ?_) fun j hj => ?_
    · obtain ⟨hj, hjn⟩ := stateOf_of_removed hdrop hj
      exact (hexit.deads hj).resolve_right hjn
    · exact (hexit.stops (stateOf_of_removed hdrop hj).1).1
  | @trigger before after hc hreq hgrant hnames =>
    have htr := h (hp.running_of_trigger hn hc)
    refine sat_of_fst (stopNext_tracked (fun j hj => ?_) fun j hj => ?_) trivial
    · simp only [List.append_nil, List.mem_append, List.mem_reverse, List.mem_singleton]
      rcases hexit'.deads hj with hj | rfl
      · rcases hc with hc | ⟨c, p, hcn, hc⟩
        · rw [show s.cascade = .idle from hc] at htr
          simpa using htr.1 j hj
        · -- The condition: whoever is dead comes after the trigger.
          rw [acquirePermits_setState] at hgrant
          exact .inl (hok.mem_after hr hc (Ne.symm hcn) hreq.of_setState hgrant
            (names_setState.symm.trans hnames) hj)
      · exact .inr rfl
    · have hj := (hexit'.stops hj).1
      rcases hc with hc | ⟨c, p, -, hc⟩
      · rw [show s.cascade = .idle from hc] at htr
        exact htr.2 j hj
      · rw [show s.cascade = .restarting c p from hc] at htr
        exact htr.2 j hj
  | @merge c p r d hc hne _ _ _ =>
    have htr := h (hp.running_of_exiting hc)
    rw [show s.cascade = .exiting c p r d from hc] at htr
    rcases hm : mergeIntoStopping _ n c p r d with _ | x
    · trivial
    · obtain ⟨pending, rfl, -, hmem⟩ := mergeIntoStopping_spec hm
      exact fun _ => htr.merge hexit' fun j hj => (hmem j).2 (.inr hj)
  | unreachable => trivial

theorem afterInitialized_tracked {initializing : IndexSet Name} (h : Tracked s) (hp : Phased s)
    (hn : s.inner.supervisees.stateOf n = some .initializing)
    (hi : Same (s.inner.setState n .alive) i) :
    Tracked (afterInitialized ⟨i, initializing, s.cascade⟩ n).1 := by
  have hx : i.isExiting = s.inner.isExiting := hi.isExiting.trans frame_setState.isExiting
  have hstate : ∀ {j st}, st ≠ .alive → i.supervisees.stateOf j = some st →
      s.inner.supervisees.stateOf j = some st ∧ j ≠ n := by
    intro j st hne hj
    rw [hi.stateOf_eq, stateOf_setState, hn] at hj
    split at hj
    · cases hj; exact absurd rfl hne
    · exact ⟨hj, ‹_›⟩
  unfold afterInitialized
  split
  · rename_i hc
    refine advanceCascade_tracked (initialized_currentDone hp hn hi hc) fun he => ?_
    exact (h (hx ▸ he)).settled hc (fun j hj => .inl (hstate (by simp) hj).1)
      fun j hj => hstate (by simp) hj
  · exact fun he => (h (hx ▸ he)).mono (fun j hj => (hstate (by simp) hj).1)
      fun j hj => (hstate (by simp) hj).1

theorem tracked_obligations : Obligations (fun s => Tracked s ∧ Phased s) LeavesNobody Tracked
    (fun _ : RestForOneSupervisor => True) where
  keep s h := h.1
  inbox s inbox h hx := fun he => h (hx ▸ he)
  shutdown s inbox h hx := sat_of_fst (shutdown_tracked _) trivial
  add s ev spec h _ _ := by
    rcases addSpec_cases s.inner spec with heq | hadd
    · show Tracked { s with inner := (s.inner.addSpec spec).1 }
      rw [heq]; exact h.1
    · have hstate : ∀ {j st}, st ≠ .starting →
          (s.inner.addSpec spec).1.supervisees.stateOf j = some st →
          s.inner.supervisees.stateOf j = some st := by
        intro j st hne hj
        rw [hadd.stateOf] at hj
        split at hj
        · cases hj; exact absurd rfl hne
        · exact hj
      exact fun he => (h.1 (hadd.isExiting ▸ he)).mono (fun j hj => hstate (by simp) hj)
        fun j hj => hstate (by simp) hj
  remove s ev name h _ _ := removeSpec_tracked h.1 h.2
  item s name item i h hok hy := by
    cases hy with
    | started hst =>
      have hstate : ∀ {j st}, st ≠ .initializing →
          (s.inner.setState name .initializing).supervisees.stateOf j = some st →
          s.inner.supervisees.stateOf j = some st := by
        intro j st hne hj
        rw [stateOf_setState] at hj
        split at hj
        · obtain ⟨_, -, rfl⟩ := Option.map_eq_some_iff.1 hj
          exact absurd rfl hne
        · exact hj
      exact fun he => (h.1 (frame_setState.isExiting ▸ he)).mono (fun j hj => hstate (by simp) hj)
        fun j hj => hstate (by simp) hj
    | initialized hst =>
      exact sat_of_fst (afterInitialized_tracked (s := s) h.1 h.2 hst same_handleInitialized) trivial
    | exit hst hr hfit =>
      rw [handleItem_of_exitReason hr]
      exact handleExit_tracked h.1 h.2 hok hr (not_gone_of_fits hst hfit)

theorem tracked_of_reachable {st : LoopState RestForOneSupervisor}
    (hr : (runsWhere LeavesNobody).Reachable st) : st.Sat Tracked fun _ => True := by
  refine runsWhere_invariant (fun _ => phased_of_reachable) (fun st hst => ?_)
    tracked_obligations hr
  obtain ⟨s₀, s, initializing, hfresh, rfl⟩ := fresh_of_begins hst
  refine fun _ => ⟨fun n hn => ?_, fun n hn => ?_⟩ <;>
    rcases hfresh.stateOf n with h | h <;> cases h.symm.trans hn

/-- Rest-for-one loses no child: as long as no event leaves anybody behind, the cascade of a
supervisor that is not exiting names everybody who is dead, and an idle one has nobody dead. -/
theorem names_of_dead {s : RestForOneSupervisor}
    (hr : (runsWhere LeavesNobody).Reachable (.running s)) (hx : s.inner.isExiting = false) :
    (∀ n, s.inner.supervisees.stateOf n = some .dead → s.cascade.Names n) ∧
      (s.cascade = .idle → ∀ n, s.inner.supervisees.stateOf n ≠ some .dead) := by
  have htr : Tracks s.inner s.cascade := tracked_of_reachable hr hx
  have hp : Phased s := phased_of_reachable (runs_of_runsWhere hr)
  refine ⟨fun n hn => htr.names (hp.running hx).not_shuttingDown hn, fun hi n hn => ?_⟩
  rw [hi] at htr
  simpa using htr.1 n hn

/-- `a` and `b` have been stopped because of `a`, and `b` is starting again. -/
def halfRestarted : List Event :=
  comesUp "a" ++ comesUp "b" ++
    [.supervisee ⟨"a"⟩ (.exit (.joinError .panic)), .supervisee ⟨"b"⟩ (.exit .normalShutdown)]

theorem names_of_dead_halfRestarted : ∃ s : RestForOneSupervisor,
    s.inner.supervisees.stateOf ⟨"a"⟩ = some .dead ∧ s.cascade.Names ⟨"a"⟩ := by
  obtain ⟨s, hr, hx, hd⟩ := exists_running_where LeavesNobody
    (p := fun s : RestForOneSupervisor => s.inner.isExiting = false ∧
      s.inner.supervisees.stateOf ⟨"a"⟩ = some .dead)
    (begins_booted [childSpec "a" .always none, childSpec "b" .always none]
      (by decide) .default) halfRestarted (by decide)
  exact ⟨s, hd, (names_of_dead hr hx).1 _ hd⟩

/-- Then a new child fails to start: the cascade that it triggers forgets `a`. -/
theorem not_names_of_dead : ¬ ∀ s : RestForOneSupervisor,
    (runs RestForOneSupervisor).Reachable (.running s) → s.inner.isExiting = false →
      ∀ n, s.inner.supervisees.stateOf n = some .dead → s.cascade.Names n := by
  intro hall
  obtain ⟨s, hr, hx, hd, hn⟩ := exists_running
    (p := fun s : RestForOneSupervisor => s.inner.isExiting = false ∧
      s.inner.supervisees.stateOf ⟨"a"⟩ = some .dead ∧ ¬ s.cascade.Names ⟨"a"⟩)
    (begins_booted [childSpec "a" .always none, childSpec "b" .always none]
      (by decide) .default)
    (halfRestarted ++ [.message (.register (childSpec "c" .always none)),
      .supervisee ⟨"c"⟩ (.started (.error .timeout))]) (by decide)
  exact hn (hall s hr hx _ hd)

end RestForOneSupervisor
end Zestors
