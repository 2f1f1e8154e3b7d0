import Zestors.Supervisor.OneForAllSpec
import Zestors.Supervisor.OneForOneSpec
import Zestors.Supervisor.RestForOnePhases

/-!
# The restart budget of a supervisor

Within the window of its budget a supervisor restarts at most `maxRestarts` times as many supervisees
as it has (`restarts_le`). The proof is an accounting: a permit pays for one restart of everybody
(`Budget.permit`), and `slack` is what a cascade that is under way may still spend. Rest-for-one
supervisors have one restart that nobody has paid for: a child that fails while a cascade is starting
it is started again without a permit of the supervisor (`Retries`).
-/

namespace Zestors
open SupervisorInner LoopState Strategy

namespace SupervisorInner
variable {i i' i'' : SupervisorInner} {N k j : ℕ} {n c : Name} {l l' : List Name}

/-- The number of starts beyond those of `start_all` and `add_spec`. -/
def restartsMade (i : SupervisorInner) : ℕ := i.starts.countP fun e => e.cause = .restart

/-- The readings of the clock so far lie within one window of the supervisor's budget. -/
def Windowed (i : SupervisorInner) : Prop :=
  ∀ k < i.ticks, ∀ j < i.ticks,
    (i.clock k).durationSince (i.clock j) ≤ i.restarter.intensity.within

instance (i : SupervisorInner) : Decidable (Windowed i) := by
  unfold Windowed; infer_instance

/-- A supervisor that never has more than `N` supervisees keeps to its budget. -/
def WithinBudget (N : ℕ) (i : SupervisorInner) : Prop :=
  i.restarter.intensity.isInfinite = false → Windowed i →
    i.restartsMade ≤ i.restarter.intensity.maxRestarts.toNat * N

instance (N : ℕ) (i : SupervisorInner) : Decidable (WithinBudget N i) := by
  unfold WithinBudget; infer_instance

/-- Every permit that was granted has paid for `N` restarts, and `slack` of these are left. -/
structure Budget (N slack : ℕ) (i : SupervisorInner) : Prop where
  readings : ∀ t ∈ i.restarter.restarts, ∃ k < i.ticks, i.clock k = t
  bound : i.restarter.intensity.isInfinite = false → Windowed i →
    i.restartsMade + slack ≤ i.restarter.restarts.length * N

/-- `i'` comes after `i`, with at most `k` restarts and without a permit of the supervisor. -/
structure Spends (k : ℕ) (i i' : SupervisorInner) : Prop where
  restarter : i'.restarter = i.restarter
  clock : i'.clock = i.clock
  ticks : i.ticks ≤ i'.ticks
  restarts : i'.restartsMade ≤ i.restartsMade + k

theorem Budget.withinBudget {slack : ℕ} (h : Budget N slack i) : WithinBudget N i := fun hfin hw =>
  calc i.restartsMade ≤ i.restarter.restarts.length * N :=
        Nat.le_trans (Nat.le_add_right _ _) (h.bound hfin hw)
    _ ≤ i.restarter.intensity.maxRestarts.toNat * N := Nat.mul_le_mul_right N i.restarter.bounded

theorem Budget.spend (h : Budget N (k + j) i) (hs : Spends j i i') : Budget N k i' where
  readings t ht := by
    obtain ⟨m, hm, rfl⟩ := h.readings t (hs.restarter ▸ ht)
    exact ⟨m, Nat.lt_of_lt_of_le hm hs.ticks, congrFun hs.clock m⟩
  bound hfin hw := by
    have hw' : Windowed i := fun a ha b hb => by
      have := hw a (Nat.lt_of_lt_of_le ha hs.ticks) b (Nat.lt_of_lt_of_le hb hs.ticks)
      rwa [hs.clock, hs.restarter] at this
    have hb := h.bound (hs.restarter ▸ hfin) hw'
    have hr := hs.restarts
    rw [hs.restarter]
    omega

theorem Budget.keep (h : Budget N k i) (hs : Spends 0 i i') : Budget N k i' := h.spend (j := 0) hs

theorem Budget.less (h : Budget N k i) (hk : j ≤ k) : Budget N j i :=
  ⟨h.readings, fun hfin hw => Nat.le_trans (Nat.add_le_add_left hk _) (h.bound hfin hw)⟩

namespace Spends

theorem of_frame (hf : Frame i i') (hs : i'.starts = i.starts) : Spends 0 i i' :=
  ⟨hf.restarter, hf.clock, hf.ticks, by rw [restartsMade, hs]; exact le_rfl⟩

theorem trans (h : Spends k i i') (h' : Spends j i' i'') : Spends (k + j) i i'' where
  restarter := h'.restarter.trans h.restarter
  clock := h'.clock.trans h.clock
  ticks := h.ticks.trans h'.ticks
  restarts := by
    have := h.restarts
    have := h'.restarts
    omega

theorem of_start : Spends 1 i (i.start n .restart).1 where
  restarter := frame_start.restarter
  clock := frame_start.clock
  ticks := frame_start.ticks
  restarts := by
    unfold restartsMade
    rw [starts_start]
    split
    · simp
    · omega

theorem of_addSpec (spec : ChildSpec) : Spends 0 i (i.addSpec spec).1 := by
  rcases addSpec_cases i spec with heq | hadd
  · rw [heq]; exact of_frame (.refl i) rfl
  · refine ⟨hadd.restarter, hadd.clock, hadd.ticks, ?_⟩
    unfold restartsMade
    rw [hadd.starts]
    simp

theorem of_setState {state : SuperviseeState} : Spends 0 i (i.setState n state) :=
  of_frame frame_setState starts_setState

theorem of_childPermit : Spends 0 i (i.acquireRestartPermit n).1 :=
  of_frame frame_acquireRestartPermit starts_acquireRestartPermit

theorem of_shutdown (exiting : IndexSet Name) : Spends 0 i (i.shutdown exiting).1 :=
  ⟨rfl, rfl, le_rfl, le_rfl⟩

theorem of_inbox (inbox : Inbox) : Spends 0 i { i with inbox } := ⟨rfl, rfl, le_rfl, le_rfl⟩

theorem of_registerExiting : Spends 0 i i.registerExiting := ⟨rfl, rfl, le_rfl, le_rfl⟩

end Spends

theorem Budget.permit (h : Budget N k i) :
    Budget N (if i.acquirePermit.2 then k + N else k) i.acquirePermit.1 where
  readings t ht := by
    rcases RestartLimiter.mem_acquirePermit ht with ht | rfl
    · obtain ⟨m, hm, rfl⟩ := h.readings t ht
      exact ⟨m, Nat.lt_succ_of_lt hm, rfl⟩
    · exact ⟨i.ticks, Nat.lt_succ_self _, rfl⟩
  bound hfin hw := by
    have hw' : Windowed i := fun a ha b hb =>
      hw a (Nat.lt_succ_of_lt ha) b (Nat.lt_succ_of_lt hb)
    have hb := h.bound hfin hw'
    have hlen := RestartLimiter.length_acquirePermit i.restarter i.now hfin
      fun t ht => by
        obtain ⟨m, hm, rfl⟩ := h.readings t ht
        exact hw i.ticks (Nat.lt_succ_self _) m (Nat.lt_succ_of_lt hm)
    show i.restartsMade + _ ≤ (i.restarter.acquirePermit i.now).1.restarts.length * N
    rw [hlen]
    show i.restartsMade + (if (i.restarter.acquirePermit i.now).2 then k + N else k) ≤ _
    split
    · rw [Nat.add_mul, Nat.one_mul]
      omega
    · simpa using hb

theorem Budget.permits (h : Budget N k i) :
    Budget N (if (i.acquirePermits n).2 then k + N else k) (i.acquirePermits n).1 := by
  have hp := h.permit
  unfold acquirePermits
  split
  · rename_i hgrant
    rw [if_pos hgrant] at hp
    refine (hp.less (j := (if (i.acquirePermit.1.acquireRestartPermit n).2 then k + N else k) + 0)
      ?_).keep .of_childPermit
    split <;> omega
  · rename_i hno
    rwa [if_neg hno] at hp

theorem Budget.refused (h : Budget N k i) : Budget N k (i.acquirePermits n).1 :=
  h.permits.less (by split <;> omega)

/-! ## The dead of a list -/

/-- How many of the supervisees named in the list are dead. -/
def deadCount (i : SupervisorInner) (l : List Name) : ℕ :=
  (i.supervisees.names.filter fun n => i.supervisees.stateOf n = some .dead ∧ n ∈ l).length

theorem mem_dead : n ∈ (i.supervisees.names.filter fun n =>
    i.supervisees.stateOf n = some .dead ∧ n ∈ l) ↔
      i.supervisees.stateOf n = some .dead ∧ n ∈ l := by
  rw [List.mem_filter, SuperviseeMap.mem_names_iff_stateOf, decide_eq_true_eq, and_iff_right_iff_imp]
  rintro ⟨hd, -⟩
  simp [hd]

theorem deadCount_le (h : ∀ n ∈ l', i'.supervisees.stateOf n = some .dead →
    i.supervisees.stateOf n = some .dead ∧ n ∈ l) : deadCount i' l' ≤ deadCount i l := by
  refine List.Nodup.length_le_of_subset ((SuperviseeMap.nodup_names _).filter _) fun n hn => ?_
  obtain ⟨hd, hl⟩ := mem_dead.1 hn
  exact mem_dead.2 (h n hl hd)

theorem deadCount_succ_le (hc : i.supervisees.stateOf c = some .dead ∧ c ∈ l)
    (hc' : i'.supervisees.stateOf c ≠ some .dead)
    (h : ∀ n ∈ l', i'.supervisees.stateOf n = some .dead →
      i.supervisees.stateOf n = some .dead ∧ n ∈ l) : deadCount i' l' + 1 ≤ deadCount i l := by
  show (c :: i'.supervisees.names.filter fun n =>
    i'.supervisees.stateOf n = some .dead ∧ n ∈ l').length ≤ _
  refine List.Nodup.length_le_of_subset ?_ fun n hn => ?_
  · exact List.nodup_cons.2 ⟨fun hm => hc' (mem_dead.1 hm).1, (SuperviseeMap.nodup_names _).filter _⟩
  · rcases List.mem_cons.1 hn with rfl | hn
    · exact mem_dead.2 hc
    · obtain ⟨hd, hl⟩ := mem_dead.1 hn
      exact mem_dead.2 (h n hl hd)

/-- Different supervisees of which each is there are no more than there are. -/
theorem length_le_of_present (hl : l.Nodup) (h : ∀ n ∈ l, i.supervisees.stateOf n ≠ none) :
    l.length ≤ i.supervisees.names.length :=
  List.Nodup.length_le_of_subset hl fun n hn => SuperviseeMap.mem_names_iff_stateOf.2 (h n hn)

end SupervisorInner

/-- The supervisor has at most `N` supervisees. -/
def Holds {σ : Type} [Strategy σ] (N : ℕ) (s : σ) : Prop :=
  (inner s).supervisees.names.length ≤ N

instance {σ : Type} [Strategy σ] (N : ℕ) (s : σ) : Decidable (Holds N s) := by
  unfold Holds; infer_instance

variable {N : ℕ} {n : Name} {l r d : List Name}

/-! ## One for one -/

namespace OneForOneSupervisor
variable {s : OneForOneSupervisor}

theorem removeSpec_budget (h : Budget N 0 s.inner) : Budget N 0 (s.removeSpec n).1.inner := by
  have hcase := removeSpec_case s n
  generalize (s.removeSpec n).1 = s' at hcase ⊢
  cases hcase with
  | absent _ => exact h
  | drop _ hr => exact h.keep (.of_frame hr.toFrame hr.starts)

theorem handleExit_budget (reason : ExitReason) (h : Budget N 0 s.inner) (hN : Holds N s)
    (hn : s.inner.supervisees.stateOf n = some .dead) :
    Budget N 0 (s.handleExit n reason).1.inner := by
  have hcase := handleExit_case reason hn
  generalize s.handleExit n reason = x at hcase ⊢
  cases hcase with
  | awaited _ => exact h
  | drop _ => exact removeSpec_budget h
  | refused _ => exact h.refused.keep (.of_shutdown s.exiting)
  | restart _ _ hgrant =>
    -- The supervisee that is restarted is one of at most `N`.
    have hpos : 1 ≤ N := Nat.le_trans (length_le_of_present (i := s.inner) (List.nodup_singleton n)
      (by simp [hn])) hN
    have hp := h.permits (n := n)
    rw [if_pos hgrant] at hp
    exact (hp.less (by omega)).spend .of_start

theorem budget_obligations : Obligations
    (fun s : OneForOneSupervisor => Budget N 0 s.inner) (fun s _ => Holds N s)
    (fun s => Budget N 0 s.inner) fun s => Budget N 0 s.inner where
  keep s h := h
  inbox s inbox h hx := h.keep (.of_inbox inbox)
  shutdown s inbox h hx :=
    have h' := (h.keep (.of_inbox inbox)).keep (.of_shutdown s.exiting)
    sat_of_fst h' h'
  add s ev spec h _ _ := h.keep (.of_addSpec spec)
  remove s ev name h _ _ := removeSpec_budget h
  item s name item i h hok hy := by
    cases hy with
    | started _ => exact h.keep .of_setState
    | initialized _ =>
      exact h.keep (.trans .of_setState
        (.of_frame same_handleInitialized.toFrame same_handleInitialized.starts))
    | @exit _ reason _ hst hr hfit =>
      rw [handleItem_of_exitReason hr]
      have := handleExit_budget (s := { s with inner := s.inner.setState name .dead }) (N := N)
        (n := name) reason (h.keep .of_setState)
        (by show (s.inner.setState name .dead).supervisees.names.length ≤ N
            rw [names_setState]; exact hok)
        (stateOf_setState_dead (not_gone_of_fits hst hfit))
      exact sat_of_fst this this

end OneForOneSupervisor

/-! ## One for all -/

namespace OneForAllSupervisor
variable {s s' : OneForAllSupervisor}

/-- What the cascade that is under way may still spend. -/
def slack (N : ℕ) (s : OneForAllSupervisor) : ℕ := if s.cascadeRestart.isEmpty then 0 else N

/-- The restarts so far, and those that the cascade still has to make, are paid for. -/
def Paid (N : ℕ) (s : OneForAllSupervisor) : Prop := Budget N (slack N s) s.inner

theorem slack_le : slack N s ≤ N := by
  unfold slack; split <;> omega

theorem slack_mono (h : ∀ n ∈ s'.cascadeRestart, n ∈ s.cascadeRestart) : slack N s' ≤ slack N s := by
  unfold slack
  split
  · omega
  · rename_i hne
    rw [if_neg]
    · rw [IndexSet.isEmpty_iff] at hne ⊢
      exact fun he => hne fun n hn => he n (h n hn)

/-- What is paid for a cascade pays for everybody whom its end starts. -/
theorem finishCascade_paid (h : Paid N s) (hN : Holds N s) : Paid N s.finishCascade := by
  have hf := cascadeFinished_finishCascade s
  obtain ⟨l, hnodup, hl, hstarts⟩ := hf.starts
  have hlen : l.length ≤ slack N s := by
    unfold slack
    split
    · rename_i hempty
      have : l = [] := List.eq_nil_iff_forall_not_mem.2 fun n hn =>
        IndexSet.isEmpty_iff.1 hempty n ((hl n).1 hn).1
      simp [this]
    · refine Nat.le_trans (length_le_of_present (i := s.inner) hnodup fun n hn => ?_) hN
      simp [((hl n).1 hn).2.2]
  have hspent : Spends l.length s.inner s.finishCascade.inner := by
    refine ⟨hf.restarter, hf.clock, hf.ticks, ?_⟩
    unfold restartsMade
    rw [hstarts, List.countP_append, Nat.add_le_add_iff_left]
    exact Nat.le_trans List.countP_le_length (by simp)
  have hzero : slack N s.finishCascade = 0 := if_pos (IndexSet.isEmpty_iff.2 hf.cascadeRestart)
  rw [Paid, hzero]
  exact (Budget.less h (j := 0 + l.length) (by omega)).spend hspent

theorem foldEnds_paid {x : OneForAllSupervisor × ControlFlow} (h : Budget N N s.inner)
    (hN : Holds N s) (hx : FoldEnds s l x) : Paid N x.1 := by
  cases hx with
  | @refused s' pre post c _ hf =>
    have h' := (h.keep (.of_frame hf.toFrame hf.starts)).keep (.of_childPermit (n := c))
    exact (h'.keep (.of_shutdown s'.exiting)).less slack_le
  | @done s' hf =>
    have h' : Paid N s' := (h.keep (.of_frame hf.toFrame hf.starts)).less slack_le
    have hN' : Holds N s' := by
      show s'.inner.supervisees.names.length ≤ N
      rw [hf.toStopped.names]
      exact hN
    show Paid N (if s'.restarting.isEmpty then s'.finishCascade else s')
    split
    · exact finishCascade_paid h' hN'
    · exact h'

theorem removeSpec_paid (h : Paid N s) (hN : Holds N s) : Paid N (s.removeSpec n).1 := by
  have hr := removed_forget (s := s) (n := n)
  have hspent : Budget N (slack N s) (s.forget n).inner := h.keep (.of_frame hr.toFrame hr.starts)
  have hcase := removeSpec_case s n
  generalize (s.removeSpec n).1 = s' at hcase ⊢
  cases hcase with
  | absent _ => exact h
  | drop _ _ => exact hspent.less (slack_mono fun m hm => (IndexSet.mem_swapRemove.1 hm).2)
  | finish _ _ _ => exact finishCascade_paid hspent (Nat.le_trans hr.names_length_le hN)

theorem handleExit_paid (reason : ExitReason) (h : Paid N s) (hN : Holds N s)
    (hn : s.inner.supervisees.stateOf n = some .dead) : Paid N (s.handleExit n reason).1 := by
  have hcase := handleExit_case reason hn
  generalize s.handleExit n reason = x at hcase ⊢
  cases hcase with
  | awaited _ => exact h
  | member _ _ _ => exact h
  | last _ _ _ =>
    exact finishCascade_paid (s := { s with restarting := s.restarting.swapRemove n }) h hN
  | drop _ _ => exact removeSpec_paid h hN
  | refused _ _ => exact (Budget.refused h).keep (.of_shutdown s.exiting)
  | trigger _ _ _ hgrant _ hends =>
    have hp := Budget.permits h (n := n)
    rw [if_pos hgrant] at hp
    refine foldEnds_paid ?_ ?_ hends
    · exact hp.less (Nat.le_add_left _ _)
    · show (s.inner.acquirePermits n).1.supervisees.names.length ≤ N
      rw [permitted_acquirePermits.names]
      exact hN

theorem paid_obligations : Obligations (Paid N) (fun s _ => Holds N s) (Paid N) (Paid N) where
  keep s h := h
  inbox s inbox h hx := Budget.keep h (.of_inbox inbox)
  shutdown s inbox h hx :=
    have h' := (Budget.keep h (.of_inbox inbox)).keep (.of_shutdown s.exiting)
    sat_of_fst h' h'
  add s ev spec h _ _ := Budget.keep h (.of_addSpec spec)
  remove s ev name h hok _ := removeSpec_paid h hok
  item s name item i h hok hy := by
    cases hy with
    | started _ => exact Budget.keep h .of_setState
    | initialized _ =>
      exact Budget.keep h (.trans .of_setState
        (.of_frame same_handleInitialized.toFrame same_handleInitialized.starts))
    | @exit _ reason _ hst hr hfit =>
      rw [handleItem_of_exitReason hr]
      have := handleExit_paid (s := { s with inner := s.inner.setState name .dead }) (N := N)
        (n := name) reason (Budget.keep h .of_setState)
        (by show (s.inner.setState name .dead).supervisees.names.length ≤ N
            rw [names_setState]; exact hok)
        (stateOf_setState_dead (not_gone_of_fits hst hfit))
      exact sat_of_fst this this

end OneForAllSupervisor

/-! ## Rest for one -/

namespace RestForOneSupervisor
variable {s : RestForOneSupervisor} {i : SupervisorInner} {p : List Name}

/-- What the cascade that is under way may still spend. -/
def slack (N : ℕ) (i : SupervisorInner) : Cascade → ℕ
  | .idle | .shuttingDown _ _ => 0
  | .exiting _ _ _ _ => N
  | .restarting _ p => deadCount i p

/-- The restarts so far, and those that the cascade still has to make, are paid for. -/
def Paid (N : ℕ) (s : RestForOneSupervisor) : Prop := Budget N (slack N s.inner s.cascade) s.inner

/-- Whether the event makes the cascade start its `current` again, for which the supervisor takes no
permit of its own. -/
def Retries (s : RestForOneSupervisor) : Event → Prop
  | .supervisee n item =>
    match s.cascade, item.exitReason with
    | .restarting c _, some reason =>
      n = c ∧ Required s.inner n reason ∧ (s.inner.acquireRestartPermit n).2 = true
    | _, _ => False
  | _ => False

instance (s : RestForOneSupervisor) (ev : Event) : Decidable (Retries s ev) := by
  unfold Retries
  exact match ev with
    | .supervisee _ item => by
      dsimp only
      exact match s.cascade, item.exitReason with
        | .restarting .., some _ | .restarting .., none | .idle, _ | .shuttingDown .., _ |
          .exiting .., _ => inferInstance
    | .signal _ | .message _ | .source _ => inferInstance

/-- What spends nothing, and leaves nobody dead who was not, leaves the cascade paid for. -/
theorem Paid.mono {initializing : IndexSet Name} (h : Paid N s) (hs : Spends 0 s.inner i)
    (hd : ∀ n, i.supervisees.stateOf n = some .dead → s.inner.supervisees.stateOf n = some .dead) :
    Paid N ⟨i, initializing, s.cascade⟩ := by
  refine Budget.less (k := slack N s.inner s.cascade) (Budget.keep h hs) ?_
  show slack N i s.cascade ≤ _
  cases s.cascade with
  | idle | exiting | shuttingDown => exact le_rfl
  | restarting c p => exact deadCount_le fun n hl hn => ⟨hd n hn, hl⟩

theorem shutdownNext_paid (h : Budget N 0 s.inner) : Paid N (s.shutdownNext l).1 := by
  rcases shutdownNext_spec s l with ⟨i, heq, hst, -⟩ | ⟨i, pre, c, post, -, heq, hst, -⟩ <;>
    rw [heq] <;> exact h.keep (.of_frame hst.toFrame hst.starts)

theorem shutdown_paid (h : Budget N 0 s.inner) : Paid N s.shutdown.1 := by
  rcases shutdown_cases s with ⟨-, heq⟩ | ⟨c, p, hc, heq⟩ <;> rw [heq]
  · exact shutdownNext_paid (s := { s with inner := s.inner.registerExiting })
      (h.keep .of_registerExiting)
  · rw [Paid, hc]
    exact h

theorem advanceRestart_paid (h : Budget N (deadCount s.inner l) s.inner) :
    Paid N (s.advanceRestart l).1 := by
  rcases advanceRestart_spec s l with ⟨heq, -⟩ | ⟨pre, c, post, rfl, heq, -, hc⟩ <;> rw [heq]
  · exact h.less (Nat.zero_le _)
  · -- The member that is started is one of the dead that the cascade has paid for.
    refine (h.less (j := deadCount (s.inner.start c .restart).1 post + 1) ?_).spend .of_start
    refine deadCount_succ_le ⟨hc, by simp⟩ (by simp [hc]) fun n hn hd => ?_
    rw [stateOf_start] at hd
    split at hd
    · cases hd
    · exact ⟨hd, by simp [hn]⟩

theorem stopNext_paid (h : Budget N N s.inner) (hN : Holds N s) : Paid N (s.stopNext l r d).1 := by
  have hends := stopNext_ends s l r d
  generalize s.stopNext l r d = x at hends ⊢
  cases hends with
  | waits _ hst _ _ => exact h.keep (.of_frame hst.toFrame hst.starts)
  | @refused i pre post c _ hst _ _ _ _ =>
    have h' := (h.keep (.of_frame hst.toFrame hst.starts)).keep (.of_childPermit (n := c))
    exact shutdown_paid (s := { s with inner := (i.acquireRestartPermit c).1 })
      (h'.less (Nat.zero_le _))
  | @done i hst _ =>
    have hd := droppedAll { s with inner := i } (d ++ l.filter fun n => Droppable s.inner n)
    have h' := (h.keep (.of_frame hst.toFrame hst.starts)).keep (.of_frame hd.toFrame hd.starts)
    refine advanceRestart_paid (h'.less ?_)
    refine Nat.le_trans ?_ hN
    refine length_le_of_present ((SuperviseeMap.nodup_names _).filter _) fun n hn hnone => ?_
    have hdead := (mem_dead.1 hn).1
    rw [hd.stateOf] at hdead
    split at hdead
    · cases hdead
    · have hnone : s.inner.supervisees.stateOf n = none := hnone
      have hdead : i.supervisees.stateOf n = some .dead := hdead
      rw [hst.stateOf, hnone] at hdead
      split at hdead <;> cases hdead

theorem advanceCascade_paid (h : Paid N s) (hN : Holds N s) : Paid N s.advanceCascade.1 := by
  unfold advanceCascade
  split <;> rename_i hc <;> rw [Paid, hc] at h
  · rw [Paid, hc]; exact h
  · exact stopNext_paid h hN
  · exact advanceRestart_paid h
  · exact shutdownNext_paid h

theorem holds_of_removed {i' : SupervisorInner} (hN : i.supervisees.names.length ≤ N)
    (hr : Removed n i i') : i'.supervisees.names.length ≤ N :=
  Nat.le_trans hr.names_length_le hN

theorem dropSpec_paid (h : Paid N s) : Paid N (s.dropSpec n).1 :=
  have hr := removed_dropSpec (s := s) (n := n)
  h.mono (.of_frame hr.toFrame hr.starts) fun _ hd => (stateOf_of_removed hr hd).1

theorem removeSpec_paid (h : Paid N s) (hN : Holds N s) : Paid N (s.removeSpec n).1 := by
  have hcase := removeSpec_case s n
  generalize (s.removeSpec n).1 = s' at hcase ⊢
  cases hcase with
  | absent _ => exact h
  | other _ => exact dropSpec_paid h
  | current _ _ =>
    exact advanceCascade_paid (dropSpec_paid h) (holds_of_removed hN removed_dropSpec)

theorem handleExit_paid {item : SuperviseeItem} {reason : ExitReason} (h : Paid N s)
    (hN : Holds N s) (hok : ¬ Retries s (.supervisee n item)) (hr : item.exitReason = some reason)
    (hn : ¬ Gone s.inner n) :
    (ofOutcome (handleExit { s with inner := s.inner.setState n .dead } n reason)).Sat
      (Paid N) (Paid N) := by
  set i := s.inner.setState n .dead with hi
  have hdead : i.supervisees.stateOf n = some .dead := stateOf_setState_dead hn
  have hNi : i.supervisees.names.length ≤ N := by rw [hi, names_setState]; exact hN
  have hspent : Budget N (slack N s.inner s.cascade) i := h.keep .of_setState
  have hcase := handleExit_case (s := { s with inner := i }) reason hdead
  have hdrop := removed_dropSpec (s := { s with inner := i }) (n := n)
  -- Whoever is dead after the removal of `n` was dead before the event.
  have hdropped : Paid N (dropSpec { s with inner := i } n).1 := by
    refine h.mono (.trans .of_setState (.of_frame hdrop.toFrame hdrop.starts)) fun j hj => ?_
    obtain ⟨hj, hjn⟩ := stateOf_of_removed hdrop hj
    rwa [hi, stateOf_setState, if_neg hjn] at hj
  have hall : ∀ {x : RestForOneSupervisor × ControlFlow}, Paid N x.1 →
      (ofFlow x).Sat (Paid N) (Paid N) := fun h => sat_of_fst h h
  have hgranted : (i.acquirePermits n).2 = true →
      Budget N N (i.acquirePermits n).1 := fun hgrant => by
    have hp := hspent.permits (n := n)
    rw [if_pos hgrant] at hp
    exact hp.less (Nat.le_add_left _ _)
  generalize handleExit { s with inner := i } n reason = x at hcase ⊢
  cases hcase with
  | advance _ hnr =>
    refine hall (advanceCascade_paid ?_ hNi)
    show Budget N (slack N i s.cascade) i
    cases hc : s.cascade with
    | restarting c p => exact absurd hc (hnr c p)
    | idle | exiting | shuttingDown => rw [hc] at hspent; exact hspent
  | dropCurrent _ => exact advanceCascade_paid hdropped (holds_of_removed hNi hdrop)
  | giveUp _ =>
    exact hall (shutdown_paid (s := { s with inner := (i.acquireRestartPermit n).1 })
      ((hspent.less (Nat.zero_le _)).keep .of_childPermit))
  | @retry p hc hreq hgrant =>
    refine absurd ?_ hok
    simp only [Retries, show s.cascade = .restarting n p from hc, hr]
    exact ⟨trivial, hreq.of_setState, acquireRestartPermit_setState.symm.trans hgrant⟩
  | queued _ hq =>
    show Budget N (slack N i s.cascade) i
    cases hc : s.cascade with
    | restarting c p => simp [hc, Cascade.pendingContains] at hq
    | idle | exiting | shuttingDown => rw [hc] at hspent; exact hspent
  | drop _ => exact hdropped
  | refused _ _ =>
    exact hall (shutdown_paid (s := { s with inner := (i.acquirePermits n).1 })
      (hspent.less (Nat.zero_le _)).refused)
  | trigger _ _ hgrant _ =>
    refine hall (stopNext_paid (hgranted hgrant) ?_)
    show (i.acquirePermits n).1.supervisees.names.length ≤ N
    rw [permitted_acquirePermits.names]
    exact hNi
  | @merge c p r d _ _ _ _ hgrant =>
    rcases hm : mergeIntoStopping _ n c p r d with _ | x
    · trivial
    · obtain ⟨pending, rfl, -, -⟩ := mergeIntoStopping_spec hm
      exact hgranted hgrant
  | unreachable => trivial

theorem paid_obligations : Obligations (Paid N) (fun s ev => Holds N s ∧ ¬ Retries s ev) (Paid N)
    (Paid N) where
  keep s h := h
  inbox s inbox h hx := h.mono (.of_inbox inbox) fun _ => id
  shutdown s inbox h hx := by
    have h' := shutdown_paid (s := withInbox s inbox)
      ((Budget.less h (Nat.zero_le _)).keep (.of_inbox inbox))
    exact sat_of_fst h' h'
  add s ev spec h _ _ := by
    refine h.mono (.of_addSpec spec) fun n hn => ?_
    have hn : (s.inner.addSpec spec).1.supervisees.stateOf n = some .dead := hn
    rcases addSpec_cases s.inner spec with heq | hadd
    · rwa [heq] at hn
    · rw [hadd.stateOf] at hn
      split at hn
      · cases hn
      · exact hn
  remove s ev name h hok _ := removeSpec_paid h hok.1
  item s name item i h hok hy := by
    have hset : ∀ {state}, state ≠ .dead → ∀ n,
        (s.inner.setState name state).supervisees.stateOf n = some .dead →
        s.inner.supervisees.stateOf n = some .dead := by
      intro state hne n hn
      rw [stateOf_setState] at hn
      split at hn
      · obtain ⟨_, -, rfl⟩ := Option.map_eq_some_iff.1 hn
        exact absurd rfl hne
      · exact hn
    cases hy with
    | started _ => exact h.mono .of_setState (hset (by simp))
    | initialized hst =>
      have hup : Paid N (Strategy.handleInitialized
          (setInner s (s.inner.setState name .alive)) name) :=
        h.mono (.trans .of_setState
          (.of_frame same_handleInitialized.toFrame same_handleInitialized.starts)) fun n hn =>
          hset (by simp) n (same_handleInitialized.stateOf_eq n ▸ hn)
      have hN : Holds N (Strategy.handleInitialized
          (setInner s (s.inner.setState name .alive)) name) := by
        show (SupervisorInner.handleInitialized _ _ _).1.supervisees.names.length ≤ N
        rw [same_handleInitialized.names]
        show (s.inner.setState name .alive).supervisees.names.length ≤ N
        rw [names_setState]
        exact hok.1
      have hafter : Paid N (afterInitialized (Strategy.handleInitialized
          (setInner s (s.inner.setState name .alive)) name) name).1 := by
        unfold afterInitialized
        split
        · exact advanceCascade_paid hup hN
        · exact hup
      exact sat_of_fst hafter hafter
    | exit hst hr hfit =>
      rw [handleItem_of_exitReason hr]
      exact handleExit_paid h hok.1 hok.2 hr (not_gone_of_fits hst hfit)

end RestForOneSupervisor

/-! ## Runs -/

theorem budget_of_fresh {i : SupervisorInner} (h : Fresh i) : Budget N 0 i where
  readings t ht := by simp [h.restarts] at ht
  bound _ _ := by
    have : i.restartsMade = 0 := List.countP_eq_zero.2 fun e he => by simp [(h.starts e he).1]
    omega

/-- The loop state keeps to the budget for at most `N` supervisees. -/
def LoopState.WithinBudget {σ : Type} [Strategy σ] (N : ℕ) : LoopState σ → Prop :=
  Sat (fun s => SupervisorInner.WithinBudget N (inner s))
    fun s => SupervisorInner.WithinBudget N (inner s)

instance {σ : Type} [Strategy σ] (N : ℕ) : DecidablePred (LoopState.WithinBudget (σ := σ) N) :=
  fun st => inferInstanceAs (Decidable (st.Sat _ _))

/-- A supervisor that has at most `N` supervisees restarts at most `maxRestarts * N` of them within
the window of its budget: in every one-for-one or one-for-all run, and in every rest-for-one run in
which no cascade starts its `current` again. -/
theorem restarts_le (N : ℕ) :
    (∀ st, (runsWhere fun (s : OneForOneSupervisor) _ => Holds N s).Reachable st →
      st.WithinBudget N) ∧
    (∀ st, (runsWhere fun (s : OneForAllSupervisor) _ => Holds N s).Reachable st →
      st.WithinBudget N) ∧
    ∀ st, (runsWhere fun (s : RestForOneSupervisor) ev => Holds N s ∧ ¬ s.Retries ev).Reachable st →
      st.WithinBudget N := by
  refine ⟨fun st hr => ?_, fun st hr => ?_, fun st hr => ?_⟩
  · have h : st.Sat (fun s => Budget N 0 s.inner) fun s => Budget N 0 s.inner := by
      refine runsWhere_obligations (fun st hst => ?_) OneForOneSupervisor.budget_obligations hr
      obtain ⟨s₀, s, initializing, hfresh, rfl⟩ := fresh_of_begins hst
      exact budget_of_fresh hfresh
    exact h.mono (fun _ => Budget.withinBudget) fun _ => Budget.withinBudget
  · have h : st.Sat (OneForAllSupervisor.Paid N) (OneForAllSupervisor.Paid N) := by
      refine runsWhere_obligations (fun st hst => ?_) OneForAllSupervisor.paid_obligations hr
      obtain ⟨s₀, s, initializing, hfresh, rfl⟩ := fresh_of_begins hst
      exact budget_of_fresh hfresh
    exact h.mono (fun _ => Budget.withinBudget) fun _ => Budget.withinBudget
  · have h : st.Sat (RestForOneSupervisor.Paid N) (RestForOneSupervisor.Paid N) := by
      refine runsWhere_obligations (fun st hst => ?_) RestForOneSupervisor.paid_obligations hr
      obtain ⟨s₀, s, initializing, hfresh, rfl⟩ := fresh_of_begins hst
      exact budget_of_fresh hfresh
    exact h.mono (fun _ => Budget.withinBudget) fun _ => Budget.withinBudget

/-- The only child panics three times, and is restarted each time. -/
def panicsThrice : List Event :=
  comesUp "a" ++ (List.replicate 3 (.supervisee ⟨"a"⟩ (.exit (.joinError .panic)) :: comesUp "a")).flatten

/-- Three restarts are as many as the default budget allows for one child. -/
theorem restarts_le_thrice : ∃ s : RestForOneSupervisor, s.inner.restartsMade = 3 ∧
    s.inner.restartsMade ≤ 3 * 1 := by
  obtain ⟨s, hr, hmade, hint, hw⟩ := exists_running_where
    (fun (s : RestForOneSupervisor) ev => Holds 1 s ∧ ¬ s.Retries ev)
    (p := fun s => s.inner.restartsMade = 3 ∧ s.inner.restarter.intensity = .default ∧
      Windowed s.inner)
    (begins_booted [childSpec "a" .always none] (by decide) .default)
    panicsThrice (by decide)
  have h : SupervisorInner.WithinBudget 1 s.inner := (restarts_le 1).2.2 _ hr
  unfold SupervisorInner.WithinBudget at h
  rw [hint] at h
  exact ⟨s, hmade, h (by decide) hw⟩

/-- The only child panics, and then fails to start three times: each time it is started again. -/
def failsToStart : List Event :=
  comesUp "a" ++ .supervisee ⟨"a"⟩ (.exit (.joinError .panic)) ::
    List.replicate 3 (.supervisee ⟨"a"⟩ (.started (.error .instantiation)))

/-- So four restarts are made with a budget of three. -/
theorem not_restarts_le : ¬ ∀ N st,
    (runsWhere fun (s : RestForOneSupervisor) _ => Holds N s).Reachable st → st.WithinBudget N := by
  intro hall
  obtain ⟨s, hr, hbad⟩ := exists_running_where
    (fun (s : RestForOneSupervisor) _ => Holds 1 s)
    (p := fun s => ¬ SupervisorInner.WithinBudget 1 s.inner)
    (begins_booted [childSpec "a" .always none] (by decide) .default)
    failsToStart (by decide)
  exact hbad (hall 1 _ hr)

end Zestors
