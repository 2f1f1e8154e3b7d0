import Zestors.Lib.ListOrder
import Zestors.Supervisor.RestForOne
import Zestors.Supervisor.Standing
import Zestors.Supervisor.Steps

/-!
# What the rest-for-one operations do

One specification for each loop of the strategy. A loop ends at the first supervisee it has to wait
for: `pre` are the names it has dealt with by then, `c` is the one it waits for, and `post` are the
names still to come.
-/

namespace Zestors
namespace RestForOneSupervisor
open SupervisorInner

variable {s : RestForOneSupervisor} {l r d : List Name} {n : Name}

/-! ## Stopping for a shutdown -/

theorem shutdownNext_spec (s : RestForOneSupervisor) (l : List Name) :
    (∃ i, s.shutdownNext l = ({ s with inner := i, cascade := .idle }, .brk) ∧
      Stopped l s.inner i ∧ ∀ n ∈ l, Gone i n) ∨
    ∃ i pre c post, l = pre ++ c :: post ∧
      s.shutdownNext l = ({ s with inner := i, cascade := .shuttingDown c post.reverse }, .cont) ∧
      Stopped (pre ++ [c]) s.inner i ∧ (∀ n ∈ pre, Gone i n) ∧
      i.supervisees.stateOf c = some .shuttingDown := by
  induction l generalizing s with
  | nil => exact .inl ⟨s.inner, rfl, .refl _, by simp⟩
  | cons next rest ih =>
    unfold shutdownNext
    split
    · -- Nobody of that name: the loop goes on.
      rename_i hget
      have hgone : Gone s.inner next := .inl (SuperviseeMap.stateOf_eq_none.2 hget)
      rcases ih s with ⟨i, heq, hst, hall⟩ | ⟨i, pre, c, post, rfl, heq, hst, hall, hc⟩
      · refine .inl ⟨i, heq, hst.cons_of_none hget, List.forall_mem_cons.2 ⟨?_, hall⟩⟩
        exact hgone.of_stopped hst
      · refine .inr ⟨i, next :: pre, c, post, rfl, heq, hst.cons_of_none hget,
          List.forall_mem_cons.2 ⟨?_, hall⟩, hc⟩
        exact hgone.of_stopped hst
    · rcases stop_gone_or_shuttingDown s.inner next with ⟨hb, hc⟩ | ⟨hb, hgone⟩
      · rw [if_pos hb]
        exact .inr ⟨_, [], next, rest, rfl, rfl, .of_stop, by simp, hc⟩
      · rw [if_neg (by simp [hb])]
        rcases ih { s with inner := (s.inner.stop next).1 } with
          ⟨i, heq, hst, hall⟩ | ⟨i, pre, c, post, rfl, heq, hst, hall, hc⟩
        · refine .inl ⟨i, heq, Stopped.of_stop.trans hst, List.forall_mem_cons.2 ⟨?_, hall⟩⟩
          exact hgone.of_stopped hst
        · refine .inr ⟨i, next :: pre, c, post, rfl, heq, Stopped.of_stop.trans hst,
            List.forall_mem_cons.2 ⟨?_, hall⟩, hc⟩
          exact hgone.of_stopped hst

/-- A shutdown in progress is left alone. -/
theorem shutdown_of_shuttingDown {c : Name} {p : List Name} (h : s.cascade = .shuttingDown c p) :
    s.shutdown = (s, .cont) := by
  unfold shutdown
  rw [h]

theorem shutdown_of_ne (h : ∀ c p, s.cascade ≠ .shuttingDown c p) : s.shutdown =
    { s with inner := s.inner.registerExiting }.advanceShutdown s.inner.supervisees.names := by
  unfold shutdown
  split
  · exact absurd (by assumption) (h _ _)
  · rfl

theorem shutdown_cases (s : RestForOneSupervisor) :
    ((∀ c p, s.cascade ≠ .shuttingDown c p) ∧ s.shutdown =
      { s with inner := s.inner.registerExiting }.advanceShutdown s.inner.supervisees.names) ∨
    ∃ c p, s.cascade = .shuttingDown c p ∧ s.shutdown = (s, .cont) := by
  by_cases hns : ∀ c p, s.cascade ≠ .shuttingDown c p
  · exact .inl ⟨hns, shutdown_of_ne hns⟩
  · push Not at hns
    obtain ⟨c, p, hc⟩ := hns
    exact .inr ⟨c, p, hc, shutdown_of_shuttingDown hc⟩

/-! ## Starting again -/

/-- Either there was nobody left to start, or the loop starts `c` and waits for it. -/
theorem advanceRestart_spec (s : RestForOneSupervisor) (l : List Name) :
    (s.advanceRestart l = ({ s with cascade := .idle }, .cont) ∧
      ∀ n ∈ l, s.inner.supervisees.stateOf n ≠ some .dead) ∨
    ∃ pre c post, l = pre ++ c :: post ∧
      s.advanceRestart l =
        ({ s with inner := (s.inner.start c .restart).1, cascade := .restarting c post }, .cont) ∧
      (∀ n ∈ pre, s.inner.supervisees.stateOf n ≠ some .dead) ∧
      s.inner.supervisees.stateOf c = some .dead := by
  induction l with
  | nil => exact .inl ⟨rfl, by simp⟩
  | cons next rest ih =>
    by_cases hd : s.inner.supervisees.stateOf next = some .dead
    · refine .inr ⟨[], next, rest, rfl, ?_, by simp, hd⟩
      obtain ⟨sv, hsv, -⟩ := SuperviseeMap.stateOf_eq_some.1 hd
      have hok : (s.inner.start next .restart).2 = .ok true := start_snd_eq.2 hd
      rw [advanceRestart, hsv]
      simp only [hok]
    · have hskip : s.advanceRestart (next :: rest) = s.advanceRestart rest := by
        rw [advanceRestart]
        split
        · rfl
        · have hne : (s.inner.start next .restart).2 ≠ .ok true := mt start_snd_eq.1 hd
          dsimp only
          rw [start_of_not_dead hd]
          split
          · exact absurd (by assumption) hne
          · rfl
          · rfl
      rw [hskip]
      rcases ih with ⟨heq, hall⟩ | ⟨pre, c, post, rfl, heq, hall, hc⟩
      · exact .inl ⟨heq, List.forall_mem_cons.2 ⟨hd, hall⟩⟩
      · exact .inr ⟨next :: pre, c, post, rfl, heq, List.forall_mem_cons.2 ⟨hd, hall⟩, hc⟩

theorem inner_advanceRestart (s : RestForOneSupervisor) (l : List Name) :
    (s.advanceRestart l).1.inner.isExiting = s.inner.isExiting ∧
      (s.advanceRestart l).1.inner.stops = s.inner.stops := by
  rcases advanceRestart_spec s l with ⟨heq, -⟩ | ⟨pre, c, post, -, heq, -⟩ <;> rw [heq]
  · exact ⟨rfl, rfl⟩
  · exact ⟨frame_start.isExiting, stops_start⟩

/-! ## Removing -/

theorem dropSpec_fst : (s.dropSpec n).1 =
    { s with
      inner := (s.inner.removeSpec s.initializing .empty n).1
      initializing := (s.inner.removeSpec s.initializing .empty n).2.1 } := rfl

@[simp] theorem cascade_dropSpec : (s.dropSpec n).1.cascade = s.cascade := rfl

theorem removed_dropSpec : Removed n s.inner (s.dropSpec n).1.inner := removed_removeSpec

/-- `remove_spec` is `dropSpec` unless the cascade waits for the removed name. -/
theorem removeSpec_of_ne_current (h : s.cascade.current ≠ some n) :
    (s.removeSpec n).1 = (s.dropSpec n).1 := by
  unfold removeSpec
  split
  · rename_i heq; rw [heq]
  · rename_i heq
    have hc : (s.dropSpec n).1.cascade.current ≠ some n := h
    rw [heq] at hc
    rw [if_neg hc, heq]

theorem removeSpec_of_none (h : s.inner.supervisees.stateOf n = none) :
    (s.removeSpec n).1 = s := by
  have : s.dropSpec n = (s, none) := by
    unfold dropSpec
    rw [SupervisorInner.removeSpec_of_none h]
  rw [removeSpec, this]

/-- Removing the name that the cascade waits for makes the cascade go on. -/
theorem removeSpec_of_current (h : s.cascade.current = some n)
    (hs : s.inner.supervisees.stateOf n ≠ none) :
    (s.removeSpec n).1 = (s.dropSpec n).1.advanceCascade.1 := by
  unfold removeSpec
  split
  · rename_i heq
    have : (s.dropSpec n).2 = none := by rw [heq]
    rw [Ne, SuperviseeMap.stateOf_eq_none] at hs
    obtain ⟨sv, hsv⟩ := Option.ne_none_iff_exists'.1 hs
    simp [dropSpec, SupervisorInner.removeSpec_of_some hsv] at this
  · rename_i heq
    have hc : (s.dropSpec n).1.cascade.current = some n := h
    rw [heq] at hc
    rw [if_pos hc, heq]

/-- What `dropAll` does. -/
structure DroppedAll (d : List Name) (s s' : RestForOneSupervisor) : Prop
    extends Frame s.inner s'.inner where
  cascade : s'.cascade = s.cascade
  stateOf : ∀ j, s'.inner.supervisees.stateOf j =
    if j ∈ d then none else s.inner.supervisees.stateOf j
  modeOf : ∀ j, s'.inner.supervisees.modeOf j =
    if j ∈ d then none else s.inner.supervisees.modeOf j
  keys : s'.inner.supervisees.keys = s.inner.supervisees.keys
  starts : s'.inner.starts = s.inner.starts
  stops : s'.inner.stops = s.inner.stops

theorem droppedAll (s : RestForOneSupervisor) (d : List Name) : DroppedAll d s (s.dropAll d) := by
  induction d generalizing s with
  | nil => exact ⟨.refl _, rfl, fun _ => rfl, fun _ => rfl, rfl, rfl, rfl⟩
  | cons n d ih =>
    have h₁ := removed_dropSpec (s := s) (n := n)
    have h₂ := ih (s.dropSpec n).1
    refine ⟨h₁.toFrame.trans h₂.toFrame, h₂.cascade, fun j => ?_, fun j => ?_,
      h₂.keys.trans h₁.keys, h₂.starts.trans h₁.starts, h₂.stops.trans h₁.stops⟩
    · refine (h₂.stateOf j).trans ?_
      rw [h₁.stateOf]
      by_cases hj : j = n <;> by_cases hd : j ∈ d <;> simp [hj, hd]
    · refine (h₂.modeOf j).trans ?_
      rw [h₁.modeOf]
      by_cases hj : j = n <;> by_cases hd : j ∈ d <;> simp [hj, hd]

/-! ## Stopping for a restart -/

/-- How the loop of `advance_stop` ends: it waits for `c`, the budget of `c` refuses a permit, or
everybody has been stopped. -/
inductive StopEnds (s : RestForOneSupervisor) (l r d : List Name) :
    RestForOneSupervisor × ControlFlow → Prop
  | waits {i : SupervisorInner} {pre post : List Name} {c : Name} :
    l = pre ++ c :: post → Stopped (pre ++ [c]) s.inner i → (∀ n ∈ pre, Gone i n) →
    i.supervisees.stateOf c = some .shuttingDown →
    StopEnds s l r d ({ s with
      inner := i
      cascade := .exiting c post.reverse (r ++ (pre ++ [c]).filter fun n => Restartable s.inner n)
        (d ++ (pre ++ [c]).filter fun n => Droppable s.inner n) }, .cont)
  | refused {i : SupervisorInner} {pre post : List Name} {c : Name} :
    l = pre ++ c :: post → Stopped pre s.inner i → (∀ n ∈ pre, Gone i n) → Restartable s.inner c →
    i.ticks = s.inner.ticks + pre.countP (fun n => Restartable s.inner n) →
    (i.acquireRestartPermit c).2 = false →
    StopEnds s l r d { s with inner := (i.acquireRestartPermit c).1 }.shutdown
  | done {i : SupervisorInner} :
    Stopped l s.inner i → (∀ n ∈ l, Gone i n) →
    StopEnds s l r d (({ s with inner := i }.dropAll
      (d ++ l.filter fun n => Droppable s.inner n)).advanceRestart
      (r ++ l.filter fun n => Restartable s.inner n).reverse)

/-- A turn of the loop that leaves `n` dead comes before the rest of the loop. -/
theorem StopEnds.cons {i : SupervisorInner} {r' d' : List Name} {x : RestForOneSupervisor × ControlFlow}
    (h : StopEnds { s with inner := i } l r' d' x) (hst : Stopped [n] s.inner i) (hgone : Gone i n)
    (hticks : i.ticks = s.inner.ticks + if Restartable s.inner n then 1 else 0)
    (hr : r' = r ++ [n].filter fun n => Restartable s.inner n)
    (hd : d' = d ++ [n].filter fun n => Droppable s.inner n) :
    StopEnds s (n :: l) r d x := by
  have hR : ∀ j, Restartable i j ↔ Restartable s.inner j := fun j => Restartable.congr (hst.modeOf j)
  have hD : ∀ j, Droppable i j ↔ Droppable s.inner j := fun j => Droppable.congr (hst.modeOf j)
  subst hr hd
  cases h with
  | @waits i' pre post c hl hst' hgone' hc =>
    have hl' : n :: l = (n :: pre) ++ c :: post := congrArg (n :: ·) hl
    have := StopEnds.waits (s := s) (r := r) (d := d) hl' (hst.trans hst')
      (List.forall_mem_cons.2 ⟨hgone.of_stopped hst', hgone'⟩) hc
    simpa only [hR, hD, List.append_assoc, ← List.filter_append, List.singleton_append,
      List.cons_append, List.nil_append] using this
  | @refused i' pre post c hl hst' hgone' hc hticks' hno =>
    have hl' : n :: l = (n :: pre) ++ c :: post := congrArg (n :: ·) hl
    refine StopEnds.refused (s := s) hl' (hst.trans hst')
      (List.forall_mem_cons.2 ⟨hgone.of_stopped hst', hgone'⟩) ((hR _).1 hc) ?_ hno
    rw [hticks', hticks, List.countP_cons]
    simp only [hR, decide_eq_true_eq]
    omega
  | done hst' hgone' =>
    have := StopEnds.done (s := s) (l := n :: l) (r := r) (d := d) (hst.trans hst')
      (List.forall_mem_cons.2 ⟨hgone.of_stopped hst', hgone'⟩)
    simpa only [hR, hD, List.append_assoc, ← List.filter_append, List.singleton_append] using this

theorem stopNext_ends (s : RestForOneSupervisor) (l r d : List Name) :
    StopEnds s l r d (s.stopNext l r d) := by
  induction l generalizing s r d with
  | nil => simpa [stopNext] using StopEnds.done (s := s) (l := []) (r := r) (d := d) (.refl _) (by simp)
  | cons next rest ih =>
    have hfront : next :: rest = [] ++ next :: rest := rfl
    rcases hget : s.inner.supervisees.get? next with _ | sv
    · have hm := SuperviseeMap.modeOf_eq_none.2 hget
      have hR : ¬ Restartable s.inner next := fun h => h.1 hm
      have hD : ¬ Droppable s.inner next := fun h => by simp [Droppable, hm] at h
      simp only [stopNext, hget]
      exact (ih s r d).cons (i := s.inner) ((Stopped.refl _).cons_of_none hget)
        (.inl (SuperviseeMap.stateOf_eq_none.2 hget)) (by simp [hR]) (by simp [hR]) (by simp [hD])
    · have hm := SuperviseeMap.modeOf_of_get? hget
      by_cases hnever : sv.cfg.restartMode = .never
      · have hR : ¬ Restartable s.inner next := fun h => h.2 (hnever ▸ hm)
        have hD : Droppable s.inner next := by rw [Droppable, hm, hnever]
        simp only [stopNext, hget, if_pos hnever]
        rcases stop_gone_or_shuttingDown s.inner next with ⟨hb, hc⟩ | ⟨hb, hgone⟩
        · rw [if_pos hb]
          simpa [hR, hD] using StopEnds.waits (s := s) (r := r) (d := d) hfront .of_stop
            (by simp) hc
        · rw [if_neg (by simp [hb])]
          exact (ih _ _ _).cons .of_stop hgone (by simp [hR, ticks_stop]) (by simp [hR])
            (by simp [hD])
      · have hR : Restartable s.inner next := by
          rw [Restartable, hm]; simpa using hnever
        have hD : ¬ Droppable s.inner next := hR.2
        simp only [stopNext, hget, if_neg hnever]
        rcases hp : (s.inner.acquireRestartPermit next).2 with _ | _
        · exact StopEnds.refused hfront (.refl _) (by simp) hR rfl hp
        · rw [if_neg (by simp)]
          rcases stop_gone_or_shuttingDown (s.inner.acquireRestartPermit next).1 next with
            ⟨hb, hc⟩ | ⟨hb, hgone⟩
          · rw [if_pos hb]
            simpa [hR, hD] using StopEnds.waits (s := s) (r := r) (d := d) hfront
              .of_permit_stop (by simp) hc
          · rw [if_neg (by simp [hb])]
            exact (ih _ _ _).cons .of_permit_stop hgone
              (by simp [hR, ticks_stop, ticks_acquireRestartPermit, hget]) (by simp [hR])
              (by simp [hD])

/-! ## The handlers -/

/-- A cascade stops everybody who comes after its trigger. -/
theorem startCascade_eq (h : s.inner.supervisees.stateOf n ≠ none) :
    ∃ before after, s.inner.supervisees.names = before ++ n :: after ∧
      s.startCascade n = some (s.advanceStop after [n] []) := by
  have hmem : n ∈ s.inner.supervisees.names := SuperviseeMap.mem_names_iff_stateOf.2 h
  obtain ⟨before, after, hnames, hbefore⟩ := List.eq_append_cons_of_mem hmem
  refine ⟨before, after, hnames, ?_⟩
  have hidx : s.inner.supervisees.names.idxOf n = before.length := by
    rw [hnames, List.idxOf_append_of_notMem hbefore, List.idxOf_cons_self, Nat.add_zero]
  simp only [startCascade, if_pos hmem, hidx]
  rw [hnames]
  simp

/-- `n` stands between the trigger and `current` in the start order, and was not stopped yet. -/
def Between (s : SupervisorInner) (trigger current : Name) (toRestart toDrop : List Name)
    (n : Name) : Prop :=
  min (s.supervisees.names.idxOf trigger) (s.supervisees.names.idxOf current) <
      s.supervisees.names.idxOf n ∧
    s.supervisees.names.idxOf n <
      max (s.supervisees.names.idxOf trigger) (s.supervisees.names.idxOf current) ∧
    n ∉ toRestart ∧ n ∉ toDrop

/-- Sorting pending names by position keeps the names and removes duplicates. -/
theorem sortByPosition_spec {all pending : List Name} (h : sortByPosition all l = some pending) :
    (∀ n, n ∈ pending ↔ n ∈ l) ∧ pending.Nodup := by
  unfold sortByPosition at h
  split at h
  · cases h
  · rename_i hknown
    obtain rfl := Option.some.inj h
    set sorted := l.insertionSort fun a b => all.idxOf a ≤ all.idxOf b with hsorted
    have hmem : ∀ n, n ∈ sorted ↔ n ∈ l := fun n => List.mem_insertionSort _
    refine ⟨fun n => List.mem_destutter_ne.trans (hmem n), ?_⟩
    refine List.nodup_destutter_ne all.idxOf ?_ fun a ha b hb hab => ?_
    · have : Std.Total fun a b => all.idxOf a ≤ all.idxOf b := ⟨fun a b => le_total _ _⟩
      have : IsTrans Name fun a b => all.idxOf a ≤ all.idxOf b := ⟨fun _ _ _ => le_trans⟩
      exact List.pairwise_insertionSort _ l
    · rw [hmem] at ha hb
      rcases l with _ | ⟨x, _ | ⟨y, l⟩⟩
      · simp at ha
      · simp only [List.mem_singleton] at ha hb
        rw [ha, hb]
      · have : ∀ n ∈ x :: y :: l, n ∈ all := by simpa using hknown
        exact (List.idxOf_inj (this a ha)).1 hab

/-- Joining a cascade changes its lists only: the trigger is to be restarted, and whoever stands
between it and `current` is to be stopped. -/
theorem mergeIntoStopping_spec {c : Name} {p : List Name} {x : RestForOneSupervisor × ControlFlow}
    (h : s.mergeIntoStopping n c p r d = some x) :
    ∃ pending, x = ({ s with cascade := .exiting c pending (r ++ [n]) d }, .cont) ∧ pending.Nodup ∧
      ∀ j, j ∈ pending ↔ Between s.inner n c r d j ∨ j ∈ p := by
  simp only [mergeIntoStopping] at h
  split_ifs at h with hmem
  obtain ⟨pending, hsort, rfl⟩ := Option.map_eq_some_iff.1 h
  obtain ⟨hpending, hnodup⟩ := sortByPosition_spec hsort
  refine ⟨pending, rfl, hnodup, fun j => ?_⟩
  have hhigh : max (s.inner.supervisees.names.idxOf n) (s.inner.supervisees.names.idxOf c) ≤
      s.inner.supervisees.names.length :=
    max_le (List.idxOf_le_length) (List.idxOf_le_length)
  rw [hpending, List.mem_append, List.mem_filter,
    List.mem_drop_take (SuperviseeMap.nodup_names _) hhigh]
  simp only [Between, decide_eq_true_eq, Nat.succ_le_iff, and_assoc]

/-- What the removal of a name can lead to. -/
inductive RemoveCase (s : RestForOneSupervisor) (n : Name) : RestForOneSupervisor → Prop
  | absent : s.inner.supervisees.stateOf n = none → RemoveCase s n s
  | other : s.cascade.current ≠ some n → RemoveCase s n (s.dropSpec n).1
  | current : s.cascade.current = some n → s.inner.supervisees.stateOf n ≠ none →
    RemoveCase s n (s.dropSpec n).1.advanceCascade.1

theorem removeSpec_case (s : RestForOneSupervisor) (n : Name) :
    RemoveCase s n (s.removeSpec n).1 := by
  by_cases hs : s.inner.supervisees.stateOf n = none
  · rw [removeSpec_of_none hs]
    exact .absent hs
  · by_cases hc : s.cascade.current = some n
    · rw [removeSpec_of_current hc hs]
      exact .current hc hs
    · rw [removeSpec_of_ne_current hc]
      exact .other hc

/-- What the exit of a supervisee can lead to, after the item has been taken: `s` is the state in
which the supervisee called `n` is dead. -/
inductive ExitCase (s : RestForOneSupervisor) (n : Name) (reason : ExitReason) :
    Option (RestForOneSupervisor × ControlFlow) → Prop
  /-- The cascade was waiting for this exit. -/
  | advance : s.cascade.current = some n → (∀ c p, s.cascade ≠ .restarting c p) →
    ExitCase s n reason (some s.advanceCascade)
  /-- The cascade was starting it, and it needs no restart. -/
  | dropCurrent {p : List Name} : s.cascade = .restarting n p → ¬ Required s.inner n reason →
    ExitCase s n reason (some ((s.dropSpec n).1.advanceCascade.1, .cont))
  /-- The cascade was starting it, and its budget is used up. -/
  | giveUp {p : List Name} : s.cascade = .restarting n p →
    ExitCase s n reason (some { s with inner := (s.inner.acquireRestartPermit n).1 }.shutdown)
  /-- The cascade was starting it, and starts it again. -/
  | retry {p : List Name} : s.cascade = .restarting n p → Required s.inner n reason →
    (s.inner.acquireRestartPermit n).2 = true →
    ExitCase s n reason
      (some ({ s with inner := ((s.inner.acquireRestartPermit n).1.start n .restart).1 }, .cont))
  /-- Its turn to be stopped is still to come. -/
  | queued : s.cascade.current ≠ some n → s.cascade.pendingContains n = true →
    ExitCase s n reason (some (s, .cont))
  /-- It needs no restart. -/
  | drop : s.cascade.current ≠ some n → ¬ Required s.inner n reason →
    ExitCase s n reason (some ((s.dropSpec n).1, .cont))
  /-- It needs a restart, and a budget is used up. -/
  | refused : s.cascade.current ≠ some n → s.cascade.pendingContains n = false →
    ExitCase s n reason (some { s with inner := (s.inner.acquirePermits n).1 }.shutdown)
  /-- It needs a restart, and begins a cascade. -/
  | trigger {before after : List Name} :
    (s.cascade = .idle ∨ ∃ c p, c ≠ n ∧ s.cascade = .restarting c p) →
    Required s.inner n reason → (s.inner.acquirePermits n).2 = true →
    s.inner.supervisees.names = before ++ n :: after →
    ExitCase s n reason (some
      ({ s with inner := (s.inner.acquirePermits n).1, cascade := .idle }.advanceStop after [n] []))
  /-- It needs a restart, and joins a cascade that is stopping. -/
  | merge {c : Name} {p r d : List Name} : s.cascade = .exiting c p r d → n ≠ c → n ∉ p →
    Required s.inner n reason → (s.inner.acquirePermits n).2 = true →
    ExitCase s n reason
      ({ s with inner := (s.inner.acquirePermits n).1, cascade := .idle }.mergeIntoStopping
        n c p r d)
  /-- It needs a restart although the supervisor is shutting down: the source panics. -/
  | unreachable {c : Name} {p : List Name} : s.cascade = .shuttingDown c p → n ≠ c → n ∉ p →
    ExitCase s n reason none

theorem handleExit_case (reason : ExitReason) (hn : s.inner.supervisees.stateOf n = some .dead) :
    ExitCase s n reason (s.handleExit n reason) := by
  obtain ⟨sv, hsv, -⟩ := SuperviseeMap.stateOf_eq_some.1 hn
  have hpresent : s.inner.supervisees.stateOf n ≠ none := by simp [hn]
  unfold handleExit
  by_cases hc : s.cascade.current = some n
  · -- The cascade waits for `n`.
    rw [if_pos hc]
    unfold handleCascadeCurrentExit
    split
    · rename_i c p heq
      obtain rfl : c = n := by rw [heq] at hc; exact Option.some.inj hc
      simp only [hsv]
      rcases hreq : reason.requiresRestart sv with _ | _
      · rw [if_pos (by rfl), removeSpec_of_current hc hpresent]
        exact .dropCurrent heq (not_required hsv hreq)
      · rw [if_neg (by simp)]
        rcases hpermit : (s.inner.acquireRestartPermit c).2 with _ | _
        · exact .giveUp heq
        · exact .retry heq ⟨sv, hsv, hreq⟩ hpermit
    · exact .advance hc fun c p h => by simp_all
  rw [if_neg hc]
  rcases hp : s.cascade.pendingContains n with _ | _
  · rw [if_neg (by simp)]
    simp only [hsv]
    rcases hreq : reason.requiresRestart sv with _ | _
    · rw [if_pos (by rfl), removeSpec_of_ne_current hc]
      exact .drop hc (not_required hsv hreq)
    have hreq : Required s.inner n reason := ⟨sv, hsv, hreq⟩
    rw [if_neg (by simp)]
    rcases hpermit : (s.inner.acquirePermits n).2 with _ | _
    · exact .refused hc hp
    rw [if_neg (by simp)]
    have hst := permitted_acquirePermits (s := s.inner) (n := n)
    have hstart := startCascade_eq (n := n)
      (s := { s with inner := (s.inner.acquirePermits n).1, cascade := .idle })
      (by rw [hst.stateOf]; exact hpresent)
    rw [hst.names] at hstart
    obtain ⟨before, after, hnames, heq⟩ := hstart
    split <;> rename_i hcas
    · rw [heq]; exact .trigger (.inl hcas) hreq hpermit hnames
    · refine .merge hcas ?_ ?_ hreq hpermit
      · rintro rfl; simp [hcas, Cascade.current] at hc
      · simpa [hcas, Cascade.pendingContains] using hp
    · rename_i c p
      rw [heq]
      refine .trigger (.inr ⟨c, p, ?_, hcas⟩) hreq hpermit hnames
      rintro rfl; simp [hcas, Cascade.current] at hc
    · refine .unreachable hcas ?_ ?_
      · rintro rfl; simp [hcas, Cascade.current] at hc
      · simpa [hcas, Cascade.pendingContains] using hp
  · rw [if_pos rfl]
    exact .queued hc hp

end RestForOneSupervisor
end Zestors
