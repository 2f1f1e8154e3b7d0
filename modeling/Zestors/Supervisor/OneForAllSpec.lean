import Zestors.Supervisor.OneForAll
import Zestors.Supervisor.Standing
import Zestors.Supervisor.Steps

/-!
# What the one-for-all operations do

One specification for each operation of the strategy: the pass that folds the siblings of a trigger
into the cascade (`Folded`), the end of a cascade (`CascadeFinished`), removals and exits.
-/

namespace Zestors
namespace OneForAllSupervisor
open SupervisorInner

variable {s s' s'' : OneForAllSupervisor} {i : SupervisorInner} {l l' : List Name} {n : Name}

/-! ## Folding siblings into the cascade -/

/-- `s'` is `s` after the siblings in `l` have been folded into the cascade. -/
structure Folded (l : List Name) (s s' : OneForAllSupervisor) : Prop
    extends Stopped l s.inner s'.inner where
  exiting : s'.exiting = s.exiting
  mem_restarting : ∀ n, n ∈ s'.restarting ↔
    n ∈ s.restarting ∨ n ∈ l ∧ s'.inner.supervisees.stateOf n = some .shuttingDown
  mem_cascadeRestart : ∀ n, n ∈ s'.cascadeRestart ↔
    n ∈ s.cascadeRestart ∨ n ∈ l ∧ Restartable s.inner n
  mem_cascadeDrop : ∀ n, n ∈ s'.cascadeDrop ↔ n ∈ s.cascadeDrop ∨ n ∈ l ∧ Droppable s.inner n

namespace Folded

theorem refl (s : OneForAllSupervisor) : Folded [] s s :=
  ⟨.refl _, rfl, by simp, by simp, by simp⟩

theorem trans (h : Folded l s s') (h' : Folded l' s' s'') : Folded (l ++ l') s s'' where
  toStopped := h.toStopped.trans h'.toStopped
  exiting := h'.exiting.trans h.exiting
  mem_restarting n := by
    rw [h'.mem_restarting, h.mem_restarting, h'.stateOf, List.mem_append]
    -- Whoever was left shutting down still is.
    by_cases hl : n ∈ l' <;> rcases s'.inner.supervisees.stateOf n with _ | _ | _ | _ | _ | _ <;>
      simp [hl, stopped]
  mem_cascadeRestart n := by
    rw [h'.mem_cascadeRestart, h.mem_cascadeRestart, List.mem_append,
      Restartable.congr (h.modeOf n), or_and_right, or_assoc]
  mem_cascadeDrop n := by
    rw [h'.mem_cascadeDrop, h.mem_cascadeDrop, List.mem_append, Droppable.congr (h.modeOf n),
      or_and_right, or_assoc]

theorem of_none (hn : s.inner.supervisees.get? n = none) : Folded [n] s s where
  toStopped := (Stopped.refl _).cons_of_none hn
  exiting := rfl
  mem_restarting j := by
    refine ⟨.inl, fun h => h.resolve_right fun ⟨hj, hs⟩ => ?_⟩
    rw [List.mem_singleton.1 hj, SuperviseeMap.stateOf_eq_none.2 hn] at hs
    cases hs
  mem_cascadeRestart j := by
    refine ⟨.inl, fun h => h.resolve_right fun ⟨hj, hr⟩ => ?_⟩
    exact hr.1 (List.mem_singleton.1 hj ▸ SuperviseeMap.modeOf_eq_none.2 hn)
  mem_cascadeDrop j := by
    refine ⟨.inl, fun h => h.resolve_right fun ⟨hj, hd⟩ => ?_⟩
    rw [Droppable, List.mem_singleton.1 hj, SuperviseeMap.modeOf_eq_none.2 hn] at hd
    cases hd

/-- One sibling, with the names added to the sets that its mode and its state call for. -/
theorem of_stopped {restarting cascadeRestart cascadeDrop : IndexSet Name}
    (hst : Stopped [n] s.inner i)
    (hr : restarting =
      if i.supervisees.stateOf n = some .shuttingDown then s.restarting.insert n else s.restarting)
    (hcr : cascadeRestart =
      if Restartable s.inner n then s.cascadeRestart.insert n else s.cascadeRestart)
    (hcd : cascadeDrop = if Droppable s.inner n then s.cascadeDrop.insert n else s.cascadeDrop) :
    Folded [n] s { s with inner := i, restarting, cascadeRestart, cascadeDrop } where
  toStopped := hst
  exiting := rfl
  mem_restarting j := by
    rw [hr, List.mem_singleton]
    split_ifs with h <;> by_cases hj : j = n <;> simp [hj, h]
  mem_cascadeRestart j := by
    rw [hcr, List.mem_singleton]
    split_ifs with h <;> by_cases hj : j = n <;> simp [hj, h]
  mem_cascadeDrop j := by
    rw [hcd, List.mem_singleton]
    split_ifs with h <;> by_cases hj : j = n <;> simp [hj, h]

end Folded

/-- How the pass over the siblings ends: the budget of `c` refuses a permit, or all of them have been
folded in, which ends the cascade at once if it has nobody to wait for. -/
inductive FoldEnds (s : OneForAllSupervisor) (l : List Name) :
    OneForAllSupervisor × ControlFlow → Prop
  | refused {s' : OneForAllSupervisor} {pre post : List Name} {c : Name} :
    l = pre ++ c :: post → Folded pre s s' →
    FoldEnds s l { s' with inner := (s'.inner.acquireRestartPermit c).1 }.shutdown
  | done {s' : OneForAllSupervisor} : Folded l s s' →
    FoldEnds s l (if s'.restarting.isEmpty then s'.finishCascade else s', .cont)

theorem FoldEnds.cons {x : OneForAllSupervisor × ControlFlow} (hf : Folded [n] s s')
    (h : FoldEnds s' l x) : FoldEnds s (n :: l) x := by
  cases h with
  | refused hl hf' => exact .refused (congrArg (n :: ·) hl) (hf.trans hf')
  | done hf' => exact .done (hf.trans hf')

theorem stopSiblings_ends (s : OneForAllSupervisor) (l : List Name) :
    FoldEnds s l (s.stopSiblings l) := by
  induction l generalizing s with
  | nil => exact .done (.refl s)
  | cons next rest ih =>
    rcases hget : s.inner.supervisees.get? next with _ | sv
    · simp only [stopSiblings, hget]
      exact (ih s).cons (.of_none hget)
    · have hm := SuperviseeMap.modeOf_of_get? hget
      by_cases hnever : sv.cfg.restartMode = .never
      · have hR : ¬ Restartable s.inner next := fun h => h.2 (hnever ▸ hm)
        have hD : Droppable s.inner next := by rw [Droppable, hm, hnever]
        simp only [stopSiblings, hget, if_pos hnever]
        split <;> rename_i hb <;> rw [stop_isShuttingDown] at hb
        · exact (ih _).cons (.of_stopped .of_stop (by rw [if_pos hb]) (by rw [if_neg hR])
            (by rw [if_pos hD]))
        · exact (ih _).cons (.of_stopped .of_stop (by rw [if_neg hb]) (by rw [if_neg hR])
            (by rw [if_pos hD]))
      · have hR : Restartable s.inner next := by
          rw [Restartable, hm]; simpa using hnever
        have hD : ¬ Droppable s.inner next := hR.2
        simp only [stopSiblings, hget, if_neg hnever]
        rcases hp : (s.inner.acquireRestartPermit next).2 with _ | _
        · exact .refused (show next :: rest = [] ++ next :: rest from rfl) (.refl s)
        · rw [if_neg (by simp)]
          split <;> rename_i hb <;> rw [stop_isShuttingDown] at hb
          · exact (ih _).cons (.of_stopped .of_permit_stop (by rw [if_pos hb]) (by rw [if_pos hR])
              (by rw [if_neg hD]))
          · exact (ih _).cons (.of_stopped .of_permit_stop (by rw [if_neg hb]) (by rw [if_pos hR])
              (by rw [if_neg hD]))

/-! ## The end of a cascade -/

/-- `i'` is `i` after the dead among `l` have been started again. -/
structure Restarted (l : List Name) (i i' : SupervisorInner) : Prop extends Frame i i' where
  stateOf : ∀ j, i'.supervisees.stateOf j =
    if j ∈ l ∧ i.supervisees.stateOf j = some .dead then some .starting
    else i.supervisees.stateOf j
  modeOf : ∀ j, i'.supervisees.modeOf j = i.supervisees.modeOf j
  keys : i'.supervisees.keys = i.supervisees.keys
  starts : i'.starts = i.starts ++
    (l.filter fun n => i.supervisees.stateOf n = some .dead).map fun n => ⟨.restart, n, i.isExiting⟩
  stops : i'.stops = i.stops

theorem restarted_startEach (hl : l.Nodup) (i : SupervisorInner) :
    Restarted l i (startEach i l) := by
  induction l generalizing i with
  | nil => exact ⟨.refl i, by simp [startEach], fun _ => rfl, rfl, by simp [startEach], rfl⟩
  | cons n l ih =>
    obtain ⟨hn, hl⟩ := List.nodup_cons.1 hl
    have h := ih hl (i.start n .restart).1
    have hf : Frame i (i.start n .restart).1 := frame_start
    refine ⟨hf.trans h.toFrame, fun j => ?_, fun j => (h.modeOf j).trans modeOf_start,
      h.keys.trans keys_start, h.starts.trans ?_, h.stops.trans stops_start⟩
    · refine (h.stateOf j).trans ?_
      rw [stateOf_start]
      by_cases hj : j = n
      · subst hj; simp [hn]
      · simp [hj]
    · rw [starts_start, hf.isExiting]
      have hfilter : (l.filter fun m => (i.start n .restart).1.supervisees.stateOf m = some .dead) =
          l.filter fun m => i.supervisees.stateOf m = some .dead := by
        refine List.filter_congr fun m hm => ?_
        rw [stateOf_start, if_neg]
        rintro ⟨rfl, -⟩; exact hn hm
      rw [hfilter]
      split_ifs with hd
      · rw [List.filter_cons_of_pos (by simpa using hd)]
        simp
      · rw [List.filter_cons_of_neg (by simpa using hd)]

/-- `s'` is `s` after the specs in `l` have been dropped. -/
structure Dropped (l : List Name) (s s' : OneForAllSupervisor) : Prop
    extends Frame s.inner s'.inner where
  stateOf : ∀ j, s'.inner.supervisees.stateOf j =
    if j ∈ l then none else s.inner.supervisees.stateOf j
  modeOf : ∀ j, s'.inner.supervisees.modeOf j =
    if j ∈ l then none else s.inner.supervisees.modeOf j
  keys : s'.inner.supervisees.keys = s.inner.supervisees.keys
  starts : s'.inner.starts = s.inner.starts
  stops : s'.inner.stops = s.inner.stops
  restarting : s'.restarting = s.restarting
  mem_exiting : ∀ j, j ∈ s'.exiting ↔
    j ∈ s.exiting ∧ (j ∈ l → s.inner.supervisees.stateOf j = none)
  mem_cascadeRestart : ∀ j, j ∈ s'.cascadeRestart ↔
    j ∈ s.cascadeRestart ∧ (j ∈ l → s.inner.supervisees.stateOf j = none)
  mem_cascadeDrop : ∀ j, j ∈ s'.cascadeDrop ↔
    j ∈ s.cascadeDrop ∧ (j ∈ l → s.inner.supervisees.stateOf j = none)

theorem dropped_dropSpec : Dropped [n] s (s.dropSpec n).1 := by
  have hr : Removed n s.inner (s.inner.removeSpec s.initializing s.exiting n).1 := removed_removeSpec
  unfold dropSpec
  rcases hget : s.inner.supervisees.get? n with _ | sv
  · have hnone := SuperviseeMap.stateOf_eq_none.2 hget
    rw [SupervisorInner.removeSpec_of_none hnone] at hr ⊢
    refine ⟨hr.toFrame, by simp [hnone], by simp [SuperviseeMap.modeOf_eq_none.2 hget], hr.keys,
      hr.starts, hr.stops, rfl, ?_, ?_, ?_⟩ <;> simp +contextual [hnone]
  · have hsome : s.inner.supervisees.stateOf n ≠ none := by
      simp [SuperviseeMap.stateOf_of_get? hget]
    rw [SupervisorInner.removeSpec_of_some hget] at hr ⊢
    refine ⟨hr.toFrame, by simp, by simp, hr.keys, hr.starts, hr.stops, rfl,
      fun j => ?_, fun j => ?_, fun j => ?_⟩ <;>
    · rw [IndexSet.mem_swapRemove, List.mem_singleton, and_comm]
      refine and_congr_right fun _ => ⟨fun h e => absurd e h, fun h e => ?_⟩
      exact hsome (e ▸ h e)

theorem dropped_dropAll (s : OneForAllSupervisor) (l : List Name) : Dropped l s (s.dropAll l) := by
  induction l generalizing s with
  | nil => exact ⟨.refl _, by simp [dropAll], by simp [dropAll], rfl, rfl, rfl, rfl, by simp [dropAll],
      by simp [dropAll], by simp [dropAll]⟩
  | cons n l ih =>
    have h := dropped_dropSpec (s := s) (n := n)
    have h' := ih (s.dropSpec n).1
    have hmem : ∀ j, (j ∈ l → (s.dropSpec n).1.inner.supervisees.stateOf j = none) ∧
        (j ∈ [n] → s.inner.supervisees.stateOf j = none) ↔
        (j ∈ n :: l → s.inner.supervisees.stateOf j = none) := by
      intro j
      rw [h.stateOf]
      by_cases hj : j = n <;> by_cases hl : j ∈ l <;> simp [hj, hl]
    refine ⟨h.toFrame.trans h'.toFrame, fun j => (h'.stateOf j).trans ?_,
      fun j => (h'.modeOf j).trans ?_, h'.keys.trans h.keys, h'.starts.trans h.starts,
      h'.stops.trans h.stops, h'.restarting.trans h.restarting, fun j => (h'.mem_exiting j).trans ?_,
      fun j => (h'.mem_cascadeRestart j).trans ?_, fun j => (h'.mem_cascadeDrop j).trans ?_⟩
    · rw [h.stateOf]
      by_cases hj : j = n <;> by_cases hl : j ∈ l <;> simp [hj, hl]
    · rw [h.modeOf]
      by_cases hj : j = n <;> by_cases hl : j ∈ l <;> simp [hj, hl]
    · rw [h.mem_exiting, ← hmem, and_assoc, and_comm (a := _ → _)]
    · rw [h.mem_cascadeRestart, ← hmem, and_assoc, and_comm (a := _ → _)]
    · rw [h.mem_cascadeDrop, ← hmem, and_assoc, and_comm (a := _ → _)]

/-- What the end of a cascade does: whoever was to be dropped is dropped, and the dead among those
who were to be restarted are started. -/
structure CascadeFinished (s s' : OneForAllSupervisor) : Prop extends Frame s.inner s'.inner where
  stateOf : ∀ j, s'.inner.supervisees.stateOf j =
    if j ∈ s.cascadeDrop then none
    else if j ∈ s.cascadeRestart ∧ s.inner.supervisees.stateOf j = some .dead then some .starting
    else s.inner.supervisees.stateOf j
  modeOf : ∀ j, s'.inner.supervisees.modeOf j =
    if j ∈ s.cascadeDrop then none else s.inner.supervisees.modeOf j
  keys : s'.inner.supervisees.keys = s.inner.supervisees.keys
  starts : ∃ l : List Name, l.Nodup ∧ (∀ n, n ∈ l ↔ n ∈ s.cascadeRestart ∧ n ∉ s.cascadeDrop ∧
      s.inner.supervisees.stateOf n = some .dead) ∧
    s'.inner.starts = s.inner.starts ++ l.map fun n => ⟨.restart, n, s.inner.isExiting⟩
  stops : s'.inner.stops = s.inner.stops
  restarting : s'.restarting = s.restarting
  mem_exiting : ∀ j, j ∈ s'.exiting ↔
    j ∈ s.exiting ∧ (j ∈ s.cascadeDrop → s.inner.supervisees.stateOf j = none)
  cascadeRestart : ∀ j, j ∉ s'.cascadeRestart
  cascadeDrop : ∀ j, j ∉ s'.cascadeDrop

theorem cascadeFinished_finishCascade (s : OneForAllSupervisor) :
    CascadeFinished s s.finishCascade := by
  set t := { s with cascadeDrop := .empty }.dropAll s.cascadeDrop.toList with ht
  have hd : Dropped s.cascadeDrop.toList { s with cascadeDrop := .empty } t := dropped_dropAll _ _
  have hr := restarted_startEach t.cascadeRestart.nodup t.inner
  -- A supervisee that is dead after the drops was not dropped.
  have hdead : ∀ j, t.inner.supervisees.stateOf j = some .dead ↔
      j ∉ s.cascadeDrop ∧ s.inner.supervisees.stateOf j = some .dead := by
    intro j
    rw [hd.stateOf]
    split <;> simp_all
  have hmem : ∀ j, j ∈ t.cascadeRestart ∧ t.inner.supervisees.stateOf j = some .dead ↔
      j ∈ s.cascadeRestart ∧ j ∉ s.cascadeDrop ∧ s.inner.supervisees.stateOf j = some .dead := by
    intro j
    rw [hdead, hd.mem_cascadeRestart]
    simp only [IndexSet.mem_toList]
    tauto
  refine ⟨hd.toFrame.trans hr.toFrame, fun j => (hr.stateOf j).trans ?_,
    fun j => (hr.modeOf j).trans (hd.modeOf j), hr.keys.trans hd.keys,
    ⟨t.cascadeRestart.toList.filter fun n => t.inner.supervisees.stateOf n = some .dead,
      t.cascadeRestart.nodup.filter _, fun n => ?_, ?_⟩, hr.stops.trans hd.stops, hd.restarting, hd.mem_exiting,
    IndexSet.not_mem_empty, fun j hj => ?_⟩
  · simp only [IndexSet.mem_toList, hmem]
    rw [hd.stateOf]
    by_cases hj : j ∈ s.cascadeDrop <;> simp [hj]
  · rw [List.mem_filter, decide_eq_true_eq]
    exact hmem n
  · refine hr.starts.trans ?_
    rw [hd.starts, hd.isExiting]
  · exact IndexSet.not_mem_empty j ((hd.mem_cascadeDrop j).1 hj).1

/-! ## Removals and exits -/

/-- `s` after everything but the cascade has forgotten `n`. -/
def forget (s : OneForAllSupervisor) (n : Name) : OneForAllSupervisor :=
  { s with
    inner := (s.inner.removeSpec s.initializing s.exiting n).1
    initializing := (s.inner.removeSpec s.initializing s.exiting n).2.1
    exiting := s.exiting.swapRemove n
    restarting := s.restarting.swapRemove n }

theorem removed_forget : Removed n s.inner (s.forget n).inner := removed_removeSpec

/-- What the removal of a name can lead to. -/
inductive RemoveCase (s : OneForAllSupervisor) (n : Name) : OneForAllSupervisor → Prop
  | absent : s.inner.supervisees.stateOf n = none → RemoveCase s n s
  /-- The cascade goes on without `n`, if there is one. -/
  | drop : s.inner.supervisees.stateOf n ≠ none →
    (n ∈ s.restarting → ∃ m ∈ s.restarting, m ≠ n) →
    RemoveCase s n { s.forget n with
      cascadeRestart := s.cascadeRestart.swapRemove n
      cascadeDrop := s.cascadeDrop.swapRemove n }
  /-- The cascade was waiting for nobody else. -/
  | finish : s.inner.supervisees.stateOf n ≠ none → n ∈ s.restarting →
    (∀ m ∈ s.restarting, m = n) → RemoveCase s n (s.forget n).finishCascade

theorem removeSpec_of_some {sv : Supervisee} (h : s.inner.supervisees.get? n = some sv) :
    (s.removeSpec n).1 =
      let s' := if n ∈ s.restarting ∧ (s.restarting.swapRemove n).isEmpty then
        (s.forget n).finishCascade else s.forget n
      { s' with
        cascadeRestart := s'.cascadeRestart.swapRemove n
        cascadeDrop := s'.cascadeDrop.swapRemove n } := by
  unfold removeSpec forget
  rw [SupervisorInner.removeSpec_of_some h]

theorem sets_of_finishCascade :
    s.finishCascade.cascadeRestart = .empty ∧ s.finishCascade.cascadeDrop = .empty :=
  have h := cascadeFinished_finishCascade s
  ⟨IndexSet.eq_empty h.cascadeRestart, IndexSet.eq_empty h.cascadeDrop⟩

theorem removeSpec_case (s : OneForAllSupervisor) (n : Name) :
    RemoveCase s n (s.removeSpec n).1 := by
  rcases hget : s.inner.supervisees.get? n with _ | sv
  · have hnone := SuperviseeMap.stateOf_eq_none.2 hget
    have : (s.removeSpec n).1 = s := by
      unfold removeSpec
      rw [SupervisorInner.removeSpec_of_none hnone]
    rw [this]
    exact .absent hnone
  · have hsome : s.inner.supervisees.stateOf n ≠ none := by
      simp [SuperviseeMap.stateOf_of_get? hget]
    rw [removeSpec_of_some hget]
    by_cases hlast : n ∈ s.restarting ∧ (s.restarting.swapRemove n).isEmpty
    · rw [if_pos hlast]
      obtain ⟨hr, hd⟩ := sets_of_finishCascade (s := s.forget n)
      have heq : { (s.forget n).finishCascade with
          cascadeRestart := (s.forget n).finishCascade.cascadeRestart.swapRemove n
          cascadeDrop := (s.forget n).finishCascade.cascadeDrop.swapRemove n } =
          (s.forget n).finishCascade := by
        generalize (s.forget n).finishCascade = t at hr hd
        cases t
        simp_all [IndexSet.swapRemove, IndexSet.empty, List.swapRemove]
      dsimp only
      rw [heq]
      exact .finish hsome hlast.1 (IndexSet.isEmpty_swapRemove.1 hlast.2)
    · rw [if_neg hlast]
      refine .drop hsome fun hn => ?_
      by_contra hall
      push Not at hall
      exact hlast ⟨hn, IndexSet.isEmpty_swapRemove.2 hall⟩

/-- What the exit of a supervisee can lead to, after the item has been taken: `s` is the state in
which the supervisee called `n` is dead. -/
inductive ExitCase (s : OneForAllSupervisor) (n : Name) (reason : ExitReason) :
    OneForAllSupervisor × ControlFlow → Prop
  /-- The shutdown was waiting for this exit. -/
  | awaited : n ∈ s.exiting → ExitCase s n reason ({ s with exiting := s.exiting.swapRemove n },
      if (s.exiting.swapRemove n).isEmpty then .brk else .cont)
  /-- The cascade was waiting for this exit, and goes on waiting for others. -/
  | member : n ∉ s.exiting → n ∈ s.restarting → (∃ m ∈ s.restarting, m ≠ n) →
    ExitCase s n reason ({ s with restarting := s.restarting.swapRemove n }, .cont)
  /-- The cascade was waiting for this exit only. -/
  | last : n ∉ s.exiting → n ∈ s.restarting → (∀ m ∈ s.restarting, m = n) →
    ExitCase s n reason
      ({ s with restarting := s.restarting.swapRemove n }.finishCascade, .cont)
  /-- It needs no restart. -/
  | drop : n ∉ s.exiting → n ∉ s.restarting → ¬ Required s.inner n reason →
    ExitCase s n reason ((s.removeSpec n).1, .cont)
  /-- It needs a restart, and a budget is used up. -/
  | refused : n ∉ s.exiting → n ∉ s.restarting →
    ExitCase s n reason { s with inner := (s.inner.acquirePermits n).1 }.shutdown
  /-- It needs a restart, and all the others are folded into its cascade. -/
  | trigger {siblings : List Name} {x : OneForAllSupervisor × ControlFlow} :
    n ∉ s.exiting → n ∉ s.restarting → Required s.inner n reason →
    (s.inner.acquirePermits n).2 = true →
    (∀ m, m ∈ siblings ↔ s.inner.supervisees.stateOf m ≠ none ∧ m ≠ n ∧
      m ∉ s.cascadeRestart ∧ m ∉ s.cascadeDrop) →
    FoldEnds { s with
      inner := (s.inner.acquirePermits n).1
      cascadeRestart := s.cascadeRestart.insert n } siblings x →
    ExitCase s n reason x

theorem handleExit_case (reason : ExitReason) (hn : s.inner.supervisees.stateOf n = some .dead) :
    ExitCase s n reason (s.handleExit n reason) := by
  obtain ⟨sv, hsv, -⟩ := SuperviseeMap.stateOf_eq_some.1 hn
  unfold handleExit
  by_cases he : n ∈ s.exiting
  · rw [if_pos he]
    exact .awaited he
  rw [if_neg he]
  by_cases hr : n ∈ s.restarting
  · rw [if_pos hr]
    by_cases hlast : (s.restarting.swapRemove n).isEmpty
    · simp only [hlast, if_true]
      exact .last he hr (IndexSet.isEmpty_swapRemove.1 hlast)
    · simp only [hlast]
      refine .member he hr ?_
      rw [IndexSet.isEmpty_swapRemove] at hlast
      push Not at hlast
      exact hlast
  rw [if_neg hr]
  simp only [hsv]
  rcases hreq : reason.requiresRestart sv with _ | _
  · rw [if_pos (by rfl)]
    exact .drop he hr (not_required hsv hreq)
  rw [if_neg (by simp)]
  rcases hpermit : (s.inner.acquirePermits n).2 with _ | _
  · exact .refused he hr
  rw [if_neg (by simp)]
  refine .trigger he hr ⟨sv, hsv, hreq⟩ hpermit (fun m => ?_) (stopSiblings_ends _ _)
  have hp := permitted_acquirePermits (s := s.inner) (n := n)
  rw [List.mem_filter, SuperviseeMap.mem_names_iff_stateOf, hp.stateOf]
  simp only [IndexSet.mem_insert, not_or, decide_eq_true_eq]
  tauto

end OneForAllSupervisor
end Zestors
