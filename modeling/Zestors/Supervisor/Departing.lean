import Zestors.Supervisor.GroupRestart
import Zestors.Supervisor.Lapses
import Zestors.Supervisor.NoLostChild

/-!
# Whom an event removes

The children that a turn of the loop removes, in terms of the state before it: the one that is
deregistered, the one that has ended and needs no restart, and, at the end of a cascade, those that it
drops (`Departs`). Nobody else is gone after the turn, unless the supervisor begins to exit.
-/

namespace Zestors
open SupervisorInner LoopState Strategy

namespace SupervisorInner
variable {i i' : SupervisorInner} {ev : Event} {n m : Name} {reason : ExitReason}

/-- The event is the end of `n`, which needs no restart. -/
def EndsFor (i : SupervisorInner) (ev : Event) (n : Name) : Prop :=
  match ev with
  | .supervisee m item => m = n ∧ ∃ reason ∈ item.exitReason, ¬ Required i n reason
  | .signal _ | .message _ | .source _ => False

/-- The event is the end of `n`, which needs a restart. -/
def Crashes (i : SupervisorInner) (ev : Event) (n : Name) : Prop :=
  match ev with
  | .supervisee m item => m = n ∧ ∃ reason ∈ item.exitReason, Required i n reason
  | .signal _ | .message _ | .source _ => False

instance (i : SupervisorInner) (ev : Event) (n : Name) : Decidable (i.EndsFor ev n) :=
  match ev with
  | .supervisee m item =>
    inferInstanceAs (Decidable (m = n ∧ ∃ reason ∈ item.exitReason, ¬ Required i n reason))
  | .signal _ | .message _ | .source _ => .isFalse id

instance (i : SupervisorInner) (ev : Event) (n : Name) : Decidable (i.Crashes ev n) :=
  match ev with
  | .supervisee m item =>
    inferInstanceAs (Decidable (m = n ∧ ∃ reason ∈ item.exitReason, Required i n reason))
  | .signal _ | .message _ | .source _ => .isFalse id

/-- Nobody in the list has been spawned and not exited yet, but for `n`. -/
def NoneUp (i : SupervisorInner) (n : Name) (l : List Name) : Prop :=
  ∀ m ∈ l, m ≠ n → Gone i m ∨ i.supervisees.stateOf m = some .starting

instance (i : SupervisorInner) (n : Name) (l : List Name) : Decidable (i.NoneUp n l) := by
  unfold NoneUp
  infer_instance

theorem required_setState {state : SuperviseeState} :
    Required (i.setState n state) n reason ↔ Required i n reason := by
  refine ⟨Required.of_setState, fun ⟨sv, hsv, hreq⟩ => ⟨sv.withState state, ?_, ?_⟩⟩
  · rw [get?_setState, hsv]
    rfl
  · rwa [ExitReason.requiresRestart_congr (Supervisee.spec_withState state)]

theorem present_setState {state : SuperviseeState} (h : i.supervisees.stateOf m ≠ none) :
    (i.setState n state).supervisees.stateOf m ≠ none := by
  rw [stateOf_setState]
  split
  · rename_i hmn
    simpa [← hmn] using h
  · exact h

/-- The end of `n` and the permits for it bring nobody else up. -/
theorem noneUp_of_permitted {l : List Name} (hp : Permitted (i.setState n .dead) i')
    (h : ∀ j ∈ l, j ≠ n → Gone i' j ∨ i'.supervisees.stateOf j = some .starting) : i.NoneUp n l := by
  intro j hj hjn
  have hup := h j hj hjn
  unfold Gone at hup ⊢
  rwa [hp.stateOf, stateOf_setState, if_neg hjn] at hup

end SupervisorInner

/-- Who departs by an event, as far as the strategy is concerned. -/
class Departing (σ : Type) [Strategy σ] where
  Departs : σ → Event → Name → Prop
  decidable : ∀ s ev n, Decidable (Departs s ev n)

instance {σ : Type} [Strategy σ] [Departing σ] (s : σ) (ev : Event) (n : Name) :
    Decidable (Departing.Departs s ev n) :=
  Departing.decidable s ev n

/-! ## One for one -/

namespace OneForOneSupervisor
variable {s : OneForOneSupervisor} {ev : Event} {n m : Name} {reason : ExitReason}

def Departs (s : OneForOneSupervisor) (ev : Event) (n : Name) : Prop :=
  ev.removes = some n ∨ s.inner.EndsFor ev n

instance (s : OneForOneSupervisor) (ev : Event) (n : Name) : Decidable (s.Departs ev n) := by
  unfold Departs
  infer_instance

instance : Departing OneForOneSupervisor := ⟨Departs, inferInstance⟩

theorem departs_of_removeSpec (hev : ev.removes = some n)
    (hm : s.inner.supervisees.stateOf m ≠ none)
    (hgone : (s.removeSpec n).1.inner.supervisees.stateOf m = none) : s.Departs ev m := by
  have hcase := removeSpec_case s n
  generalize (s.removeSpec n).1 = s' at hcase hgone
  cases hcase with
  | absent _ => exact absurd hgone hm
  | @drop i w _ hr =>
    rw [hr.stateOf] at hgone
    split at hgone
    · rename_i hmn
      exact .inl (hmn ▸ hev)
    · exact absurd hgone hm

theorem present_of_required (he : n ∉ s.exiting) (hreq : Required s.inner n reason) :
    (s.handleExit n reason).1.inner.supervisees.stateOf n ≠ none := by
  obtain ⟨sv, hsv, hreq⟩ := hreq
  have hn : s.inner.supervisees.stateOf n ≠ none := by simp [SuperviseeMap.stateOf_of_get? hsv]
  have hp := permitted_acquirePermits (s := s.inner) (n := n)
  unfold handleExit
  rw [if_neg he]
  simp only [hsv, hreq, Bool.not_true, Bool.false_eq_true, if_false]
  split
  · rw [stateOf_start, hp.stateOf]
    split
    · simp
    · exact hn
  · show ((s.inner.acquirePermits n).1.shutdown s.exiting).1.supervisees.stateOf n ≠ none
    rw [stateOf_shutdown, hp.stateOf]
    simpa using hn

theorem departs_of_handleExit {item : SuperviseeItem} (he : ∀ j, j ∉ s.exiting)
    (hr : item.exitReason = some reason) (hn : ¬ Gone s.inner n)
    (hx : ({ s with inner := s.inner.setState n .dead }.handleExit n reason).1.inner.isExiting = false)
    (hm : s.inner.supervisees.stateOf m ≠ none)
    (hgone : ({ s with inner := s.inner.setState n .dead }.handleExit n
      reason).1.inner.supervisees.stateOf m = none) : s.Departs (.supervisee n item) m := by
  have hcase := handleExit_case (s := { s with inner := s.inner.setState n .dead }) reason
    (stateOf_setState_dead hn)
  have hpresent : Required _ n reason → _ :=
    present_of_required (s := { s with inner := s.inner.setState n .dead }) (he n)
  have hm' : (s.inner.setState n .dead).supervisees.stateOf m ≠ none := present_setState hm
  have hp := permitted_acquirePermits (s := s.inner.setState n .dead) (n := n)
  generalize OneForOneSupervisor.handleExit _ n reason = x at hcase hx hgone hpresent
  cases hcase with
  | awaited hn => exact absurd hn (he n)
  | drop _ =>
    rcases departs_of_removeSpec (rfl : Event.removes (.source (.removed n)) = some n) hm' hgone with hmn | hmn
    · cases hmn
      refine .inr ⟨rfl, reason, hr, fun hreq => hpresent (required_setState.2 hreq) hgone⟩
    · exact hmn.elim
  | refused _ =>
    cases hx.symm.trans (isExiting_shutdown : ((_ : SupervisorInner).shutdown s.exiting).1.isExiting = true)
  | restart _ _ _ =>
    rw [stateOf_start] at hgone
    split at hgone
    · cases hgone
    · exact absurd ((hp.stateOf m).symm.trans hgone) hm'

end OneForOneSupervisor

/-! ## One for all -/

namespace OneForAllSupervisor
variable {s s' : OneForAllSupervisor} {ev : Event} {l : List Name} {n m : Name} {reason : ExitReason}

/-- The event is the end, or the removal, of the only name that the cascade waits for. -/
def EndsCascade (s : OneForAllSupervisor) (ev : Event) : Prop :=
  ∃ n ∈ s.restarting.toList, (ev.removes = some n ∨ ev.exits = some n) ∧
    ∀ j ∈ s.restarting.toList, j = n

/-- The event begins a cascade that waits for nobody: of the others, none has been spawned. -/
def FinishesAtOnce (s : OneForAllSupervisor) (ev : Event) (m : Name) : Prop :=
  ∃ n ∈ s.inner.supervisees.names, s.inner.Crashes ev n ∧ m ≠ n ∧ s.restarting.isEmpty ∧
    s.inner.NoneUp n s.inner.supervisees.names

def Departs (s : OneForAllSupervisor) (ev : Event) (n : Name) : Prop :=
  ev.removes = some n ∨ n ∉ s.restarting ∧ s.inner.EndsFor ev n ∨
    n ∈ s.cascadeDrop ∧ s.EndsCascade ev ∨ Droppable s.inner n ∧ s.FinishesAtOnce ev n

instance (s : OneForAllSupervisor) (ev : Event) (n : Name) : Decidable (s.Departs ev n) := by
  unfold Departs EndsCascade FinishesAtOnce
  infer_instance

instance : Departing OneForAllSupervisor := ⟨Departs, inferInstance⟩

theorem departs_of_removeSpec (hev : ev.removes = some n)
    (hm : s.inner.supervisees.stateOf m ≠ none)
    (hgone : (s.removeSpec n).1.inner.supervisees.stateOf m = none) : s.Departs ev m := by
  have hr := removed_forget (s := s) (n := n)
  have hcase := removeSpec_case s n
  by_cases hmn : m = n
  · exact .inl (hmn ▸ hev)
  have hm' : (s.forget n).inner.supervisees.stateOf m ≠ none := by
    rwa [hr.stateOf, if_neg hmn]
  generalize (s.removeSpec n).1 = s' at hcase hgone
  cases hcase with
  | absent _ => exact absurd hgone hm
  | drop _ _ => exact absurd hgone hm'
  | finish _ hn honly =>
    rw [(cascadeFinished_finishCascade _).stateOf] at hgone
    split_ifs at hgone with hdrop
    · exact .inr (.inr (.inl ⟨hdrop, n, hn, .inl hev, honly⟩))
    · exact absurd hgone hm'

/-- Whoever is gone after the siblings were folded in was dropped, as the cascade ended at once. -/
theorem foldEnds_gone {x : OneForAllSupervisor × ControlFlow} (h : FoldEnds s l x)
    (hx : x.1.inner.isExiting = false) (hm : s.inner.supervisees.stateOf m ≠ none)
    (hgone : x.1.inner.supervisees.stateOf m = none) :
    (∀ j, j ∉ s.restarting) ∧ (∀ j ∈ l, Gone s.inner j ∨ s.inner.supervisees.stateOf j = some .starting) ∧
      (m ∈ s.cascadeDrop ∨ m ∈ l ∧ Droppable s.inner m) := by
  cases h with
  | refused _ _ => cases hx.symm.trans (exiting_shutdown _)
  | @done s' hf =>
    have hm' : s'.inner.supervisees.stateOf m ≠ none := by
      rw [hf.stateOf]
      split
      · simpa using hm
      · exact hm
    change (if s'.restarting.isEmpty then s'.finishCascade else s').inner.supervisees.stateOf m = none
      at hgone
    split at hgone
    · rename_i hempty
      rw [IndexSet.isEmpty_iff] at hempty
      refine ⟨fun j hj => hempty j ((hf.mem_restarting j).2 (.inl hj)), fun j hj => ?_, ?_⟩
      · rcases hf.toStopped.gone_or_shuttingDown hj with hg | hdown
        · unfold Gone at hg ⊢
          rw [hf.stateOf, if_pos hj] at hg
          rcases hstate : s.inner.supervisees.stateOf j with _ | _ | _ | _ | _ | _ <;>
            simp [hstate, stopped] at hg ⊢
        · exact absurd ((hf.mem_restarting j).2 (.inr ⟨hj, hdown⟩)) (hempty j)
      · rw [(cascadeFinished_finishCascade s').stateOf] at hgone
        split_ifs at hgone with hdrop
        · exact (hf.mem_cascadeDrop m).1 hdrop
        · exact absurd hgone hm'
    · exact absurd hgone hm'

theorem present_of_required (hd : n ∉ s.cascadeDrop) (he : n ∉ s.exiting) (hr : n ∉ s.restarting)
    (hreq : Required s.inner n reason) (hx : (s.handleExit n reason).1.inner.isExiting = false) :
    (s.handleExit n reason).1.inner.supervisees.stateOf n ≠ none := by
  have hrestart := hreq.restartable
  obtain ⟨sv, hsv, hreq⟩ := hreq
  have hp := permitted_acquirePermits (s := s.inner) (n := n)
  have hn : (s.inner.acquirePermits n).1.supervisees.stateOf n ≠ none := by
    rw [hp.stateOf, SuperviseeMap.stateOf_of_get? hsv]
    simp
  unfold handleExit at hx ⊢
  rw [if_neg he, if_neg hr] at hx ⊢
  simp only [hsv, hreq, Bool.not_true, Bool.false_eq_true, if_false] at hx ⊢
  intro hgone
  split at hgone <;> rename_i hpermit
  · rw [if_pos hpermit] at hx
    cases hx.symm.trans (exiting_shutdown _)
  · rw [if_neg hpermit] at hx
    obtain ⟨-, -, hdrop⟩ := foldEnds_gone (stopSiblings_ends _ _) hx hn hgone
    rcases hdrop with hdrop | ⟨-, hdrop⟩
    · exact hd hdrop
    · exact ((Restartable.congr (hp.modeOf n)).2 hrestart).2 hdrop

theorem departs_of_handleExit {item : SuperviseeItem} (h : s.Grouped) (he : ∀ j, j ∉ s.exiting)
    (hr : item.exitReason = some reason) (hn : ¬ Gone s.inner n)
    (hx : ({ s with inner := s.inner.setState n .dead }.handleExit n reason).1.inner.isExiting = false)
    (hm : s.inner.supervisees.stateOf m ≠ none)
    (hgone : ({ s with inner := s.inner.setState n .dead }.handleExit n
      reason).1.inner.supervisees.stateOf m = none) : s.Departs (.supervisee n item) m := by
  have hdead := stateOf_setState_dead hn
  have hcase := handleExit_case (s := { s with inner := s.inner.setState n .dead }) reason hdead
  have hpresent : n ∉ s.cascadeDrop → n ∉ s.exiting → n ∉ s.restarting → Required _ n reason → _ :=
    present_of_required (s := { s with inner := s.inner.setState n .dead })
  have hexits : Event.exits (.supervisee n item) = some n := Event.exits_of_exitReason hr
  have hm' : (s.inner.setState n .dead).supervisees.stateOf m ≠ none := present_setState hm
  have hp := permitted_acquirePermits (s := s.inner.setState n .dead) (n := n)
  generalize OneForAllSupervisor.handleExit _ n reason = x at hcase hx hgone hpresent
  cases hcase with
  | awaited hn => exact absurd hn (he n)
  | member _ _ _ => exact absurd hgone hm'
  | last _ hn honly =>
    rw [(cascadeFinished_finishCascade _).stateOf] at hgone
    split_ifs at hgone with hdrop
    · exact .inr (.inr (.inl ⟨hdrop, n, hn, .inr hexits, honly⟩))
    · exact absurd hgone hm'
  | drop _ hnr =>
    have hlive := (h.tallied n).live (fun hd => hn (.inr hd)) fun hd =>
      hnr ((h.tallied n).restarting.2 hd)
    rcases departs_of_removeSpec (rfl : Event.removes (.source (.removed n)) = some n) hm' hgone with
      hmn | ⟨-, hends⟩ | ⟨-, j, hj, hjn, -⟩ | ⟨-, j, -, hcrash, -⟩
    · cases hmn
      refine .inr (.inl ⟨hnr, rfl, reason, hr, fun hreq => ?_⟩)
      exact hpresent (fun hd => hlive.2 (.inr hd)) (he n) hnr (required_setState.2 hreq) hx hgone
    · exact hends.elim
    · rcases hjn with hjn | hjn <;> cases hjn
      exact absurd hj hnr
    · exact hcrash.elim
  | refused _ _ => cases hx.symm.trans (exiting_shutdown _)
  | @trigger siblings _ _ hnr hreq _ hsiblings hends =>
    have hm'' := hm'
    rw [← hp.stateOf] at hm''
    obtain ⟨hempty, hup, hdrop⟩ := foldEnds_gone hends hx hm'' hgone
    obtain ⟨hcr, hcd, hnodead⟩ := h.idle hempty
    obtain ⟨hms, hdrop⟩ := hdrop.resolve_left (hcd m)
    have hmode : Droppable s.inner m :=
      (Droppable.congr ((hp.modeOf m).trans modeOf_setState)).1 hdrop
    have hn' : n ∈ s.inner.supervisees.names :=
      SuperviseeMap.mem_names_iff_stateOf.2 fun hnone => hn (.inl hnone)
    refine .inr (.inr (.inr ⟨hmode, n, hn', ⟨rfl, reason, hr, required_setState.1 hreq⟩,
      ((hsiblings m).1 hms).2.1, IndexSet.isEmpty_iff.2 hempty,
      noneUp_of_permitted hp fun j hj hjn => ?_⟩))
    refine hup j ((hsiblings j).2 ⟨?_, hjn, hcr j, hcd j⟩)
    exact present_setState (SuperviseeMap.mem_names_iff_stateOf.1 hj)

end OneForAllSupervisor

/-! ## Rest for one -/

namespace RestForOneSupervisor
variable {s : RestForOneSupervisor} {ev : Event} {l r d p : List Name} {n m : Name} {reason : ExitReason}

/-- The cascade is stopping `n`, or will. -/
def Expects (s : RestForOneSupervisor) (n : Name) : Prop :=
  match s.cascade with
  | .exiting c p _ _ => n = c ∨ n ∈ p
  | .idle | .restarting _ _ | .shuttingDown _ _ => False

/-- The event is the end, or the removal, of the last name that the cascade has to wait for until it
drops `m`. -/
def EndsStopping (s : RestForOneSupervisor) (ev : Event) (m : Name) : Prop :=
  match s.cascade with
  | .exiting c p _ d => (ev.removes = some c ∨ ev.exits = some c) ∧ s.inner.NoneUp c p ∧
      (m ∈ d ∨ m ∈ p ∧ Droppable s.inner m)
  | .idle | .restarting _ _ | .shuttingDown _ _ => False

/-- Those that were started after `n`. -/
def startedAfter (s : RestForOneSupervisor) (n : Name) : List Name :=
  s.inner.supervisees.names.drop (s.inner.supervisees.names.idxOf n + 1)

/-- The event begins a cascade that has nobody to wait for until it drops `m`. -/
def DropsAtOnce (s : RestForOneSupervisor) (ev : Event) (m : Name) : Prop :=
  match s.cascade with
  | .idle | .restarting _ _ => ∃ n ∈ s.inner.supervisees.names, s.inner.Crashes ev n ∧
      s.cascade.current ≠ some n ∧ s.inner.NoneUp n (s.startedAfter n) ∧ m ∈ s.startedAfter n ∧
      Droppable s.inner m
  | .exiting _ _ _ _ | .shuttingDown _ _ => False

def Departs (s : RestForOneSupervisor) (ev : Event) (n : Name) : Prop :=
  ev.removes = some n ∨ ¬ s.Expects n ∧ s.inner.EndsFor ev n ∨ s.EndsStopping ev n ∨ s.DropsAtOnce ev n

instance (s : RestForOneSupervisor) (n : Name) : Decidable (s.Expects n) :=
  match h : s.cascade with
  | .exiting c p _ _ => decidable_of_iff (n = c ∨ n ∈ p) (by rw [Expects, h])
  | .idle | .restarting _ _ | .shuttingDown _ _ => .isFalse (by simp [Expects, h])

instance (s : RestForOneSupervisor) (ev : Event) (m : Name) : Decidable (s.EndsStopping ev m) :=
  match h : s.cascade with
  | .exiting c p _ d => decidable_of_iff ((ev.removes = some c ∨ ev.exits = some c) ∧
      s.inner.NoneUp c p ∧ (m ∈ d ∨ m ∈ p ∧ Droppable s.inner m)) (by rw [EndsStopping, h])
  | .idle | .restarting _ _ | .shuttingDown _ _ => .isFalse (by simp [EndsStopping, h])

instance (s : RestForOneSupervisor) (ev : Event) (m : Name) : Decidable (s.DropsAtOnce ev m) :=
  have : Decidable (∃ n ∈ s.inner.supervisees.names, s.inner.Crashes ev n ∧
      s.cascade.current ≠ some n ∧ s.inner.NoneUp n (s.startedAfter n) ∧ m ∈ s.startedAfter n ∧
      Droppable s.inner m) := inferInstance
  match h : s.cascade with
  | .idle => decidable_of_iff _ (by rw [DropsAtOnce, h])
  | .restarting _ _ => decidable_of_iff _ (by rw [DropsAtOnce, h])
  | .exiting _ _ _ _ | .shuttingDown _ _ => .isFalse (by simp [DropsAtOnce, h])

instance (s : RestForOneSupervisor) (ev : Event) (n : Name) : Decidable (s.Departs ev n) := by
  unfold Departs
  infer_instance

instance : Departing RestForOneSupervisor := ⟨Departs, inferInstance⟩

theorem advanceRestart_present (hm : s.inner.supervisees.stateOf m ≠ none) :
    (s.advanceRestart l).1.inner.supervisees.stateOf m ≠ none := by
  rcases advanceRestart_spec s l with ⟨heq, -⟩ | ⟨pre, c, post, -, heq, -, -⟩ <;> rw [heq]
  · exact hm
  · dsimp only
    rw [stateOf_start]
    split
    · simp
    · exact hm

/-- Whoever is gone after the pass was dropped, as it had nobody to wait for. -/
theorem stopNext_gone (hidle : s.cascade = .idle) (hx : (s.stopNext l r d).1.inner.isExiting = false)
    (hm : s.inner.supervisees.stateOf m ≠ none)
    (hgone : (s.stopNext l r d).1.inner.supervisees.stateOf m = none) :
    (∀ j ∈ l, Gone s.inner j ∨ s.inner.supervisees.stateOf j = some .starting) ∧
      (m ∈ d ∨ m ∈ l ∧ Droppable s.inner m) := by
  have hends := stopNext_ends s l r d
  have hstopped : ∀ {l' i}, Stopped l' s.inner i → i.supervisees.stateOf m ≠ none := by
    intro l' i hst
    rw [hst.stateOf]
    split
    · simpa using hm
    · exact hm
  generalize s.stopNext l r d = x at hends hx hgone
  cases hends with
  | waits _ hst _ _ => exact absurd hgone (hstopped hst)
  | refused _ _ _ _ _ _ =>
    cases hx.symm.trans (isExiting_shutdown_of_ne (by simp [hidle]))
  | @done i hst hall =>
    have hd := droppedAll { s with inner := i } (d ++ l.filter fun n => Droppable s.inner n)
    refine ⟨fun j hj => ?_, ?_⟩
    · have hg := hall j hj
      unfold Gone at hg ⊢
      rw [hst.stateOf, if_pos hj] at hg
      rcases hstate : s.inner.supervisees.stateOf j with _ | _ | _ | _ | _ | _ <;>
        simp [hstate, stopped] at hg ⊢
    · by_contra hnot
      refine advanceRestart_present ?_ hgone
      rw [hd.stateOf, if_neg fun hmem => hnot ?_]
      · exact hstopped hst
      · simpa using hmem

theorem advanceCascade_gone (hns : ∀ c p, s.cascade ≠ .shuttingDown c p)
    (hx : s.advanceCascade.1.inner.isExiting = false) (hm : s.inner.supervisees.stateOf m ≠ none)
    (hgone : s.advanceCascade.1.inner.supervisees.stateOf m = none) :
    ∃ c p r d, s.cascade = .exiting c p r d ∧
      (∀ j ∈ p, Gone s.inner j ∨ s.inner.supervisees.stateOf j = some .starting) ∧
      (m ∈ d ∨ m ∈ p ∧ Droppable s.inner m) := by
  unfold advanceCascade at hx hgone
  split at hgone <;> rename_i hc
  · exact absurd hgone hm
  · rename_i c p r d
    rw [hc] at hx
    obtain ⟨hall, hdrop⟩ := stopNext_gone (s := { s with cascade := .idle }) rfl hx hm hgone
    simp only [List.mem_reverse] at hall hdrop
    exact ⟨c, p, r, d, hc, hall, hdrop⟩
  · exact absurd hgone (advanceRestart_present (s := { s with cascade := .idle }) hm)
  · exact absurd hc (hns _ _)

/-- The name that the cascade waits to be stopped is gone, or removed. -/
theorem endsStopping_of_advanceCascade {t : RestForOneSupervisor} (hns : ∀ c p, s.cascade ≠ .shuttingDown c p)
    (hc : s.cascade.current = some n) (hev : ev.removes = some n ∨ ev.exits = some n)
    (ht : t.cascade = s.cascade)
    (hstate : ∀ j, j ≠ n → t.inner.supervisees.stateOf j = s.inner.supervisees.stateOf j)
    (hmode : t.inner.supervisees.modeOf m = s.inner.supervisees.modeOf m)
    (hx : t.advanceCascade.1.inner.isExiting = false) (hm : t.inner.supervisees.stateOf m ≠ none)
    (hgone : t.advanceCascade.1.inner.supervisees.stateOf m = none) : s.EndsStopping ev m := by
  obtain ⟨c, p, r, d, htc, hall, hdrop⟩ := advanceCascade_gone (ht ▸ hns) hx hm hgone
  rw [ht] at htc
  rw [htc] at hc
  cases hc
  unfold EndsStopping
  rw [htc]
  refine ⟨hev, fun j hj hjn => ?_, hdrop.imp_right fun ⟨hmp, hd⟩ => ⟨hmp, (Droppable.congr hmode).1 hd⟩⟩
  have hg := hall j hj
  unfold Gone at hg ⊢
  rwa [hstate j hjn] at hg

theorem departs_of_removeSpec (hns : ∀ c p, s.cascade ≠ .shuttingDown c p) (hev : ev.removes = some n)
    (hx : (s.removeSpec n).1.inner.isExiting = false) (hm : s.inner.supervisees.stateOf m ≠ none)
    (hgone : (s.removeSpec n).1.inner.supervisees.stateOf m = none) : s.Departs ev m := by
  have hr := removed_dropSpec (s := s) (n := n)
  have hcase := removeSpec_case s n
  by_cases hmn : m = n
  · exact .inl (hmn ▸ hev)
  have hm' : (s.dropSpec n).1.inner.supervisees.stateOf m ≠ none := by
    rwa [hr.stateOf, if_neg hmn]
  generalize (s.removeSpec n).1 = s' at hcase hx hgone
  cases hcase with
  | absent _ => exact absurd hgone hm
  | other _ => exact absurd hgone hm'
  | current hc _ =>
    exact .inr (.inr (.inl (endsStopping_of_advanceCascade hns hc (.inl hev) cascade_dropSpec
      (fun j hj => (hr.stateOf j).trans (if_neg hj)) ((hr.modeOf m).trans (if_neg hmn)) hx hm' hgone)))

/-- Nobody is gone after a cascade began, unless it had nobody to wait for. -/
theorem startCascade_gone {x : RestForOneSupervisor × ControlFlow} (h : s.startCascade n = some x)
    (hidle : s.cascade = .idle) (hx : x.1.inner.isExiting = false) (hm : s.inner.supervisees.stateOf m ≠ none)
    (hgone : x.1.inner.supervisees.stateOf m = none) :
    (∀ j ∈ s.startedAfter n, Gone s.inner j ∨ s.inner.supervisees.stateOf j = some .starting) ∧
      m ∈ s.startedAfter n ∧ Droppable s.inner m := by
  unfold startCascade at h
  dsimp only at h
  split at h
  · cases h
    obtain ⟨hall, hdrop⟩ := stopNext_gone hidle hx hm hgone
    simp only [List.mem_reverse, List.not_mem_nil, false_or] at hall hdrop
    exact ⟨hall, hdrop⟩
  · cases h

/-- Whoever the cascade is to stop later, or needs a restart, is still there. -/
theorem present_of_required {x : RestForOneSupervisor × ControlFlow} (h : s.handleExit n reason = some x)
    (hns : ∀ c p, s.cascade ≠ .shuttingDown c p) (hcur : ∀ p r d, s.cascade ≠ .exiting n p r d)
    (hreq : s.Expects n ∨ Required s.inner n reason) (hn : s.inner.supervisees.stateOf n ≠ none)
    (hx : x.1.inner.isExiting = false) : x.1.inner.supervisees.stateOf n ≠ none := by
  obtain ⟨sv, hsv⟩ := Option.ne_none_iff_exists'.1 (mt SuperviseeMap.stateOf_eq_none.2 hn)
  have hneeds : ¬ s.Expects n → reason.requiresRestart sv = true ∧ ¬ Droppable s.inner n := fun hne => by
    have hreq := hreq.resolve_left hne
    refine ⟨?_, hreq.restartable.2⟩
    obtain ⟨sv', hsv', hreq⟩ := hreq
    cases hsv.symm.trans hsv'
    exact hreq
  have hp := permitted_acquirePermits (s := s.inner) (n := n)
  unfold handleExit at h
  split at h <;> rename_i hc
  · -- The cascade was starting it.
    obtain ⟨p, hcas⟩ : ∃ p, s.cascade = .restarting n p := by
      cases hcas : s.cascade with
      | idle => simp [hcas, Cascade.current] at hc
      | exiting c p r d =>
        rw [hcas] at hc
        cases hc
        exact absurd hcas (hcur _ _ _)
      | restarting c p =>
        rw [hcas] at hc
        cases hc
        exact ⟨p, rfl⟩
      | shuttingDown c p => exact absurd hcas (hns c p)
    have hreq := (hneeds (by simp [Expects, hcas])).1
    cases h
    unfold handleCascadeCurrentExit at hx ⊢
    simp only [hcas, hsv, hreq, Bool.not_true, Bool.false_eq_true, if_false] at hx ⊢
    split at hx <;> rename_i hpermit
    · cases hx.symm.trans (isExiting_shutdown_of_ne (by simp))
    · rw [if_neg hpermit]
      dsimp only
      rw [stateOf_start]
      split
      · simp
      · simpa using hn
  split at h <;> rename_i hpend
  · cases h
    exact hn
  · have hreq := hneeds (by
      cases hcas : s.cascade with
      | exiting c p r d =>
        rw [hcas] at hc hpend
        simpa [Expects, hcas, Cascade.current, Cascade.pendingContains, eq_comm] using And.intro hc hpend
      | idle | restarting _ _ | shuttingDown _ _ => simp [Expects, hcas])
    have hn' : (s.inner.acquirePermits n).1.supervisees.stateOf n ≠ none := by rwa [hp.stateOf]
    have hcascade : ∀ {t : RestForOneSupervisor}, t = { s with
        inner := (s.inner.acquirePermits n).1, cascade := .idle } → t.startCascade n = some x →
        x.1.inner.supervisees.stateOf n ≠ none := fun ht h hgone => by
      subst ht
      obtain ⟨-, -, hdrop⟩ := startCascade_gone h rfl hx hn' hgone
      exact hreq.2 ((Droppable.congr (hp.modeOf n)).1 hdrop)
    simp only [hsv, hreq.1, Bool.not_true, Bool.false_eq_true, if_false] at h
    split at h
    · cases h
      cases hx.symm.trans (isExiting_shutdown_of_ne hns)
    split at h
    · exact hcascade rfl h
    · obtain ⟨pending, rfl, -⟩ := mergeIntoStopping_spec h
      exact hn'
    · exact hcascade rfl h
    · cases h

/-- Only `n` is gone after its removal while the cascade was starting it. -/
theorem dropSpec_advanceCascade_present (hc : s.cascade = .restarting n p) (hmn : m ≠ n)
    (hm : s.inner.supervisees.stateOf m ≠ none) :
    (s.dropSpec n).1.advanceCascade.1.inner.supervisees.stateOf m ≠ none := by
  have hr := removed_dropSpec (s := s) (n := n)
  unfold advanceCascade
  rw [cascade_dropSpec, hc]
  exact advanceRestart_present (by rwa [hr.stateOf, if_neg hmn])

theorem startedAfter_eq {before after : List Name}
    (h : s.inner.supervisees.names = before ++ n :: after) : s.startedAfter n = after := by
  have hn : n ∉ before := by
    have hnodup := SuperviseeMap.nodup_names s.inner.supervisees
    rw [h, List.nodup_append] at hnodup
    exact fun hmem => hnodup.2.2 n hmem n (by simp) rfl
  rw [startedAfter, h, List.idxOf_append_of_notMem hn, List.idxOf_cons_self]
  simp

theorem endsAtOnce_of_running (hc : s.cascade = .idle ∨ ∃ c p, c ≠ n ∧ s.cascade = .restarting c p)
    (hn : n ∈ s.inner.supervisees.names) (hcrash : s.inner.Crashes ev n)
    (hup : s.inner.NoneUp n (s.startedAfter n)) (hm : m ∈ s.startedAfter n)
    (hdrop : Droppable s.inner m) : s.DropsAtOnce ev m := by
  unfold DropsAtOnce
  rcases hc with hc | ⟨c, p, hcn, hc⟩ <;> rw [hc]
  · exact ⟨n, hn, hcrash, nofun, hup, hm, hdrop⟩
  · exact ⟨n, hn, hcrash, by simpa [Cascade.current] using hcn, hup, hm, hdrop⟩

theorem departs_of_handleExit {item : SuperviseeItem} {x : RestForOneSupervisor × ControlFlow}
    (hns : ∀ c p, s.cascade ≠ .shuttingDown c p) (hr : item.exitReason = some reason)
    (hn : ¬ Gone s.inner n)
    (h : { s with inner := s.inner.setState n .dead }.handleExit n reason = some x)
    (hx : x.1.inner.isExiting = false) (hm : s.inner.supervisees.stateOf m ≠ none)
    (hgone : x.1.inner.supervisees.stateOf m = none) : s.Departs (.supervisee n item) m := by
  have hcase := handleExit_case (s := { s with inner := s.inner.setState n .dead }) reason
    (stateOf_setState_dead hn)
  have hexits : Event.exits (.supervisee n item) = some n := Event.exits_of_exitReason hr
  have hother : ∀ j, j ≠ n → (s.inner.setState n .dead).supervisees.stateOf j =
      s.inner.supervisees.stateOf j := fun j hj => stateOf_setState.trans (if_neg hj)
  have hm' : (s.inner.setState n .dead).supervisees.stateOf m ≠ none := present_setState hm
  have hp := permitted_acquirePermits (s := s.inner.setState n .dead) (n := n)
  -- Whoever is gone by the removal of `n` is `n`, which needed no restart.
  have hends : m = n → (∀ p r d, s.cascade ≠ .exiting n p r d) → s.Departs (.supervisee n item) m := by
    rintro rfl hcur
    have hpresent := present_of_required h hns hcur
    refine .inr (.inl ⟨fun he => hpresent (.inl he) hm' hx hgone, rfl, reason, hr, fun hreq => ?_⟩)
    exact hpresent (.inr (required_setState.2 hreq)) hm' hx hgone
  have hdrop := removed_dropSpec (s := { s with inner := s.inner.setState n .dead }) (n := n)
  generalize RestForOneSupervisor.handleExit _ n reason = y at hcase h
  cases hcase with
  | advance hc _ =>
    cases h
    exact .inr (.inr (.inl (endsStopping_of_advanceCascade
      (t := { s with inner := s.inner.setState n .dead }) hns hc (.inr hexits) rfl hother
      modeOf_setState hx hm' hgone)))
  | @dropCurrent p hc =>
    cases h
    by_cases hmn : m = n
    · exact hends hmn (by simp [show s.cascade = .restarting n p from hc])
    · exact absurd hgone (dropSpec_advanceCascade_present hc hmn hm')
  | giveUp hc =>
    cases h
    cases hx.symm.trans (isExiting_shutdown_of_ne hns)
  | retry hc _ _ =>
    cases h
    dsimp only at hgone
    rw [stateOf_start] at hgone
    split at hgone
    · cases hgone
    · exact absurd hgone (by simpa using hm')
  | queued _ _ =>
    cases h
    exact absurd hgone hm'
  | drop hc =>
    cases h
    by_cases hmn : m = n
    · exact hends hmn fun p r d hcas => hc (by simp [hcas, Cascade.current])
    · exact absurd hgone (by rwa [hdrop.stateOf, if_neg hmn])
  | refused _ _ =>
    cases h
    cases hx.symm.trans (isExiting_shutdown_of_ne hns)
  | trigger hc hreq _ hnames =>
    cases h
    rw [← hp.stateOf] at hm'
    obtain ⟨hall, hdrop⟩ := stopNext_gone rfl hx hm' hgone
    simp only [List.mem_reverse, List.not_mem_nil, false_or] at hall hdrop
    have hafter := startedAfter_eq (names_setState.symm.trans hnames)
    have hn' : n ∈ s.inner.supervisees.names :=
      SuperviseeMap.mem_names_iff_stateOf.2 fun hnone => hn (.inl hnone)
    have hmode : Droppable s.inner m :=
      (Droppable.congr ((hp.modeOf m).trans modeOf_setState)).1 hdrop.2
    refine .inr (.inr (.inr (endsAtOnce_of_running hc hn' ?_ ?_ (hafter ▸ hdrop.1) hmode)))
    · exact ⟨rfl, reason, hr, required_setState.1 hreq⟩
    · exact noneUp_of_permitted hp fun j hj _ => hall j (hafter ▸ hj)
  | merge _ _ _ _ _ =>
    obtain ⟨pending, rfl, -⟩ := mergeIntoStopping_spec h
    exact absurd ((hp.stateOf m).symm.trans hgone) hm'
  | unreachable _ _ _ => cases h

/-- Nobody is gone by the initialization of one that the cascade was not stopping. -/
theorem afterInitialized_present (hns : ∀ c p, s.cascade ≠ .shuttingDown c p)
    (hcur : ∀ p r d, s.cascade ≠ .exiting n p r d) (hm : s.inner.supervisees.stateOf m ≠ none) :
    (s.afterInitialized n).1.inner.supervisees.stateOf m ≠ none := by
  unfold afterInitialized
  split
  · unfold advanceCascade
    rename_i hc
    split <;> rename_i hcas
    · exact hm
    · rw [hcas] at hc
      cases hc
      exact absurd hcas (hcur _ _ _)
    · exact advanceRestart_present (s := { s with cascade := .idle }) hm
    · exact absurd hcas (hns _ _)
  · exact hm

end RestForOneSupervisor
end Zestors
