import Zestors.Supervisor.Departing
import Zestors.Supervisor.RestForOnePhases

/-!
# Whom a cascade drops

A cascade drops its members by name when it is over. `Followed` remembers which of the children that
are there the cascade in progress has told to stop, whatever lists it keeps itself: a child that is
registered under the name of a former member is not one of them. A one-for-all cascade drops no other;
a rest-for-one cascade may, unless nobody takes a name that it is about to drop (`leavesForCause`).
-/

namespace Zestors
open SupervisorInner LoopState Strategy

variable {σ : Type} [Strategy σ]

def Present (n : Name) (s : σ) : Prop := (inner s).supervisees.stateOf n ≠ none

instance (n : Name) (s : σ) : Decidable (Present n s) := by
  unfold Present
  infer_instance

/-- Whom the supervisor has told to stop since it was `i`, one by one. -/
def SupervisorInner.stoppedSince (i i' : SupervisorInner) : List Name :=
  ((i'.stops.drop i.stops.length).filter fun c => c.cause = .stop).map StopCall.name

/-- Whom a turn of the loop has told to stop. -/
def stoppedIn : LoopState σ → LoopState σ → List Name
  | .running s, .running s' | .running s, .broken s' => (inner s).stoppedSince (inner s')
  | .running _, .panicked | .broken _, _ | .panicked, _ => []

/-- What there is to know about the cascades of a strategy: whether one is stopping the others, and whom
it has on its list to drop. -/
class Cascading (σ : Type) [Strategy σ] where
  stopping : σ → Bool
  dropping : σ → List Name

open Cascading

/-- A supervisor, and the children that the cascade in progress has told to stop. -/
structure Followed (σ : Type) where
  loop : LoopState σ
  stopped : List Name

variable [Cascading σ]

namespace Followed

/-- Those of the list who are still there, as long as the cascade is in progress. -/
def keep (l : List Name) : LoopState σ → List Name
  | .running s => if stopping s then l.filter fun n => Present n s else []
  | .broken _ | .panicked => []

def step (f : Followed σ) (ev : Event) : Option (Followed σ) :=
  (Strategy.step f.loop ev).map fun st => ⟨st, keep (f.stopped ++ stoppedIn f.loop st) st⟩

/-- Whoever leaves the map has been deregistered, or its own end needed no restart, or the cascade had
told this very child to stop. -/
def LeavesForCause (f : Followed σ) : Prop :=
  f.loop.Sat (fun s => ∀ ev st n, Strategy.step (.running s) ev = some st → Present n s →
    ¬ st.Sat (Present n) (Present n) →
      ev.removes = some n ∨ (inner s).EndsFor ev n ∨ n ∈ f.stopped ++ stoppedIn f.loop st) fun _ => True

/-- The event does not register a child under a name that the cascade is about to drop. -/
def SparesDropped (f : Followed σ) (ev : Event) : Prop :=
  f.loop.Sat (fun s => ∀ spec ∈ ev.registers, (inner s).isExiting = false → ¬ Present spec.name s →
    spec.name ∉ dropping s) fun _ => True

instance (f : Followed σ) (ev : Event) : Decidable (f.SparesDropped ev) := by
  unfold SparesDropped
  infer_instance

end Followed

/-- The runs of the strategy, with the children that the cascade in progress has told to stop. -/
def followedRuns (σ : Type) [Strategy σ] [Cascading σ] : Lts (Followed σ) Event :=
  Lts.ofFun (fun f => Begins f.loop ∧ f.stopped = []) Followed.step

namespace SupervisorInner
variable {i i' : SupervisorInner} {l : List Name} {n m : Name}

theorem stoppedSince_congr {j j' : SupervisorInner} (h : j.stops = i.stops) (h' : j'.stops = i'.stops) :
    j.stoppedSince j' = i.stoppedSince i' := by
  rw [stoppedSince, stoppedSince, h, h']

theorem stoppedSince_of_calls {calls : List StopCall} (h : i'.stops = i.stops ++ calls) :
    i.stoppedSince i' = (calls.filter fun c => c.cause = .stop).map StopCall.name := by
  rw [stoppedSince, h, List.drop_left]

theorem mem_stoppedSince (h : Stopped l i i') :
    n ∈ i.stoppedSince i' ↔ n ∈ l ∧ i.supervisees.stateOf n ≠ none := by
  obtain ⟨calls, hcalls, hon⟩ := h.stops
  have hall : calls.filter (fun c => c.cause = .stop) = calls :=
    List.filter_eq_self.2 fun c hc => by simpa using hon.cause c hc
  rw [stoppedSince_of_calls hcalls, hall, hon.name]

theorem stoppedSince_shutdown {calls : List StopCall} (h : i'.stops = i.stops ++ calls)
    (exiting : IndexSet Name) : i.stoppedSince (i'.shutdown exiting).1 = i.stoppedSince i' := by
  have hall : (i'.shutdown exiting).1.stops = i.stops ++ (calls ++ i'.supervisees.names.map fun n =>
      ⟨.stopAll, n, i'.supervisees, i'.registerExiting.isExiting⟩) :=
    (congrArg (· ++ _) h).trans (List.append_assoc ..)
  rw [stoppedSince_of_calls hall, stoppedSince_of_calls h, List.filter_append, List.map_append]
  have hnone : ((i'.supervisees.names.map fun n => StopCall.mk .stopAll n i'.supervisees
      i'.registerExiting.isExiting).filter fun c => c.cause = .stop) = [] := by
    simp [List.filter_eq_nil_iff]
  rw [hnone]
  exact List.append_nil _

theorem present_of_droppable (h : Droppable i n) : i.supervisees.stateOf n ≠ none := by
  rw [Ne, SuperviseeMap.stateOf_eq_none, ← SuperviseeMap.modeOf_eq_none, show _ = some _ from h]
  exact nofun

theorem present_of_permitted (h : Permitted i i') (n : Name) :
    i'.supervisees.stateOf n ≠ none ↔ i.supervisees.stateOf n ≠ none := by
  rw [h.stateOf]

theorem present_of_start {cause : StartCause} :
    (i.start n cause).1.supervisees.stateOf m ≠ none ↔ i.supervisees.stateOf m ≠ none := by
  rw [stateOf_start]
  split
  · rename_i h
    rw [h.1, h.2]
    simp
  · rfl

theorem present_of_setState {state : SuperviseeState} :
    (i.setState n state).supervisees.stateOf m ≠ none ↔ i.supervisees.stateOf m ≠ none := by
  rw [stateOf_setState]
  split
  · subst m
    simp
  · rfl

theorem present_of_removed (h : Removed n i i') :
    i'.supervisees.stateOf m ≠ none ↔ m ≠ n ∧ i.supervisees.stateOf m ≠ none := by
  rw [h.stateOf]
  split <;> simp [*]

end SupervisorInner

/-! ## One turn -/

/-- What a turn, or a part of it, does to the map: whoever leaves it meets `C`, nobody comes, and whoever
is to be dropped in the end meets `D`. -/
structure DropsFrom (C D : Name → Prop) (s s' : σ) : Prop where
  left : ∀ n, Present n s → ¬ Present n s' → C n
  kept : ∀ n, Present n s' → Present n s
  dropping : ∀ n ∈ dropping s', D n

variable {s s' s'' : σ} {C C' D D' : Name → Prop}

theorem DropsFrom.trans (h : DropsFrom C D' s s') (h' : DropsFrom C D s' s'') : DropsFrom C D s s'' where
  left n hs hs'' := by
    by_cases hs' : Present n s'
    · exact h'.left n hs' hs''
    · exact h.left n hs hs'
  kept n hs := h.kept n (h'.kept n hs)
  dropping := h'.dropping

theorem DropsFrom.mono (h : DropsFrom C D s s') (hC : ∀ n, C n → C' n) : DropsFrom C' D s s' :=
  ⟨fun n hs hs' => hC n (h.left n hs hs'), h.kept, h.dropping⟩

theorem dropsFrom_of_present (h : ∀ n, Present n s' ↔ Present n s) (hd : ∀ n ∈ dropping s', D n) :
    DropsFrom C D s s' :=
  ⟨fun n hs hs' => absurd ((h n).2 hs) hs', fun n => (h n).1, hd⟩

/-- The cascade is about to drop `n`, or tells it to stop in this turn. -/
def Listed (s s' : σ) (n : Name) : Prop := n ∈ dropping s ∨ n ∈ (inner s).stoppedSince (inner s')

/-- What a turn of the loop does to the map, in terms of the strategy's own lists. -/
structure TurnDrops (s : σ) (ev : Event) (s' : σ) : Prop where
  left : ∀ n, Present n s → ¬ Present n s' →
    ev.removes = some n ∨ (inner s).EndsFor ev n ∨ Listed s s' n
  kept : ∀ n, Present n s' →
    Present n s ∨ (inner s).isExiting = false ∧ ∃ spec ∈ ev.registers, spec.name = n
  listed : ∀ n ∈ dropping s', Listed s s' n

theorem DropsFrom.turn {t : σ} {ev : Event} (h : DropsFrom C (Listed s s') t s')
    (ht : ∀ n, Present n t ↔ Present n s)
    (hC : ∀ n, C n → ev.removes = some n ∨ (inner s).EndsFor ev n ∨ Listed s s' n) : TurnDrops s ev s' where
  left n hn hn' := hC n (h.left n ((ht n).2 hn) hn')
  kept n hn := .inl ((ht n).1 (h.kept n hn))
  listed := h.dropping

/-- What a strategy has to show of its own handlers. -/
structure DropsHandlers (σ : Type) [Strategy σ] [Cascading σ] : Prop where
  inner_setInner : ∀ (s : σ) i, inner (setInner s i) = i
  dropping_new : ∀ i, dropping (Strategy.new i : σ) = []
  dropping_setInner : ∀ (s : σ) i, dropping (setInner s i) = dropping s
  dropping_setInitializing : ∀ (s : σ) initializing, dropping (setInitializing s initializing) = dropping s
  dropping_of_not : ∀ s : σ, stopping s = false → dropping s = []
  shutdown : ∀ s : σ, DropsFrom (fun _ => False) (· ∈ dropping s) s (shutdown s).1
  removeSpec : ∀ {s : σ} {ev n}, ev.removes = some n → TurnDrops s ev (removeSpec s n).1
  initialized : ∀ (s : σ) n, TurnDrops s (.supervisee n (.initialized (.ok ())))
    (afterInitialized (handleInitialized (setInner s ((inner s).setState n .alive)) n) n).1
  exit : ∀ {s : σ} {n item reason}, item.exitReason = some reason → ¬ Gone (inner s) n →
    (ofOutcome (handleExit (setInner s ((inner s).setState n .dead)) n reason)).Sat
      (TurnDrops s (.supervisee n item)) (TurnDrops s (.supervisee n item))

namespace DropsHandlers
variable (h : DropsHandlers σ) {ev : Event} {st : LoopState σ} {i : SupervisorInner}
include h

theorem present_setInner {n : Name} : Present n (setInner s i) ↔ i.supervisees.stateOf n ≠ none := by
  rw [Present, h.inner_setInner]

/-- Where the same names are there, and no cascade takes part, nobody leaves. -/
theorem turn_setInner (hi : ∀ n, i.supervisees.stateOf n ≠ none ↔ Present n s) :
    TurnDrops s ev (setInner s i) where
  left _ hn hn' := absurd (h.present_setInner.2 ((hi _).2 hn)) hn'
  kept _ hn := .inl ((hi _).1 (h.present_setInner.1 hn))
  listed _ hn := .inl (h.dropping_setInner s i ▸ hn)

theorem turn_addSpec {spec : ChildSpec} (hev : ev.registers = some spec) :
    TurnDrops s ev (addSpec s spec).1 := by
  show TurnDrops s ev (setInner s ((inner s).addSpec spec).1)
  rcases addSpec_cases (inner s) spec with heq | hadd
  · rw [heq]
    exact h.turn_setInner fun _ => Iff.rfl
  · refine ⟨fun n hn hn' => absurd (h.present_setInner.2 ?_) hn', fun n hn => ?_, fun n hn => ?_⟩
    · rw [hadd.stateOf]
      split
      · simp
      · exact hn
    · rw [h.present_setInner, hadd.stateOf] at hn
      split at hn
      · exact .inr ⟨hadd.notExiting, spec, hev, (‹_› : n = _).symm⟩
      · exact .inl hn
    · exact .inl (h.dropping_setInner s _ ▸ hn)

theorem turnDrops (hs : Strategy.step (.running s) ev = some st) :
    st.Sat (TurnDrops s ev) (TurnDrops s ev) := by
  have hinbox : ∀ (t : σ) inbox n, Present n (withInbox t inbox) ↔ Present n t := fun t inbox n =>
    h.present_setInner
  have hob : Obligations (· = s) (fun _ e => e = ev) (TurnDrops s ev) (TurnDrops s ev) := by
    constructor
    · rintro _ rfl
      exact ⟨fun n hn hn' => absurd hn hn', fun n => .inl, fun n => .inl⟩
    · intro t inbox ht _
      have hlisted : ∀ n, Listed s t n → Listed s (withInbox t inbox) n := fun n =>
        Or.imp_right fun hn => by
          rwa [withInbox, h.inner_setInner]
      refine ⟨fun n hn hn' => ?_, fun n hn => ht.kept n ((hinbox t inbox n).1 hn), fun n hn => ?_⟩
      · exact (ht.left n hn (mt (hinbox t inbox n).2 hn')).imp_right (Or.imp_right (hlisted n))
      · rw [withInbox, h.dropping_setInner] at hn
        exact hlisted n (ht.listed n hn)
    · intro t inbox ht _
      have hshut := h.shutdown (withInbox t inbox)
      have hturn : TurnDrops s ev (Strategy.shutdown (withInbox t inbox)).1 := by
        subst ht
        refine ⟨fun n hn hn' => (hshut.left n ((hinbox t inbox n).2 hn) hn').elim,
          fun n hn => .inl ((hinbox t inbox n).1 (hshut.kept n hn)), fun n hn => .inl ?_⟩
        have := hshut.dropping n hn
        rwa [withInbox, h.dropping_setInner] at this
      exact sat_of_fst hturn hturn
    · rintro t e spec rfl rfl hev
      exact h.turn_addSpec hev
    · rintro t e n rfl rfl hev
      exact h.removeSpec hev
    · rintro t n item i rfl rfl hy
      cases hy with
      | started hst => exact h.turn_setInner fun _ => present_of_setState
      | initialized hst =>
        have hturn := h.initialized t n
        exact sat_of_fst hturn hturn
      | exit hst hr hfit =>
        rw [handleItem_of_exitReason hr]
        exact h.exit hr (not_gone_of_fits hst hfit)
  exact hob.step rfl rfl hs

end DropsHandlers

/-! ## Rest for one -/

namespace RestForOneSupervisor
variable {s s' : RestForOneSupervisor} {l r d p : List Name} {n m : Name} {reason : ExitReason}
  {C D : Name → Prop}

def toDrop : Cascade → List Name
  | .exiting _ _ _ d => d
  | .idle | .restarting _ _ | .shuttingDown _ _ => []

instance : Cascading RestForOneSupervisor where
  stopping s := match s.cascade with
    | .exiting _ _ _ _ => true
    | .idle | .restarting _ _ | .shuttingDown _ _ => false
  dropping s := toDrop s.cascade

theorem shutdownNext_drops (s : RestForOneSupervisor) (l : List Name) :
    DropsFrom C D s (s.shutdownNext l).1 := by
  rcases shutdownNext_spec s l with ⟨i, heq, hst, -⟩ | ⟨i, pre, c, post, -, heq, hst, -⟩ <;> rw [heq] <;>
    exact dropsFrom_of_present hst.present_iff (by simp [dropping, toDrop])

theorem shutdown_drops (s : RestForOneSupervisor) : DropsFrom C D s s.shutdown.1 := by
  rcases shutdown_cases s with ⟨-, heq⟩ | ⟨c, p, hc, heq⟩ <;> rw [heq]
  · have hnext := shutdownNext_drops (C := C) (D := D) { s with inner := s.inner.registerExiting }
      s.inner.supervisees.names.reverse
    exact ⟨hnext.left, hnext.kept, hnext.dropping⟩
  · exact dropsFrom_of_present (fun _ => Iff.rfl) (by simp [dropping, toDrop, hc])

theorem advanceRestart_drops (s : RestForOneSupervisor) (l : List Name) :
    DropsFrom C D s (s.advanceRestart l).1 := by
  rcases advanceRestart_spec s l with ⟨heq, -⟩ | ⟨pre, c, post, -, heq, -⟩ <;> rw [heq]
  · exact dropsFrom_of_present (fun _ => Iff.rfl) (by simp [dropping, toDrop])
  · exact dropsFrom_of_present (fun _ => present_of_start) (by simp [dropping, toDrop])

theorem dropAll_drops (hd : ∀ n ∈ d, C n) : DropsFrom C (fun _ => True) s (s.dropAll d) := by
  have hall := droppedAll s d
  refine ⟨fun n hn hn' => ?_, fun n hn => ?_, fun _ _ => trivial⟩
  · change s.inner.supervisees.stateOf n ≠ none at hn
    change ¬ (s.dropAll d).inner.supervisees.stateOf n ≠ none at hn'
    rw [hall.stateOf] at hn'
    split at hn'
    · exact hd n ‹_›
    · exact absurd hn hn'
  · change (s.dropAll d).inner.supervisees.stateOf n ≠ none at hn
    rw [hall.stateOf] at hn
    split at hn
    · exact absurd rfl hn
    · exact hn

/-- Whoever leaves by the pass of a cascade was on its list, or was told to stop in this pass; and so was
whoever is on the list then. -/
theorem stopNext_drops (hd : ∀ n ∈ d, D n)
    (hs : ∀ n ∈ s.inner.stoppedSince (s.stopNext l r d).1.inner, D n) :
    DropsFrom D D s (s.stopNext l r d).1 := by
  have hends := stopNext_ends s l r d
  generalize s.stopNext l r d = x at hends hs ⊢
  cases hends with
  | @waits i pre post c _ hst _ _ =>
    refine dropsFrom_of_present hst.present_iff (List.forall_mem_append.2 ⟨hd, fun n hn => ?_⟩)
    obtain ⟨hmem, hdrop⟩ := List.mem_filter.1 hn
    exact hs n ((mem_stoppedSince hst).2 ⟨hmem, present_of_droppable (of_decide_eq_true hdrop)⟩)
  | @refused i pre post c _ hst _ _ _ _ =>
    have hpermit : DropsFrom D (fun _ => True) s { s with inner := (i.acquireRestartPermit c).1 } :=
      dropsFrom_of_present (fun n => by simpa [Present, Strategy.inner] using hst.present_iff n)
        fun _ _ => trivial
    exact hpermit.trans (shutdown_drops _)
  | @done i hst _ =>
    have hstopped : DropsFrom D (fun _ => True) s { s with inner := i } :=
      dropsFrom_of_present hst.present_iff fun _ _ => trivial
    refine hstopped.trans ((dropAll_drops (List.forall_mem_append.2 ⟨hd, fun n hn => ?_⟩)).trans
      (advanceRestart_drops _ _))
    obtain ⟨hmem, hdrop⟩ := List.mem_filter.1 hn
    have hsince := (mem_stoppedSince hst).2 ⟨hmem, present_of_droppable (of_decide_eq_true hdrop)⟩
    refine hs n ((stoppedSince_congr rfl ?_).symm ▸ hsince)
    exact (inner_advanceRestart _ _).2.trans (droppedAll { s with inner := i } _).stops

theorem advanceCascade_drops (hd : ∀ n ∈ toDrop s.cascade, D n)
    (hs : ∀ n ∈ s.inner.stoppedSince s.advanceCascade.1.inner, D n) :
    DropsFrom D D s s.advanceCascade.1 := by
  unfold advanceCascade at hs ⊢
  cases hc : s.cascade with
  | idle => exact dropsFrom_of_present (fun _ => Iff.rfl) (by simp [dropping, toDrop, hc])
  | exiting c p r d =>
    rw [hc] at hd hs
    have hstop := stopNext_drops (s := { s with cascade := .idle }) (r := r) hd hs
    exact ⟨hstop.left, hstop.kept, hstop.dropping⟩
  | restarting c p =>
    have hrestart := advanceRestart_drops (C := D) (D := D) { s with cascade := .idle } p
    exact ⟨hrestart.left, hrestart.kept, hrestart.dropping⟩
  | shuttingDown c p =>
    have hshut := shutdownNext_drops (C := D) (D := D) { s with cascade := .idle } p.reverse
    exact ⟨hshut.left, hshut.kept, hshut.dropping⟩

theorem dropSpec_drops (hd : ∀ n ∈ toDrop s.cascade, D n) :
    DropsFrom (· = n) D s (s.dropSpec n).1 := by
  have hr := removed_dropSpec (s := s) (n := n)
  refine ⟨fun m hm hm' => ?_, fun m hm => ((present_of_removed hr).1 hm).2, hd⟩
  by_contra hmn
  exact hm' ((present_of_removed hr).2 ⟨hmn, hm⟩)

theorem dropCurrent_drops (hd : ∀ n ∈ toDrop s.cascade, D n)
    (hs : ∀ m ∈ s.inner.stoppedSince (s.dropSpec n).1.advanceCascade.1.inner, D m) :
    DropsFrom (fun m => m = n ∨ D m) D s (s.dropSpec n).1.advanceCascade.1 := by
  have hr := removed_dropSpec (s := s) (n := n)
  rw [← stoppedSince_congr (j := (s.dropSpec n).1.inner) hr.stops rfl] at hs
  exact ((dropSpec_drops hd).mono fun _ => .inl).trans
    ((advanceCascade_drops (s := (s.dropSpec n).1) hd hs).mono fun _ => .inr)

theorem removeSpec_drops (hd : ∀ n ∈ toDrop s.cascade, D n)
    (hs : ∀ m ∈ s.inner.stoppedSince (s.removeSpec n).1.inner, D m) :
    DropsFrom (fun m => m = n ∨ D m) D s (s.removeSpec n).1 := by
  have hcase := removeSpec_case s n
  generalize (s.removeSpec n).1 = s' at hcase hs ⊢
  cases hcase with
  | absent => exact dropsFrom_of_present (fun _ => Iff.rfl) hd
  | other => exact (dropSpec_drops hd).mono fun _ => .inl
  | current => exact dropCurrent_drops hd hs

theorem permitted_drops {i : SupervisorInner} {cascade : Cascade} (hp : Permitted s.inner i)
    (hd : ∀ n ∈ toDrop cascade, D n) : DropsFrom C D s { s with inner := i, cascade } :=
  dropsFrom_of_present (present_of_permitted hp) hd

theorem handleExit_drops {x : RestForOneSupervisor × ControlFlow} (hd : ∀ n ∈ toDrop s.cascade, D n)
    (hn : s.inner.supervisees.stateOf n = some .dead) (hx : s.handleExit n reason = some x)
    (hs : ∀ m ∈ s.inner.stoppedSince x.1.inner, D m) :
    DropsFrom (fun m => m = n ∧ ¬ Required s.inner n reason ∨ D m) D s x.1 := by
  have hp := permitted_acquirePermits (s := s.inner) (n := n)
  have hpermit : ∀ {C : Name → Prop}, DropsFrom C (fun _ => True) s
      { s with inner := (s.inner.acquireRestartPermit n).1 } := fun {_} =>
    dropsFrom_of_present (fun n => by simp [Present, Strategy.inner]) fun _ _ => trivial
  have hcase := handleExit_case reason hn
  rw [hx] at hcase
  generalize hy : some x = y at hcase
  cases hcase with
  | advance =>
    cases hy
    exact (advanceCascade_drops hd hs).mono fun _ => .inr
  | dropCurrent _ hreq =>
    cases hy
    exact (dropCurrent_drops hd hs).mono fun m hm => hm.imp_left fun hmn => ⟨hmn, hreq⟩
  | giveUp =>
    cases hy
    exact hpermit.trans (shutdown_drops _)
  | retry hc =>
    cases hy
    exact hpermit.trans (dropsFrom_of_present (fun _ => present_of_start) (by simp [dropping, toDrop, hc]))
  | queued =>
    cases hy
    exact dropsFrom_of_present (fun _ => Iff.rfl) hd
  | drop _ hreq =>
    cases hy
    exact (dropSpec_drops hd).mono fun m hm => .inl ⟨hm, hreq⟩
  | refused =>
    cases hy
    exact (permitted_drops (D := fun _ => True) hp fun _ _ => trivial).trans (shutdown_drops _)
  | trigger =>
    cases hy
    have hst : DropsFrom (fun m => m = n ∧ ¬ Required s.inner n reason ∨ D m) (fun _ => True) s
        { s with inner := (s.inner.acquirePermits n).1, cascade := .idle } :=
      permitted_drops hp fun _ _ => trivial
    rw [← stoppedSince_congr (j := (s.inner.acquirePermits n).1) hp.stops rfl] at hs
    exact hst.trans ((stopNext_drops (s := { s with inner := (s.inner.acquirePermits n).1, cascade := .idle })
      (by simp) hs).mono fun _ => .inr)
  | merge hc =>
    obtain ⟨pending, rfl, -, -⟩ := mergeIntoStopping_spec hy.symm
    exact permitted_drops hp (by simpa [hc, toDrop] using hd)
  | unreachable => cases hy

theorem afterInitialized_drops (hd : ∀ n ∈ toDrop s.cascade, D n)
    (hs : ∀ m ∈ s.inner.stoppedSince (s.afterInitialized n).1.inner, D m) :
    DropsFrom D D s (s.afterInitialized n).1 := by
  unfold afterInitialized at hs ⊢
  split <;> rename_i hc
  · rw [if_pos hc] at hs
    exact advanceCascade_drops hd hs
  · exact dropsFrom_of_present (fun _ => Iff.rfl) hd

theorem dropsHandlers : DropsHandlers RestForOneSupervisor where
  inner_setInner _ _ := rfl
  dropping_new _ := rfl
  dropping_setInner _ _ := rfl
  dropping_setInitializing _ _ := rfl
  dropping_of_not s h := by
    simp only [dropping, toDrop, stopping] at h ⊢
    cases hc : s.cascade <;> simp_all
  shutdown s := shutdown_drops s
  removeSpec {s ev n} hev := by
    refine (removeSpec_drops (D := Listed s (s.removeSpec n).1) (fun _ => .inl) fun _ => .inr).turn
      (fun _ => Iff.rfl) fun m hm => hm.imp (fun hmn => ?_) .inr
    rw [hmn, hev]
  initialized s n := by
    have hsame : Same (s.inner.setState n .alive)
        ((s.inner.setState n .alive).handleInitialized s.initializing n).1 := same_handleInitialized
    have hstops := hsame.stops_eq.trans stops_setState
    refine (afterInitialized_drops (s := handleInitialized { s with inner := s.inner.setState n .alive } n)
      (D := Listed s _) (fun _ => .inl) fun m hm => .inr ?_).turn (fun m => ?_) fun m hm => .inr (.inr hm)
    · exact stoppedSince_congr (i := s.inner) hstops rfl ▸ hm
    · exact (hsame.present_iff m).trans present_of_setState
  exit {s n item reason} hr hn := by
    show (ofOutcome (RestForOneSupervisor.handleExit { s with inner := s.inner.setState n .dead } n
      reason)).Sat _ _
    rcases hx : RestForOneSupervisor.handleExit { s with inner := s.inner.setState n .dead } n reason with
      _ | x
    · trivial
    have hturn : TurnDrops s (.supervisee n item) x.1 := by
      refine (handleExit_drops (s := { s with inner := s.inner.setState n .dead }) (D := Listed s x.1)
        (fun _ => .inl) (stateOf_setState_dead hn) hx fun m hm => .inr ?_).turn
        (fun _ => present_of_setState) fun m hm => .inr ?_
      · rwa [stoppedSince_congr (i := s.inner) stops_setState rfl] at hm
      · rcases hm with ⟨rfl, hreq⟩ | hm
        · exact .inl ⟨rfl, reason, hr, mt required_setState.2 hreq⟩
        · exact .inr hm
    exact sat_of_fst hturn hturn

end RestForOneSupervisor

/-! ## One for all -/

namespace OneForAllSupervisor
variable {s s' : OneForAllSupervisor} {l : List Name} {n m : Name} {reason : ExitReason} {C D : Name → Prop}

instance : Cascading OneForAllSupervisor where
  stopping s := !(s.restarting.isEmpty && s.cascadeRestart.isEmpty && s.cascadeDrop.isEmpty)
  dropping s := s.cascadeDrop.toList

theorem shutdown_drops (s : OneForAllSupervisor) :
    DropsFrom C (· ∈ s.cascadeDrop) s s.shutdown.1 := by
  refine dropsFrom_of_present (fun n => ?_) fun n hn => hn
  show (s.inner.shutdown s.exiting).1.supervisees.stateOf n ≠ none ↔ _
  rw [stateOf_shutdown]
  simp [Present, Strategy.inner]

theorem finishCascade_drops (hd : ∀ n ∈ s.cascadeDrop, C n) : DropsFrom C D s s.finishCascade := by
  have hf := cascadeFinished_finishCascade s
  refine ⟨fun n hn hn' => ?_, fun n hn => ?_, fun n hn => absurd hn (hf.cascadeDrop n)⟩
  · by_contra hc
    refine hn' ?_
    show s.finishCascade.inner.supervisees.stateOf n ≠ none
    rw [hf.stateOf, if_neg (mt (hd n) hc)]
    split
    · simp
    · exact hn
  · intro hnone
    change s.finishCascade.inner.supervisees.stateOf n ≠ none at hn
    change s.inner.supervisees.stateOf n = none at hnone
    rw [hf.stateOf, hnone] at hn
    simp at hn

/-- Whoever leaves by the pass over the siblings was on the list, or was told to stop in this pass; and so
was whoever is on the list then. -/
theorem foldEnds_drops {x : OneForAllSupervisor × ControlFlow} (h : FoldEnds s l x)
    (hd : ∀ n ∈ s.cascadeDrop, D n) (hs : ∀ n ∈ s.inner.stoppedSince x.1.inner, D n) :
    DropsFrom D D s x.1 := by
  have hlisted : ∀ {pre : List Name} {t : OneForAllSupervisor}, Folded pre s t →
      (∀ n ∈ s.inner.stoppedSince t.inner, D n) → ∀ n ∈ t.cascadeDrop, D n := fun hf hs n hn => by
    rcases (hf.mem_cascadeDrop n).1 hn with hn | ⟨hmem, hdrop⟩
    · exact hd n hn
    · exact hs n ((mem_stoppedSince hf.toStopped).2 ⟨hmem, present_of_droppable hdrop⟩)
  cases h with
  | @refused t pre post c _ hf =>
    have hpermit : DropsFrom D (fun _ => True) s { t with inner := (t.inner.acquireRestartPermit c).1 } :=
      dropsFrom_of_present (fun n => by simpa [Present, Strategy.inner] using hf.present_iff n)
        fun _ _ => trivial
    have hshut := shutdown_drops (C := D) { t with inner := (t.inner.acquireRestartPermit c).1 }
    obtain ⟨calls, hcalls, -⟩ := hf.stops
    have hsince : s.inner.stoppedSince ((t.inner.acquireRestartPermit c).1.shutdown t.exiting).1 =
        s.inner.stoppedSince t.inner :=
      (stoppedSince_shutdown (stops_acquireRestartPermit.trans hcalls) _).trans
        (stoppedSince_congr rfl stops_acquireRestartPermit)
    replace hs := hlisted hf fun n hn => hs n (hsince ▸ hn)
    exact hpermit.trans ⟨hshut.left, hshut.kept, fun n hn => hs n (hshut.dropping n hn)⟩
  | @done t hf =>
    have hst : DropsFrom D (fun _ => True) s t := dropsFrom_of_present hf.present_iff fun _ _ => trivial
    dsimp only at hs ⊢
    split <;> rename_i hover
    · rw [if_pos hover, stoppedSince_congr rfl (cascadeFinished_finishCascade t).stops] at hs
      exact hst.trans (finishCascade_drops (hlisted hf hs))
    · rw [if_neg hover] at hs
      exact ⟨hst.left, hst.kept, hlisted hf hs⟩

theorem removeSpec_drops (hd : ∀ n ∈ s.cascadeDrop, D n) :
    DropsFrom (fun m => m = n ∨ D m) D s (s.removeSpec n).1 := by
  have hr := removed_forget (s := s) (n := n)
  have hforget : ∀ cascadeRestart cascadeDrop, (∀ m ∈ cascadeDrop, D m) →
      DropsFrom (fun m => m = n ∨ D m) D s { s.forget n with cascadeRestart, cascadeDrop } := by
    refine fun _ _ hdrop => ⟨fun m hm hm' => .inl ?_, fun m hm => ((present_of_removed hr).1 hm).2, hdrop⟩
    by_contra hmn
    exact hm' ((present_of_removed hr).2 ⟨hmn, hm⟩)
  have hcase := removeSpec_case s n
  generalize (s.removeSpec n).1 = s' at hcase ⊢
  cases hcase with
  | absent _ => exact dropsFrom_of_present (fun _ => Iff.rfl) hd
  | drop _ _ => exact hforget _ _ fun m hm => hd m (IndexSet.mem_swapRemove.1 hm).2
  | finish _ _ _ =>
    exact (hforget s.cascadeRestart s.cascadeDrop hd).trans
      (finishCascade_drops (s := s.forget n) fun m hm => .inr (hd m hm))

theorem handleExit_drops (hd : ∀ n ∈ s.cascadeDrop, D n) (hn : s.inner.supervisees.stateOf n = some .dead)
    (hs : ∀ m ∈ s.inner.stoppedSince (s.handleExit n reason).1.inner, D m) :
    DropsFrom (fun m => m = n ∧ ¬ Required s.inner n reason ∨ D m) D s (s.handleExit n reason).1 := by
  have hp := permitted_acquirePermits (s := s.inner) (n := n)
  have hst : ∀ {C : Name → Prop} cascadeRestart, DropsFrom C (fun _ => True) s
      { s with inner := (s.inner.acquirePermits n).1, cascadeRestart } := fun {_} _ =>
    dropsFrom_of_present (present_of_permitted hp) fun _ _ => trivial
  have hcase := handleExit_case reason hn
  generalize s.handleExit n reason = x at hcase hs ⊢
  cases hcase with
  | awaited | member => exact dropsFrom_of_present (fun _ => Iff.rfl) hd
  | last =>
    have hfinish := finishCascade_drops (s := { s with restarting := s.restarting.swapRemove n }) (D := D)
      (C := fun m => m = n ∧ ¬ Required s.inner n reason ∨ D m) fun m hm => .inr (hd m hm)
    exact ⟨hfinish.left, hfinish.kept, hfinish.dropping⟩
  | drop _ _ hreq => exact (removeSpec_drops hd).mono fun m hm => hm.imp_left fun hmn => ⟨hmn, hreq⟩
  | refused =>
    have hshut := shutdown_drops (C := fun m => m = n ∧ ¬ Required s.inner n reason ∨ D m)
      { s with inner := (s.inner.acquirePermits n).1 }
    exact (hst s.cascadeRestart).trans ⟨hshut.left, hshut.kept, fun n hn => hd n (hshut.dropping n hn)⟩
  | trigger _ _ _ _ _ hends =>
    rw [← stoppedSince_congr (j := (s.inner.acquirePermits n).1) hp.stops rfl] at hs
    exact (hst _).trans ((foldEnds_drops hends hd hs).mono fun _ => .inr)

theorem dropsHandlers : DropsHandlers OneForAllSupervisor where
  inner_setInner _ _ := rfl
  dropping_new _ := rfl
  dropping_setInner _ _ := rfl
  dropping_setInitializing _ _ := rfl
  dropping_of_not s h := by
    simp only [stopping, Bool.not_eq_false', Bool.and_eq_true] at h
    exact List.isEmpty_iff.1 h.2
  shutdown s := shutdown_drops s
  removeSpec {s ev n} hev := by
    refine (removeSpec_drops (D := Listed s (s.removeSpec n).1) fun _ => .inl).turn (fun _ => Iff.rfl)
      fun m hm => hm.imp (fun hmn => ?_) .inr
    rw [hmn, hev]
  initialized s n := by
    have hkeep : DropsFrom (fun _ => False)
        (Listed s (handleInitialized { s with inner := s.inner.setState n .alive } n)) s
        (handleInitialized { s with inner := s.inner.setState n .alive } n) :=
      dropsFrom_of_present (fun m => (same_handleInitialized.present_iff m).trans present_of_setState)
        fun _ => .inl
    exact hkeep.turn (fun _ => Iff.rfl) fun _ => False.elim
  exit {s n item reason} hr hn := by
    have hturn : TurnDrops s (.supervisee n item)
        (OneForAllSupervisor.handleExit { s with inner := s.inner.setState n .dead } n reason).1 := by
      refine (handleExit_drops (s := { s with inner := s.inner.setState n .dead }) (D := Listed s _)
        (fun _ => .inl) (stateOf_setState_dead hn) fun m hm => .inr ?_).turn
        (fun _ => present_of_setState) fun m hm => .inr ?_
      · rwa [stoppedSince_congr (i := s.inner) stops_setState rfl] at hm
      · rcases hm with ⟨rfl, hreq⟩ | hm
        · exact .inl ⟨rfl, reason, hr, mt required_setState.2 hreq⟩
        · exact .inr hm
    exact sat_of_fst hturn hturn

end OneForAllSupervisor

/-! ## Runs -/

variable {f : Followed σ}

theorem runs_of_followedRuns (h : (followedRuns σ).Reachable f) : (runs σ).Reachable f.loop := by
  induction h with
  | init h₀ => exact .init h₀.1
  | step _ hs ih =>
    obtain ⟨st, hst, rfl⟩ := Option.map_eq_some_iff.1 hs
    exact .step ih hst

/-- Whoever is to be dropped, and is there, has been told to stop by the cascade. -/
def Followed.Tracked (f : Followed σ) : Prop :=
  f.loop.Sat (fun s => ∀ n ∈ dropping s, Present n s → n ∈ f.stopped) fun _ => True

theorem DropsHandlers.tracked (h : DropsHandlers σ)
    (hr : ((followedRuns σ).guard Followed.SparesDropped).Reachable f) : f.Tracked := by
  refine hr.guard_invariant (fun f h₀ => ?_) fun f ev f' htracked hok hs => ?_
  · obtain ⟨st, l⟩ := f
    obtain ⟨s₀, s, initializing, -, rfl⟩ := fresh_of_begins h₀.1
    intro n hn
    rw [h.dropping_setInitializing, h.dropping_setInner, h.dropping_new] at hn
    cases hn
  · obtain ⟨st, l⟩ := f
    obtain ⟨st', hst, rfl⟩ := Option.map_eq_some_iff.1 hs
    cases st with
    | broken | panicked => cases hst
    | running s =>
      have hturn := h.turnDrops hst
      cases st' with
      | broken | panicked => trivial
      | running s' =>
        intro n hn hpresent
        have hstopping : stopping s' = true := by
          by_contra hnot
          rw [h.dropping_of_not s' (by simpa using hnot)] at hn
          cases hn
        show n ∈ Followed.keep _ (.running s')
        rw [Followed.keep, if_pos hstopping, List.mem_filter]
        refine ⟨List.mem_append.2 ?_, by simpa using hpresent⟩
        rcases hturn.listed n hn with hdrop | hstop
        · -- A name that is to be dropped is not taken.
          rcases hturn.kept n hpresent with hold | ⟨hx, spec, hspec, rfl⟩
          · exact .inl (htracked n hdrop hold)
          · by_cases hold : Present spec.name s
            · exact .inl (htracked _ hdrop hold)
            · exact absurd hdrop (hok spec hspec hx hold)
        · exact .inr hstop

theorem DropsHandlers.leavesForCause (h : DropsHandlers σ)
    (hr : ((followedRuns σ).guard Followed.SparesDropped).Reachable f) : f.LeavesForCause := by
  have htracked := h.tracked hr
  obtain ⟨st, l⟩ := f
  cases st with
  | broken | panicked => trivial
  | running s =>
    intro ev st' n hst hpresent hleft
    have hturn := h.turnDrops hst
    cases st' with
    | running s' | broken s' =>
      refine (hturn.left n hpresent hleft).imp_right (Or.imp_right fun hlisted => List.mem_append.2 ?_)
      exact hlisted.imp_left fun hdrop => htracked n hdrop hpresent
    | panicked => exact absurd trivial hleft

/-- One-for-all removes a name from its list together with the child: whoever is on it is there. -/
theorem OneForAllSupervisor.sparesDropped_of_reachable {f : Followed OneForAllSupervisor}
    (h : (followedRuns OneForAllSupervisor).Reachable f) (ev : Event) : f.SparesDropped ev := by
  have hfolding := folding_of_reachable (runs_of_followedRuns h)
  refine hfolding.mono (fun s hf spec _ _ habsent hn => habsent ?_) fun _ _ => trivial
  have hn : spec.name ∈ s.cascadeDrop := hn
  show s.inner.supervisees.stateOf spec.name ≠ none
  rcases hf.drop _ hn with hdead | ⟨hdown, -⟩
  · simp [hdead]
  · simp [hdown]

/-- No cascade drops a child that it has not told to stop: in every run of a one-for-all supervisor, and
in every run of a rest-for-one supervisor in which no child is registered under a name that the cascade
is about to drop. -/
theorem leavesForCause_of_sparesDropped (f : Followed OneForAllSupervisor)
    (g : Followed RestForOneSupervisor) :
    ((followedRuns OneForAllSupervisor).Reachable f → f.LeavesForCause) ∧
      (((followedRuns RestForOneSupervisor).guard Followed.SparesDropped).Reachable g →
        g.LeavesForCause) := by
  constructor
  · intro h
    have hspares : ((followedRuns OneForAllSupervisor).guard Followed.SparesDropped).Reachable f :=
      h.to_guard fun _ ev _ hr _ => OneForAllSupervisor.sparesDropped_of_reachable hr ev
    exact OneForAllSupervisor.dropsHandlers.leavesForCause hspares
  · exact RestForOneSupervisor.dropsHandlers.leavesForCause

/-- `a` has exited, `b`, which is to be dropped, has stopped, and the cascade waits for `x`. Meanwhile
`b` is removed. -/
def bRemoved : List Event :=
  comesUp "a" ++ comesUp "x" ++ comesUp "b" ++ [.supervisee ⟨"a"⟩ (.exit .normalExit),
    .supervisee ⟨"b"⟩ (.exit .normalShutdown), .source (.removed ⟨"b"⟩)]

def withB : List ChildSpec :=
  [childSpec "a" .always none, childSpec "x" .always none, childSpec "b" .never none]

theorem opens_withB (σ : Type) [Strategy σ] :
    Begins (booted σ withB .default) ∧ ([] : List Name) = [] :=
  ⟨begins_booted withB (by decide) .default, rfl⟩

/-- A child called `c` comes while the cascade waits. -/
theorem leavesForCause_of_sparesDropped_other :
    ∃ (f : Followed OneForAllSupervisor) (g : Followed RestForOneSupervisor),
      (f.loop.Running (Present ⟨"c"⟩) ∧ f.LeavesForCause) ∧ g.loop.Running (Present ⟨"c"⟩) ∧
        g.LeavesForCause := by
  let cAdded : List Event := bRemoved ++ [.source (.added (childSpec "c" .always none))]
  have hf : ∃ f, (followedRuns OneForAllSupervisor).Reachable f ∧ f.loop.Running (Present ⟨"c"⟩) :=
    Lts.exists_reachable_of_exec (s := ⟨booted _ withB .default, []⟩) (opens_withB _) cAdded (by decide)
  have hg : ∃ g, ((followedRuns RestForOneSupervisor).guard Followed.SparesDropped).Reachable g ∧
      g.loop.Running (Present ⟨"c"⟩) :=
    Lts.exists_guard_reachable_of_exec (s := ⟨booted _ withB .default, []⟩) (opens_withB _) cAdded
      (by decide)
  obtain ⟨f, hf, hfc⟩ := hf
  obtain ⟨g, hg, hgc⟩ := hg
  have h := leavesForCause_of_sparesDropped f g
  exact ⟨f, g, ⟨hfc, h.1 hf⟩, hgc, h.2 hg⟩

/-- Another child called `b` comes, which nobody tells to stop, and leaves when `x` has stopped. -/
theorem not_leavesForCause :
    ¬ ∀ f, (followedRuns RestForOneSupervisor).Reachable f → f.LeavesForCause := by
  intro h
  let xStopped : Event := .supervisee ⟨"x"⟩ (.exit .normalShutdown)
  have hrun : ∃ f, (followedRuns RestForOneSupervisor).Reachable f ∧
      f.loop.Running (Present ⟨"b"⟩) ∧ ((Strategy.step f.loop xStopped).any fun st =>
        (st.Running fun s => ¬ Present ⟨"b"⟩ s) ∧ ⟨"b"⟩ ∉ f.stopped ++ stoppedIn f.loop st) = true :=
    Lts.exists_reachable_of_exec (s := ⟨booted _ withB .default, []⟩) (opens_withB _)
      (bRemoved ++ [.source (.added (childSpec "b" .always none))]) (by decide)
  obtain ⟨f, hr, hpresent, hstep⟩ := hrun
  obtain ⟨st, hst, hturn⟩ := (Option.any_eq_true _ _).1 hstep
  obtain ⟨hleft, hnot⟩ := of_decide_eq_true hturn
  obtain ⟨s, hs, hpresent⟩ := hpresent.exists
  obtain ⟨s', rfl, hgone⟩ := hleft.exists
  rw [hs] at hst hnot
  have hcause := h f hr
  rw [Followed.LeavesForCause, hs] at hcause
  rcases hcause xStopped _ ⟨"b"⟩ hst hpresent hgone with hremoved | ⟨hname, -⟩ | hstopped
  · cases hremoved
  · exact absurd hname (by decide)
  · exact hnot hstopped

end Zestors
