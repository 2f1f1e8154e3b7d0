import Zestors.Supervisor.Strategy

/-!
# Invariants of the event loop

`Obligations` lists what a strategy has to show so that an invariant survives every turn of the
loop: one obligation for each kind of event. `runs_invariant` turns them into a statement about runs.
-/

namespace Zestors
open Strategy SupervisorInner LoopState

/-- The name that an event asks to remove. -/
def SupervisorInner.Event.removes : Event → Option Name
  | .message (.deregister name) | .source (.removed name) => some name
  | _ => none

/-- The name of the supervisee that is gone by the event. -/
def SupervisorInner.Event.exits : Event → Option Name
  | .supervisee name item => if item.exitReason.isSome then some name else none
  | _ => none

theorem SupervisorInner.Event.exits_of_exitReason {n : Name} {item : SuperviseeItem} {reason : ExitReason}
    (h : item.exitReason = some reason) : Event.exits (.supervisee n item) = some n := by
  rw [exits, h]
  rfl

/-- The child that an event asks to register. -/
def SupervisorInner.Event.registers : Event → Option ChildSpec
  | .message (.register spec) | .source (.added spec) => some spec
  | _ => none

variable {σ : Type} [Strategy σ]

/-- What has to be shown of the handlers so that a turn of the loop that starts in `I` and meets
`ok` ends in `Q`, or in `B` if it leaves the loop. -/
structure Obligations (I : σ → Prop) (ok : σ → Event → Prop) (Q B : σ → Prop) : Prop where
  keep : ∀ s, I s → Q s
  inbox : ∀ s inbox, Q s → inbox.status.isExiting = (inner s).isExiting → Q (withInbox s inbox)
  shutdown : ∀ s inbox, I s → inbox.status.isExiting = true →
    (ofFlow (shutdown (withInbox s inbox))).Sat Q B
  add : ∀ s ev spec, I s → ok s ev → ev.registers = some spec → Q (addSpec s spec).1
  remove : ∀ s ev name, I s → ok s ev → ev.removes = some name → Q (removeSpec s name).1
  item : ∀ s name item i, I s → ok s (.supervisee name item) → Yields (inner s) name item i →
    (ofOutcome (handleItem (setInner s i) name item)).Sat Q B

namespace Obligations
variable {I Q B : σ → Prop} {ok : σ → Event → Prop} {s : σ} {ev : Event}

theorem signal (h : Obligations I ok Q B) (hI : I s) {signal : SignalInterface}
    {st' : LoopState σ} (hs : step (.running s) (.signal signal) = some st') : st'.Sat Q B := by
  obtain rfl := Option.some.inj hs
  set inbox := ((inner s).inbox.takeSignal signal).1 with hinbox
  have hstatus : inbox.status = ((inner s).inbox.status.handleSignal signal).1 := rfl
  have hyield : ((inner s).inbox.takeSignal signal).2 =
      ((inner s).inbox.status.handleSignal signal).2 := rfl
  rw [hyield]
  by_cases hsig : ((inner s).inbox.status.handleSignal signal).2 = some .shutdown
  · rw [hsig]
    refine h.shutdown s inbox hI ?_
    rw [hstatus, ActorStatus.handleSignal_shutdown hsig]
    exact ActorStatus.isExiting_registerExiting (inner s).inbox.live
  · have hq : Q (withInbox s inbox) :=
      h.inbox s inbox (h.keep s hI) (hstatus ▸ ActorStatus.isExiting_handleSignal hsig)
    rcases ho : ((inner s).inbox.status.handleSignal signal).2 with _ | _ | _ | _
    · exact hq
    · exact absurd ho hsig
    · exact hq
    · exact hq

theorem message (h : Obligations I ok Q B) (hI : I s) {msg : SupervisorInterface}
    (hok : ok s (.message msg)) : Q (handleMessage s msg) := by
  have hreply : ∀ s' r, Q s' → Q (reply s' r) := fun s' r hq => h.inbox s' _ hq rfl
  cases msg with
  | children => exact hreply s _ (h.keep s hI)
  | health => exact hreply s _ (h.keep s hI)
  | register spec => exact hreply _ _ (h.add s _ spec hI hok rfl)
  | deregister name => exact hreply _ _ (h.remove s _ name hI hok rfl)

theorem step (h : Obligations I ok Q B) (hI : I s) (hok : ok s ev) {st' : LoopState σ}
    (hs : step (.running s) ev = some st') : st'.Sat Q B := by
  cases ev with
  | signal signal => exact h.signal hI hs
  | message msg =>
    simp only [Strategy.step, next] at hs
    split at hs
    · cases hs
    · obtain rfl := Option.some.inj hs
      show Q (handleMessage (setInner s (inner s)) msg)
      rw [setInner_inner]
      exact h.message hI hok
  | source ev =>
    simp only [Strategy.step, next] at hs
    split at hs
    · obtain rfl := Option.some.inj hs
      show Q (handleSource (setInner s (inner s)) ev)
      rw [setInner_inner]
      cases ev with
      | added spec => exact h.add s _ spec hI hok rfl
      | removed name => exact h.remove s _ name hI hok rfl
    · cases hs
  | supervisee name item =>
    simp only [Strategy.step, Option.map_eq_some_iff] at hs
    obtain ⟨⟨i, o⟩, hnext, rfl⟩ := hs
    obtain ⟨rfl, hy⟩ := yields_of_next hnext
    exact h.item s name item i hI hok hy

end Obligations

theorem handleItem_of_exitReason {s : σ} {n : Name} {item : SuperviseeItem} {reason : ExitReason}
    (h : item.exitReason = some reason) : handleItem s n item = handleExit s n reason := by
  unfold SuperviseeItem.exitReason at h
  split at h <;> cases h <;> rfl

/-! ## The start of a run -/

/-- The supervisees right before the loop: all of them are starting. -/
structure Fresh (s : SupervisorInner) : Prop where
  stateOf : ∀ n, s.supervisees.stateOf n = none ∨ s.supervisees.stateOf n = some .starting
  notExiting : s.isExiting = false
  ticks : s.ticks = 0
  restarts : s.restarter.restarts = []
  starts : ∀ e ∈ s.starts, e.cause = .startAll ∧ e.exiting = false
  stops : s.stops = []

/-- What `load` leaves as it was in a supervisor whose children are all dead. -/
structure Unstarted (s : SupervisorInner) : Prop where
  stateOf : ∀ n, s.supervisees.stateOf n = none ∨ s.supervisees.stateOf n = some .dead
  notExiting : s.isExiting = false
  ticks : s.ticks = 0
  restarts : s.restarter.restarts = []
  starts : s.starts = []
  stops : s.stops = []

namespace Unstarted
variable {s : SupervisorInner}

theorem new (specs : List ChildSpec) (intensity : RestartIntensity) (source : Bool)
    (clock : ℕ → Instant) : Unstarted { SupervisorInner.new specs intensity source clock with
      inbox := Inbox.spawned.setManualInit } where
  stateOf n := by
    rcases h : (SuperviseeMap.new specs).get? n with _ | sv
    · exact .inl (SuperviseeMap.stateOf_eq_none.2 h)
    · exact .inr ((SuperviseeMap.stateOf_of_get? h).trans (by rw [SuperviseeMap.get?_new h]))
  notExiting := rfl
  ticks := rfl
  restarts := rfl
  starts := rfl
  stops := rfl

theorem load (h : Unstarted s) {specs : List ChildSpec} {s' : SupervisorInner}
    (hload : s.load specs = .ok s') : Unstarted s' := by
  induction specs generalizing s with
  | nil => cases hload; exact h
  | cons spec specs ih =>
    unfold SupervisorInner.load SuperviseeMap.add at hload
    rw [Supervisee.name_new] at hload
    by_cases hdup : (s.supervisees.get? spec.name).isSome
    · rw [if_pos hdup] at hload
      cases hload
    · rw [if_neg hdup] at hload
      refine ih (s := { s with supervisees := s.supervisees.set (Supervisee.new spec) })
        ⟨fun n => ?_, h.notExiting, h.ticks, h.restarts, h.starts, h.stops⟩ hload
      rw [SuperviseeMap.stateOf_set]
      split
      · exact .inr rfl
      · exact h.stateOf n

/-- In an unstarted supervisor `start_all` cannot fail. -/
theorem startAll (h : Unstarted s) : s.startAll.2 = .ok () ∧ Fresh s.startAll.1 := by
  have hfresh : ∀ n sv, s.supervisees.get? n = some sv → sv.state = .dead ∨ sv.state = .starting := by
    intro n sv hsv
    have hd := h.stateOf n
    rw [SuperviseeMap.stateOf_of_get? hsv] at hd
    exact .inl (by simpa using hd)
  obtain ⟨hok, -, hget⟩ := SuperviseeMap.startEach_of_fresh (l := s.supervisees.names) hfresh
  refine ⟨hok, fun n => ?_, h.notExiting, h.ticks, h.restarts, fun e he => ?_, h.stops⟩
  · rcases hn : s.supervisees.get? n with _ | sv
    · refine .inl (SuperviseeMap.stateOf_eq_none.2 ?_)
      show (s.supervisees.startEach s.supervisees.names).1.get? n = none
      rw [hget n, hn]; simp
    · refine .inr ?_
      show (s.supervisees.startEach s.supervisees.names).1.stateOf n = some .starting
      rw [SuperviseeMap.stateOf, hget n, if_pos (SuperviseeMap.mem_names_of_get? hn), hn]
      rfl
  · simp only [SupervisorInner.startAll, h.starts, List.nil_append, List.mem_map] at he
    obtain ⟨n, -, rfl⟩ := he
    exact ⟨rfl, h.notExiting⟩

end Unstarted

/-- A supervisor enters its loop with every child starting. -/
theorem fresh_of_begins {st : LoopState σ} (h : Begins st) :
    ∃ s₀ s initializing, Fresh s ∧
      st = .running (setInitializing (setInner (Strategy.new s₀) s) initializing) := by
  obtain ⟨blueprint, loaded, intensity, source, clock, s₀, -, hload⟩ := h
  obtain ⟨hok, hfresh⟩ := ((Unstarted.new blueprint intensity source clock).load hload).startAll
  refine ⟨s₀, s₀.startAll.1,
    .ofList (inner (setInner (Strategy.new s₀ : σ) s₀.startAll.1)).supervisees.names, hfresh, ?_⟩
  unfold begin
  rw [inner_new, hok]

/-- The runs whose events all meet `ok`, a condition on the strategy's state and the event. -/
def runsWhere (ok : σ → Event → Prop) : Lts (LoopState σ) Event :=
  (runs σ).guard fun st ev => st.Sat (ok · ev) fun _ => True

theorem runs_of_runsWhere {ok : σ → Event → Prop} {st : LoopState σ}
    (hr : (runsWhere ok).Reachable st) : (runs σ).Reachable st := hr.of_guard

theorem exists_running {p : σ → Prop} [DecidablePred p] {st : LoopState σ} (h₀ : Begins st)
    (es : List Event) (hp : ((Lts.exec Strategy.step st es).any fun st =>
      decide (st.Running p)) = true) :
    ∃ s : σ, (runs σ).Reachable (.running s) ∧ p s := by
  obtain ⟨st, hr, hrun⟩ := Lts.exists_reachable_of_exec h₀ es hp
  obtain ⟨s, rfl, hs⟩ := hrun.exists
  exact ⟨s, hr, hs⟩

theorem exists_running_where (ok : σ → Event → Prop) [∀ s ev, Decidable (ok s ev)] {p : σ → Prop}
    [DecidablePred p] {st : LoopState σ} (h₀ : Begins st) (es : List Event)
    (hp : ((Lts.exec (Lts.guardFun Strategy.step fun st ev => st.Sat (ok · ev) fun _ => True) st
      es).any fun st => decide (st.Running p)) = true) :
    ∃ s : σ, (runsWhere ok).Reachable (.running s) ∧ p s := by
  obtain ⟨st, hr, hrun⟩ := Lts.exists_guard_reachable_of_exec h₀ es hp
  obtain ⟨s, rfl, hs⟩ := hrun.exists
  exact ⟨s, hr, hs⟩

/-- Handlers that meet their obligations keep the invariant in every run whose events all meet
`ok`. -/
theorem runsWhere_obligations {I B : σ → Prop} {ok : σ → Event → Prop}
    (hinit : ∀ st : LoopState σ, Begins st → st.Sat I B) (h : Obligations I ok I B)
    {st : LoopState σ} (hr : (runsWhere ok).Reachable st) : st.Sat I B := by
  refine hr.guard_invariant hinit fun st ev st' hI hok hs => ?_
  cases st with
  | running s => exact h.step hI hok hs
  | broken s => cases hs
  | panicked => cases hs

theorem runs_invariant {I B : σ → Prop} (hinit : ∀ st : LoopState σ, Begins st → st.Sat I B)
    (h : Obligations I (fun _ _ => True) I B) {st : LoopState σ} (hr : (runs σ).Reachable st) :
    st.Sat I B := by
  refine hr.invariant hinit fun st ev st' hI hs => ?_
  cases st with
  | running s => exact h.step hI trivial hs
  | broken s => cases hs
  | panicked => cases hs

theorem runsWhere_invariant {I B K BK : σ → Prop} {ok : σ → Event → Prop}
    (hK : ∀ st : LoopState σ, (runs σ).Reachable st → st.Sat K BK)
    (hinit : ∀ st : LoopState σ, Begins st → st.Sat I B)
    (h : Obligations (fun s => I s ∧ K s) ok I B) {st : LoopState σ}
    (hr : (runsWhere ok).Reachable st) : st.Sat I B := by
  induction hr with
  | init h₀ => exact hinit _ h₀
  | @step st st' ev hr hs ih =>
    obtain ⟨hs, hok⟩ := hs
    have hst := hK st (runs_of_runsWhere hr)
    cases st with
    | running s => exact h.step ⟨ih, hst⟩ hok hs
    | broken s => cases hs
    | panicked => cases hs

end Zestors
