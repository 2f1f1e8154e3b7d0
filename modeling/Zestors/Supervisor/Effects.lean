import Zestors.Supervisor.SupervisorInner

/-!
# The effects of the shared operations

What the operations of `SupervisorInner` do, in terms of the state and the mode of each supervisee:
`Stopped` for passes that stop supervisees one by one, `Added` for registrations, and the effect of
removals, of a shutdown and of the items that supervisees yield.
-/

namespace Zestors

namespace SupervisorInner
variable {s s' s'' : SupervisorInner} {n j : Name} {l l' : List Name} {calls : List StopCall}

/-! ## Permits -/

theorem acquirePermit_intensity : s.acquirePermit.1.restarter.intensity = s.restarter.intensity := rfl

/-- The permits touch budgets and the clock only. -/
structure Permitted (s s' : SupervisorInner) : Prop where
  stateOf : ∀ j, s'.supervisees.stateOf j = s.supervisees.stateOf j
  modeOf : ∀ j, s'.supervisees.modeOf j = s.supervisees.modeOf j
  keys : s'.supervisees.keys = s.supervisees.keys
  starts : s'.starts = s.starts
  stops : s'.stops = s.stops
  isExiting : s'.isExiting = s.isExiting
  clock : s'.clock = s.clock
  ticks : s.ticks < s'.ticks
  restarter : s'.restarter = s.acquirePermit.1.restarter

theorem permitted_acquirePermits : Permitted s (s.acquirePermits n).1 := by
  have h : Permitted s s.acquirePermit.1 :=
    ⟨fun _ => rfl, fun _ => rfl, rfl, rfl, rfl, rfl, rfl, Nat.lt_succ_self _, rfl⟩
  unfold acquirePermits
  split
  · have hf := frame_acquireRestartPermit (s := s.acquirePermit.1) (n := n)
    exact ⟨fun j => by simp, fun j => by simp, by simp, by simp, by simp, hf.isExiting, hf.clock,
      Nat.lt_of_lt_of_le h.ticks hf.ticks, hf.restarter⟩
  · exact h

theorem Permitted.names (h : Permitted s s') : s'.supervisees.names = s.supervisees.names :=
  SuperviseeMap.names_congr h.keys fun j => by rw [h.stateOf]

/-! ## Passes that stop supervisees -/

@[simp] theorem stopped_eq_dead {st : SuperviseeState} :
    stopped st = .dead ↔ st = .dead ∨ st = .starting := by
  cases st <;> simp [stopped]

@[simp] theorem stopped_stopped (st : SuperviseeState) : stopped (stopped st) = stopped st := by
  cases st <;> rfl

/-- The calls that stop, one by one, those named in `l` who are there. -/
structure CallsOn (l : List Name) (s : SupervisorInner) (calls : List StopCall) : Prop where
  cause : ∀ c ∈ calls, c.cause = .stop
  exiting : ∀ c ∈ calls, c.exiting = s.isExiting
  name : ∀ n, n ∈ calls.map StopCall.name ↔ n ∈ l ∧ s.supervisees.stateOf n ≠ none

theorem CallsOn.nil (h : CallsOn [] s calls) : calls = [] := by
  cases calls with
  | nil => rfl
  | cons c calls =>
    have hmem := ((h.name c.name).1 List.mem_cons_self).1
    cases hmem

/-- `s'` is `s` after the supervisees named in `l` have been stopped, and after child permits. -/
structure Stopped (l : List Name) (s s' : SupervisorInner) : Prop extends Frame s s' where
  stateOf : ∀ j, s'.supervisees.stateOf j =
    if j ∈ l then (s.supervisees.stateOf j).map stopped else s.supervisees.stateOf j
  modeOf : ∀ j, s'.supervisees.modeOf j = s.supervisees.modeOf j
  keys : s'.supervisees.keys = s.supervisees.keys
  starts : s'.starts = s.starts
  stops : ∃ calls, s'.stops = s.stops ++ calls ∧ CallsOn l s calls
  get? : ∀ j, j ∉ l → s'.supervisees.get? j = s.supervisees.get? j

namespace Stopped

theorem present_iff (h : Stopped l s s') (n : Name) :
    s'.supervisees.stateOf n ≠ none ↔ s.supervisees.stateOf n ≠ none := by
  rw [h.stateOf]
  split
  · simp
  · rfl

theorem refl (s : SupervisorInner) : Stopped [] s s :=
  ⟨.refl s, fun _ => rfl, fun _ => rfl, rfl, rfl,
    ⟨[], (List.append_nil _).symm, by simp, by simp, by simp⟩, fun _ _ => rfl⟩

theorem trans (h : Stopped l s s') (h' : Stopped l' s' s'') : Stopped (l ++ l') s s'' where
  toFrame := h.toFrame.trans h'.toFrame
  stateOf j := by
    rw [h'.stateOf, h.stateOf]
    by_cases h₁ : j ∈ l <;> by_cases h₂ : j ∈ l' <;> simp [h₁, h₂, Function.comp_def]
  modeOf j := (h'.modeOf j).trans (h.modeOf j)
  keys := h'.keys.trans h.keys
  starts := h'.starts.trans h.starts
  stops := by
    obtain ⟨calls, hcalls, hon⟩ := h.stops
    obtain ⟨calls', hcalls', hon'⟩ := h'.stops
    refine ⟨calls ++ calls', by rw [hcalls', hcalls, List.append_assoc], ?_, ?_, fun n => ?_⟩
    · exact List.forall_mem_append.2 ⟨hon.cause, hon'.cause⟩
    · exact List.forall_mem_append.2 ⟨hon.exiting, fun c hc => (hon'.exiting c hc).trans h.isExiting⟩
    · rw [List.map_append, List.mem_append, hon.name, hon'.name, h.present_iff, List.mem_append, or_and_right]
  get? j hj := by
    rw [List.mem_append, not_or] at hj
    exact (h'.get? j hj.2).trans (h.get? j hj.1)

theorem of_stop : Stopped [n] s (s.stop n).1 where
  toFrame := frame_stop
  stateOf j := by
    rw [stateOf_stop]
    by_cases h : j = n
    · subst h; simp
    · simp [h]
  modeOf j := modeOf_stop
  keys := keys_stop
  starts := starts_stop
  stops := by
    rw [stops_stop]
    split
    · rename_i h
      refine ⟨[], (List.append_nil _).symm, by simp, by simp, fun j => ?_⟩
      simp only [List.map_nil, List.not_mem_nil, List.mem_singleton, false_iff, not_and, not_not]
      rintro rfl
      exact h
    · rename_i h
      refine ⟨_, rfl, by simp, by simp, fun j => ?_⟩
      simp only [List.map_cons, List.map_nil, List.mem_singleton, iff_self_and]
      rintro rfl
      exact h
  get? j hj := by
    rw [List.mem_singleton] at hj
    unfold stop
    split
    · rfl
    · rename_i sv h
      rw [SuperviseeMap.get?_set, Supervisee.name_stop, SuperviseeMap.name_of_get? h, if_neg hj]

/-- Taking the permit of a child before stopping it makes no difference to the pass. -/
theorem of_permit_stop : Stopped [n] s ((s.acquireRestartPermit n).1.stop n).1 where
  toFrame := frame_acquireRestartPermit.trans frame_stop
  stateOf j := by
    rw [(of_stop (n := n)).stateOf, stateOf_acquireRestartPermit]
  modeOf j := by simp
  keys := by simp
  starts := by simp
  stops := by
    obtain ⟨calls, hcalls, hon⟩ := (of_stop (s := (s.acquireRestartPermit n).1) (n := n)).stops
    refine ⟨calls, by rw [hcalls, stops_acquireRestartPermit], hon.cause, fun c hc => ?_, fun j => ?_⟩
    · exact (hon.exiting c hc).trans frame_acquireRestartPermit.isExiting
    · rw [hon.name, stateOf_acquireRestartPermit]
  get? j hj := by
    rw [(of_stop (n := n)).get? j hj]
    rw [List.mem_singleton] at hj
    unfold acquireRestartPermit
    split
    · rfl
    · rename_i sv h
      rw [SuperviseeMap.get?_set, Supervisee.name_acquireRestartPermit,
        SuperviseeMap.name_of_get? h, if_neg hj]

/-- A name without a supervisee can be counted among the stopped ones. -/
theorem cons_of_none (hn : s.supervisees.get? n = none) (h : Stopped l s s') :
    Stopped (n :: l) s s' where
  toFrame := h.toFrame
  stateOf j := by
    rw [h.stateOf]
    by_cases hj : j = n
    · subst hj; simp [SuperviseeMap.stateOf_eq_none.2 hn]
    · simp [hj]
  modeOf := h.modeOf
  keys := h.keys
  starts := h.starts
  stops := by
    obtain ⟨calls, hcalls, hon⟩ := h.stops
    refine ⟨calls, hcalls, hon.cause, hon.exiting, fun j => ?_⟩
    rw [hon.name, List.mem_cons]
    have hnone := SuperviseeMap.stateOf_eq_none.2 hn
    by_cases hj : j = n
    · subst hj
      simp [hnone]
    · simp [hj]
  get? j hj := h.get? j fun hl => hj (List.mem_cons_of_mem _ hl)

theorem names (h : Stopped l s s') : s'.supervisees.names = s.supervisees.names := by
  refine SuperviseeMap.names_congr h.keys fun j => ?_
  rw [h.stateOf]
  split <;> simp

end Stopped

/-- `s'` has the supervisees of `s`, and is exiting if `s` is. -/
abbrev Same (s s' : SupervisorInner) : Prop := Stopped [] s s'

namespace Same

theorem stateOf_eq (h : Same s s') (j : Name) :
    s'.supervisees.stateOf j = s.supervisees.stateOf j := by
  rw [h.stateOf, if_neg (by simp)]

theorem stops_eq (h : Same s s') : s'.stops = s.stops := by
  obtain ⟨calls, hcalls, hon⟩ := Stopped.stops h
  rw [hcalls, hon.nil, List.append_nil]

theorem of_inbox {inbox : Inbox} (h : inbox.status.isExiting = s.isExiting) :
    Same s { s with inbox } :=
  ⟨⟨h, rfl, rfl, le_rfl⟩, fun _ => rfl, fun _ => rfl, rfl, rfl,
    ⟨[], (List.append_nil _).symm, by simp, by simp, by simp⟩, fun _ _ => rfl⟩

end Same

theorem same_handleInitialized {initializing : IndexSet Name} :
    Same s (s.handleInitialized initializing n).1 := by
  unfold handleInitialized
  dsimp only
  split
  · exact .of_inbox Inbox.isExiting_registerInitialized
  · exact .refl s

/-! ## Removals -/

/-- What a removal does to the supervisees. -/
structure Removed (n : Name) (s s' : SupervisorInner) : Prop extends Frame s s' where
  stateOf : ∀ j, s'.supervisees.stateOf j = if j = n then none else s.supervisees.stateOf j
  modeOf : ∀ j, s'.supervisees.modeOf j = if j = n then none else s.supervisees.modeOf j
  keys : s'.supervisees.keys = s.supervisees.keys
  starts : s'.starts = s.starts
  stops : s'.stops = s.stops

variable {initializing exiting : IndexSet Name}

theorem removeSpec_of_none (h : s.supervisees.stateOf n = none) :
    s.removeSpec initializing exiting n = (s, initializing, exiting, none) := by
  rw [SuperviseeMap.stateOf_eq_none] at h
  simp [removeSpec, SuperviseeMap.remove_of_get?_none h]

theorem removeSpec_of_some {sv : Supervisee} (h : s.supervisees.get? n = some sv) :
    s.removeSpec initializing exiting n =
      ({ s with supervisees := (s.supervisees.remove n).1 }, initializing.swapRemove n,
        exiting.swapRemove n, some sv) := by
  have hs : s.supervisees.remove n = ((s.supervisees.remove n).1, some sv) :=
    Prod.ext rfl (by rw [SuperviseeMap.remove_snd, h])
  unfold removeSpec
  rw [hs]

theorem removed_removeSpec : Removed n s (s.removeSpec initializing exiting n).1 := by
  rcases h : s.supervisees.get? n with _ | sv
  · have hs := SuperviseeMap.stateOf_eq_none.2 h
    have hm := SuperviseeMap.modeOf_eq_none.2 h
    rw [removeSpec_of_none hs]
    refine ⟨.refl s, fun j => ?_, fun j => ?_, rfl, rfl, rfl⟩
    · split
      · subst j; exact hs
      · rfl
    · split
      · subst j; exact hm
      · rfl
  · rw [removeSpec_of_some h]
    exact ⟨⟨rfl, rfl, rfl, le_rfl⟩, fun j => SuperviseeMap.stateOf_remove,
      fun j => SuperviseeMap.modeOf_remove, SuperviseeMap.keys_remove, rfl, rfl⟩

/-! ## Registrations -/

/-- What a registration that takes place does. -/
structure Added (spec : ChildSpec) (s s' : SupervisorInner) : Prop extends Frame s s' where
  fresh : s.supervisees.stateOf spec.name = none
  notExiting : s.isExiting = false
  stateOf : ∀ j, s'.supervisees.stateOf j =
    if j = spec.name then some .starting else s.supervisees.stateOf j
  modeOf : ∀ j, s'.supervisees.modeOf j =
    if j = spec.name then some spec.cfg.restartMode else s.supervisees.modeOf j
  keys : s.supervisees.keys <+: s'.supervisees.keys
  starts : s'.starts = s.starts ++ [⟨.addSpec, spec.name, false⟩]
  stops : s'.stops = s.stops

/-- A registration adds a supervisee that is starting, or changes nothing. -/
theorem addSpec_cases (s : SupervisorInner) (spec : ChildSpec) :
    (s.addSpec spec).1 = s ∨ Added spec s (s.addSpec spec).1 := by
  unfold addSpec
  split
  · exact .inl rfl
  · rename_i hexit
    rw [Bool.not_eq_true] at hexit
    unfold SuperviseeMap.add
    by_cases h : (s.supervisees.get? spec.name).isSome
    · simp [h]
    · have hnone : s.supervisees.get? spec.name = none := by simpa using h
      have hfresh := SuperviseeMap.stateOf_eq_none.2 hnone
      simp only [Supervisee.name_new, h, Bool.false_eq_true, if_false]
      let s₁ : SupervisorInner :=
        { s with supervisees := s.supervisees.set (Supervisee.new spec) }
      have hd : s₁.supervisees.stateOf spec.name = some .dead := by simp [s₁]
      have hf : Frame s₁ (s₁.start spec.name .addSpec).1 := frame_start
      refine .inr ⟨⟨hf.isExiting, hf.restarter, hf.clock, hf.ticks⟩, hfresh, hexit, fun j => ?_,
        fun j => ?_, ?_, ?_, stops_start⟩
      · show (s₁.start spec.name .addSpec).1.supervisees.stateOf j = _
        rw [stateOf_start, hd]
        by_cases hj : j = spec.name <;> simp [hj, s₁]
      · show (s₁.start spec.name .addSpec).1.supervisees.modeOf j = _
        rw [modeOf_start, SuperviseeMap.modeOf_set, Supervisee.name_new]
        rfl
      · show _ <+: (s₁.start spec.name .addSpec).1.supervisees.keys
        rw [keys_start]
        exact SuperviseeMap.keys_prefix_keys_set _ _
      · show (s₁.start spec.name .addSpec).1.starts = _
        rw [starts_start, if_pos hd]
        simp [s₁, isExiting, ← hexit]

/-! ## Shutting down at once -/

@[simp] theorem isExiting_registerExiting : s.registerExiting.isExiting = true :=
  Inbox.isExiting_registerExiting

@[simp] theorem supervisees_registerExiting : s.registerExiting.supervisees = s.supervisees := rfl

@[simp] theorem stateOf_stopAll {m : SuperviseeMap} :
    m.stopAll.1.stateOf j = (m.stateOf j).map stopped := by
  unfold SuperviseeMap.stateOf
  rw [SuperviseeMap.get?_stopAll]
  cases m.get? j <;> simp [state_stop_eq]

theorem mem_stopAll {m : SuperviseeMap} :
    n ∈ m.stopAll.2 ↔ m.stopAll.1.stateOf n = some .shuttingDown := by
  rw [SuperviseeMap.mem_stopAll, stateOf_stopAll]
  constructor
  · rintro ⟨sv, h, hs⟩
    rw [SuperviseeMap.stateOf_of_get? h, Option.map_some, ← state_stop_eq, Supervisee.state_stop, hs]
    rfl
  · intro h
    obtain ⟨st, hst, h⟩ := Option.map_eq_some_iff.1 h
    obtain ⟨sv, hsv, rfl⟩ := SuperviseeMap.stateOf_eq_some.1 hst
    refine ⟨sv, hsv, ?_⟩
    rw [← state_stop_eq, Supervisee.state_stop] at h
    by_contra hne
    simp [hne] at h

theorem stateOf_shutdown : (s.shutdown exiting).1.supervisees.stateOf j =
    (s.supervisees.stateOf j).map stopped := stateOf_stopAll

@[simp] theorem isExiting_shutdown : (s.shutdown exiting).1.isExiting = true :=
  isExiting_registerExiting (s := s)

/-- After a shutdown exactly those are waited for who are shutting down. -/
theorem mem_shutdown : n ∈ (s.shutdown exiting).2.1 ↔
    n ∈ exiting ∨ (s.shutdown exiting).1.supervisees.stateOf n = some .shuttingDown := by
  show n ∈ exiting.extend s.supervisees.stopAll.2 ↔ _
  rw [IndexSet.mem_extend, mem_stopAll]
  rfl

theorem shutdown_flow : (s.shutdown exiting).2.2 =
    if (s.shutdown exiting).2.1.isEmpty then .brk else .cont := rfl

/-! ## Items -/

/-- The supervisee called `n` in another state of its machine. -/
def setState (s : SupervisorInner) (n : Name) (state : SuperviseeState) : SupervisorInner :=
  match s.supervisees.get? n with
  | none => s
  | some sv => { s with supervisees := s.supervisees.set (sv.withState state) }

variable {state : SuperviseeState}

theorem frame_setState : Frame s (s.setState n state) := by
  unfold setState
  split
  · exact .refl s
  · exact ⟨rfl, rfl, rfl, le_rfl⟩

@[simp] theorem stateOf_setState : (s.setState n state).supervisees.stateOf j =
    if j = n then (s.supervisees.stateOf n).map fun _ => state else s.supervisees.stateOf j := by
  unfold setState
  split
  · rename_i h
    exact SuperviseeMap.stateOf_of_get?_none h _
  · rename_i sv h
    obtain rfl := SuperviseeMap.name_of_get? h
    rw [SuperviseeMap.stateOf_set, SuperviseeMap.stateOf_of_get? h]
    rfl

@[simp] theorem modeOf_setState :
    (s.setState n state).supervisees.modeOf j = s.supervisees.modeOf j := by
  unfold setState
  split
  · rfl
  · rename_i sv h
    obtain rfl := SuperviseeMap.name_of_get? h
    rw [SuperviseeMap.modeOf_set]
    split
    · rename_i hj; rw [hj]; exact (SuperviseeMap.modeOf_of_get? h).symm
    · rfl

@[simp] theorem keys_setState : (s.setState n state).supervisees.keys = s.supervisees.keys := by
  unfold setState
  split
  · rfl
  · rename_i sv h
    obtain rfl := SuperviseeMap.name_of_get? h
    exact SuperviseeMap.keys_set (by simp [h])

@[simp] theorem starts_setState : (s.setState n state).starts = s.starts := by
  unfold setState
  split <;> rfl

@[simp] theorem stops_setState : (s.setState n state).stops = s.stops := by
  unfold setState
  split <;> rfl

theorem get?_setState : (s.setState n state).supervisees.get? n =
    (s.supervisees.get? n).map (·.withState state) := by
  unfold setState
  split
  · rename_i h; rw [h]; rfl
  · rename_i sv h
    obtain rfl := SuperviseeMap.name_of_get? h
    rw [SuperviseeMap.get?_set, if_pos (Supervisee.name_withState state).symm, h]
    rfl

theorem acquireRestartPermit_snd : (s.acquireRestartPermit n).2 =
    (s.supervisees.get? n).elim true fun sv => (sv.acquireRestartPermit s.now).2 := by
  unfold acquireRestartPermit
  split <;> simp [*]

theorem acquireRestartPermit_setState :
    ((s.setState n state).acquireRestartPermit n).2 = (s.acquireRestartPermit n).2 := by
  have hnow : (s.setState n state).now = s.now := by unfold setState; split <;> rfl
  rw [acquireRestartPermit_snd, acquireRestartPermit_snd, get?_setState, hnow]
  rcases s.supervisees.get? n with _ | sv
  · rfl
  · cases sv with | mk spec st r => cases r <;> rfl

/-- Whether the permits are granted does not depend on the state of the supervisee. -/
theorem acquirePermits_setState :
    ((s.setState n state).acquirePermits n).2 = (s.acquirePermits n).2 := by
  have hset : (s.setState n state).acquirePermit.1 = s.acquirePermit.1.setState n state ∧
      (s.setState n state).acquirePermit.2 = s.acquirePermit.2 := by
    unfold setState
    rw [supervisees_acquirePermit]
    split <;> exact ⟨rfl, rfl⟩
  unfold acquirePermits
  rw [hset.1, hset.2]
  split
  · exact acquireRestartPermit_setState
  · rfl

theorem names_setState : (s.setState n state).supervisees.names = s.supervisees.names := by
  refine SuperviseeMap.names_congr keys_setState fun j => ?_
  rw [stateOf_setState]
  split
  · subst j; simp
  · rfl

end SupervisorInner

/-- The reason that an item gives a strategy for a supervisee being gone. -/
def SuperviseeItem.exitReason : SuperviseeItem → Option ExitReason
  | started (.error _) => some .startFailure
  | initialized (.error status) => some (.initExit status)
  | exit e => some (.exit e)
  | started (.ok _) | initialized (.ok _) => none

/-- The reasons that a supervisee in each state of its machine can be gone for. -/
def ExitReason.Fits : ExitReason → SuperviseeState → Prop
  | .startFailure, st => st = .starting
  | .initExit _, st => st = .initializing
  | .exit _, st => st = .alive ∨ st = .shuttingDown

theorem ExitReason.Fits.ne_dead {reason : ExitReason} {st : SuperviseeState}
    (h : reason.Fits st) : st ≠ .dead := by
  rintro rfl
  cases reason <;> simp [ExitReason.Fits] at h

/-- What a supervisee can yield: it has been spawned, it is initialized, or it is gone. -/
inductive Yields (s : SupervisorInner) (n : Name) : SuperviseeItem → SupervisorInner → Prop
  | started : s.supervisees.stateOf n = some .starting →
    Yields s n (.started (.ok ())) (s.setState n .initializing)
  | initialized : s.supervisees.stateOf n = some .initializing →
    Yields s n (.initialized (.ok ())) (s.setState n .alive)
  | exit {item : SuperviseeItem} {reason : ExitReason} {st : SuperviseeState} :
    s.supervisees.stateOf n = some st → item.exitReason = some reason → reason.Fits st →
    Yields s n item (s.setState n .dead)

namespace SupervisorInner

/-- An item that arrives is one that the supervisee's machine can yield. -/
theorem yields_of_next {s s' : SupervisorInner} {n : Name} {item : SuperviseeItem}
    {o : Option InnerNext} (h : s.next (.supervisee n item) = some (s', o)) :
    o = some (.supervisee n item) ∧ Yields s n item s' := by
  unfold next at h
  rcases hget : s.supervisees.get? n with _ | sv
  · simp [hget] at h
  · simp only [hget, Option.map_eq_some_iff, Prod.mk.injEq] at h
    obtain ⟨sv', hsv, rfl, rfl⟩ := h
    have hst := SuperviseeMap.stateOf_of_get? hget
    have hset : ∀ state, { s with supervisees := s.supervisees.set (sv.withState state) } =
        s.setState n state := fun state => by simp [setState, hget]
    refine ⟨rfl, ?_⟩
    unfold Supervisee.supervise at hsv
    split at hsv <;> cases hsv <;> rename_i h₁ <;> rw [h₁] at hst <;> rw [hset]
    · exact .started hst
    · exact .exit hst rfl rfl
    · exact .initialized hst
    · exact .exit hst rfl rfl
    · exact .exit hst rfl (.inl rfl)
    · exact .exit hst rfl (.inl rfl)
    · exact .exit hst rfl (.inr rfl)
    · exact .exit hst rfl (.inr rfl)

end SupervisorInner

end Zestors
