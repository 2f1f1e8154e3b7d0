import Zestors.Actor.Handler

/-!
# The futures of a handler

A handler whose `next_event` is the `next` of a `BasicScheduler`: what its hooks schedule runs beside
the loop, and what comes of it is an event for the loop, an error that ends it, or nothing. The
`select!` drops `next` whenever the inbox is first.

Everything that was scheduled comes out once, or waits; and the loop stops listening only when there is
nothing to wait for (`scheduled_of_reachable`).
-/

namespace Zestors

/-- How a future was scheduled: `schedule_msg`, `schedule_callback` or `schedule_fut`. -/
inductive ScheduleKind
  | msg
  | callback
  | fut
deriving DecidableEq

/-- What the wrapper of a future makes of its output. A callback is no `Result`. -/
def ScheduleKind.resolve {E R : Type} : ScheduleKind → Except R E → Option (Except R (Option E))
  | msg, .ok event | callback, .ok event => some (.ok (some event))
  | fut, .ok _ => some (.ok none)
  | msg, .error report | fut, .error report => some (.error report)
  | callback, .error _ => none

/-- A future in the `FuturesUnordered`. `id` is a ghost: which of the scheduled ones it is. -/
structure ScheduledFuture (E R : Type) where
  id : ℕ
  kind : ScheduleKind
  result : Option (Except R (Option E))

/-- A handler with its scheduler. An event of the loop is known by its future. The ghosts: all that was
scheduled, and what has come out of the scheduler. -/
structure ScheduledLoop (I E R : Type) where
  loop : HandlerLoop I (ℕ × E) R
  futures : List (ScheduledFuture E R)
  scheduled : List ScheduleKind
  finished : List (ℕ × Except R (Option E))

/-- The event that a result is for the loop. -/
def scheduledEvent? {E R : Type} : ℕ × Except R (Option E) → Option (ℕ × E)
  | (id, .ok (some event)) => some (id, event)
  | (_, .ok none) | (_, .error _) => none

def HookCall.event? {I E R : Type} : HookCall I E R → Option E
  | .event e => some e
  | _ => none

namespace ScheduledLoop
variable {I E R : Type} {s s' : ScheduledLoop I E R}

def new : ScheduledLoop I E R := ⟨.new, [], [], []⟩

inductive Event (I E R : Type)
  /-- Anything else that happens to the loop. -/
  | loop (e : HandlerLoop.Event I (ℕ × E) R)
  | schedule (kind : ScheduleKind)
  /-- The `k`-th future is ready. -/
  | complete (k : ℕ) (output : Except R E)
  /-- `next` is polled, and the `k`-th future comes out. -/
  | take (k : ℕ)
  /-- `next` is polled with no futures left. -/
  | takeNone

variable {e : Event I E R}

/-- A hook runs, which has the handler to itself. -/
def runsHook (s : ScheduledLoop I E R) : Bool :=
  match s.loop.stage with
  | .init | .hook | .exiting => true
  | .select _ | .done => false

/-- The `k`-th future comes out. -/
def remove (s : ScheduledLoop I E R) (k id : ℕ) (result : Except R (Option E)) : ScheduledLoop I E R :=
  { s with futures := s.futures.eraseIdx k, finished := s.finished ++ [(id, result)] }

/-- `next` goes on with what came out. -/
def yield (s : ScheduledLoop I E R) (id : ℕ) : Except R (Option E) → Option (ScheduledLoop I E R)
  | .ok (some event) =>
    (s.loop.step (.nextEvent (some (.ok (id, event))))).map fun loop => { s with loop := loop }
  -- it goes on with the next one
  | .ok none => some s
  | .error report =>
    (s.loop.step (.nextEvent (some (.error report)))).map fun loop => { s with loop := loop }

def step (s : ScheduledLoop I E R) : Event I E R → Option (ScheduledLoop I E R)
  | .loop (.nextEvent _) => none
  | .loop e => (s.loop.step e).map fun loop => { s with loop := loop }
  | .schedule kind =>
    if s.runsHook then
      some { s with
        futures := s.futures ++ [⟨s.scheduled.length, kind, none⟩]
        scheduled := s.scheduled ++ [kind] }
    else none
  | .complete k output => do
    let fut ← s.futures[k]?
    let result ← fut.kind.resolve output
    if fut.result.isNone then
      some { s with futures := s.futures.set k { fut with result := some result } }
    else none
  | .take k => do
    let fut ← s.futures[k]?
    let result ← fut.result
    if s.loop.stage = .select true ∧ s.loop.betweenPolls then (s.remove k fut.id result).yield fut.id result
    else none
  | .takeNone =>
    if s.futures = [] then (s.loop.step (.nextEvent none)).map fun loop => { s with loop := loop } else none

/-- Every order of what is sent, of what is scheduled and of what comes of it. -/
def runs (I E R : Type) : Lts (ScheduledLoop I E R) (Event I E R) := Lts.ofFun (fun s => s = new) step

end ScheduledLoop

/-! ## What the loop does by itself -/

/-- Before the loop exits. -/
def LoopStage.isRunning : LoopStage → Bool
  | init | select _ | hook => true
  | exiting | done => false

namespace HandlerLoop
variable {I E R : Type} {s s' : HandlerLoop I E R} {e : Event I E R}

/-- A step that is none of `next_event`: no event is handled, and the branch of the events is not disabled. -/
structure Steady (s s' : HandlerLoop I E R) : Prop where
  trace : ∃ calls, s'.trace = s.trace ++ calls ∧ ∀ call ∈ calls, call.event? = none
  select : s'.stage = .select false → s.stage = .select false
  running : s'.stage.isRunning = true → s.stage.isRunning = true

theorem steady_of_eq (htrace : s'.trace = s.trace) (hstage : s'.stage = s.stage) : s.Steady s' where
  trace := ⟨[], htrace.trans (List.append_nil _).symm, List.forall_mem_nil _⟩
  select h := hstage ▸ h
  running h := hstage ▸ h

theorem Steady.stage (htrace : s'.trace = s.trace) (hselect : s'.stage ≠ .select false)
    (hrunning : s'.stage.isRunning = true → s.stage.isRunning = true) : s.Steady s' where
  trace := ⟨[], htrace.trans (List.append_nil _).symm, List.forall_mem_nil _⟩
  select h := absurd h hselect
  running := hrunning

theorem Steady.call (htrace : s'.trace = s.trace) (hrunning : s.stage.isRunning = true)
    {hook : HookCall I E R} (hevent : hook.event? = none) : s.Steady (s'.call hook) where
  trace := by
    refine ⟨[hook], ?_, fun call hcall => ?_⟩
    · show s'.trace ++ [hook] = _
      rw [htrace]
    · rwa [List.mem_singleton.1 hcall]
  select h := by cases h
  running _ := hrunning

theorem Steady.exit (htrace : s'.trace = s.trace) (reason : HandlerExit R) : s.Steady (s'.exit reason) where
  trace := by
    refine ⟨[.exit reason], ?_, fun call hcall => ?_⟩
    · show s'.trace ++ [.exit reason] = _
      rw [htrace]
    · rw [List.mem_singleton.1 hcall]
      rfl
  select h := by cases h
  running h := by cases h

theorem steady_onInitSignal (htrace : s'.trace = s.trace) (hstage : s'.stage = s.stage)
    (result : Option (InboxEventOf I)) : s.Steady (s'.onInitSignal result) := by
  unfold onInitSignal
  split
  · refine .exit ?_ _
    exact htrace
  · exact steady_of_eq htrace hstage
  · exact .exit htrace _
  · exact .exit htrace _

theorem steady_onInboxEvent (htrace : s'.trace = s.trace) (hrunning : s.stage.isRunning = true)
    (result : Option (InboxEventOf I)) : s.Steady (s'.onInboxEvent result) := by
  unfold onInboxEvent
  split
  · exact .exit htrace _
  all_goals
    refine .call ?_ hrunning ?_
    · exact htrace
    · rfl

theorem steady_afterInbox (s : HandlerLoop I E R) (inbox : Receiver I) : s.Steady (s.afterInbox inbox) := by
  unfold afterInbox
  split
  · refine steady_onInitSignal ?_ ?_ _ <;> rfl
  · rename_i record events hrecord hstage
    refine steady_onInboxEvent ?_ ?_ _
    · rfl
    · rw [hstage]
      rfl
  · exact steady_of_eq rfl rfl

theorem steady_of_step (he : ∀ event, e ≠ .nextEvent event) (hs : s.step e = some s') : s.Steady s' := by
  cases e with
  | nextEvent event => exact absurd rfl (he event)
  | pushMsg msg | pushSignal signal =>
    cases hs
    exact steady_of_eq rfl rfl
  | receive =>
    simp only [step] at hs
    split at hs
    · obtain ⟨inbox, -, rfl⟩ := Option.map_eq_some_iff.1 hs
      exact steady_of_eq rfl rfl
    · obtain ⟨inbox, -, rfl⟩ := Option.map_eq_some_iff.1 hs
      exact steady_of_eq rfl rfl
    · cases hs
  | poll | wake _ _ =>
    obtain ⟨inbox, -, rfl⟩ := Option.map_eq_some_iff.1 hs
    exact steady_afterInbox s inbox
  | initReturns result =>
    simp only [step] at hs
    split at hs
    · rename_i hstage
      cases result with
      | ok value =>
        cases hs
        refine .stage ?_ ?_ fun _ => ?_
        · rfl
        · exact fun h => by cases h
        · rw [hstage.1]
          rfl
      | error report =>
        cases hs
        refine .exit ?_ _
        rfl
    · cases hs
  | hookReturns result =>
    simp only [step] at hs
    split at hs
    · rename_i hstage
      cases result with
      | ok value =>
        cases hs
        refine .stage ?_ ?_ fun _ => ?_
        · rfl
        · exact fun h => by cases h
        · rw [hstage]
          rfl
      | error report =>
        cases hs
        refine .exit ?_ _
        rfl
    · cases hs
  | exitReturns =>
    simp only [step] at hs
    split at hs
    · cases hs
      refine .stage ?_ ?_ fun h => ?_
      · rfl
      · exact fun h => by cases h
      · cases h
    · cases hs

theorem nextEvent_ok {event : E} (hs : s.step (.nextEvent (some (.ok event))) = some s') :
    s.stage = .select true ∧ s'.trace = s.trace ++ [.event event] ∧ s'.stage = .hook := by
  obtain ⟨⟨hstage, -⟩, hs⟩ := Option.ite_none_right_eq_some.1 hs
  cases hs
  exact ⟨hstage, rfl, rfl⟩

theorem nextEvent_error {report : R} (hs : s.step (.nextEvent (some (.error report))) = some s') :
    s.stage = .select true ∧ s'.trace = s.trace ++ [.exit (.handlerError report)] ∧ s'.stage = .exiting := by
  obtain ⟨⟨hstage, -⟩, hs⟩ := Option.ite_none_right_eq_some.1 hs
  cases hs
  exact ⟨hstage, rfl, rfl⟩

theorem nextEvent_none (hs : s.step (.nextEvent none) = some s') :
    s'.trace = s.trace ∧ s.stage = .select true := by
  obtain ⟨⟨hstage, -⟩, hs⟩ := Option.ite_none_right_eq_some.1 hs
  cases hs
  exact ⟨rfl, hstage⟩

end HandlerLoop

/-! ## Every future comes out once -/

namespace ScheduledLoop
variable {I E R : Type} {s s' : ScheduledLoop I E R} {e : Event I E R} {k : ℕ} {fut : ScheduledFuture E R}

/-- The events that were handled. -/
def events (trace : List (HookCall I (ℕ × E) R)) : List (ℕ × E) := trace.filterMap HookCall.event?

structure Scheduled (s : ScheduledLoop I E R) : Prop where
  /-- The loop of a handler with a scheduler is the loop of a handler. -/
  loop : (HandlerLoop.runs I (ℕ × E) R).Reachable s.loop
  /-- A future waits, or it has come out, once. -/
  once : (s.futures.map ScheduledFuture.id ++ s.finished.map Prod.fst).Perm (List.range s.scheduled.length)
  kinds : ∀ fut ∈ s.futures, s.scheduled[fut.id]? = some fut.kind ∧
    ∀ result ∈ fut.result, ∃ output, fut.kind.resolve output = some result
  results : ∀ r ∈ s.finished, ∃ kind ∈ s.scheduled[r.1]?, ∃ output, kind.resolve output = some r.2
  /-- What comes out is handled at once, in that order. -/
  handled : events s.loop.trace = s.finished.filterMap scheduledEvent?
  /-- An error is the last to come out, and ends the loop. -/
  running : s.loop.stage.isRunning = true → ∀ r ∈ s.finished, r.2.isOk = true
  last : ∀ r ∈ s.finished.dropLast, r.2.isOk = true
  failed : ∀ id report, (id, .error report) ∈ s.finished → .exit (.handlerError report) ∈ s.loop.trace
  /-- The loop listens as long as there is anything to wait for. -/
  idle : s.loop.stage = .select false → s.futures = []

theorem events_append (trace calls : List (HookCall I (ℕ × E) R)) :
    events (trace ++ calls) = events trace ++ events calls := List.filterMap_append

theorem events_of_steady {loop loop' : HandlerLoop I (ℕ × E) R} (h : loop.Steady loop') :
    events loop'.trace = events loop.trace := by
  obtain ⟨calls, htrace, hcalls⟩ := h.trace
  have hnil : events calls = [] := List.filterMap_eq_nil_iff.2 hcalls
  rw [htrace, events_append, hnil, List.append_nil]

theorem Scheduled.steady (h : s.Scheduled) {loop : HandlerLoop I (ℕ × E) R}
    (hloop : (HandlerLoop.runs I (ℕ × E) R).Reachable loop) (hsteady : s.loop.Steady loop) :
    Scheduled { s with loop := loop } where
  loop := hloop
  once := h.once
  kinds := h.kinds
  results := h.results
  handled := (events_of_steady hsteady).trans h.handled
  running hrunning := h.running (hsteady.running hrunning)
  last := h.last
  failed id report hmem := by
    obtain ⟨calls, htrace, -⟩ := hsteady.trace
    show _ ∈ loop.trace
    rw [htrace]
    exact List.mem_append_left _ (h.failed id report hmem)
  idle hstage := h.idle (hsteady.select hstage)

theorem Scheduled.schedule (h : s.Scheduled) (hhook : s.runsHook = true) (kind : ScheduleKind) :
    Scheduled { s with
      futures := s.futures ++ [⟨s.scheduled.length, kind, none⟩]
      scheduled := s.scheduled ++ [kind] } where
  loop := h.loop
  once := by
    have hone := h.once
    rw [List.map_append, List.length_append, List.length_singleton, List.range_succ, List.append_assoc]
    refine List.Perm.trans ?_ (hone.append_right _)
    rw [List.append_assoc]
    exact List.perm_append_comm.append_left _
  kinds fut hmem := by
    rcases List.mem_append.1 hmem with hmem | hmem
    · obtain ⟨hkind, hresult⟩ := h.kinds fut hmem
      exact ⟨List.getElem?_concat_eq_some.2 (.inl hkind), hresult⟩
    · cases List.mem_singleton.1 hmem
      refine ⟨List.getElem?_concat_length, fun result hresult => ?_⟩
      cases hresult
  results r hmem := by
    obtain ⟨kind, hkind, hresult⟩ := h.results r hmem
    exact ⟨kind, List.getElem?_concat_eq_some.2 (.inl hkind), hresult⟩
  handled := h.handled
  running := h.running
  last := h.last
  failed := h.failed
  idle hstage := by
    have hstage : s.loop.stage = .select false := hstage
    rw [runsHook, hstage] at hhook
    cases hhook

theorem Scheduled.complete (h : s.Scheduled) (hk : s.futures[k]? = some fut) {output : Except R E}
    {result : Except R (Option E)} (hresolve : fut.kind.resolve output = some result) :
    Scheduled { s with futures := s.futures.set k { fut with result := some result } } where
  loop := h.loop
  once := by
    have hids : (s.futures.set k { fut with result := some result }).map ScheduledFuture.id =
        s.futures.map ScheduledFuture.id := List.map_set_of_eq hk rfl
    rw [hids]
    exact h.once
  kinds fut' hmem := by
    rcases List.mem_or_eq_of_mem_set hmem with hmem | rfl
    · exact h.kinds fut' hmem
    · refine ⟨(h.kinds fut (List.mem_of_getElem? hk)).1, fun result' hresult => ?_⟩
      cases hresult
      exact ⟨output, hresolve⟩
  results := h.results
  handled := h.handled
  running := h.running
  last := h.last
  failed := h.failed
  idle hstage := by
    have hnil : s.futures = [] := h.idle hstage
    rw [hnil] at hk
    cases hk

theorem Scheduled.remove (h : s.Scheduled) (hk : s.futures[k]? = some fut) {result : Except R (Option E)}
    (hresult : fut.result = some result) (hrunning : s.loop.stage = .select true)
    {loop : HandlerLoop I (ℕ × E) R} (hloop : (HandlerLoop.runs I (ℕ × E) R).Reachable loop)
    {calls : List (HookCall I (ℕ × E) R)} (htrace : loop.trace = s.loop.trace ++ calls)
    (hevents : events calls = (scheduledEvent? (fut.id, result)).toList)
    (hok : loop.stage.isRunning = true → result.isOk = true)
    (hfailed : ∀ report, result = .error report → .exit (.handlerError report) ∈ calls)
    (hidle : loop.stage ≠ .select false) : Scheduled { s.remove k fut.id result with loop := loop } where
  loop := hloop
  once := by
    obtain ⟨hlt, hget⟩ := List.getElem?_eq_some_iff.1 hk
    have hperm := (List.getElem_cons_eraseIdx_perm hlt).map ScheduledFuture.id
    rw [hget, List.map_cons] at hperm
    refine List.Perm.trans ?_ h.once
    show ((s.futures.eraseIdx k).map _ ++ (s.finished ++ [(fut.id, result)]).map _).Perm _
    rw [List.map_append, ← List.append_assoc]
    refine List.Perm.trans List.perm_append_comm ?_
    exact hperm.append_right _
  kinds fut' hmem := h.kinds fut' (List.mem_of_mem_eraseIdx hmem)
  results r hmem := by
    rcases List.mem_append.1 hmem with hmem | hmem
    · exact h.results r hmem
    · rw [List.mem_singleton.1 hmem]
      obtain ⟨hkind, hresolve⟩ := h.kinds fut (List.mem_of_getElem? hk)
      exact ⟨fut.kind, hkind, hresolve result hresult⟩
  handled := by
    show events loop.trace = (s.finished ++ [(fut.id, result)]).filterMap scheduledEvent?
    rw [htrace, events_append, hevents, h.handled, List.filterMap_append, List.filterMap_cons]
    cases scheduledEvent? (fut.id, result) <;> rfl
  running hstage r hmem := by
    rcases List.mem_append.1 hmem with hmem | hmem
    · exact h.running (by rw [hrunning]; rfl) r hmem
    · rw [List.mem_singleton.1 hmem]
      exact hok hstage
  last r hmem := by
    have hmem : r ∈ (s.finished ++ [(fut.id, result)]).dropLast := hmem
    rw [List.dropLast_concat] at hmem
    exact h.running (by rw [hrunning]; rfl) r hmem
  failed id report hmem := by
    show _ ∈ loop.trace
    rw [htrace]
    rcases List.mem_append.1 hmem with hmem | hmem
    · exact List.mem_append_left _ (h.failed id report hmem)
    · cases List.mem_singleton.1 hmem
      exact List.mem_append_right _ (hfailed report rfl)
  idle hstage := absurd hstage hidle

theorem Scheduled.take (h : s.Scheduled) (hs : s.step (.take k) = some s') : s'.Scheduled := by
  obtain ⟨fut, hk, hs⟩ := Option.bind_eq_some_iff.1 hs
  obtain ⟨result, hresult, hs⟩ := Option.bind_eq_some_iff.1 hs
  obtain ⟨⟨hstage, -⟩, hs⟩ := Option.ite_none_right_eq_some.1 hs
  cases result with
  | error report =>
    obtain ⟨loop, hloop, rfl⟩ := Option.map_eq_some_iff.1 hs
    obtain ⟨-, htrace, hexiting⟩ := HandlerLoop.nextEvent_error hloop
    refine h.remove hk hresult hstage (.step h.loop hloop) htrace rfl (fun hrunning => ?_)
      (fun report' heq => ?_) ?_
    · rw [hexiting] at hrunning
      cases hrunning
    · cases heq
      exact List.mem_singleton_self _
    · rw [hexiting]
      exact fun heq => by cases heq
  | ok event =>
    cases event with
    | some event =>
      obtain ⟨loop, hloop, rfl⟩ := Option.map_eq_some_iff.1 hs
      obtain ⟨-, htrace, hhook⟩ := HandlerLoop.nextEvent_ok hloop
      refine h.remove hk hresult hstage (.step h.loop hloop) htrace rfl (fun _ => rfl)
        (fun report' heq => ?_) ?_
      · cases heq
      · rw [hhook]
        exact fun heq => by cases heq
    | none =>
      cases hs
      refine h.remove hk hresult hstage h.loop (List.append_nil _).symm rfl (fun _ => rfl)
        (fun report' heq => ?_) ?_
      · cases heq
      · rw [hstage]
        exact fun heq => by cases heq

theorem Scheduled.takeNone (h : s.Scheduled) (hs : s.step .takeNone = some s') : s'.Scheduled := by
  obtain ⟨hnil, hs⟩ := Option.ite_none_right_eq_some.1 hs
  obtain ⟨loop, hloop, rfl⟩ := Option.map_eq_some_iff.1 hs
  obtain ⟨htrace, hstage⟩ := HandlerLoop.nextEvent_none hloop
  have hrunning : s.loop.stage.isRunning = true := by rw [hstage]; rfl
  exact ⟨.step h.loop hloop, h.once, h.kinds, h.results, (congrArg events htrace).trans h.handled,
    fun _ => h.running hrunning, h.last, fun id report hmem => htrace ▸ h.failed id report hmem,
    fun _ => hnil⟩

theorem Scheduled.step (h : s.Scheduled) (hs : s.step e = some s') : s'.Scheduled := by
  cases e with
  | schedule kind =>
    obtain ⟨hhook, hs⟩ := Option.ite_none_right_eq_some.1 hs
    cases hs
    exact h.schedule hhook kind
  | complete k output =>
    obtain ⟨fut, hk, hs⟩ := Option.bind_eq_some_iff.1 hs
    obtain ⟨result, hresolve, hs⟩ := Option.bind_eq_some_iff.1 hs
    obtain ⟨-, hs⟩ := Option.ite_none_right_eq_some.1 hs
    cases hs
    exact h.complete hk hresolve
  | take k => exact h.take hs
  | takeNone => exact h.takeNone hs
  | loop e =>
    have hother : ∀ event, e ≠ .nextEvent event := by
      rintro event rfl
      cases hs
    have hs : (s.loop.step e).map (fun loop => { s with loop := loop }) = some s' := by
      cases e with
      | nextEvent event => exact absurd rfl (hother event)
      | _ => exact hs
    obtain ⟨loop, hloop, rfl⟩ := Option.map_eq_some_iff.1 hs
    exact h.steady (.step h.loop hloop) (HandlerLoop.steady_of_step hother hloop)

/-- Whatever is sent to the actor, and whenever its futures are ready. -/
theorem scheduled_of_reachable (h : (runs I E R).Reachable s) : s.Scheduled := by
  refine h.invariant (I := Scheduled) ?_ fun _ _ _ hI hs => hI.step hs
  rintro _ rfl
  refine ⟨.init rfl, .refl _, ?_, ?_, rfl, ?_, ?_, ?_, fun _ => rfl⟩
  · intro fut hmem
    cases hmem
  · intro r hmem
    cases hmem
  · intro _ r hmem
    cases hmem
  · intro r hmem
    cases hmem
  · intro id report hmem
    cases hmem

/-- `init` schedules a future and a message; the message is handled, and nothing is left. -/
theorem scheduled_of_reachable_init : ∃ s, (runs ℕ ℕ String).Reachable s ∧
    (s.loop.trace = [.init, .event (1, 7)] ∧ s.finished.length = 2 ∧ s.loop.stage = .select false) ∧
    s.Scheduled := by
  obtain ⟨s, hs, hp⟩ : ∃ s, (runs ℕ ℕ String).Reachable s ∧ _ :=
    Lts.exists_reachable_of_exec (f := step)
      (p := fun s : ScheduledLoop ℕ ℕ String => s.loop.trace = [.init, .event (1, 7)] ∧
        s.finished.length = 2 ∧ s.loop.stage = .select false)
      (s := new) rfl
      [.schedule .fut, .schedule .msg, .loop (.initReturns (.ok ())), .complete 1 (.ok 7),
        .complete 0 (.ok 0), .take 0, .take 0, .loop (.hookReturns (.ok ())), .takeNone]
      (by decide +kernel)
  exact ⟨s, hs, hp, scheduled_of_reachable hs⟩

end ScheduledLoop

end Zestors
