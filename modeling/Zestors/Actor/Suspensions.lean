import Zestors.Actor.Handler
import Mathlib.Data.List.Chain

/-!
# What a suspended handler does

The run of a handler cut into periods, one for each time that its actor is in a status.

An event of the handler is taken while the actor is suspended, a suspend that comes during `init` is never
reported, and one that comes while the actor is suspended is reported again. `pauses_of_regular` says
that without these three a suspended handler handles nothing, and that its hooks come in pairs.
-/

namespace Zestors

theorem ActorStatus.handleSignal_of_none {status : ActorStatus} {signal : SignalInterface}
    (h : (status.handleSignal signal).2 = none) : (status.handleSignal signal).1 = status := by
  cases signal with
  | shutdown => cases h
  | suspend | resume =>
    unfold handleSignal at h ⊢
    dsimp only at h ⊢
    split
    · rfl
    · rename_i hne
      rw [if_neg hne] at h
      cases h
  | ping => rfl

/-- What the event loop sees of a signal, and what has become of the status. -/
theorem ActorStatus.handleSignal_of_some {status status' : ActorStatus} {signal : SignalInterface}
    {event : Signal} (h : status.handleSignal signal = (status', some event)) :
    event = .shutdown ∧ (status' = exiting ∨ status' = status ∧ status ≠ suspended) ∨
      event = .suspend ∧ signal = .suspend ∧ (status = running ∧ status' = suspended ∨ status' = status) ∨
        event = .resume ∧ status = suspended ∧ status' = running := by
  cases signal with
  | shutdown =>
    cases h
    refine .inl ⟨rfl, ?_⟩
    cases status with
    | exited => exact .inr ⟨rfl, ActorStatus.noConfusion⟩
    | initializing | running | suspended | exiting => exact .inl rfl
  | suspend =>
    cases status with
    | exiting => cases h
    | running =>
      cases h
      exact .inr (.inl ⟨rfl, rfl, .inl ⟨rfl, rfl⟩⟩)
    | exited | initializing | suspended =>
      cases h
      exact .inr (.inl ⟨rfl, rfl, .inr rfl⟩)
  | resume =>
    cases status with
    | suspended =>
      cases h
      exact .inr (.inr ⟨rfl, rfl, rfl⟩)
    | exited | initializing | running | exiting => cases h
  | ping => cases h

namespace HookCall
variable {I E R : Type}

/-- A message or an event is handled. -/
def handles : HookCall I E R → Bool
  | handle _ | event _ => true
  | init | onResume | onSuspend | onShutdown | exit _ => false

def isExit : HookCall I E R → Bool
  | exit _ => true
  | _ => false

end HookCall

/-- The time that an actor is in a status: the calls that begin in it, and what it takes from
`next_event`. -/
structure Period (I E R : Type) where
  status : ActorStatus
  calls : List (HookCall I E R)
  results : List (Except R E)

namespace Period
variable {I E R : Type}

/-- `p` is no suspension, or it begins with the only call of `on_suspend` in it. -/
def Opened (p : Period I E R) : Prop :=
  p.status = .suspended → ∃ rest, p.calls = .onSuspend :: rest ∧ .onSuspend ∉ rest

/-- Nothing is handled in `p`, if it is a suspension. -/
def Quiet (p : Period I E R) : Prop :=
  p.status = .suspended → p.results = [] ∧ ∀ hook ∈ p.calls, hook.handles = false

/-- A suspension `p` ends when `q` begins; a resume ends it with the only call of `on_resume`. -/
def Closes (q p : Period I E R) : Prop :=
  p.status = .suspended → q.status = .running ∧ .onResume ∉ p.calls ∧
    (∃ rest, q.calls = .onResume :: rest ∧ .onResume ∉ rest) ∨ q.status = .exiting

/-- In a suspension nothing follows `on_suspend` but an `exit`. -/
def Held (p : Period I E R) : Prop :=
  p.status = .suspended → p.results = [] ∧
    ∃ rest, p.calls = .onSuspend :: rest ∧ ∀ hook ∈ rest, hook.isExit = true

end Period

/-- A handler and the periods of its run. -/
structure Suspensions (I E R : Type) where
  loop : HandlerLoop I E R
  period : Period I E R
  /-- The last one first. -/
  past : List (Period I E R)

namespace Suspensions
variable {I E R : Type} {s s' : Suspensions I E R} {e : HandlerLoop.Event I E R}

def new : Suspensions I E R := ⟨.new, ⟨.initializing, [.init], []⟩, []⟩

def periods (s : Suspensions I E R) : List (Period I E R) := s.period :: s.past

/-- What `run_once` takes from `next_event`. -/
def result? : HandlerLoop.Event I E R → Option (Except R E)
  | .nextEvent result => result
  | _ => none

/-- The loop has made some calls; if the status is another one, they begin a period. -/
def after (s : Suspensions I E R) (loop : HandlerLoop I E R) (e : HandlerLoop.Event I E R) :
    Suspensions I E R :=
  let calls := loop.trace.drop s.loop.trace.length
  if loop.inbox.status = s.loop.inbox.status then
    { s with
      loop := loop
      period := { s.period with
        calls := s.period.calls ++ calls
        results := s.period.results ++ (result? e).toList } }
  else ⟨loop, ⟨loop.inbox.status, calls, (result? e).toList⟩, s.period :: s.past⟩

def step (s : Suspensions I E R) (e : HandlerLoop.Event I E R) : Option (Suspensions I E R) :=
  (s.loop.step e).map fun loop => s.after loop e

/-- Every handler, and every order of signals, messages and events. -/
def runs (I E R : Type) : Lts (Suspensions I E R) (HandlerLoop.Event I E R) :=
  Lts.ofFun (fun s => s = new) step

/-- What is asked of a suspended handler. -/
structure Pauses (s : Suspensions I E R) : Prop where
  quiet : ∀ p ∈ s.periods, p.Quiet
  opened : ∀ p ∈ s.periods, p.Opened
  closed : s.periods.IsChain Period.Closes

/-- The poll takes a suspend from the queue. -/
def takesSuspend (s : HandlerLoop I E R) : Bool :=
  match s.inbox.current, s.inbox.signalQueue with
  | some ⟨_, .signals _ _, _, _, _⟩, .suspend :: _ => true
  | _, _ => false

/-- A suspended handler takes nothing from `next_event`, and no suspend comes during `init` or while the
actor is suspended already. -/
def Regular (s : Suspensions I E R) : HandlerLoop.Event I E R → Prop
  | .nextEvent (some _) => s.loop.inbox.status ≠ .suspended
  | .poll => takesSuspend s.loop = true →
    s.loop.inbox.status ≠ .suspended ∧ (s.loop.stage = .init → s.loop.inbox.status ≠ .running)
  | _ => True

instance (s : Suspensions I E R) (e : HandlerLoop.Event I E R) : Decidable (s.Regular e) :=
  match e with
  | .nextEvent (some _) => inferInstanceAs (Decidable (_ ≠ _))
  | .poll => inferInstanceAs (Decidable (_ → _))
  | .nextEvent none | .pushMsg _ | .pushSignal _ | .receive | .wake _ _ | .initReturns _
  | .hookReturns _ | .exitReturns => .isTrue trivial

end Suspensions

/-! ## Polls of the loop -/

namespace Receiver
variable {I : Type} {s s' : Receiver I} {r : Receive}

theorem readStatus_cases : s.readStatus r = s.advance r (.signals false false) ∨
    s.status ≠ .suspended ∧
      (s.readStatus r = s.finish r none ∨ s.readStatus r = s.advance r (.signals true true)) := by
  unfold readStatus
  cases hstatus : s.status with
  | suspended => exact .inl rfl
  | initializing | running => exact .inr ⟨ActorStatus.noConfusion, .inr rfl⟩
  | exiting | exited =>
    refine .inr ⟨ActorStatus.noConfusion, ?_⟩
    dsimp only
    split
    · exact .inl rfl
    · exact .inr rfl

/-- A poll ends with a signal, with a message if it may take one, or without either if the actor is not
suspended; or it goes on, and takes no message in its place if it could take none. -/
theorem pollOutcome_cases (hs : s.poll r = some s') (hkind : r.kind = .recvSignal ∨ r.kind = .recvEvent) :
    (s'.status = s.status ∧ s'.finished = s.finished ∧ ∀ r' ∈ s'.current,
      s.status = .suspended → r.stage.takesMsgs = false → r'.stage.takesMsgs = false) ∨
    s'.current = none ∧ ∃ record, s'.finished = s.finished ++ [record] ∧
      ((∃ signal event queue, s.signalQueue = signal :: queue ∧
          (∃ select thenMsgs, r.stage = .signals select thenMsgs) ∧
          s.status.handleSignal signal = (s'.status, some event) ∧
          record.result = some (.signal event)) ∨
        s'.status = s.status ∧
          (r.stage.takesMsgs = true ∧ (∃ msg, record.result = some (.message msg)) ∨
            s.status ≠ .suspended ∧ record.result = none)) := by
  have hrecv : r.kind ≠ .recv ∧ r.kind ≠ .tryRecv := by
    rcases hkind with h | h <;> rw [h] <;> exact ⟨ReceiveKind.noConfusion, ReceiveKind.noConfusion⟩
  unfold Receiver.poll at hs
  split at hs
  · cases hs
    rcases readStatus_cases (s := s) (r := r) with heq | ⟨hstatus, heq | heq⟩
    · rw [heq]
      refine .inl ⟨rfl, rfl, fun r' hr' _ _ => ?_⟩
      cases hr'
      rfl
    · rw [heq]
      exact .inr ⟨rfl, _, rfl, .inr ⟨rfl, .inr ⟨hstatus, rfl⟩⟩⟩
    · rw [heq]
      exact .inl ⟨rfl, rfl, fun r' hr' hsusp => absurd hsusp hstatus⟩
  · rename_i select thenMsgs hstage
    split at hs
    · cases hs
      split
      · rename_i hboth
        refine .inl ⟨rfl, rfl, fun r' hr' _ htakes => ?_⟩
        rw [hstage] at htakes
        have htakes : select = false := htakes
        rw [htakes] at hboth
        cases hboth
      · unfold rest
        rw [if_neg hrecv.2]
        refine .inl ⟨rfl, rfl, fun r' hr' _ htakes => ?_⟩
        cases hr'
        rw [hstage] at htakes
        exact htakes
    · rename_i signal queue hqueue
      cases hs
      unfold popSignal
      dsimp only
      split
      · rename_i hnone
        refine .inl ⟨?_, rfl, fun r' hr' _ htakes => ?_⟩
        · exact ActorStatus.handleSignal_of_none hnone
        · cases hr'
          exact htakes
      · rename_i event hevent
        rw [if_neg hrecv.1]
        exact .inr ⟨rfl, _, rfl, .inl ⟨signal, event, queue, hqueue, ⟨_, _, hstage⟩,
          Prod.ext rfl hevent, rfl⟩⟩
  · rename_i hstage
    split at hs
    · cases hs
      unfold rest
      rw [if_neg hrecv.2]
      refine .inl ⟨rfl, rfl, fun r' hr' _ htakes => ?_⟩
      rw [hstage] at htakes
      cases htakes
    · rename_i msg queue hqueue
      cases hs
      refine .inr ⟨rfl, _, rfl, .inr ⟨rfl, .inl ⟨?_, msg, rfl⟩⟩⟩
      rw [hstage]
      rfl
  · cases hs

theorem wake_takesMsgs {signal msg : Bool} (hs : s.wake r signal msg = some s') :
    s'.status = s.status ∧ s'.finished = s.finished ∧ ∀ r' ∈ s'.current,
      r.stage.takesMsgs = false → r'.stage.takesMsgs = false := by
  unfold Receiver.wake at hs
  split at hs
  · rename_i select hstage
    split at hs
    · cases hs
      refine ⟨rfl, rfl, fun r' hr' htakes => ?_⟩
      cases hr'
      rw [hstage] at htakes
      exact htakes
    · split at hs
      · rename_i hboth
        cases hs
        refine ⟨rfl, rfl, fun r' hr' htakes => ?_⟩
        rw [hstage] at htakes
        have htakes : select = false := htakes
        rw [htakes] at hboth
        cases hboth
      · cases hs
  · cases hs

end Receiver

namespace Period
variable {I E R : Type} {p q : Period I E R} {calls : List (HookCall I E R)}

theorem Held.opened (h : p.Held) : p.Opened := fun hstatus => by
  obtain ⟨-, rest, hcalls, hexit⟩ := h hstatus
  refine ⟨rest, hcalls, fun hmem => ?_⟩
  cases hexit _ hmem

theorem Held.quiet (h : p.Held) : p.Quiet := fun hstatus => by
  obtain ⟨hresults, rest, hcalls, hexit⟩ := h hstatus
  refine ⟨hresults, fun hook hmem => ?_⟩
  rw [hcalls] at hmem
  rcases List.mem_cons.1 hmem with rfl | hmem
  · rfl
  · have hexit := hexit hook hmem
    cases hook with
    | exit reason => rfl
    | init | handle msg | event event | onResume | onSuspend | onShutdown => cases hexit

theorem Held.onResume_notMem (h : p.Held) (hstatus : p.status = .suspended) : .onResume ∉ p.calls := by
  obtain ⟨-, rest, hcalls, hexit⟩ := h hstatus
  intro hmem
  rw [hcalls] at hmem
  rcases List.mem_cons.1 hmem with heq | hmem
  · cases heq
  · cases hexit _ hmem

theorem Closes.append (h : q.Closes p) {results : List (Except R E)} (hcalls : .onResume ∉ calls) :
    Closes { q with calls := q.calls ++ calls, results := results } p := fun hstatus => by
  rcases h hstatus with ⟨hrunning, hnot, rest, hrest, hmem⟩ | hexiting
  · refine .inl ⟨hrunning, hnot, rest ++ calls, ?_, ?_⟩
    · show q.calls ++ calls = _
      rw [hrest]
      rfl
    · rw [List.mem_append]
      exact fun h => h.elim hmem hcalls
  · exact .inr hexiting

end Period

namespace Suspensions
variable {I E R : Type} {s s' : Suspensions I E R} {e : HandlerLoop.Event I E R}
  {loop : HandlerLoop I E R} {calls : List (HookCall I E R)}

/-- The invariant. -/
structure Paced (s : Suspensions I E R) : Prop where
  loop : s.loop.WellFormed
  status_eq : s.period.status = s.loop.inbox.status
  held : ∀ p ∈ s.periods, p.Held
  closed : s.periods.IsChain Period.Closes
  initialized : s.loop.inbox.status = .suspended → s.loop.stage ≠ .init
  takesNone : s.loop.inbox.status = .suspended →
    ∀ r ∈ s.loop.inbox.current, r.stage.takesMsgs = false

theorem paced_new : (new : Suspensions I E R).Paced where
  loop := HandlerLoop.wellFormed_new
  status_eq := rfl
  held := by
    intro p hp hstatus
    obtain rfl := List.mem_singleton.1 hp
    cases hstatus
  closed := List.isChain_singleton _
  initialized hstatus := by cases hstatus
  takesNone hstatus := by cases hstatus

theorem Paced.pauses (h : s.Paced) : s.Pauses where
  quiet p hp := (h.held p hp).quiet
  opened p hp := (h.held p hp).opened
  closed := h.closed

/-! ## Steps -/

/-- The status is as it was. While the actor is suspended, there may only be an `exit`. -/
theorem Paced.stay (h : s.Paced) (calls : List (HookCall I E R)) (hloop : loop.WellFormed)
    (htrace : loop.trace = s.loop.trace ++ calls)
    (hstatus : loop.inbox.status = s.loop.inbox.status) (hresume : .onResume ∉ calls)
    (hheld : s.loop.inbox.status = .suspended → (∀ hook ∈ calls, hook.isExit = true) ∧
      result? e = none ∧ loop.stage ≠ .init ∧ ∀ r ∈ loop.inbox.current, r.stage.takesMsgs = false) :
    (s.after loop e).Paced := by
  have hafter : s.after loop e = { s with
      loop := loop
      period := { s.period with
        calls := s.period.calls ++ calls
        results := s.period.results ++ (result? e).toList } } := by
    unfold after
    simp only [hstatus, if_true, htrace, List.drop_left]
  rw [hafter]
  refine ⟨hloop, h.status_eq.trans hstatus.symm, fun p hp hsusp => ?_, ?_,
    fun hsusp => (hheld (hstatus.symm.trans hsusp)).2.2.1,
    fun hsusp => (hheld (hstatus.symm.trans hsusp)).2.2.2⟩
  · rcases List.mem_cons.1 hp with rfl | hp
    · obtain ⟨hexit, hnone, -⟩ := hheld (h.status_eq.symm.trans hsusp)
      obtain ⟨hresults, rest, hcalls, hrest⟩ := h.held _ List.mem_cons_self hsusp
      refine ⟨?_, rest ++ calls, ?_, fun hook hook_mem => ?_⟩
      · show s.period.results ++ (result? e).toList = []
        rw [hresults, hnone]
        rfl
      · show s.period.calls ++ calls = _
        rw [hcalls]
        rfl
      · exact (List.mem_append.1 hook_mem).elim (hrest hook) (hexit hook)
    · exact h.held p (List.mem_cons_of_mem _ hp) hsusp
  · have hclosed := h.closed
    unfold periods at hclosed ⊢
    dsimp only
    cases hpast : s.past with
    | nil => exact List.isChain_singleton _
    | cons p past =>
      rw [hpast] at hclosed
      obtain ⟨hcloses, hchain⟩ := List.isChain_cons_cons.1 hclosed
      exact List.isChain_cons_cons.2 ⟨hcloses.append hresume, hchain⟩

theorem Paced.turn (h : s.Paced) (calls : List (HookCall I E R)) (hloop : loop.WellFormed)
    (htrace : loop.trace = s.loop.trace ++ calls)
    (hstatus : loop.inbox.status ≠ s.loop.inbox.status)
    (hopens : loop.inbox.status = .suspended → calls = [.onSuspend] ∧ result? e = none ∧
      loop.stage ≠ .init ∧ loop.inbox.current = none)
    (hcloses : s.loop.inbox.status = .suspended →
      loop.inbox.status = .running ∧ calls = [.onResume] ∨ loop.inbox.status = .exiting) :
    (s.after loop e).Paced := by
  have hafter : s.after loop e =
      ⟨loop, ⟨loop.inbox.status, calls, (result? e).toList⟩, s.period :: s.past⟩ := by
    unfold after
    simp only [hstatus, if_false, htrace, List.drop_left]
  rw [hafter]
  refine ⟨hloop, rfl, fun p hp hsusp => ?_, List.isChain_cons_cons.2 ⟨fun hsusp => ?_, h.closed⟩,
    fun hsusp => (hopens hsusp).2.2.1, fun hsusp r hr => ?_⟩
  · rcases List.mem_cons.1 hp with rfl | hp
    · obtain ⟨hcalls, hnone, -⟩ := hopens hsusp
      refine ⟨?_, [], hcalls, fun hook hmem => ?_⟩
      · show (result? e).toList = []
        rw [hnone]
        rfl
      · cases hmem
    · exact h.held p hp hsusp
  · rcases hcloses (h.status_eq.symm.trans hsusp) with ⟨hrunning, hcalls⟩ | hexiting
    · exact .inl ⟨hrunning, (h.held _ List.mem_cons_self).onResume_notMem hsusp, [], hcalls,
        List.not_mem_nil⟩
    · exact .inr hexiting
  · have hr : loop.inbox.current = some r := hr
    rw [(hopens hsusp).2.2.2] at hr
    cases hr

theorem maybeAutoInit_status (inbox : Receiver I) : inbox.maybeAutoInit.status = inbox.status ∨
    inbox.status = .initializing ∧ inbox.maybeAutoInit.status = .running := by
  unfold Receiver.maybeAutoInit
  split
  · unfold Receiver.registerInitialized
    split
    · exact .inl rfl
    · cases hstatus : inbox.status with
      | initializing => exact .inr ⟨rfl, rfl⟩
      | running | suspended | exiting | exited => exact .inl rfl
  · exact .inl rfl

theorem Paced.idle (h : s.Paced) (hloop : loop.WellFormed) (htrace : loop.trace = s.loop.trace)
    (hstatus : loop.inbox.status = s.loop.inbox.status) (hresult : result? e = none)
    (hinit : s.loop.stage ≠ .init → loop.stage ≠ .init)
    (htakes : s.loop.inbox.status = .suspended →
      ∀ r ∈ loop.inbox.current, r.stage.takesMsgs = false) : (s.after loop e).Paced := by
  refine h.stay [] hloop (htrace.trans (List.append_nil _).symm) hstatus List.not_mem_nil
    fun hsusp => ⟨?_, hresult, hinit (h.initialized hsusp), htakes hsusp⟩
  intro hook hmem
  cases hmem

theorem Paced.receive (h : s.Paced) {kind : ReceiveKind} {inbox : Receiver I}
    (hs : s.loop.inbox.step (.receive kind) = some inbox)
    (hloop : HandlerLoop.WellFormed { s.loop with inbox := inbox }) (hresult : result? e = none) :
    (s.after { s.loop with inbox := inbox } e).Paced := by
  obtain ⟨-, rfl⟩ := Receiver.whileIdle_eq_some hs
  rcases maybeAutoInit_status s.loop.inbox with hsame | ⟨hbefore, hafter⟩
  · refine h.idle hloop rfl hsame hresult id fun hsusp r hr => ?_
    cases hr
    dsimp only
    split <;> rfl
  · have hrunning : (s.loop.inbox.beginReceive kind).status = .running := hafter
    refine h.turn [] hloop (List.append_nil _).symm ?_ (fun hsusp => ?_) fun hsusp => ?_
    · dsimp only
      rw [hrunning, hbefore]
      exact ActorStatus.noConfusion
    · have hsusp : (s.loop.inbox.beginReceive kind).status = .suspended := hsusp
      rw [hrunning] at hsusp
      cases hsusp
    · rw [hbefore] at hsusp
      cases hsusp

theorem Paced.awake (h : s.Paced) (calls : List (HookCall I E R)) (hloop : loop.WellFormed)
    (htrace : loop.trace = s.loop.trace ++ calls) (hresume : .onResume ∉ calls)
    (hbefore : s.loop.inbox.status ≠ .suspended)
    (hstatus : loop.inbox.status = s.loop.inbox.status) : (s.after loop e).Paced :=
  h.stay calls hloop htrace hstatus hresume fun hsusp => absurd hsusp hbefore

theorem Paced.apart (h : s.Paced) (calls : List (HookCall I E R)) (hloop : loop.WellFormed)
    (htrace : loop.trace = s.loop.trace ++ calls)
    (hresume : .onResume ∉ calls) (hbefore : s.loop.inbox.status ≠ .suspended)
    (hafter : loop.inbox.status ≠ .suspended) : (s.after loop e).Paced := by
  by_cases hstatus : loop.inbox.status = s.loop.inbox.status
  · exact h.awake _ hloop htrace hresume hbefore hstatus
  · exact h.turn _ hloop htrace hstatus (fun hsusp => absurd hsusp hafter) fun hsusp =>
      absurd hsusp hbefore

theorem onInitSignal_trace (loop : HandlerLoop I E R) (result : Option (InboxEventOf I)) :
    (loop.onInitSignal result).inbox = loop.inbox ∧
      ∃ calls, (loop.onInitSignal result).trace = loop.trace ++ calls ∧ .onResume ∉ calls := by
  unfold HandlerLoop.onInitSignal
  split
  · exact ⟨rfl, [.exit .initCancelled], rfl, by simp⟩
  · exact ⟨rfl, [], (List.append_nil _).symm, List.not_mem_nil⟩
  · exact ⟨rfl, [.exit .initCancelled], rfl, by simp⟩
  · exact ⟨rfl, [.exit .initCancelled], rfl, by simp⟩

variable {r : Receive} {inbox : Receiver I} {record : Received I}

theorem Paced.signal (h : s.Paced) {event : Signal} {signal : SignalInterface}
    (hhandle : s.loop.inbox.status.handleSignal signal = (inbox.status, some event))
    (hregular : signal = .suspend → s.loop.inbox.status ≠ .suspended) (hidle : inbox.current = none)
    (hloop : ({ s.loop with inbox := inbox }.onInboxEvent (some (.signal event))).WellFormed) :
    (s.after ({ s.loop with inbox := inbox }.onInboxEvent (some (.signal event))) .poll).Paced := by
  rcases ActorStatus.handleSignal_of_some hhandle with
    ⟨rfl, hstatus⟩ | ⟨rfl, rfl, hstatus⟩ | ⟨rfl, hbefore, hafter⟩
  · have htrace : ({ s.loop with inbox := inbox }.onInboxEvent (some (.signal .shutdown))).trace =
      s.loop.trace ++ [.onShutdown] := rfl
    rcases hstatus with hexiting | ⟨hsame, hne⟩
    · by_cases hsusp : s.loop.inbox.status = .suspended
      · have hother : inbox.status ≠ s.loop.inbox.status := by
          rw [hexiting, hsusp]
          exact ActorStatus.noConfusion
        refine h.turn _ hloop htrace hother (fun hafter => ?_) fun _ => .inr hexiting
        have hafter : inbox.status = .suspended := hafter
        rw [hexiting] at hafter
        cases hafter
      · refine h.apart _ hloop htrace (by simp) hsusp ?_
        show inbox.status ≠ .suspended
        rw [hexiting]
        exact ActorStatus.noConfusion
    · exact h.awake _ hloop htrace (by simp) hne hsame
  · have htrace : ({ s.loop with inbox := inbox }.onInboxEvent (some (.signal .suspend))).trace =
      s.loop.trace ++ [.onSuspend] := rfl
    have hbefore := hregular rfl
    rcases hstatus with ⟨hrunning, hsusp⟩ | hsame
    · have hother : inbox.status ≠ s.loop.inbox.status := by
        rw [hsusp]
        exact hbefore.symm
      exact h.turn _ hloop htrace hother (fun _ => ⟨rfl, rfl, LoopStage.noConfusion, hidle⟩)
        fun hsusp => absurd hsusp hbefore
    · exact h.awake _ hloop htrace (by simp) hbefore hsame
  · have htrace : ({ s.loop with inbox := inbox }.onInboxEvent (some (.signal .resume))).trace =
      s.loop.trace ++ [.onResume] := rfl
    have hother : inbox.status ≠ s.loop.inbox.status := by
      rw [hafter, hbefore]
      exact ActorStatus.noConfusion
    refine h.turn _ hloop htrace hother (fun hsusp => ?_) fun _ => .inl ⟨hafter, rfl⟩
    have hsusp : inbox.status = .suspended := hsusp
    rw [hafter] at hsusp
    cases hsusp

theorem afterInbox_of_finished (hfinished : inbox.finished = s.loop.inbox.finished ++ [record]) :
    s.loop.stage = .init ∧
        s.loop.afterInbox inbox = { s.loop with inbox := inbox }.onInitSignal record.result ∨
      (∃ events, s.loop.stage = .select events) ∧
        s.loop.afterInbox inbox = { s.loop with inbox := inbox }.onInboxEvent record.result ∨
      s.loop.stage ≠ .init ∧ ∀ events, s.loop.stage ≠ .select events := by
  have hlast : inbox.finished[s.loop.inbox.finished.length]? = some record := by
    rw [hfinished, List.getElem?_concat_length]
  cases hstage : s.loop.stage with
  | init =>
    refine .inl ⟨rfl, ?_⟩
    simp only [HandlerLoop.afterInbox, hlast, hstage]
  | select events =>
    refine .inr (.inl ⟨⟨events, rfl⟩, ?_⟩)
    simp only [HandlerLoop.afterInbox, hlast, hstage]
  | hook | exiting | done => exact .inr (.inr ⟨LoopStage.noConfusion, fun _ => LoopStage.noConfusion⟩)

theorem afterInbox_of_eq (hfinished : inbox.finished = s.loop.inbox.finished) :
    s.loop.afterInbox inbox = { s.loop with inbox := inbox } := by
  unfold HandlerLoop.afterInbox
  rw [hfinished, List.getElem?_eq_none (le_refl _)]

theorem takesSuspend_of {queue : List SignalInterface} {select thenMsgs : Bool}
    (hr : s.loop.inbox.current = some r) (hstage : r.stage = .signals select thenMsgs)
    (hqueue : s.loop.inbox.signalQueue = .suspend :: queue) : takesSuspend s.loop = true := by
  obtain ⟨kind, stage, begun, owed, processed⟩ := r
  obtain rfl := hstage
  unfold takesSuspend
  rw [hr, hqueue]

theorem Paced.poll (h : s.Paced) (hregular : s.Regular .poll) (hr : s.loop.inbox.current = some r)
    (hpoll : s.loop.inbox.poll r = some inbox) (hloop : (s.loop.afterInbox inbox).WellFormed) :
    (s.after (s.loop.afterInbox inbox) .poll).Paced := by
  have hkind : r.kind = .recvSignal ∨ r.kind = .recvEvent := by
    rcases h.loop.kinds r hr with ⟨-, hkind⟩ | ⟨_, -, hkind⟩
    · exact .inl hkind
    · exact .inr hkind
  rcases Receiver.pollOutcome_cases hpoll hkind with
    ⟨hstatus, hfinished, htakes⟩ | ⟨hidle, record, hfinished, hresult⟩
  · rw [afterInbox_of_eq hfinished] at hloop ⊢
    exact h.idle hloop rfl hstatus rfl id fun hsusp r' hr' =>
      htakes r' hr' hsusp (h.takesNone hsusp r hr)
  rcases afterInbox_of_finished hfinished with ⟨hstage, hafter⟩ | ⟨⟨events, hstage⟩, hafter⟩ | hnone
  · -- In `init` the status is never `Suspended`.
    have hbefore : s.loop.inbox.status ≠ .suspended := fun hsusp => h.initialized hsusp hstage
    have hnot : inbox.status ≠ .suspended := by
      rcases hresult with ⟨signal, event, queue, hqueue, ⟨select, thenMsgs, hr'⟩, hhandle, -⟩ | ⟨hsame, -⟩
      · rcases ActorStatus.handleSignal_of_some hhandle with
          ⟨-, hexiting | ⟨hsame, -⟩⟩ | ⟨-, rfl, ⟨hrunning, -⟩ | hsame⟩ | ⟨-, hsusp, -⟩
        · rw [hexiting]
          exact ActorStatus.noConfusion
        · rwa [hsame]
        · exact absurd hrunning ((hregular (takesSuspend_of hr hr' hqueue)).2 hstage)
        · rwa [hsame]
        · exact absurd hsusp hbefore
      · rwa [hsame]
    obtain ⟨hinbox, calls, htrace, hresume⟩ :=
      onInitSignal_trace { s.loop with inbox := inbox } record.result
    rw [hafter] at hloop ⊢
    refine h.apart _ hloop htrace hresume hbefore ?_
    rw [hinbox]
    exact hnot
  · rw [hafter] at hloop ⊢
    rcases hresult with ⟨signal, event, queue, hqueue, ⟨select, thenMsgs, hr'⟩, hhandle, hresult⟩ |
      ⟨hsame, ⟨htakes, msg, hresult⟩ | ⟨hbefore, hresult⟩⟩
    · rw [hresult] at hloop ⊢
      refine h.signal hhandle ?_ hidle hloop
      rintro rfl
      exact (hregular (takesSuspend_of hr hr' hqueue)).1
    · rw [hresult] at hloop ⊢
      have hbefore : s.loop.inbox.status ≠ .suspended := fun hsusp => by
        rw [h.takesNone hsusp r hr] at htakes
        cases htakes
      exact h.awake [.handle msg] hloop rfl (by simp) hbefore hsame
    · rw [hresult] at hloop ⊢
      exact h.awake [.exit .normal] hloop rfl (by simp) hbefore hsame
  · have hidle := h.loop.idle hnone.1 hnone.2
    rw [hidle] at hr
    cases hr

theorem dropReceive_status (s : HandlerLoop I E R) : s.dropReceive.inbox.status = s.inbox.status := by
  show ((s.inbox.step .drop).getD s.inbox).status = _
  cases hs : s.inbox.step .drop with
  | none => rfl
  | some inbox =>
    obtain ⟨r, -, hs⟩ := Option.bind_eq_some_iff.1 hs
    split at hs
    · cases hs
      rfl
    · cases hs

theorem Paced.initReturns (h : s.Paced) {result : Except R Unit}
    (hs : s.loop.step (.initReturns result) = some loop) :
    (s.after loop (.initReturns result)).Paced := by
  have hloop := h.loop.step hs
  simp only [HandlerLoop.step] at hs
  split at hs
  · rename_i hstage
    have hbefore : s.loop.inbox.status ≠ .suspended := fun hsusp => h.initialized hsusp hstage.1
    have hafter := dropReceive_status s.loop
    cases result with
    | ok value =>
      cases hs
      exact h.awake [] hloop (List.append_nil _).symm List.not_mem_nil hbefore hafter
    | error report =>
      cases hs
      exact h.awake [.exit (.initError report)] hloop rfl (by simp) hbefore hafter
  · cases hs

theorem Paced.nextEvent (h : s.Paced) {result : Option (Except R E)}
    (hregular : s.Regular (.nextEvent result)) (hs : s.loop.step (.nextEvent result) = some loop) :
    (s.after loop (.nextEvent result)).Paced := by
  have hloop := h.loop.step hs
  simp only [HandlerLoop.step] at hs
  split at hs
  · cases result with
    | none =>
      cases hs
      exact h.idle hloop rfl rfl rfl (fun _ => LoopStage.noConfusion) h.takesNone
    | some result =>
      have hafter := dropReceive_status s.loop
      cases result with
      | ok event =>
        cases hs
        exact h.awake [.event event] hloop rfl (by simp) hregular hafter
      | error report =>
        cases hs
        exact h.awake [.exit (.handlerError report)] hloop rfl (by simp) hregular hafter
  · cases hs

theorem Paced.hookReturns (h : s.Paced) {result : Except R Unit}
    (hs : s.loop.step (.hookReturns result) = some loop) :
    (s.after loop (.hookReturns result)).Paced := by
  have hloop := h.loop.step hs
  simp only [HandlerLoop.step] at hs
  split at hs
  · cases result with
    | ok value =>
      cases hs
      exact h.idle hloop rfl rfl rfl (fun _ => LoopStage.noConfusion) h.takesNone
    | error report =>
      cases hs
      refine h.stay [.exit (.handlerError report)] hloop rfl rfl (by simp) fun hsusp =>
        ⟨fun hook hmem => ?_, rfl, LoopStage.noConfusion, h.takesNone hsusp⟩
      obtain rfl := List.mem_singleton.1 hmem
      rfl
  · cases hs

theorem Paced.step (h : s.Paced) (hregular : s.Regular e) (hs : s.step e = some s') : s'.Paced := by
  obtain ⟨loop, hstep, rfl⟩ := Option.map_eq_some_iff.1 hs
  clear hs
  have hloop := h.loop.step hstep
  cases e with
  | pushMsg msg | pushSignal signal =>
    cases hstep
    exact h.idle hloop rfl rfl rfl id h.takesNone
  | receive =>
    simp only [HandlerLoop.step] at hstep
    split at hstep
    · obtain ⟨inbox, hinbox, rfl⟩ := Option.map_eq_some_iff.1 hstep
      exact h.receive hinbox hloop rfl
    · obtain ⟨inbox, hinbox, rfl⟩ := Option.map_eq_some_iff.1 hstep
      exact h.receive hinbox hloop rfl
    · cases hstep
  | poll =>
    obtain ⟨inbox, hinbox, rfl⟩ := Option.map_eq_some_iff.1 hstep
    obtain ⟨r, hr, hpoll⟩ := Option.bind_eq_some_iff.1 hinbox
    exact h.poll hregular hr hpoll hloop
  | wake signal msg =>
    obtain ⟨inbox, hinbox, rfl⟩ := Option.map_eq_some_iff.1 hstep
    obtain ⟨r, hr, hwake⟩ := Option.bind_eq_some_iff.1 hinbox
    obtain ⟨hstatus, hfinished, htakes⟩ := Receiver.wake_takesMsgs hwake
    rw [afterInbox_of_eq hfinished] at hloop ⊢
    exact h.idle hloop rfl hstatus rfl id fun hsusp r' hr' => htakes r' hr' (h.takesNone hsusp r hr)
  | initReturns result => exact h.initReturns hstep
  | nextEvent result => exact h.nextEvent hregular hstep
  | hookReturns result => exact h.hookReturns hstep
  | exitReturns =>
    simp only [HandlerLoop.step] at hstep
    split at hstep
    · cases hstep
      exact h.idle hloop rfl rfl rfl (fun _ => LoopStage.noConfusion) h.takesNone
    · cases hstep

/-! ## Runs -/

theorem pauses_of_regular (h : ((runs I E R).guard Regular).Reachable s) : s.Pauses := by
  refine (h.guard_invariant (I := Paced) ?_ fun s e s' hi hok hs => hi.step hok hs).pauses
  rintro _ rfl
  exact paced_new

/-- A handler is suspended with a message in its inbox, takes it once it has been resumed, and is suspended
again until it is shut down. -/
theorem pauses_of_regular_twice : ∃ s, ((runs ℕ ℕ ℕ).guard Regular).Reachable s ∧
    s.periods.reverse.map (fun p => (p.status, p.calls)) =
      [(.initializing, [.init]), (.running, []), (.suspended, [.onSuspend]),
        (.running, [.onResume, .handle 7, .event 3]), (.suspended, [.onSuspend]),
        (.exiting, [.onShutdown, .exit .normal])] ∧ s.Pauses := by
  obtain ⟨s, hs, h⟩ : ∃ s, ((runs ℕ ℕ ℕ).guard Regular).Reachable s ∧
      s.periods.reverse.map (fun p => (p.status, p.calls)) =
        [(.initializing, [.init]), (.running, []), (.suspended, [.onSuspend]),
          (.running, [.onResume, .handle 7, .event 3]), (.suspended, [.onSuspend]),
          (.exiting, [.onShutdown, .exit .normal])] :=
    Lts.exists_guard_reachable_of_exec (s := new) rfl
      [.receive, .poll, .initReturns (.ok ()), .pushMsg 7, .pushSignal .suspend, .receive, .poll, .poll,
        .hookReturns (.ok ()), .receive, .poll, .poll, .pushSignal .resume, .wake true true, .poll,
        .hookReturns (.ok ()), .receive, .poll, .poll, .poll, .hookReturns (.ok ()),
        .nextEvent (some (.ok 3)), .pushSignal .suspend, .hookReturns (.ok ()), .receive, .poll, .poll,
        .hookReturns (.ok ()), .pushSignal .shutdown, .receive, .poll, .poll, .hookReturns (.ok ()),
        .receive, .poll, .exitReturns]
      (by decide +kernel)
  exact ⟨s, hs, h, pauses_of_regular hs⟩

/-- A suspended handler takes an event, one that is suspended in `init` learns of it only by
`on_resume` or not at all, and one that is suspended twice is told so twice. -/
theorem not_pauses : (¬ ∀ s, (runs ℕ ℕ ℕ).Reachable s → ∀ p ∈ s.periods, p.Quiet) ∧
    (¬ ∀ s, (runs ℕ ℕ ℕ).Reachable s → ∀ p ∈ s.periods, p.Opened) ∧
    ¬ ∀ s, (runs ℕ ℕ ℕ).Reachable s → s.periods.IsChain Period.Closes := by
  refine ⟨fun hall => ?_, fun hall => ?_, fun hall => ?_⟩
  · obtain ⟨s, hs, h⟩ : ∃ s, (runs ℕ ℕ ℕ).Reachable s ∧
        s.period.status = .suspended ∧ s.period.calls = [.onSuspend, .event 3] :=
      Lts.exists_reachable_of_exec (s := new) rfl
        [.receive, .poll, .initReturns (.ok ()), .pushSignal .suspend, .receive, .poll, .poll,
          .hookReturns (.ok ()), .receive, .poll, .poll, .nextEvent (some (.ok 3))]
        (by decide +kernel)
    have hquiet := (hall s hs s.period List.mem_cons_self h.1).2 (.event 3) (by rw [h.2]; simp)
    cases hquiet
  · obtain ⟨s, hs, h⟩ : ∃ s, (runs ℕ ℕ ℕ).Reachable s ∧
        s.period.status = .suspended ∧ s.period.calls = [.onSuspend, .onSuspend] :=
      Lts.exists_reachable_of_exec (s := new) rfl
        [.receive, .poll, .initReturns (.ok ()), .pushSignal .suspend, .pushSignal .suspend, .receive,
          .poll, .poll, .hookReturns (.ok ()), .receive, .poll, .poll]
        (by decide +kernel)
    obtain ⟨rest, hcalls, hnot⟩ := hall s hs s.period List.mem_cons_self h.1
    rw [h.2] at hcalls
    cases hcalls
    exact hnot List.mem_cons_self
  · obtain ⟨s, hs, hcalls, hstatus, hpast⟩ : ∃ s, (runs ℕ ℕ ℕ).Reachable s ∧ s.period.calls = [] ∧
        s.period.status = .running ∧ s.past.head?.map (·.status) = some .suspended :=
      Lts.exists_reachable_of_exec (s := new) rfl
        [.pushSignal .suspend, .pushSignal .resume, .receive, .poll, .receive, .poll]
        (by decide +kernel)
    have hchain := hall s hs
    unfold periods at hchain
    cases hps : s.past with
    | nil =>
      rw [hps] at hpast
      cases hpast
    | cons p past =>
      rw [hps] at hpast hchain
      rcases (List.isChain_cons_cons.1 hchain).1 (Option.some.inj hpast) with
        ⟨-, -, rest, hrest, -⟩ | hexiting
      · rw [hcalls] at hrest
        cases hrest
      · rw [hstatus] at hexiting
        cases hexiting

end Suspensions
end Zestors
