import Zestors.Channel.Receive

/-!
# Suspending and resuming

`run_until_shutdown` over an inbox: the call pauses when a `Suspend` is delivered, or when the actor
is suspended already, and waits for a `Resume` or a `Shutdown`. `Agrees` says that every delivered
signal has had its effect on the status, `Pausable.Heard` that a pause ends with the `Resume` that the
actor takes, and `EndsWithin` that it takes the one that is queued.

A `Suspend` that is taken while the actor is initializing is delivered all the same, with the status
as it was; no `Resume` is delivered after it.
-/

namespace Zestors

def Signal.status : Signal → ActorStatus
  | shutdown => .exiting
  | suspend => .suspended
  | resume => .running

namespace ActorStatus

/-- The signal can have its effect in this status. -/
def Heeds (status : ActorStatus) : SignalInterface → Prop
  | .suspend => status.isDead = false ∧ status ≠ .initializing
  | .shutdown => status.isDead = false
  | .resume | .ping => True

instance (status : ActorStatus) : DecidablePred status.Heeds
  | .suspend => inferInstanceAs (Decidable (_ ∧ _))
  | .shutdown => inferInstanceAs (Decidable (_ = _))
  | .resume | .ping => .isTrue trivial

/-- A signal is delivered together with its effect if and only if the status heeds it. -/
theorem handleSignal_status {status : ActorStatus} {signal : SignalInterface} {event : Signal}
    (h : (status.handleSignal signal).2 = some event) :
    (status.handleSignal signal).1 = event.status ↔ status.Heeds signal := by
  cases signal with
  | ping => cases h
  | shutdown =>
    cases h
    cases status <;>
      simp [handleSignal, registerExiting, updateStatus, Heeds, Signal.status, isDead]
  | suspend =>
    cases status <;>
      simp [handleSignal, registerSuspended, updateStatus, Heeds, isDead] at h ⊢ <;>
      subst h <;> simp [Signal.status]
  | resume =>
    cases status <;> simp [handleSignal, registerResumed, updateStatus, Heeds] at h ⊢
    subst h
    rfl

end ActorStatus

/-- The receive takes the next signal, if there is one. -/
def ReceiveStage.takesSignals : ReceiveStage → Bool
  | signals _ _ => true
  | status | msgs | waiting _ => false

namespace Receiver
variable {I : Type} {s s' : Receiver I} {r : Receive}

/-- Every signal that a receive has returned has had its effect at that time. -/
def Agrees (s : Receiver I) : Prop :=
  ∀ r ∈ s.finished, ∀ event, r.result = some (.signal event) → r.status = event.status

/-- The receive that is on takes no signal that the status does not heed. -/
def TakesHeeded (s : Receiver I) : Prop :=
  ∀ r ∈ s.current, r.stage.takesSignals = true →
    ∀ signal ∈ s.signalQueue.head?, s.status.Heeds signal

instance : DecidablePred (TakesHeeded (I := I)) := fun s =>
  inferInstanceAs (Decidable (∀ r ∈ s.current, _ → ∀ signal ∈ s.signalQueue.head?, _))

theorem Agrees.of_eq (h : s.Agrees) (hfinished : s'.finished = s.finished) : s'.Agrees := by
  unfold Agrees
  rw [hfinished]
  exact h

theorem Agrees.finish (h : s.Agrees) (hfinished : s'.finished = s.finished)
    {result : Option (InboxEventOf I)}
    (hresult : ∀ event, result = some (.signal event) → s'.status = event.status) :
    (s'.finish r result).Agrees := by
  intro r' hr' event hevent
  rcases List.mem_append.1 hr' with hr' | hr'
  · exact h r' (hfinished ▸ hr') event hevent
  · obtain rfl := List.mem_singleton.1 hr'
    exact hresult event hevent

theorem Agrees.rest (h : s.Agrees) {select : Bool} : (s.rest r select).Agrees := by
  unfold Receiver.rest
  split
  · exact h.finish rfl nofun
  · exact h.of_eq rfl

theorem Agrees.popSignal (h : s.Agrees) {signal : SignalInterface} {queue : List SignalInterface}
    (hok : s.status.Heeds signal) : (s.popSignal r signal queue).Agrees := by
  unfold Receiver.popSignal
  dsimp only
  split
  · exact h.of_eq rfl
  · rename_i event hevent
    split
    · exact h.of_eq rfl
    · refine h.finish (by rfl) fun event' heq => ?_
      cases heq
      exact (ActorStatus.handleSignal_status hevent).2 hok

theorem Agrees.poll (h : s.Agrees) (hr : s.current = some r) (hok : s.TakesHeeded)
    (hs : s.poll r = some s') : s'.Agrees := by
  have hok := hok r hr
  unfold Receiver.poll at hs
  split at hs
  · cases hs
    unfold Receiver.readStatus
    split
    · exact h.of_eq rfl
    · split
      · exact h.finish rfl nofun
      · exact h.of_eq rfl
    · split
      · exact h.finish rfl nofun
      · exact h.of_eq rfl
    · exact h.of_eq rfl
    · exact h.of_eq rfl
  · rename_i hstage
    split at hs
    · cases hs
      split
      · exact h.of_eq rfl
      · exact h.rest
    · rename_i hqueue
      cases hs
      rw [hstage, hqueue] at hok
      exact h.popSignal (hok rfl _ rfl)
  · split at hs
    · cases hs
      exact h.rest
    · cases hs
      exact h.finish (by rfl) nofun
  · cases hs

theorem Agrees.step {e : Event I} (h : s.Agrees) (hok : e = .poll → s.TakesHeeded)
    (hs : s.step e = some s') : s'.Agrees := by
  cases e with
  | pushMsg msg | pushSignal signal =>
    cases hs
    exact h.of_eq rfl
  | receive kind =>
    obtain ⟨-, rfl⟩ := whileIdle_eq_some hs
    exact h.of_eq (beginReceive_frame kind).1
  | poll =>
    obtain ⟨r, hr, hs⟩ := Option.bind_eq_some_iff.1 hs
    exact h.poll hr (hok rfl) hs
  | wake signal msg =>
    obtain ⟨r, -, hs⟩ := Option.bind_eq_some_iff.1 hs
    unfold Receiver.wake at hs
    split at hs
    · split at hs
      · cases hs
        exact h.of_eq rfl
      · split at hs
        · cases hs
          exact h.of_eq rfl
        · cases hs
    · cases hs
  | drop =>
    obtain ⟨r, -, hs⟩ := Option.bind_eq_some_iff.1 hs
    split at hs
    · cases hs
      exact h.of_eq rfl
    · cases hs
  | setManualInit | setAutoInit =>
    obtain ⟨-, rfl⟩ := whileIdle_eq_some hs
    unfold setInit
    split
    · exact h
    · exact h.of_eq rfl
  | registerInitialized =>
    obtain ⟨-, rfl⟩ := whileIdle_eq_some hs
    exact h.of_eq registerInitialized_frame.1
  | registerExiting | registerExited reason =>
    obtain ⟨-, rfl⟩ := whileIdle_eq_some hs
    exact h.of_eq rfl

def delivered (s : Receiver I) : Option Signal :=
  match s.finished.getLast? with
  | some ⟨_, some (.signal signal), _, _, _⟩ => some signal
  | _ => none

def processed (s : Receiver I) : List SignalInterface :=
  (s.finished.getLast?.map (·.receive.processed)).getD []

theorem delivered_of_finished {l : List (Received I)} {record : Received I} {event : Signal}
    (h : s.finished = l ++ [record]) (hresult : record.result = some (.signal event)) :
    s.delivered = some event ∧ s.processed = record.receive.processed := by
  obtain ⟨receive, result, status, left, pushed⟩ := record
  cases hresult
  exact ⟨by rw [delivered, h, List.getLast?_concat], by rw [processed, h, List.getLast?_concat]; rfl⟩

/-- A `recv_signal`: it takes signals and nothing else. -/
structure TakesSignalsOnly (r : Receive) : Prop where
  kind : r.kind = .recvSignal
  stage : (∃ thenMsgs, r.stage = .signals false thenMsgs) ∨ r.stage = .waiting false

/-- A `recv_signal` finds the queue empty and waits, or takes a signal and goes on, or returns it. -/
theorem poll_cases (hr : TakesSignalsOnly r) (hs : s.poll r = some s') :
    (s.signalQueue = [] ∧ s' = s.advance r (.waiting false)) ∨
    ∃ signal queue, s.signalQueue = signal :: queue ∧ s'.signalQueue = queue ∧
      s'.status = (s.status.handleSignal signal).1 ∧
      (((s.status.handleSignal signal).2 = none ∧ s'.finished = s.finished ∧
          s'.current = some { r with owed := r.owed - 1, processed := r.processed ++ [signal] }) ∨
        ∃ event record, (s.status.handleSignal signal).2 = some event ∧ s'.current = none ∧
          s'.finished = s.finished ++ [record] ∧ record.result = some (.signal event) ∧
          record.receive.processed = r.processed ++ [signal]) := by
  obtain ⟨hkind, ⟨thenMsgs, hstage⟩ | hstage⟩ := hr
  · simp only [poll, hstage] at hs
    cases hqueue : s.signalQueue with
    | nil =>
      simp only [hqueue, Bool.false_and, Bool.false_eq_true, if_false, Option.some.injEq] at hs
      subst hs
      exact .inl ⟨rfl, by rw [rest, if_neg (by simp [hkind])]⟩
    | cons signal queue =>
      simp only [hqueue, Option.some.injEq] at hs
      subst hs
      refine .inr ⟨signal, queue, rfl, ?_⟩
      unfold popSignal
      dsimp only
      cases hevent : (s.status.handleSignal signal).2 with
      | none => exact ⟨rfl, rfl, .inl ⟨rfl, rfl, rfl⟩⟩
      | some event =>
        simp only [hkind, reduceCtorEq, if_false]
        exact ⟨rfl, rfl, .inr ⟨event, _, rfl, rfl, rfl, rfl, rfl⟩⟩
  · simp only [poll, hstage] at hs
    cases hs

theorem wake_cases (hr : TakesSignalsOnly r) {signal msg : Bool}
    (hs : s.wake r signal msg = some s') :
    r.stage = .waiting false ∧ s' = s.advance r (.signals false msg) := by
  obtain ⟨-, ⟨thenMsgs, hstage⟩ | hstage⟩ := hr
  · simp only [wake, hstage] at hs
    cases hs
  · simp only [wake, hstage, Bool.false_and, Bool.false_eq_true, if_false] at hs
    split at hs
    · cases hs
      exact ⟨hstage, rfl⟩
    · cases hs

end Receiver

inductive RunResult
  | done
  | cancelled
deriving DecidableEq

/-- Where a call of `run_until_shutdown` is: at the top of its loop, before the `select!` of the future
and `recv_signal`, in it, or in `wait_resume`, before a `recv_signal` or in it. A pause knows whether it
began at the top, and which signals its receives have taken: a ghost. -/
inductive RunStage
  | top
  | select
  | selecting
  | pause (top : Bool) (taken : List SignalInterface)
  | pausing (top : Bool) (taken : List SignalInterface)
deriving DecidableEq

/-- An inbox, and the call of `run_until_shutdown` that is on. -/
structure Pausable (I : Type) where
  inbox : Receiver I
  call : Option RunStage
  results : List RunResult

namespace Pausable
variable {I : Type} {s s' : Pausable I}

def new : Pausable I := ⟨.new, none, []⟩

inductive Event (I : Type)
  | inbox (e : Receiver.Event I)
  | run
  /-- The call goes on to its next receive. -/
  | proceed
  /-- The future of the call is ready, and polled first. -/
  | resolve
  | cancel

def ret (s : Pausable I) (result : RunResult) : Pausable I :=
  { s with inbox := { s.inbox with current := none }, call := none, results := s.results ++ [result] }

/-- What the call does once its `recv_signal` has returned. -/
def settle (s : Pausable I) : Pausable I :=
  match s.inbox.current, s.call with
  | none, some .selecting =>
    match s.inbox.delivered with
    | some .suspend => { s with call := some (.pause false []) }
    | some .resume => { s with call := some .top }
    | some .shutdown | none => s.ret .cancelled
  | none, some (.pausing top taken) =>
    match s.inbox.delivered with
    | some .suspend => { s with call := some (.pause top (taken ++ s.inbox.processed)) }
    | some .resume | some .shutdown | none =>
      if s.inbox.status = .exiting then s.ret .cancelled
      else { s with call := some (if top then .select else .top) }
  | _, _ => s

/-- While the call is on, others push, and its receive goes on. -/
def allows (call : Option RunStage) : Receiver.Event I → Bool
  | .pushMsg _ | .pushSignal _ => true
  | .poll | .wake _ _ => true
  | .receive _ | .drop | .setManualInit | .setAutoInit | .registerInitialized | .registerExiting
  | .registerExited _ => call.isNone

def step (s : Pausable I) : Event I → Option (Pausable I)
  | .inbox e =>
    if allows s.call e then (s.inbox.step e).map fun inbox => settle { s with inbox } else none
  | .run =>
    if s.call = none ∧ s.inbox.current = none then
      if s.inbox.status = .exiting then some (s.ret .cancelled) else some { s with call := some .top }
    else none
  | .proceed =>
    match s.call with
    | some .top =>
      some { s with
        call := some (if s.inbox.status = .suspended then .pause true [] else .select) }
    | some .select =>
      some { s with inbox := s.inbox.beginReceive .recvSignal, call := some .selecting }
    | some (.pause top taken) =>
      some { s with inbox := s.inbox.beginReceive .recvSignal, call := some (.pausing top taken) }
    | _ => none
  | .resolve =>
    match s.call, s.inbox.current with
    | some .select, _ => some (s.ret .done)
    | some .selecting, some r => if r.stage.pastSignals then some (s.ret .done) else none
    | _, _ => none
  | .cancel =>
    match s.call, s.inbox.current with
    | some _, some r =>
      if r.stage.pastSignals then some { s with inbox := { s.inbox with current := none }, call := none }
      else none
    | _, _ => none

/-- Every interleaving of the senders with an actor that calls `run_until_shutdown` again and again. -/
def runs (I : Type) : Lts (Pausable I) (Event I) := .ofFun (· = new) step

/-- What a poll takes is a signal that the status heeds. -/
def Heeded (s : Pausable I) : Event I → Prop
  | .inbox .poll => s.inbox.TakesHeeded
  | _ => True

instance (s : Pausable I) (e : Event I) : Decidable (s.Heeded e) := by
  unfold Heeded
  split <;> infer_instance

/-- The signals that the pause has taken, if the call is paused. -/
def pauseTaken (s : Pausable I) : Option (List SignalInterface) :=
  match s.call, s.inbox.current with
  | some (.pause _ taken), _ => some taken
  | some (.pausing _ taken), some r => some (taken ++ r.processed)
  | some (.pausing _ taken), none => some taken
  | _, _ => none

/-- A paused actor is suspended and has taken neither a `Resume` nor a `Shutdown`: the pause ends with
the first of them. -/
def Heard (s : Pausable I) : Prop :=
  ∀ taken ∈ s.pauseTaken, s.inbox.status = .suspended ∧ ¬ Receiver.Released taken

/-! ## What holds at every stage of a call -/

/-- What a stage of the call says about the inbox. -/
def Steady (s : Pausable I) : Prop :=
  match s.call with
  | none => True
  | some .top => s.inbox.current = none
  | some .select => s.inbox.current = none
  | some .selecting => ∃ r, s.inbox.current = some r ∧ Receiver.TakesSignalsOnly r
  | some (.pause _ taken) => s.inbox.current = none ∧ s.inbox.status = .suspended ∧
      ¬ Receiver.Released taken
  | some (.pausing _ taken) => ∃ r, s.inbox.current = some r ∧ Receiver.TakesSignalsOnly r ∧
      s.inbox.status = .suspended ∧ ¬ Receiver.Released (taken ++ r.processed)

theorem Steady.heard (h : s.Steady) : s.Heard := by
  intro taken htaken
  unfold Steady at h
  unfold pauseTaken at htaken
  cases hc : s.call with
  | none => simp [hc] at htaken
  | some stage =>
    cases stage with
    | top | select | selecting => simp [hc] at htaken
    | pause top taken' =>
      simp only [hc] at h htaken
      cases htaken
      exact h.2
    | pausing top taken' =>
      simp only [hc] at h
      obtain ⟨r, hr, -, hstatus, hnot⟩ := h
      simp only [hc, hr] at htaken
      cases htaken
      exact ⟨hstatus, hnot⟩

theorem steady_ret (result : RunResult) : (s.ret result).Steady := trivial

theorem settle_of_some {r : Receive} (h : s.inbox.current = some r) : s.settle = s := by
  unfold settle
  rw [h]

theorem settle_of_idle (h : s.call = none) : s.settle = s := by
  unfold settle
  rw [h]
  split <;> simp_all

theorem not_released_nil : ¬ Receiver.Released [] := by simp [Receiver.Released]

theorem released_append {l l' : List SignalInterface} :
    Receiver.Released (l ++ l') ↔ Receiver.Released l ∨ Receiver.Released l' := by
  simp only [Receiver.Released, List.mem_append]
  tauto

/-- A suspended actor takes a signal: it stays suspended, or it is released. -/
theorem suspended_cases (signal : SignalInterface) :
    (ActorStatus.suspended.handleSignal signal = (.suspended, none) ∧
      ¬ Receiver.Released [signal]) ∨
    (ActorStatus.suspended.handleSignal signal = (.suspended, some .suspend) ∧
      ¬ Receiver.Released [signal]) ∨
    ∃ event, (ActorStatus.suspended.handleSignal signal).2 = some event ∧ event ≠ .suspend := by
  cases signal with
  | ping => exact .inl ⟨rfl, by simp [Receiver.Released]⟩
  | suspend => exact .inr (.inl ⟨rfl, by simp [Receiver.Released]⟩)
  | resume => exact .inr (.inr ⟨.resume, rfl, by simp⟩)
  | shutdown => exact .inr (.inr ⟨.shutdown, rfl, by simp⟩)

/-- A pause that hears of anything but another `Suspend` is over. -/
theorem settle_pausing {top : Bool} {taken : List SignalInterface} {event : Signal}
    (hcall : s.call = some (.pausing top taken)) (hidle : s.inbox.current = none)
    (hevent : s.inbox.delivered = some event) (hne : event ≠ .suspend) :
    s.settle.pauseTaken = none ∧ s.settle.Steady := by
  have hnext : s.settle = if s.inbox.status = .exiting then s.ret .cancelled
      else { s with call := some (if top then .select else .top) } := by
    unfold settle
    rw [hidle, hcall, hevent]
    cases event with
    | suspend => exact absurd rfl hne
    | resume | shutdown => rfl
  rw [hnext]
  split
  · exact ⟨rfl, trivial⟩
  · cases top <;> exact ⟨rfl, hidle⟩

theorem steady_poll_selecting {r : Receive} {inbox : Receiver I} (hc : s.call = some .selecting)
    (honly : Receiver.TakesSignalsOnly r) (hr : s.inbox.current = some r) (hok : s.inbox.TakesHeeded)
    (hs : s.inbox.poll r = some inbox) : (settle { s with inbox }).Steady := by
  rcases Receiver.poll_cases honly hs with ⟨-, rfl⟩ | ⟨signal, queue, hqueue, -, hstatus, hnext⟩
  · rw [settle_of_some rfl]
    simp only [Steady, hc]
    exact ⟨_, rfl, honly.kind, .inr rfl⟩
  · rcases hnext with ⟨-, -, hcur⟩ | ⟨event, record, hevent, hcur, hfin, hresult, -⟩
    · rw [settle_of_some hcur]
      simp only [Steady, hc]
      exact ⟨_, hcur, honly.kind, honly.stage⟩
    · have hdel := (Receiver.delivered_of_finished hfin hresult).1
      have hheeds : s.inbox.status.Heeds signal := by
        refine hok r hr ?_ signal (by rw [hqueue]; rfl)
        obtain ⟨b, hstage⟩ | hstage := honly.stage
        · rw [hstage]; rfl
        · simp only [Receiver.poll, hstage] at hs
          cases hs
      have hagree := (ActorStatus.handleSignal_status hevent).2 hheeds
      unfold settle
      simp only [hcur, hdel, hc]
      cases event with
      | suspend => exact ⟨hcur, hstatus.trans hagree, not_released_nil⟩
      | resume => exact hcur
      | shutdown => exact trivial

theorem steady_poll_pausing {r : Receive} {inbox : Receiver I} {top : Bool} {taken : List SignalInterface}
    (hc : s.call = some (.pausing top taken)) (honly : Receiver.TakesSignalsOnly r)
    (hsusp : s.inbox.status = .suspended) (hnot : ¬ Receiver.Released (taken ++ r.processed))
    (hs : s.inbox.poll r = some inbox) : (settle { s with inbox }).Steady := by
  rcases Receiver.poll_cases honly hs with ⟨-, rfl⟩ | ⟨signal, queue, hqueue, -, hstatus, hnext⟩
  · rw [settle_of_some rfl]
    simp only [Steady, hc]
    exact ⟨_, rfl, ⟨honly.kind, .inr rfl⟩, hsusp, hnot⟩
  · rw [hsusp] at hstatus hnext
    have hmore : ¬ Receiver.Released [signal] →
        ¬ Receiver.Released (taken ++ (r.processed ++ [signal])) := by
      rw [← List.append_assoc, released_append (l := taken ++ r.processed)]
      exact fun hsig => not_or.2 ⟨hnot, hsig⟩
    rcases suspended_cases signal with ⟨heq, hsig⟩ | ⟨heq, hsig⟩ | ⟨event', heq, hne⟩
    · rw [heq] at hstatus hnext
      rcases hnext with ⟨-, -, hcur⟩ | ⟨event, _, hevent, -⟩
      · rw [settle_of_some hcur]
        simp only [Steady, hc]
        exact ⟨_, hcur, ⟨honly.kind, honly.stage⟩, hstatus, hmore hsig⟩
      · cases hevent
    · rw [heq] at hstatus hnext
      rcases hnext with ⟨hnone, -⟩ | ⟨event, record, hevent, hcur, hfin, hresult, hproc⟩
      · cases hnone
      · cases hevent
        obtain ⟨hdel, hpr⟩ := Receiver.delivered_of_finished hfin hresult
        unfold settle
        simp only [hcur, hdel, hc]
        refine ⟨hcur, hstatus, ?_⟩
        rw [hpr, hproc]
        exact hmore hsig
    · rcases hnext with ⟨hnone, -⟩ | ⟨event, record, hevent, hcur, hfin, hresult, -⟩
      · rw [heq] at hnone
        cases hnone
      · cases hevent.symm.trans heq
        exact (settle_pausing (s := { s with inbox }) hc hcur
          (Receiver.delivered_of_finished hfin hresult).1 hne).2

theorem steady_poll {r : Receive} {inbox : Receiver I} (h : s.Steady) (hcall : s.call ≠ none)
    (hr : s.inbox.current = some r) (hok : s.inbox.TakesHeeded) (hs : s.inbox.poll r = some inbox) :
    (settle { s with inbox }).Steady := by
  unfold Steady at h
  cases hc : s.call with
  | none => exact absurd hc hcall
  | some stage =>
    cases stage with
    | top | select | pause => simp [hc, hr] at h
    | selecting =>
      simp only [hc] at h
      obtain ⟨r', hr', honly⟩ := h
      cases hr.symm.trans hr'
      exact hc ▸ steady_poll_selecting hc honly hr hok hs
    | pausing top taken =>
      simp only [hc] at h
      obtain ⟨r', hr', honly, hsusp, hnot⟩ := h
      cases hr.symm.trans hr'
      exact hc ▸ steady_poll_pausing hc honly hsusp hnot hs

theorem steady_wake {r : Receive} {inbox : Receiver I} {signal msg : Bool} (h : s.Steady)
    (hcall : s.call ≠ none) (hr : s.inbox.current = some r)
    (hs : s.inbox.wake r signal msg = some inbox) : (settle { s with inbox }).Steady := by
  have honly : Receiver.TakesSignalsOnly r → inbox = s.inbox.advance r (.signals false msg) :=
    fun honly => (Receiver.wake_cases honly hs).2
  unfold Steady at h
  cases hc : s.call with
  | none => exact absurd hc hcall
  | some stage =>
    cases stage with
    | top | select | pause => simp [hc, hr] at h
    | selecting =>
      simp only [hc] at h
      obtain ⟨r', hr', htakes⟩ := h
      cases hr.symm.trans hr'
      cases honly htakes
      rw [settle_of_some rfl]
      exact ⟨_, rfl, htakes.kind, .inl ⟨msg, rfl⟩⟩
    | pausing top taken =>
      simp only [hc] at h
      obtain ⟨r', hr', htakes, hsusp, hnot⟩ := h
      cases hr.symm.trans hr'
      cases honly htakes
      rw [settle_of_some rfl]
      exact ⟨_, rfl, ⟨htakes.kind, .inl ⟨msg, rfl⟩⟩, hsusp, hnot⟩

theorem settle_of_steady (h : s.Steady) : s.settle = s := by
  unfold settle
  split
  · rename_i hidle hc
    unfold Steady at h
    simp only [hc] at h
    obtain ⟨r, hr, -⟩ := h
    cases hr.symm.trans hidle
  · rename_i hidle hc
    unfold Steady at h
    simp only [hc] at h
    obtain ⟨r, hr, -⟩ := h
    cases hr.symm.trans hidle
  · rfl

theorem Steady.of_eq {inbox : Receiver I} (h : s.Steady) (hcur : inbox.current = s.inbox.current)
    (hstatus : inbox.status = s.inbox.status) : Steady { s with inbox } := by
  unfold Steady at h ⊢
  cases hc : s.call with
  | none => trivial
  | some stage =>
    simp only [hc] at h
    cases stage <;> simp only [hcur, hstatus] <;> exact h

def Event.isPush : Event I → Bool
  | .inbox (.pushMsg _) | .inbox (.pushSignal _) => true
  | _ => false

/-- What pushes leave alone. -/
structure PushedTo (s t : Pausable I) : Prop where
  call : t.call = s.call
  current : t.inbox.current = s.inbox.current
  status : t.inbox.status = s.inbox.status
  signalQueue : s.inbox.signalQueue <+: t.inbox.signalQueue

theorem PushedTo.steady {t : Pausable I} (h : PushedTo s t) (hs : s.Steady) : t.Steady := by
  obtain ⟨inbox, call, results⟩ := t
  have hk := hs.of_eq h.current h.status
  cases h.call
  exact hk

theorem pushedTo_of_push {e : Event I} (h : s.Steady) (he : e.isPush = true)
    (hs : s.step e = some s') : PushedTo s s' := by
  have key : ∀ inbox : Receiver I, some (settle { s with inbox }) = some s' →
      inbox.current = s.inbox.current → inbox.status = s.inbox.status →
      s.inbox.signalQueue <+: inbox.signalQueue → PushedTo s s' := by
    intro inbox hs hcur hstatus hqueue
    rw [settle_of_steady (h.of_eq hcur hstatus)] at hs
    cases hs
    exact ⟨rfl, hcur, hstatus, hqueue⟩
  unfold Event.isPush at he
  split at he
  · exact key _ hs rfl rfl List.prefix_rfl
  · exact key _ hs rfl rfl (List.prefix_append _ _)
  · cases he

theorem takesSignalsOnly_beginReceive (inbox : Receiver I) : ∃ r,
    (inbox.beginReceive .recvSignal).current = some r ∧ Receiver.TakesSignalsOnly r ∧
      r.stage = .signals false false ∧ r.processed = [] :=
  ⟨_, rfl, ⟨rfl, .inl ⟨false, rfl⟩⟩, rfl, rfl⟩

/-- A suspended actor is initialized, or it stays as it is: `recv_signal` changes nothing. -/
theorem status_beginReceive {inbox : Receiver I} (h : inbox.status = .suspended)
    (kind : ReceiveKind) : (inbox.beginReceive kind).status = .suspended := by
  show inbox.maybeAutoInit.status = .suspended
  unfold Receiver.maybeAutoInit
  split
  · exact Receiver.status_registerInitialized h
  · exact h

theorem steady_step {e : Event I} (h : s.Steady) (hok : s.Heeded e) (hs : s.step e = some s') :
    s'.Steady := by
  cases e with
  | inbox e =>
    have hstep := hs
    simp only [step] at hs
    split_ifs at hs with hallow
    obtain ⟨inbox, hin, rfl⟩ := Option.map_eq_some_iff.1 hs
    by_cases hc : s.call = none
    · rw [settle_of_idle (s := { s with inbox }) hc]
      simp only [Steady, hc]
    cases e with
    | pushMsg msg | pushSignal signal => exact (pushedTo_of_push h rfl hstep).steady h
    | poll =>
      obtain ⟨r, hr, hin⟩ := Option.bind_eq_some_iff.1 hin
      exact steady_poll h hc hr hok hin
    | wake signal msg =>
      obtain ⟨r, hr, hin⟩ := Option.bind_eq_some_iff.1 hin
      exact steady_wake h hc hr hin
    | receive | drop | setManualInit | setAutoInit | registerInitialized | registerExiting
    | registerExited =>
      exact absurd (Option.isNone_iff_eq_none.1 hallow) hc
  | run =>
    simp only [step] at hs
    split_ifs at hs with hidle hx
    · cases hs
      exact steady_ret _
    · cases hs
      exact hidle.2
  | proceed =>
    unfold Steady at h
    simp only [step] at hs
    split at hs
    · rename_i hc
      simp only [hc] at h
      cases hs
      split_ifs with hsusp
      · exact ⟨h, hsusp, not_released_nil⟩
      · exact h
    · cases hs
      obtain ⟨r, hr, honly, -⟩ := takesSignalsOnly_beginReceive s.inbox
      exact ⟨r, hr, honly⟩
    · rename_i top taken hc
      simp only [hc] at h
      cases hs
      obtain ⟨r, hr, honly, -, hproc⟩ := takesSignalsOnly_beginReceive s.inbox
      refine ⟨r, hr, honly, status_beginReceive h.2.1 _, ?_⟩
      rw [hproc, List.append_nil]
      exact h.2.2
    · cases hs
  | resolve =>
    simp only [step] at hs
    split at hs
    · cases hs
      exact steady_ret _
    · split_ifs at hs
      cases hs
      exact steady_ret _
    · cases hs
  | cancel =>
    simp only [step] at hs
    split at hs
    · split_ifs at hs
      cases hs
      exact trivial
    · cases hs

@[simp] theorem finished_settle : s.settle.inbox.finished = s.inbox.finished := by
  unfold settle
  split
  · split <;> rfl
  · split
    · rfl
    · split <;> rfl
    · split <;> rfl
    · split <;> rfl
  · rfl

theorem agrees_step {e : Event I} (h : s.inbox.Agrees) (hok : s.Heeded e)
    (hs : s.step e = some s') : s'.inbox.Agrees := by
  cases e with
  | inbox e =>
    simp only [step] at hs
    split_ifs at hs
    obtain ⟨inbox, hin, rfl⟩ := Option.map_eq_some_iff.1 hs
    refine (h.step (fun he => ?_) hin).of_eq finished_settle
    subst he
    exact hok
  | run =>
    simp only [step] at hs
    split_ifs at hs
    · cases hs
      exact h.of_eq rfl
    · cases hs
      exact h
  | proceed =>
    simp only [step] at hs
    split at hs
    · cases hs
      exact h
    · cases hs
      exact h.of_eq (Receiver.beginReceive_frame _).1
    · cases hs
      exact h.of_eq (Receiver.beginReceive_frame _).1
    · cases hs
  | resolve =>
    simp only [step] at hs
    split at hs
    · cases hs
      exact h.of_eq rfl
    · split_ifs at hs
      cases hs
      exact h.of_eq rfl
    · cases hs
  | cancel =>
    simp only [step] at hs
    split at hs
    · split_ifs at hs
      cases hs
      exact h.of_eq rfl
    · cases hs

/-! ## The end of a pause -/

/-- The call goes on by itself. -/
def Event.isOwn : Event I → Bool
  | .inbox .poll | .inbox (.wake _ _) | .proceed => true
  | _ => false

/-- The pause is over after at most that many steps of the call, each of which is possible, whatever
is pushed before it. -/
def EndsWithin : ℕ → Pausable I → Prop
  | 0, s => s.pauseTaken = none
  | n + 1, s => s.pauseTaken = none ∨
    ∀ pushes : List (Event I), (∀ e ∈ pushes, e.isPush = true) → ∀ t, Lts.exec step s pushes = some t →
      (∃ e : Event I, e.isOwn = true ∧ (t.step e).isSome) ∧
      ∀ (e : Event I) t', e.isOwn = true → t.step e = some t' → EndsWithin n t'

/-- A bound on the steps that the call takes up to the `Resume` in the queue. -/
def stepsLeft (s : Pausable I) : ℕ :=
  2 * s.inbox.signalQueue.idxOf .resume +
    if s.inbox.current.any (·.stage.takesSignals) then 1 else 2

theorem PushedTo.stepsLeft_eq {t : Pausable I} (h : PushedTo s t)
    (hmem : .resume ∈ s.inbox.signalQueue) :
    t.stepsLeft = s.stepsLeft ∧ .resume ∈ t.inbox.signalQueue := by
  obtain ⟨more, hmore⟩ := h.signalQueue
  rw [stepsLeft, stepsLeft, h.current, ← hmore, List.idxOf_append_of_mem hmem]
  exact ⟨rfl, List.mem_append_left _ hmem⟩

theorem pushedTo_exec {pushes : List (Event I)} {t : Pausable I} (h : s.Steady)
    (hp : ∀ e ∈ pushes, e.isPush = true) (hs : Lts.exec step s pushes = some t) : PushedTo s t := by
  induction pushes generalizing s with
  | nil =>
    cases hs
    exact ⟨rfl, rfl, rfl, List.prefix_rfl⟩
  | cons e pushes ih =>
    obtain ⟨s₁, h₁, hs⟩ := Option.bind_eq_some_iff.1 hs
    have hone := pushedTo_of_push h (hp e List.mem_cons_self) h₁
    obtain ⟨h₂, h₃, h₄, h₅⟩ := ih (hone.steady h) (fun e he => hp e (List.mem_cons_of_mem _ he)) hs
    exact ⟨h₂.trans hone.call, h₃.trans hone.current, h₄.trans hone.status,
      hone.signalQueue.trans h₅⟩

theorem heeded_of_suspended (h : s.inbox.status = .suspended) (e : Event I) : s.Heeded e := by
  unfold Heeded
  split
  swap
  · trivial
  intro r _ _ signal _
  rw [h]
  cases signal <;> simp [ActorStatus.Heeds, ActorStatus.isDead]

theorem paused_cases (h : s.Steady) (hp : s.pauseTaken ≠ none) :
    (∃ top taken, s.call = some (.pause top taken) ∧ s.inbox.current = none) ∨
    ∃ top taken r, s.call = some (.pausing top taken) ∧ s.inbox.current = some r ∧
      Receiver.TakesSignalsOnly r := by
  unfold Steady at h
  unfold pauseTaken at hp
  cases hc : s.call with
  | none => simp [hc] at hp
  | some stage =>
    cases stage with
    | top | select | selecting => simp [hc] at hp
    | pause top taken =>
      simp only [hc] at h
      exact .inl ⟨top, taken, rfl, h.1⟩
    | pausing top taken =>
      simp only [hc] at h
      obtain ⟨r, hr, honly, -⟩ := h
      exact .inr ⟨top, taken, r, rfl, hr, honly⟩

theorem suspended_of_paused (h : s.Steady) (hp : s.pauseTaken ≠ none) :
    s.inbox.status = .suspended := by
  obtain ⟨taken, htaken⟩ := Option.ne_none_iff_exists'.1 hp
  exact (h.heard taken htaken).1

theorem signalQueue_beginReceive (inbox : Receiver I) (kind : ReceiveKind) :
    (inbox.beginReceive kind).signalQueue = inbox.signalQueue := by
  show inbox.maybeAutoInit.signalQueue = inbox.signalQueue
  unfold Receiver.maybeAutoInit
  split
  · exact Receiver.registerInitialized_frame.2.2.2.1
  · rfl

/-- A pause takes the next signal: the pause is over, or a `Resume` comes one place closer. -/
theorem paused_pop {top : Bool} {taken : List SignalInterface} {r : Receive} {inbox : Receiver I}
    (hc : s.call = some (.pausing top taken)) (hr : s.inbox.current = some r)
    (honly : Receiver.TakesSignalsOnly r) (hsusp : s.inbox.status = .suspended)
    (hmem : .resume ∈ s.inbox.signalQueue) (hs : s.inbox.poll r = some inbox) :
    (settle { s with inbox }).pauseTaken = none ∨
      .resume ∈ (settle { s with inbox }).inbox.signalQueue ∧
      (settle { s with inbox }).stepsLeft < s.stepsLeft := by
  have hstage : r.stage.takesSignals = true := by
    obtain ⟨b, hstage⟩ | hstage := honly.stage
    · rw [hstage]; rfl
    · simp only [Receiver.poll, hstage] at hs
      cases hs
  rcases Receiver.poll_cases honly hs with ⟨hnil, -⟩ | ⟨signal, queue, hqueue, hqueue', -, hnext⟩
  · rw [hnil] at hmem
    cases hmem
  rw [hsusp] at hnext
  have hleft : ¬ Receiver.Released [signal] → .resume ∈ queue ∧
      s.stepsLeft = 2 * queue.idxOf .resume + 3 := by
    intro hnot
    have hne : signal ≠ .resume := fun heq => hnot (.inl (by simp [heq]))
    rw [hqueue] at hmem
    refine ⟨(List.mem_cons.1 hmem).resolve_left (Ne.symm hne), ?_⟩
    rw [stepsLeft, hqueue, hr, List.idxOf_cons_ne _ hne]
    simp only [Option.any_some, hstage, if_true]
    omega
  rcases suspended_cases signal with ⟨heq, hnot⟩ | ⟨heq, hnot⟩ | ⟨event', heq, hne⟩
  · rcases hnext with ⟨-, -, hcur⟩ | ⟨event, _, hevent, -⟩
    · rw [settle_of_some hcur, stepsLeft, (hleft hnot).2, hqueue', hcur]
      simp only [Option.any_some, hstage, if_true]
      exact .inr ⟨(hleft hnot).1, by omega⟩
    · rw [heq] at hevent
      cases hevent
  · rcases hnext with ⟨hnone, -⟩ | ⟨event, record, hevent, hcur, hfin, hresult, -⟩
    · rw [heq] at hnone
      cases hnone
    · rw [heq] at hevent
      cases hevent
      have hnext : settle { s with inbox } =
          ⟨inbox, some (.pause top (taken ++ inbox.processed)), s.results⟩ := by
        unfold settle
        simp only [hcur, hc, (Receiver.delivered_of_finished hfin hresult).1]
      rw [hnext, stepsLeft, (hleft hnot).2, hqueue', hcur]
      simp only [Option.any_none, Bool.false_eq_true, if_false]
      exact .inr ⟨(hleft hnot).1, by omega⟩
  · rcases hnext with ⟨hnone, -⟩ | ⟨event, record, hevent, hcur, hfin, hresult, -⟩
    · rw [heq] at hnone
      cases hnone
    · cases hevent.symm.trans heq
      exact .inl (settle_pausing (s := { s with inbox }) hc hcur
        (Receiver.delivered_of_finished hfin hresult).1 hne).1

/-- A step of a paused call with a `Resume` in the queue: the pause is over or closer to its end. -/
theorem paused_own {e : Event I} (h : s.Steady) (hp : s.pauseTaken ≠ none)
    (hmem : .resume ∈ s.inbox.signalQueue) (he : e.isOwn = true) (hs : s.step e = some s') :
    s'.pauseTaken = none ∨ s'.Steady ∧ .resume ∈ s'.inbox.signalQueue ∧
      s'.stepsLeft < s.stepsLeft := by
  have hsusp := suspended_of_paused h hp
  have hsteady := steady_step h (heeded_of_suspended hsusp e) hs
  suffices s'.pauseTaken = none ∨ .resume ∈ s'.inbox.signalQueue ∧ s'.stepsLeft < s.stepsLeft from
    this.imp_right fun hrest => ⟨hsteady, hrest⟩
  rcases paused_cases h hp with ⟨top, taken, hc, hcur⟩ | ⟨top, taken, r, hc, hr, honly⟩
  · unfold Event.isOwn at he
    split at he
    · simp [step, Receiver.step, hcur] at hs
    · simp [step, Receiver.step, hcur] at hs
    · simp only [step, hc, Option.some.injEq] at hs
      subst hs
      rw [stepsLeft, stepsLeft, hcur, signalQueue_beginReceive]
      exact .inr ⟨hmem, by simp [Receiver.beginReceive, ReceiveStage.takesSignals]⟩
    · cases he
  · unfold Event.isOwn at he
    split at he
    · simp only [step, allows, if_true, Receiver.step, hr, Option.bind_some] at hs
      obtain ⟨inbox, hin, rfl⟩ := Option.map_eq_some_iff.1 hs
      exact paused_pop hc hr honly hsusp hmem hin
    · simp only [step, allows, if_true, Receiver.step, hr, Option.bind_some] at hs
      obtain ⟨inbox, hin, rfl⟩ := Option.map_eq_some_iff.1 hs
      obtain ⟨hstage, rfl⟩ := Receiver.wake_cases honly hin
      rw [settle_of_some rfl, stepsLeft, stepsLeft, hr]
      refine .inr ⟨hmem, ?_⟩
      show 2 * s.inbox.signalQueue.idxOf .resume + 1 < _
      simp [hstage, ReceiveStage.takesSignals]
    · simp [step, hc] at hs
    · cases he

theorem exists_own (h : s.Steady) (hp : s.pauseTaken ≠ none)
    (hmem : .resume ∈ s.inbox.signalQueue) : ∃ e : Event I, e.isOwn = true ∧ (s.step e).isSome := by
  rcases paused_cases h hp with ⟨top, taken, hc, hcur⟩ | ⟨top, taken, r, hc, hr, honly⟩
  · exact ⟨.proceed, rfl, by simp [step, hc]⟩
  · obtain ⟨b, hstage⟩ | hstage := honly.stage
    · refine ⟨.inbox .poll, rfl, ?_⟩
      cases hqueue : s.inbox.signalQueue with
      | nil => simp [hqueue] at hmem
      | cons signal queue => simp [step, allows, Receiver.step, hr, Receiver.poll, hstage, hqueue]
    · exact ⟨.inbox (.wake true false), rfl, by
        simp [step, allows, Receiver.step, hr, Receiver.wake, hstage]⟩

theorem endsWithin_of_mem {n : ℕ} (h : s.Steady) (hmem : .resume ∈ s.inbox.signalQueue)
    (hn : s.stepsLeft ≤ n) : s.EndsWithin n := by
  induction n generalizing s with
  | zero =>
    unfold stepsLeft at hn
    split at hn <;> omega
  | succ n ih =>
    by_cases hp : s.pauseTaken = none
    · exact .inl hp
    refine .inr fun pushes hpush t ht => ?_
    have hto := pushedTo_exec h hpush ht
    have hsteady := hto.steady h
    obtain ⟨hleft, hmem'⟩ := hto.stepsLeft_eq hmem
    have hp' : t.pauseTaken ≠ none := by
      unfold pauseTaken at hp ⊢
      rw [hto.call, hto.current]
      exact hp
    refine ⟨exists_own hsteady hp' hmem', fun e t' he hs => ?_⟩
    rcases paused_own hsteady hp' hmem' he hs with hover | ⟨hs', hmem'', hlt⟩
    · cases n with
      | zero => exact hover
      | succ n => exact .inl hover
    · exact ih hs' hmem'' (by omega)

/-- Where the receives take only signals that the status heeds: what is delivered has had its effect,
a pause ends with the first `Resume` or `Shutdown` that it takes, and it takes the `Resume` that is
queued. -/
theorem resumes_of_heeded (s : Pausable I) (h : ((runs I).guard Heeded).Reachable s) :
    s.inbox.Agrees ∧ s.Heard ∧
    (s.pauseTaken ≠ none → .resume ∈ s.inbox.signalQueue → ∃ n, s.EndsWithin n) := by
  have hinv : s.inbox.Agrees ∧ s.Steady := by
    refine h.guard_invariant (I := fun s => s.inbox.Agrees ∧ s.Steady) ?_ ?_
    · rintro _ rfl
      exact ⟨by simp [new, Receiver.new, Receiver.Agrees], trivial⟩
    · exact fun s e s' hi hok hs => ⟨agrees_step hi.1 hok hs, steady_step hi.2 hok hs⟩
  exact ⟨hinv.1, hinv.2.heard, fun _ hmem => ⟨_, endsWithin_of_mem hinv.2 hmem le_rfl⟩⟩

/-- A running actor is suspended; the `Resume` is queued behind another `Suspend`. -/
def suspendsTwice : List (Event ℕ) :=
  [.inbox (.pushSignal .suspend), .run, .proceed, .proceed, .inbox .poll,
    .inbox (.pushSignal .suspend), .inbox (.pushSignal .resume), .proceed]

theorem resumes_of_heeded_twice : ∃ s : Pausable ℕ,
    (s.pauseTaken = some [] ∧ s.inbox.signalQueue = [.suspend, .resume]) ∧ ∃ n, s.EndsWithin n := by
  have hrun : ∃ s, ((runs ℕ).guard Heeded).Reachable s ∧
      s.pauseTaken = some [] ∧ s.inbox.signalQueue = [.suspend, .resume] :=
    Lts.exists_guard_reachable_of_exec (s := new) rfl suspendsTwice (by decide +kernel)
  obtain ⟨s, h, hp⟩ := hrun
  exact ⟨s, hp, (resumes_of_heeded s h).2.2 (by simp [hp.1]) (by simp [hp.2])⟩

/-- An actor that initializes itself is suspended before it has done so, and resumed. -/
def suspendsEarly : List (Event ℕ) :=
  [.inbox .setManualInit, .inbox (.pushSignal .suspend), .run, .proceed, .proceed, .inbox .poll,
    .inbox (.pushSignal .resume), .proceed, .inbox .poll, .inbox .poll]

/-- The `Suspend` is delivered while the actor is initializing; the `Resume` is taken, and the call
is still paused. -/
theorem not_resumes : ∃ s : Pausable ℕ, (runs ℕ).Reachable s ∧ ¬ s.inbox.Agrees ∧ ¬ s.Heard := by
  have hrun : ∃ s, (runs ℕ).Reachable s ∧ s.pauseTaken = some [.resume] ∧
      s.inbox.finished.map (fun r => (r.result, r.status)) = [(some (.signal .suspend), .initializing)] :=
    Lts.exists_reachable_of_exec (s := new) rfl suspendsEarly (by decide +kernel)
  obtain ⟨s, h, hp, hfinished⟩ := hrun
  refine ⟨s, h, fun hagrees => ?_, fun hheard => (hheard _ hp).2 (.inl (by simp))⟩
  obtain ⟨r, hr, heq⟩ := List.mem_map.1 (hfinished ▸ List.mem_singleton_self _)
  obtain ⟨hresult, hstatus⟩ := Prod.mk.inj heq
  cases hstatus.symm.trans (hagrees r hr _ hresult)

end Pausable

end Zestors
