import Zestors.Channel.Receive
import Zestors.Lib.Notify

/-!
# What wakes a receive

The calls of an inbox that wait, together with the notifiers that wake them. A sender pushes first and
notifies then; `next_event` has two loops under one `select!`, one for the signals and one for the
messages, and each of them enables its `Notified` before it looks into its queue.

`le_notifies_of_sleeps` says that a call sleeps only while there is nothing to take, apart from what some
sender has yet to notify of, and `inevitable_event` that a call that is offered something returns it.
-/

namespace Zestors

/-- A call that waits: `next_event`, or `next_signal` by itself. -/
inductive WaitKind
  | nextEvent (whileExiting : Bool)
  | nextSignal
deriving DecidableEq

/-- Where a call is: before it asks for the status, within a poll, or after one. `select` says that it
is in the `select!` of `next_event`, which takes messages too. -/
inductive WaitStage
  | status (whileExiting : Bool)
  | signals (select : Bool)
  | msgs
  | parked (select : Bool)
deriving DecidableEq

/-- A channel with its notifiers. `msgNotifies` and `signalNotifies` count the senders that have pushed
and not notified yet; `woken` says that the task of the actor was woken since the last poll began. -/
structure NotifyingChannel (I : Type) where
  status : ActorStatus
  msgQueue : List I
  signalQueue : List SignalInterface
  msgLoop : NotifyLoop
  signalLoop : NotifyLoop
  msgNotifies : ℕ
  signalNotifies : ℕ
  stage : Option WaitStage
  woken : Bool
  /-- What the last call has returned, since it began. -/
  returned : Option (Option (InboxEventOf I))

namespace NotifyingChannel
variable {I : Type} {s s' : NotifyingChannel I}

def new : NotifyingChannel I :=
  ⟨.exited .normal, [], [], .new, .new, 0, 0, none, false, none⟩

inductive Event (I : Type)
  | pushMsg (msg : I)
  | notifyMsg
  | pushSignal (signal : SignalInterface)
  | notifySignal
  /-- A call begins. -/
  | call (kind : WaitKind)
  /-- The poll goes on. -/
  | poll
  /-- The task of the actor is polled again, woken or not. -/
  | repoll
  /-- The future of the call is dropped. -/
  | drop
  /-- `try_recv`, or the end of the inbox, takes something without waiting. -/
  | popMsg
  | popSignal
  /-- The actor, or its end, changes the status. -/
  | setStatus (status : ActorStatus)

variable {e : Event I}

/-- The first lines of `next_event`: `none` when it returns at once, and otherwise whether it takes
messages. -/
def mode (s : NotifyingChannel I) (whileExiting : Bool) : Option Bool :=
  match s.status with
  | .suspended => some false
  | .exited _ => if s.msgQueue.isEmpty then none else some true
  | .exiting => if s.msgQueue.isEmpty && !whileExiting then none else some true
  | .initializing | .running => some true

/-- The call returns, and its futures are dropped. -/
def finish (s : NotifyingChannel I) (result : Option (InboxEventOf I)) : NotifyingChannel I :=
  { s with
    msgLoop := s.msgLoop.drop
    signalLoop := s.signalLoop.drop
    stage := none
    returned := some result }

/-- The loops of the call begin. -/
def beginLoops (s : NotifyingChannel I) (select : Bool) : NotifyingChannel I :=
  { s with
    signalLoop := s.signalLoop.renew
    msgLoop := if select then s.msgLoop.renew else s.msgLoop
    stage := some (.signals select) }

/-- `pop_signal`, one signal at a time. -/
def takeSignal (s : NotifyingChannel I) (signal : SignalInterface) (queue : List SignalInterface) :
    NotifyingChannel I :=
  let s' := { s with status := (s.status.handleSignal signal).1, signalQueue := queue }
  match (s.status.handleSignal signal).2 with
  | none => s'
  | some event => s'.finish (some (.signal event))

/-- `next_signal`, one step at a time. -/
def pollSignals (s : NotifyingChannel I) (select : Bool) : Option (NotifyingChannel I) :=
  match s.signalLoop.stage with
  | .idle => none
  | .enable => some { s with signalLoop := s.signalLoop.enable }
  | .look fut =>
    match s.signalQueue with
    | [] => some { s with signalLoop := s.signalLoop.wait fut }
    | signal :: queue => some (s.takeSignal signal queue)
  | .await (.waiting _) =>
    some { s with
      signalLoop := s.signalLoop.sleep
      stage := some (if select then .msgs else .parked false) }
  | .await _ => some { s with signalLoop := s.signalLoop.renew }

/-- `next_msg`, one step at a time. -/
def pollMsgs (s : NotifyingChannel I) : Option (NotifyingChannel I) :=
  match s.msgLoop.stage with
  | .idle => none
  | .enable => some { s with msgLoop := s.msgLoop.enable }
  | .look fut =>
    match s.msgQueue with
    | [] => some { s with msgLoop := s.msgLoop.wait fut }
    | msg :: queue => some ({ s with msgQueue := queue }.finish (some (.message msg)))
  | .await (.waiting _) => some { s with msgLoop := s.msgLoop.sleep, stage := some (.parked true) }
  | .await _ => some { s with msgLoop := s.msgLoop.renew }

def poll (s : NotifyingChannel I) : Option (NotifyingChannel I) :=
  match s.stage with
  | none | some (.parked _) => none
  | some (.status whileExiting) =>
    match s.mode whileExiting with
    | none => some (s.finish none)
    | some select => some (s.beginLoops select)
  | some (.signals select) => s.pollSignals select
  | some .msgs => s.pollMsgs

/-- The biased `select!` polls the signals first. -/
def repoll (s : NotifyingChannel I) : Option (NotifyingChannel I) :=
  match s.stage with
  | some (.parked select) => some { s with stage := some (.signals select), woken := false }
  | _ => none

def call (s : NotifyingChannel I) : WaitKind → NotifyingChannel I
  | .nextEvent whileExiting =>
    { s with stage := some (.status whileExiting), woken := false, returned := none }
  | .nextSignal => { s.beginLoops false with woken := false, returned := none }

def step (s : NotifyingChannel I) : Event I → Option (NotifyingChannel I)
  | .pushMsg msg => some { s with msgQueue := s.msgQueue ++ [msg], msgNotifies := s.msgNotifies + 1 }
  | .notifyMsg =>
    if s.msgNotifies = 0 then none
    else some { s with
      msgNotifies := s.msgNotifies - 1
      msgLoop := s.msgLoop.notifyOne.1
      woken := s.woken || s.msgLoop.notifyOne.2 }
  | .pushSignal signal => some { s with
      signalQueue := s.signalQueue ++ [signal], signalNotifies := s.signalNotifies + 1 }
  | .notifySignal =>
    if s.signalNotifies = 0 then none
    else some { s with
      signalNotifies := s.signalNotifies - 1
      signalLoop := s.signalLoop.notifyOne.1
      woken := s.woken || s.signalLoop.notifyOne.2 }
  | .call kind => if s.stage = none then some (s.call kind) else none
  | .poll => s.poll
  | .repoll => s.repoll
  | .drop =>
    match s.stage with
    | some (.parked _) => some { s.finish none with returned := none }
    | _ => none
  | .popMsg =>
    match s.stage, s.msgQueue with
    | none, _ :: queue => some { s with msgQueue := queue }
    | _, _ => none
  | .popSignal =>
    match s.stage, s.signalQueue with
    | none, signal :: queue =>
      some { s with status := (s.status.handleSignal signal).1, signalQueue := queue }
    | _, _ => none
  | .setStatus status => some { s with status := status }

/-- Every interleaving of the senders and one actor. -/
def runs (I : Type) : Lts (NotifyingChannel I) (Event I) := Lts.ofFun (fun s => s = new) step

/-- The call sleeps: it was polled in vain, and nothing has woken its task since. -/
def Sleeps (s : NotifyingChannel I) (select : Bool) : Prop :=
  s.stage = some (.parked select) ∧ s.woken = false

/-! ## Nothing is slept through -/

end NotifyingChannel

namespace WaitStage

/-- There is a loop for the signals. -/
def hasSignals : WaitStage → Bool
  | status _ => false
  | signals _ | msgs | parked _ => true

/-- There is a loop for the messages. -/
def hasMsgs : WaitStage → Bool
  | status _ => false
  | signals select | parked select => select
  | msgs => true

/-- The loop for the signals was polled in vain. -/
def pastSignals : WaitStage → Bool
  | status _ | signals _ => false
  | msgs | parked _ => true

end WaitStage

namespace NotifyingChannel
variable {I : Type} {s s' : NotifyingChannel I} {e : Event I} {select : Bool}
  {result : Option (InboxEventOf I)}

/-- The invariant: neither loop leaves anything behind, and what sleeps has somebody who wakes it. -/
structure Attentive (s : NotifyingChannel I) : Prop where
  signals : s.signalLoop.Heeded s.signalQueue.length s.signalNotifies
  msgs : s.msgLoop.Heeded s.msgQueue.length s.msgNotifies
  signalsAsleep : ∀ st, s.stage = some st → st.pastSignals = true → s.woken = false →
    s.signalLoop.stage.asleep = true
  msgsAsleep : s.stage = some (.parked true) → s.woken = false → s.msgLoop.stage.asleep = true
  hasSignals : ∀ st, s.stage = some st → st.hasSignals = true → s.signalLoop.stage ≠ .idle
  hasMsgs : ∀ st, s.stage = some st → st.hasMsgs = true → s.msgLoop.stage ≠ .idle

theorem attentive_new : (new : NotifyingChannel I).Attentive := by
  constructor <;> simp [new, NotifyLoop.new, NotifyLoop.Heeded, NotifyStage.sleepy]

theorem attentive_finish (s : NotifyingChannel I) : (s.finish result).Attentive where
  signals := .drop
  msgs := .drop
  signalsAsleep st hst := by cases hst
  msgsAsleep hst := by cases hst
  hasSignals st hst := by cases hst
  hasMsgs st hst := by cases hst

theorem Attentive.beginLoops (h : s.Attentive) : (s.beginLoops select).Attentive where
  signals := .renew
  msgs := by
    cases select with
    | true => exact .renew
    | false => exact h.msgs
  signalsAsleep st hst hpast := by cases hst; cases hpast
  msgsAsleep hst := by cases hst
  hasSignals st hst _ := nofun
  hasMsgs st hst hmsgs := by
    cases hst
    cases select with
    | true => nofun
    | false => cases hmsgs

theorem Attentive.of_status (h : s.Attentive) {whileExiting : Bool}
    (hstage : s'.stage = some (.status whileExiting)) (hsignals : s'.signalLoop = s.signalLoop)
    (hmsgs : s'.msgLoop = s.msgLoop)
    (hqueues : s'.signalQueue = s.signalQueue ∧ s'.msgQueue = s.msgQueue ∧
      s'.signalNotifies = s.signalNotifies ∧ s'.msgNotifies = s.msgNotifies) : s'.Attentive where
  signals := by
    rw [hsignals, hqueues.1, hqueues.2.2.1]
    exact h.signals
  msgs := by
    rw [hmsgs, hqueues.2.1, hqueues.2.2.2]
    exact h.msgs
  signalsAsleep st hst hpast := by rw [hstage] at hst; cases hst; cases hpast
  msgsAsleep hst := by rw [hstage] at hst; cases hst
  hasSignals st hst hloop := by rw [hstage] at hst; cases hst; cases hloop
  hasMsgs st hst hloop := by rw [hstage] at hst; cases hst; cases hloop

theorem Attentive.takeSignal (h : s.Attentive) {signal : SignalInterface} {queue : List SignalInterface}
    (hqueue : s.signalQueue = signal :: queue) : (s.takeSignal signal queue).Attentive := by
  unfold NotifyingChannel.takeSignal
  dsimp only
  split
  · have hheeded := h.signals
    rw [hqueue, List.length_cons] at hheeded
    exact ⟨hheeded.take, h.msgs, h.signalsAsleep, h.msgsAsleep, h.hasSignals, h.hasMsgs⟩
  · exact attentive_finish _

theorem Attentive.pollSignals (h : s.Attentive) (hstage : s.stage = some (.signals select))
    (hs : s.pollSignals select = some s') : s'.Attentive := by
  have hmsgs := h.hasMsgs _ hstage
  unfold NotifyingChannel.pollSignals at hs
  cases hloop : s.signalLoop.stage with
  | idle => rw [hloop] at hs; cases hs
  | enable =>
    rw [hloop] at hs
    cases hs
    refine ⟨.enable, h.msgs, ?_, ?_, ?_, h.hasMsgs⟩
    · intro st hst hpast
      cases hstage.symm.trans hst
      cases hpast
    · intro hst
      cases hstage.symm.trans hst
    · intro st _ _
      show s.signalLoop.enable.stage ≠ .idle
      unfold NotifyLoop.enable
      split <;> nofun
  | look fut =>
    rw [hloop] at hs
    dsimp only at hs
    cases hqueue : s.signalQueue with
    | cons signal queue =>
      rw [hqueue] at hs
      cases hs
      exact h.takeSignal hqueue
    | nil =>
      rw [hqueue] at hs
      cases hs
      refine ⟨.wait, h.msgs, ?_, ?_, fun _ _ _ => nofun, h.hasMsgs⟩
      · intro st hst hpast
        cases hstage.symm.trans hst
        cases hpast
      · intro hst
        cases hstage.symm.trans hst
  | await fut =>
    cases fut with
    | waiting waker =>
      rw [hloop] at hs
      cases hs
      refine ⟨h.signals.sleep hloop, h.msgs, fun _ _ _ _ => rfl, ?_, fun _ _ _ => nofun, ?_⟩
      · intro hst
        cases select <;> cases hst
      · intro st hst hon
        refine hmsgs ?_
        cases select with
        | true => rfl
        | false => cases hst; cases hon
    | notified | done =>
      rw [hloop] at hs
      cases hs
      refine ⟨.renew, h.msgs, ?_, ?_, fun _ _ _ => nofun, h.hasMsgs⟩
      · intro st hst hpast
        cases hstage.symm.trans hst
        cases hpast
      · intro hst
        cases hstage.symm.trans hst

theorem Attentive.pollMsgs (h : s.Attentive) (hstage : s.stage = some .msgs)
    (hs : s.pollMsgs = some s') : s'.Attentive := by
  have hsignals := h.signalsAsleep _ hstage rfl
  unfold NotifyingChannel.pollMsgs at hs
  cases hloop : s.msgLoop.stage with
  | idle => rw [hloop] at hs; cases hs
  | enable =>
    rw [hloop] at hs
    cases hs
    refine ⟨h.signals, .enable, h.signalsAsleep, ?_, h.hasSignals, ?_⟩
    · intro hst
      cases hstage.symm.trans hst
    · intro st _ _
      show s.msgLoop.enable.stage ≠ .idle
      unfold NotifyLoop.enable
      split <;> nofun
  | look fut =>
    rw [hloop] at hs
    dsimp only at hs
    cases hqueue : s.msgQueue with
    | cons msg queue =>
      rw [hqueue] at hs
      cases hs
      exact attentive_finish _
    | nil =>
      rw [hqueue] at hs
      cases hs
      refine ⟨h.signals, .wait, h.signalsAsleep, ?_, h.hasSignals, fun _ _ _ => nofun⟩
      intro hst
      cases hstage.symm.trans hst
  | await fut =>
    cases fut with
    | waiting waker =>
      rw [hloop] at hs
      cases hs
      refine ⟨h.signals, h.msgs.sleep hloop, fun _ _ _ => hsignals, fun _ _ => rfl, fun _ _ _ => ?_,
        fun _ _ _ => nofun⟩
      exact h.hasSignals _ hstage rfl
    | notified | done =>
      rw [hloop] at hs
      cases hs
      refine ⟨h.signals, .renew, h.signalsAsleep, ?_, h.hasSignals, fun _ _ _ => nofun⟩
      intro hst
      cases hstage.symm.trans hst

theorem Attentive.poll (h : s.Attentive) (hs : s.poll = some s') : s'.Attentive := by
  unfold NotifyingChannel.poll at hs
  cases hstage : s.stage with
  | none => rw [hstage] at hs; cases hs
  | some stage =>
    rw [hstage] at hs
    cases stage with
    | parked select => cases hs
    | signals select => exact h.pollSignals hstage hs
    | msgs => exact h.pollMsgs hstage hs
    | status whileExiting =>
      dsimp only at hs
      split at hs
      · cases hs
        exact attentive_finish _
      · cases hs
        exact h.beginLoops

theorem Attentive.repoll (h : s.Attentive) (hs : s.repoll = some s') : s'.Attentive := by
  unfold NotifyingChannel.repoll at hs
  split at hs
  · rename_i select hstage
    cases hs
    refine ⟨h.signals, h.msgs, ?_, nofun, fun _ _ _ => h.hasSignals _ hstage rfl, ?_⟩
    · intro st hst hpast
      cases hst
      cases hpast
    · intro st hst hon
      cases hst
      exact h.hasMsgs _ hstage hon
  · cases hs

/-- A notification wakes whoever sleeps, and a task that is woken is polled again. -/
theorem asleep_of_notify {l : NotifyLoop} {woken : Bool} (h : woken = false → l.stage.asleep = true)
    (hwoken : (woken || l.notifyOne.2) = false) : l.notifyOne.1.stage.asleep = true := by
  obtain ⟨hwoken, hwakes⟩ := Bool.or_eq_false_iff.1 hwoken
  rw [NotifyLoop.notifyOne_wakes (h hwoken)] at hwakes
  cases hwakes

theorem Attentive.notifyMsg (h : s.Attentive) : Attentive { s with
    msgNotifies := s.msgNotifies - 1
    msgLoop := s.msgLoop.notifyOne.1
    woken := s.woken || s.msgLoop.notifyOne.2 } where
  signals := h.signals
  msgs := .notifyOne
  signalsAsleep st hst hpast hwoken := h.signalsAsleep st hst hpast (Bool.or_eq_false_iff.1 hwoken).1
  msgsAsleep hst hwoken := asleep_of_notify (h.msgsAsleep hst) hwoken
  hasSignals := h.hasSignals
  hasMsgs st hst hon := NotifyLoop.notifyOne_ne_idle (h.hasMsgs st hst hon)

theorem Attentive.notifySignal (h : s.Attentive) : Attentive { s with
    signalNotifies := s.signalNotifies - 1
    signalLoop := s.signalLoop.notifyOne.1
    woken := s.woken || s.signalLoop.notifyOne.2 } where
  signals := .notifyOne
  msgs := h.msgs
  signalsAsleep st hst hpast hwoken := asleep_of_notify (h.signalsAsleep st hst hpast) hwoken
  msgsAsleep hst hwoken := h.msgsAsleep hst (Bool.or_eq_false_iff.1 hwoken).1
  hasSignals st hst hon := NotifyLoop.notifyOne_ne_idle (h.hasSignals st hst hon)
  hasMsgs := h.hasMsgs

theorem attentive_of_idle (hstage : s.stage = none)
    (hsignals : s.signalLoop.Heeded s.signalQueue.length s.signalNotifies)
    (hmsgs : s.msgLoop.Heeded s.msgQueue.length s.msgNotifies) : s.Attentive where
  signals := hsignals
  msgs := hmsgs
  signalsAsleep st hst := by rw [hstage] at hst; cases hst
  msgsAsleep hst := by rw [hstage] at hst; cases hst
  hasSignals st hst := by rw [hstage] at hst; cases hst
  hasMsgs st hst := by rw [hstage] at hst; cases hst

theorem Attentive.call (h : s.Attentive) (kind : WaitKind) : (s.call kind).Attentive := by
  cases kind with
  | nextEvent whileExiting => exact h.of_status rfl rfl rfl ⟨rfl, rfl, rfl, rfl⟩
  | nextSignal =>
    have hbegin : (s.beginLoops false).Attentive := h.beginLoops
    refine ⟨hbegin.signals, hbegin.msgs, ?_, ?_, hbegin.hasSignals, hbegin.hasMsgs⟩
    · intro st hst hpast
      cases hst
      cases hpast
    · intro hst
      cases hst

theorem Attentive.step (h : s.Attentive) (hs : s.step e = some s') : s'.Attentive := by
  cases e with
  | pushMsg msg =>
    cases hs
    refine ⟨h.signals, ?_, h.signalsAsleep, h.msgsAsleep, h.hasSignals, h.hasMsgs⟩
    rw [List.length_append]
    exact h.msgs.push
  | pushSignal signal =>
    cases hs
    refine ⟨?_, h.msgs, h.signalsAsleep, h.msgsAsleep, h.hasSignals, h.hasMsgs⟩
    rw [List.length_append]
    exact h.signals.push
  | notifyMsg =>
    simp only [NotifyingChannel.step] at hs
    split at hs
    · cases hs
    · cases hs
      exact h.notifyMsg
  | notifySignal =>
    simp only [NotifyingChannel.step] at hs
    split at hs
    · cases hs
    · cases hs
      exact h.notifySignal
  | call kind =>
    simp only [NotifyingChannel.step] at hs
    split at hs
    · cases hs
      exact h.call kind
    · cases hs
  | poll => exact h.poll hs
  | repoll => exact h.repoll hs
  | drop =>
    simp only [NotifyingChannel.step] at hs
    split at hs
    · cases hs
      exact attentive_of_idle rfl .drop .drop
    · cases hs
  | popMsg =>
    simp only [NotifyingChannel.step] at hs
    split at hs
    · rename_i msg queue hstage hqueue
      cases hs
      refine attentive_of_idle hstage h.signals ?_
      have hmsgs := h.msgs
      rw [hqueue, List.length_cons] at hmsgs
      exact hmsgs.take
    · cases hs
  | popSignal =>
    simp only [NotifyingChannel.step] at hs
    split at hs
    · rename_i signal queue hstage hqueue
      cases hs
      refine attentive_of_idle hstage ?_ h.msgs
      have hsignals := h.signals
      rw [hqueue, List.length_cons] at hsignals
      exact hsignals.take
    · cases hs
  | setStatus status =>
    cases hs
    exact ⟨h.signals, h.msgs, h.signalsAsleep, h.msgsAsleep, h.hasSignals, h.hasMsgs⟩

theorem attentive_of_reachable (h : (runs I).Reachable s) : s.Attentive :=
  h.invariant (fun s hs => by cases hs; exact attentive_new) fun _ _ _ hI hs => hI.step hs

/-- A call sleeps only while all that it would take is still to be notified of: in no run is a
notification lost. -/
theorem le_notifies_of_sleeps (h : (runs I).Reachable s) (hsleeps : s.Sleeps select) :
    s.signalQueue.length ≤ s.signalNotifies ∧
      (select = true → s.msgQueue.length ≤ s.msgNotifies) := by
  obtain ⟨hstage, hwoken⟩ := hsleeps
  have hI := attentive_of_reachable h
  refine ⟨hI.signals.le (hI.signalsAsleep _ hstage rfl hwoken), fun hselect => ?_⟩
  subst hselect
  exact hI.msgs.le (hI.msgsAsleep hstage hwoken)

instance (s : NotifyingChannel I) (select : Bool) : Decidable (s.Sleeps select) :=
  inferInstanceAs (Decidable (_ ∧ _))

/-- A call that sleeps while the sender of a message has yet to notify. -/
def sleepingRun : List (Event ℕ) :=
  [.setStatus .running, .call (.nextEvent false), .poll, .poll, .poll, .poll, .poll, .poll, .poll,
    .pushMsg 7]

theorem le_notifies_of_sleeps_run : ∃ s : NotifyingChannel ℕ, s.Sleeps true ∧ s.msgQueue = [7] ∧
    s.signalQueue.length ≤ s.signalNotifies ∧ (true = true → s.msgQueue.length ≤ s.msgNotifies) := by
  obtain ⟨s, hs, hsleeps, hqueue⟩ : ∃ s, (runs ℕ).Reachable s ∧ s.Sleeps true ∧ s.msgQueue = [7] :=
    Lts.exists_reachable_of_exec (s := new) rfl sleepingRun (by decide +kernel)
  exact ⟨s, hsleeps, hqueue, le_notifies_of_sleeps hs hsleeps⟩

/-! ## What is offered is returned -/

/-- Some signal of the queue gets to the caller of `pop_signal`. -/
def delivers (status : ActorStatus) : List SignalInterface → Bool
  | [] => false
  | signal :: queue =>
    (status.handleSignal signal).2.isSome || delivers (status.handleSignal signal).1 queue

/-- Whether the call takes messages; `none` when it takes nothing, or when there is no call. -/
def select? (s : NotifyingChannel I) : Option Bool :=
  match s.stage with
  | none => none
  | some (.status whileExiting) => s.mode whileExiting
  | some (.signals select) | some (.parked select) => some select
  | some .msgs => some true

/-- There is something queued that the call takes. -/
def Offers (s : NotifyingChannel I) : Prop :=
  ∃ select, s.select? = some select ∧
    (delivers s.status s.signalQueue = true ∨ select = true ∧ s.msgQueue ≠ [])

/-- The call has returned something. -/
def Returned (s : NotifyingChannel I) : Prop := ∃ event, s.returned = some (some event)

/-- What is left to be done when nobody begins anything new: the actor's task polls its call, once it is
woken if the call sleeps, and the senders that have pushed notify. -/
inductive Rest
  | poll
  | repoll
  | notifyMsg
  | notifySignal
deriving DecidableEq

def Rest.event : Rest → Event I
  | .poll => .poll
  | .repoll => .repoll
  | .notifyMsg => .notifyMsg
  | .notifySignal => .notifySignal

def stepRest (s : NotifyingChannel I) (e : Rest) : Option (NotifyingChannel I) :=
  if e = .repoll ∧ s.woken = false then none else s.step e.event

def restRuns (I : Type) : Lts (NotifyingChannel I) Rest := Lts.ofFun (fun s => s = new) stepRest

theorem stepRest_eq_some {e : Rest} (hs : s.stepRest e = some s') :
    s.step e.event = some s' ∧ (e = .repoll → s.woken = true) := by
  unfold stepRest at hs
  split at hs
  · cases hs
  · rename_i hwoken
    refine ⟨hs, fun he => ?_⟩
    cases hw : s.woken with
    | true => rfl
    | false => exact absurd ⟨he, hw⟩ hwoken

/-- A bound on the steps that are left. -/
def bound (s : NotifyingChannel I) : ℕ :=
  8 * s.msgNotifies + 8 * s.signalNotifies + (if s.woken then 3 else 0) + s.signalLoop.bound +
    s.msgLoop.bound + s.signalQueue.length +
    match s.stage with
    | none | some (.parked _) => 0
    | some (.status _) => 9
    | some (.signals _) => 2
    | some .msgs => 1

theorem bound_finish (hstage : s.stage ≠ none) (hparked : ∀ select, s.stage ≠ some (.parked select)) :
    (s.finish result).bound < s.bound := by
  have hsignals := s.signalLoop.bound_drop
  have hmsgs := s.msgLoop.bound_drop
  unfold bound finish
  dsimp only
  cases hst : s.stage with
  | none => exact absurd hst hstage
  | some stage =>
    cases stage with
    | parked select => exact absurd hst (hparked select)
    | status | signals | msgs => dsimp only; omega

theorem bound_takeSignal {signal : SignalInterface} {queue : List SignalInterface}
    (hstage : s.stage = some (.signals select)) (hqueue : s.signalQueue = signal :: queue) :
    (s.takeSignal signal queue).bound < s.bound := by
  have hshort : bound { s with
      status := (s.status.handleSignal signal).1, signalQueue := queue } < s.bound := by
    unfold bound
    rw [hstage, hqueue]
    simp only [List.length_cons]
    omega
  unfold takeSignal
  dsimp only
  split
  · exact hshort
  · refine Nat.lt_trans (bound_finish ?_ fun select' => ?_) hshort
    · rw [hstage]
      exact Option.some_ne_none _
    · rw [hstage]
      exact nofun

theorem bound_pollSignals (hstage : s.stage = some (.signals select))
    (hs : s.pollSignals select = some s') : s'.bound < s.bound := by
  unfold NotifyingChannel.pollSignals at hs
  cases hloop : s.signalLoop.stage with
  | idle => rw [hloop] at hs; cases hs
  | enable =>
    rw [hloop] at hs
    cases hs
    have hlt := NotifyLoop.bound_enable hloop
    unfold bound
    dsimp only
    omega
  | look fut =>
    rw [hloop] at hs
    dsimp only at hs
    cases hqueue : s.signalQueue with
    | cons signal queue =>
      rw [hqueue] at hs
      cases hs
      exact bound_takeSignal hstage hqueue
    | nil =>
      have hlt := NotifyLoop.bound_wait hloop
      simp only [hqueue, Option.some.injEq] at hs
      subst hs
      unfold bound
      rw [hqueue]
      dsimp only
      omega
  | await fut =>
    cases fut with
    | waiting waker =>
      rw [hloop] at hs
      cases hs
      have heq := NotifyLoop.bound_sleep hloop
      unfold bound
      rw [hstage]
      cases select <;> simp only [if_true, Bool.false_eq_true, if_false] <;> omega
    | notified | done =>
      rw [hloop] at hs
      cases hs
      have hlt := NotifyLoop.bound_renew hloop rfl
      unfold bound
      dsimp only
      omega

theorem bound_pollMsgs (hstage : s.stage = some .msgs) (hs : s.pollMsgs = some s') :
    s'.bound < s.bound := by
  unfold NotifyingChannel.pollMsgs at hs
  cases hloop : s.msgLoop.stage with
  | idle => rw [hloop] at hs; cases hs
  | enable =>
    rw [hloop] at hs
    cases hs
    have hlt := NotifyLoop.bound_enable hloop
    unfold bound
    dsimp only
    omega
  | look fut =>
    rw [hloop] at hs
    dsimp only at hs
    cases hqueue : s.msgQueue with
    | cons msg queue =>
      simp only [hqueue, Option.some.injEq] at hs
      subst hs
      refine bound_finish (s := { s with msgQueue := queue }) ?_ fun select => ?_
      · rw [hstage]
        exact Option.some_ne_none _
      · rw [hstage]
        exact nofun
    | nil =>
      have hlt := NotifyLoop.bound_wait hloop
      simp only [hqueue, Option.some.injEq] at hs
      subst hs
      unfold bound
      dsimp only
      omega
  | await fut =>
    cases fut with
    | waiting waker =>
      rw [hloop] at hs
      cases hs
      have heq := NotifyLoop.bound_sleep hloop
      unfold bound
      rw [hstage]
      dsimp only
      omega
    | notified | done =>
      rw [hloop] at hs
      cases hs
      have hlt := NotifyLoop.bound_renew hloop rfl
      unfold bound
      dsimp only
      omega

theorem bound_poll (hs : s.poll = some s') : s'.bound < s.bound := by
  unfold NotifyingChannel.poll at hs
  cases hstage : s.stage with
  | none => rw [hstage] at hs; cases hs
  | some stage =>
    rw [hstage] at hs
    cases stage with
    | parked select => cases hs
    | signals select => exact bound_pollSignals hstage hs
    | msgs => exact bound_pollMsgs hstage hs
    | status whileExiting =>
      dsimp only at hs
      split at hs
      · cases hs
        refine bound_finish ?_ fun select => ?_
        · rw [hstage]
          exact Option.some_ne_none _
        · rw [hstage]
          exact nofun
      · rename_i select _
        cases hs
        have hsignals := s.signalLoop.bound_renew_le
        have hmsgs := s.msgLoop.bound_renew_le
        unfold bound beginLoops
        rw [hstage]
        cases select <;> dsimp only <;> simp only [if_true, Bool.false_eq_true, if_false] <;> omega

theorem bound_stepRest {e : Rest} (hs : s.stepRest e = some s') : s'.bound < s.bound := by
  obtain ⟨hs, hwoken⟩ := stepRest_eq_some hs
  cases e with
  | poll => exact bound_poll hs
  | repoll =>
    have hwoken := hwoken rfl
    simp only [Rest.event, step, NotifyingChannel.repoll] at hs
    split at hs
    · rename_i select hstage
      cases hs
      unfold bound
      rw [hstage, hwoken]
      simp only [Bool.false_eq_true, if_false, if_true]
      omega
    · cases hs
  | notifyMsg =>
    simp only [Rest.event, step] at hs
    split at hs
    · cases hs
    · cases hs
      have hle := s.msgLoop.bound_notifyOne
      unfold bound
      dsimp only
      split <;> split <;> omega
  | notifySignal =>
    simp only [Rest.event, step] at hs
    split at hs
    · cases hs
    · cases hs
      have hle := s.signalLoop.bound_notifyOne
      unfold bound
      dsimp only
      split <;> split <;> omega

theorem Offers.of_eq (h : s.Offers) (hselect : s'.select? = s.select?)
    (hdelivers : delivers s'.status s'.signalQueue = delivers s.status s.signalQueue)
    (hqueue : s'.msgQueue = s.msgQueue) : s'.Offers := by
  unfold Offers
  rw [hselect, hdelivers, hqueue]
  exact h

theorem Offers.takeSignal (h : s.Offers) {signal : SignalInterface} {queue : List SignalInterface}
    (hstage : s.stage = some (.signals select)) (hqueue : s.signalQueue = signal :: queue) :
    (s.takeSignal signal queue).Offers ∨ (s.takeSignal signal queue).Returned := by
  unfold NotifyingChannel.takeSignal
  dsimp only
  cases hevent : (s.status.handleSignal signal).2 with
  | none =>
    refine .inl (h.of_eq ?_ ?_ rfl)
    · simp only [select?, hstage]
    · rw [hqueue, delivers, hevent]
      rfl
  | some event => exact .inr ⟨_, rfl⟩

theorem Offers.pollSignals (h : s.Offers) (hstage : s.stage = some (.signals select))
    (hs : s.pollSignals select = some s') : s'.Offers ∨ s'.Returned := by
  unfold NotifyingChannel.pollSignals at hs
  cases hloop : s.signalLoop.stage with
  | idle => rw [hloop] at hs; cases hs
  | enable =>
    rw [hloop] at hs
    cases hs
    exact .inl (h.of_eq rfl rfl rfl)
  | look fut =>
    rw [hloop] at hs
    dsimp only at hs
    split at hs
    · cases hs
      exact .inl (h.of_eq rfl rfl rfl)
    · cases hs
      exact h.takeSignal hstage (by assumption)
  | await fut =>
    cases fut with
    | waiting waker =>
      rw [hloop] at hs
      cases hs
      refine .inl (h.of_eq ?_ rfl rfl)
      unfold select?
      rw [hstage]
      cases select <;> rfl
    | notified | done =>
      rw [hloop] at hs
      cases hs
      exact .inl (h.of_eq rfl rfl rfl)

theorem Offers.pollMsgs (h : s.Offers) (hstage : s.stage = some .msgs) (hs : s.pollMsgs = some s') :
    s'.Offers ∨ s'.Returned := by
  unfold NotifyingChannel.pollMsgs at hs
  cases hloop : s.msgLoop.stage with
  | idle => rw [hloop] at hs; cases hs
  | enable =>
    rw [hloop] at hs
    cases hs
    exact .inl (h.of_eq rfl rfl rfl)
  | look fut =>
    rw [hloop] at hs
    dsimp only at hs
    split at hs
    · cases hs
      exact .inl (h.of_eq rfl rfl rfl)
    · cases hs
      exact .inr ⟨_, rfl⟩
  | await fut =>
    cases fut with
    | waiting waker =>
      rw [hloop] at hs
      cases hs
      refine .inl (h.of_eq ?_ rfl rfl)
      unfold select?
      rw [hstage]
    | notified | done =>
      rw [hloop] at hs
      cases hs
      exact .inl (h.of_eq rfl rfl rfl)

theorem Offers.stepRest (h : s.Offers) {e : Rest} (hs : s.stepRest e = some s') :
    s'.Offers ∨ s'.Returned := by
  obtain ⟨hs, -⟩ := stepRest_eq_some hs
  cases e with
  | poll =>
    simp only [Rest.event, NotifyingChannel.step, NotifyingChannel.poll] at hs
    cases hstage : s.stage with
    | none => rw [hstage] at hs; cases hs
    | some stage =>
      rw [hstage] at hs
      cases stage with
      | parked select => cases hs
      | signals select => exact h.pollSignals hstage hs
      | msgs => exact h.pollMsgs hstage hs
      | status whileExiting =>
        obtain ⟨select, hselect, hoffer⟩ := h
        rw [select?, hstage] at hselect
        simp only [hselect, Option.some.injEq] at hs
        subst hs
        exact .inl ⟨select, rfl, hoffer⟩
  | repoll =>
    simp only [Rest.event, NotifyingChannel.step, NotifyingChannel.repoll] at hs
    split at hs
    · rename_i select hstage
      cases hs
      refine .inl (h.of_eq ?_ rfl rfl)
      simp only [select?, hstage]
    · cases hs
  | notifyMsg | notifySignal =>
    simp only [Rest.event, NotifyingChannel.step] at hs
    split at hs
    · cases hs
    · cases hs
      exact .inl (h.of_eq rfl rfl rfl)

/-- Somebody can go on as long as the call is offered something: the poll itself, the task that was woken,
or a sender that has yet to notify. -/
theorem exists_stepRest (hI : s.Attentive) (h : s.Offers) : ∃ e s', s.stepRest e = some s' := by
  obtain ⟨select, hselect, hoffer⟩ := h
  unfold select? at hselect
  cases hstage : s.stage with
  | none => rw [hstage] at hselect; cases hselect
  | some stage =>
    rw [hstage] at hselect
    cases stage with
    | status whileExiting =>
      refine ⟨.poll, s.beginLoops select, ?_⟩
      simp [stepRest, Rest.event, step, poll, hstage, show s.mode whileExiting = some select from hselect]
    | signals select' =>
      have hloop := hI.hasSignals _ hstage rfl
      refine ⟨.poll, ?_⟩
      simp only [stepRest, Rest.event, step, poll, hstage, reduceCtorEq, false_and, if_false]
      unfold pollSignals
      split
      · exact absurd (by assumption) hloop
      · exact ⟨_, rfl⟩
      · split <;> exact ⟨_, rfl⟩
      · exact ⟨_, rfl⟩
      · exact ⟨_, rfl⟩
    | msgs =>
      have hloop := hI.hasMsgs _ hstage rfl
      refine ⟨.poll, ?_⟩
      simp only [stepRest, Rest.event, step, poll, hstage, reduceCtorEq, false_and, if_false]
      unfold pollMsgs
      split
      · exact absurd (by assumption) hloop
      · exact ⟨_, rfl⟩
      · split <;> exact ⟨_, rfl⟩
      · exact ⟨_, rfl⟩
      · exact ⟨_, rfl⟩
    | parked select' =>
      cases hselect
      cases hwoken : s.woken with
      | true =>
        refine ⟨.repoll, { s with stage := some (.signals select), woken := false }, ?_⟩
        simp [stepRest, Rest.event, step, repoll, hstage, hwoken]
      | false =>
        -- Whatever is queued is owed a notification.
        rcases hoffer with hdelivers | ⟨rfl, hmsg⟩
        · have hle := hI.signals.le (hI.signalsAsleep _ hstage rfl hwoken)
          have hpos : 0 < s.signalQueue.length := by
            cases hqueue : s.signalQueue with
            | nil => rw [hqueue] at hdelivers; cases hdelivers
            | cons signal queue => exact Nat.succ_pos _
          refine ⟨.notifySignal, ?_⟩
          simp only [stepRest, Rest.event, step, reduceCtorEq, false_and, if_false]
          rw [if_neg (by omega)]
          exact ⟨_, rfl⟩
        · have hle := hI.msgs.le (hI.msgsAsleep hstage hwoken)
          have hpos : 0 < s.msgQueue.length := List.length_pos_iff.2 hmsg
          refine ⟨.notifyMsg, ?_⟩
          simp only [stepRest, Rest.event, step, reduceCtorEq, false_and, if_false]
          rw [if_neg (by omega)]
          exact ⟨_, rfl⟩

/-- A call that is offered something returns it, in whatever order the senders that have pushed notify and
the task of the actor is polled. -/
theorem inevitable_event (h : (runs I).Reachable s) (hoffers : s.Offers) :
    (restRuns I).Inevitable Returned s := by
  refine Lts.inevitable_of_bound_until (I := fun s => s.Attentive ∧ s.Offers) bound ?_ ?_
    ⟨attentive_of_reachable h, hoffers⟩
  · rintro s e s' ⟨hI, hoffers⟩ hs
    have hI' := hI.step (stepRest_eq_some hs).1
    exact ⟨(hoffers.stepRest hs).imp_left fun hoffers' => ⟨hI', hoffers'⟩, bound_stepRest hs⟩
  · rintro s ⟨hI, hoffers⟩
    exact exists_stepRest hI hoffers

theorem inevitable_event_run : ∃ s : NotifyingChannel ℕ, s.Sleeps true ∧
    (restRuns ℕ).Inevitable Returned s := by
  obtain ⟨s, hs, hsleeps, hqueue⟩ : ∃ s, (runs ℕ).Reachable s ∧ s.Sleeps true ∧ s.msgQueue = [7] :=
    Lts.exists_reachable_of_exec (s := new) rfl sleepingRun (by decide +kernel)
  refine ⟨s, hsleeps, inevitable_event hs ⟨true, ?_, .inr ⟨rfl, ?_⟩⟩⟩
  · simp only [select?, hsleeps.1]
  · rw [hqueue]
    exact List.cons_ne_nil _ _

end NotifyingChannel
end Zestors
