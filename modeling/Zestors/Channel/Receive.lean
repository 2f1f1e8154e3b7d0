import Zestors.ActorStatus
import Zestors.Lib.ListOrder
import Zestors.Lib.Lts

/-!
# What an actor receives

An inbox, and the receives of its actor one step at a time: a receive reads the status, takes signals
from their queue one by one, then looks for a message, and waits if there is none. Messages and signals
are pushed at any time.

`semantics_of_reachable` says what comes out of all that: the messages in their order, none of them by a receive
that began while the actor was suspended and is still held, none before the signals that were queued at
the begin of the receive, and the end of the messages only when the actor exits and all of them have
come out.
-/

namespace Zestors

/-- `InboxEvent`, as `recv_event` returns it. -/
inductive InboxEventOf (I : Type)
  | message (msg : I)
  | signal (signal : Signal)
deriving DecidableEq

inductive ReceiveKind
  | recv
  | recvEvent
  | recvEventAlways
  | tryRecv
  | recvSignal
deriving DecidableEq

/-- What a receive does next. `select` says that it is in the `select!` of `next_event`, which takes
signals and messages; otherwise it only takes signals. -/
inductive ReceiveStage
  | status
  /-- Polls `next_signal`, and then `next_msg` if `thenMsgs`. -/
  | signals (select thenMsgs : Bool)
  | msgs
  | waiting (select : Bool)
deriving DecidableEq

/-- A receive that has not returned. `begun` is the status that it began in, `owed` counts the signals
that were queued then and still are, and `processed` has those that it has taken: ghosts all three. -/
structure Receive where
  kind : ReceiveKind
  stage : ReceiveStage
  begun : ActorStatus
  owed : ℕ
  processed : List SignalInterface
deriving DecidableEq

/-- A receive that has returned: the status and the messages that were queued at that time, and all
that had been pushed. -/
structure Received (I : Type) where
  receive : Receive
  result : Option (InboxEventOf I)
  status : ActorStatus
  left : List I
  pushed : List I
deriving DecidableEq

def Received.msg? {I : Type} (r : Received I) : Option I :=
  match r.result with
  | some (.message msg) => some msg
  | _ => none

/-- An inbox and its channel. `pushed` and `finished` are the history. -/
structure Receiver (I : Type) where
  status : ActorStatus
  init : InitState
  msgQueue : List I
  signalQueue : List SignalInterface
  current : Option Receive
  pushed : List I
  finished : List (Received I)

namespace Receiver
variable {I : Type} {s s' : Receiver I} {r : Receive}

/-- An incarnation was registered. -/
def new : Receiver I := ⟨.initializing, .auto, [], [], none, [], []⟩

inductive Event (I : Type)
  | pushMsg (msg : I)
  | pushSignal (signal : SignalInterface)
  /-- A receive begins. -/
  | receive (kind : ReceiveKind)
  /-- The receive that is on takes a step. -/
  | poll
  /-- The receive is polled again, as either notifier has woken it or both have. -/
  | wake (signal msg : Bool)
  /-- The future of the receive is dropped. -/
  | drop
  | setManualInit
  | setAutoInit
  | registerInitialized
  | registerExiting
  /-- The actor has ended and has kept its inbox. -/
  | registerExited (reason : Except ExitError Unit)

variable {e : Event I}

/-- `Inbox::register_initialized`. -/
def registerInitialized (s : Receiver I) : Receiver I :=
  if s.init = .completed then s
  else { s with init := .completed, status := s.status.registerInitialized.1 }

def maybeAutoInit (s : Receiver I) : Receiver I :=
  if s.init = .auto then s.registerInitialized else s

def setInit (s : Receiver I) (init : InitState) : Receiver I :=
  if s.init = .completed then s else { s with init := init }

def advance (s : Receiver I) (r : Receive) (stage : ReceiveStage) : Receiver I :=
  { s with current := some { r with stage := stage } }

/-- The receive returns. -/
def finish (s : Receiver I) (r : Receive) (result : Option (InboxEventOf I)) : Receiver I :=
  { s with
    current := none
    finished := s.finished ++ [⟨r, result, s.status, s.msgQueue, s.pushed⟩] }

/-- There is nothing to take: `try_recv` returns, and the others wait. -/
def rest (s : Receiver I) (r : Receive) (select : Bool) : Receiver I :=
  if r.kind = .tryRecv then s.finish r none else s.advance r (.waiting select)

/-- `next_event` and `try_next_event`, up to the first poll. Nothing that others do changes the status. -/
def readStatus (s : Receiver I) (r : Receive) : Receiver I :=
  match s.status with
  | .suspended => s.advance r (.signals false false)
  | .exited _ =>
    if s.msgQueue.isEmpty then s.finish r none else s.advance r (.signals true true)
  | .exiting =>
    if s.msgQueue.isEmpty ∧ r.kind ≠ .recvEventAlways then s.finish r none
    else s.advance r (.signals true true)
  | .initializing | .running => s.advance r (.signals true true)

/-- `pop_signal`, one signal at a time, and what the receive does with the signal. -/
def popSignal (s : Receiver I) (r : Receive) (signal : SignalInterface)
    (queue : List SignalInterface) : Receiver I :=
  let s' := { s with status := (s.status.handleSignal signal).1, signalQueue := queue }
  let r' := { r with owed := r.owed - 1, processed := r.processed ++ [signal] }
  match (s.status.handleSignal signal).2 with
  | none => s'.advance r' r.stage
  | some event =>
    if r.kind = .recv then s'.advance r' .status else s'.finish r' (some (.signal event))

def poll (s : Receiver I) (r : Receive) : Option (Receiver I) :=
  match r.stage with
  | .status => some (s.readStatus r)
  | .signals select thenMsgs =>
    match s.signalQueue with
    | [] => some (if select && thenMsgs then s.advance r .msgs else s.rest r select)
    | signal :: queue => some (s.popSignal r signal queue)
  | .msgs =>
    match s.msgQueue with
    | [] => some (s.rest r true)
    | msg :: queue => some ({ s with msgQueue := queue }.finish r (some (.message msg)))
  | .waiting _ => none

def wake (s : Receiver I) (r : Receive) (signal msg : Bool) : Option (Receiver I) :=
  match r.stage with
  | .waiting select =>
    if signal then some (s.advance r (.signals select msg))
    else if select && msg then some (s.advance r .msgs) else none
  | _ => none

/-- A receive begins with what is queued at that time. `recv_signal` never asks for the status. -/
def beginReceive (s : Receiver I) (kind : ReceiveKind) : Receiver I :=
  { s.maybeAutoInit with current := some {
      kind := kind
      stage := if kind = .recvSignal then .signals false false else .status
      begun := s.status
      owed := s.signalQueue.length
      processed := [] } }

/-- Something that the actor only does while no receive is on. -/
def whileIdle (s : Receiver I) (s' : Receiver I) : Option (Receiver I) :=
  if s.current = none then some s' else none

def step (s : Receiver I) : Event I → Option (Receiver I)
  | .pushMsg msg => some { s with msgQueue := s.msgQueue ++ [msg], pushed := s.pushed ++ [msg] }
  | .pushSignal signal => some { s with signalQueue := s.signalQueue ++ [signal] }
  | .receive kind => s.whileIdle (s.beginReceive kind)
  | .poll => s.current.bind s.poll
  | .wake signal msg => s.current.bind fun r => s.wake r signal msg
  | .drop => s.current.bind fun r =>
    match r.stage with
    | .waiting _ => some { s with current := none }
    | _ => none
  | .setManualInit => s.whileIdle (s.setInit .manual)
  | .setAutoInit => s.whileIdle (s.setInit .auto)
  | .registerInitialized => s.whileIdle s.registerInitialized
  | .registerExiting => s.whileIdle { s with status := s.status.registerExiting.1 }
  | .registerExited reason => s.whileIdle { s with status := (s.status.registerExited reason).1 }

/-- Every interleaving of the senders and one actor. -/
def runs (I : Type) : Lts (Receiver I) (Event I) := Lts.ofFun (fun s => s = new) step

/-- The messages that came out of some receives. -/
def msgs (finished : List (Received I)) : List I := finished.filterMap Received.msg?

/-- A suspended actor may go on. -/
def Released (processed : List SignalInterface) : Prop :=
  .resume ∈ processed ∨ .shutdown ∈ processed

/-- What holds of the receives of every run. -/
structure Semantics (s : Receiver I) : Prop where
  /-- Messages come out in their order, and each as often as it was pushed. -/
  inOrder : msgs s.finished ++ s.msgQueue = s.pushed
  held : ∀ r ∈ s.finished, r.receive.begun = .suspended → r.msg? ≠ none →
    Released r.receive.processed
  /-- The signals that were queued at the begin come before a message. -/
  signalsFirst : ∀ r ∈ s.finished, r.msg? ≠ none → r.receive.owed = 0
  /-- Only a receive that does not wait returns nothing before the end of the actor. -/
  exiting : ∀ r ∈ s.finished, r.receive.kind ≠ .tryRecv → r.result = none →
    (r.status = .exiting ∨ r.status.isDead) ∧ r.left = []
  /-- By the end all that was pushed has come out. -/
  complete : ∀ i r, s.finished[i]? = some r → r.receive.kind ≠ .tryRecv → r.result = none →
    msgs (s.finished.take (i + 1)) = r.pushed

/-! ## The receive that is on -/

end Receiver

namespace ReceiveStage

/-- Messages may be taken. -/
def takesMsgs : ReceiveStage → Bool
  | status => false
  | signals select _ => select
  | msgs => true
  | waiting select => select

/-- No signal was left when the receive came there. -/
def pastSignals : ReceiveStage → Bool
  | status | signals _ _ => false
  | msgs | waiting _ => true

end ReceiveStage

namespace Receiver
variable {I : Type} {s s' : Receiver I} {r : Receive} {e : Event I} {result : Option (InboxEventOf I)}

/-- What a receive has seen so far. -/
structure Fair (s : Receiver I) (r : Receive) : Prop where
  owed_le : r.owed ≤ s.signalQueue.length
  owed_eq : r.stage.pastSignals = true → r.owed = 0
  held : r.begun = .suspended → Released r.processed ∨
    s.status = .suspended ∧ r.stage.takesMsgs = false
  signalOnly : r.kind = .recvSignal → r.stage ≠ .status ∧ r.stage.takesMsgs = false

/-- The invariant: what has returned, and the receive that is on. -/
structure Sound (s : Receiver I) : Prop where
  semantics : s.Semantics
  signals : ∀ r ∈ s.finished, r.receive.kind = .recvSignal → ∃ signal, r.result = some (.signal signal)
  fair : ∀ r ∈ s.current, s.Fair r

theorem sound_new : (new : Receiver I).Sound where
  semantics := by constructor <;> simp [new, msgs]
  signals := by simp [new]
  fair := by simp [new]

theorem handleSignal_suspended {signal : SignalInterface} (hresume : signal ≠ .resume)
    (hshutdown : signal ≠ .shutdown) :
    (ActorStatus.suspended.handleSignal signal).1 = .suspended := by
  cases signal with
  | resume => exact absurd rfl hresume
  | shutdown => exact absurd rfl hshutdown
  | suspend | ping => rfl

/-- The history of the receives is as it was, and so is what it leaves in the queue. -/
theorem Semantics.of_eq (h : s.Semantics) (hfinished : s'.finished = s.finished)
    (hqueue : msgs s.finished ++ s'.msgQueue = s'.pushed) : s'.Semantics := by
  constructor
  · rw [hfinished, hqueue]
  all_goals rw [hfinished]
  · exact h.held
  · exact h.signalsFirst
  · exact h.exiting
  · exact h.complete

theorem msgs_append (finished : List (Received I)) (r : Received I) :
    msgs (finished ++ [r]) = msgs finished ++ r.msg?.toList := by
  unfold msgs
  rw [List.filterMap_append]
  cases hmsg : r.msg? <;> simp [hmsg]

theorem Semantics.finish (h : s.Semantics) (hfinished : s'.finished = s.finished)
    (hpushed : s'.pushed = s.pushed)
    (hqueue : (Received.mk r result s'.status s'.msgQueue s'.pushed).msg?.toList ++ s'.msgQueue =
      s.msgQueue)
    (hheld : (Received.mk r result s'.status s'.msgQueue s'.pushed).msg? ≠ none →
      (r.begun = .suspended → Released r.processed) ∧ r.owed = 0)
    (hexiting : r.kind ≠ .tryRecv → result = none →
      (s'.status = .exiting ∨ s'.status.isDead) ∧ s'.msgQueue = []) :
    (s'.finish r result).Semantics := by
  have hin : msgs (s.finished ++ [⟨r, result, s'.status, s'.msgQueue, s'.pushed⟩]) ++ s'.msgQueue =
      s'.pushed := by
    rw [msgs_append, List.append_assoc, hqueue, h.inOrder, hpushed]
  constructor <;> simp only [Receiver.finish, hfinished]
  · exact hin
  · intro r' hr' hbegun hmsg
    rcases List.mem_append.1 hr' with hr' | hr'
    · exact h.held r' hr' hbegun hmsg
    · obtain rfl := List.mem_singleton.1 hr'
      exact (hheld hmsg).1 hbegun
  · intro r' hr' hmsg
    rcases List.mem_append.1 hr' with hr' | hr'
    · exact h.signalsFirst r' hr' hmsg
    · obtain rfl := List.mem_singleton.1 hr'
      exact (hheld hmsg).2
  · intro r' hr' hkind hnone
    rcases List.mem_append.1 hr' with hr' | hr'
    · exact h.exiting r' hr' hkind hnone
    · obtain rfl := List.mem_singleton.1 hr'
      exact hexiting hkind hnone
  · intro i r' hi hkind hnone
    rcases List.getElem?_concat_eq_some.1 hi with hi | ⟨rfl, rfl⟩
    · have hlt := (List.getElem?_eq_some_iff.1 hi).1
      rw [List.take_append_of_le_length (by omega)]
      exact h.complete i r' hi hkind hnone
    · rw [List.take_of_length_le (by simp)]
      have hempty := (hexiting hkind hnone).2
      rw [hempty, List.append_nil] at hin
      rw [hempty]
      exact hin

theorem Sound.advance (h : s.Sound) {stage : ReceiveStage} (hfinished : s'.finished = s.finished)
    (hqueue : s'.msgQueue = s.msgQueue) (hpushed : s'.pushed = s.pushed)
    (hfair : s'.Fair { r with stage := stage }) : (s'.advance r stage).Sound where
  semantics := by
    refine h.semantics.of_eq hfinished ?_
    show msgs s.finished ++ s'.msgQueue = s'.pushed
    rw [hqueue, hpushed]
    exact h.semantics.inOrder
  signals := by
    show ∀ r ∈ s'.finished, _
    rw [hfinished]
    exact h.signals
  fair := by
    intro r' hr'
    cases hr'
    exact ⟨hfair.owed_le, hfair.owed_eq, hfair.held, hfair.signalOnly⟩

theorem signals_finish
    (h : ∀ r ∈ s.finished, r.receive.kind = .recvSignal → ∃ signal, r.result = some (.signal signal))
    (hfinished : s'.finished = s.finished)
    (hsignal : r.kind = .recvSignal → ∃ signal, result = some (.signal signal)) :
    ∀ r' ∈ (s'.finish r result).finished, r'.receive.kind = .recvSignal →
      ∃ signal, r'.result = some (.signal signal) := by
  intro r' hr' hkind
  rcases List.mem_append.1 hr' with hr' | hr'
  · exact h r' (hfinished ▸ hr') hkind
  · obtain rfl := List.mem_singleton.1 hr'
    exact hsignal hkind

theorem Sound.finish (h : s.Sound) (hfinished : s'.finished = s.finished)
    (hqueue : s'.msgQueue = s.msgQueue) (hpushed : s'.pushed = s.pushed)
    (hmsg : ∀ msg, result ≠ some (.message msg))
    (hsignal : r.kind = .recvSignal → ∃ signal, result = some (.signal signal))
    (hexiting : r.kind ≠ .tryRecv → result = none →
      (s'.status = .exiting ∨ s'.status.isDead) ∧ s'.msgQueue = []) : (s'.finish r result).Sound where
  semantics := by
    have hnone : (Received.mk r result s'.status s'.msgQueue s'.pushed).msg? = none := by
      unfold Received.msg?
      split
      · rename_i msg heq
        exact absurd heq (hmsg msg)
      · rfl
    refine h.semantics.finish hfinished hpushed ?_ (fun hsome => absurd hnone hsome) hexiting
    rw [hnone, hqueue]
    rfl
  signals := signals_finish h.signals hfinished hsignal
  fair := by
    intro r' hr'
    cases hr'

/-- The status may only be another one when the receive that is on is not held by it. -/
theorem Fair.of_eq (h : s.Fair r) {stage : ReceiveStage} (hqueue : s'.signalQueue = s.signalQueue)
    (hstatus : s'.status = s.status) (howed : stage.pastSignals = true → r.owed = 0)
    (hheld : s.status = .suspended → r.stage.takesMsgs = false → stage.takesMsgs = false)
    (hsignal : r.stage ≠ .status → r.stage.takesMsgs = false →
      stage ≠ .status ∧ stage.takesMsgs = false) : s'.Fair { r with stage := stage } where
  owed_le := by
    rw [hqueue]
    exact h.owed_le
  owed_eq := howed
  held hbegun := by
    rw [hstatus]
    exact (h.held hbegun).imp_right fun ⟨hsusp, htakes⟩ => ⟨hsusp, hheld hsusp htakes⟩
  signalOnly hkind := hsignal (h.signalOnly hkind).1 (h.signalOnly hkind).2

theorem Fair.keep (h : s.Fair r) {stage : ReceiveStage} (howed : r.owed = 0) (hstage : stage ≠ .status)
    (htakes : r.stage.takesMsgs = stage.takesMsgs) : s.Fair { r with stage := stage } :=
  h.of_eq rfl rfl (fun _ => howed) (fun _ hfalse => htakes ▸ hfalse)
    fun _ hfalse => ⟨hstage, htakes ▸ hfalse⟩

theorem Sound.rest (h : s.Sound) {select : Bool} (hr : s.Fair r) (howed : r.owed = 0)
    (htakes : r.stage.takesMsgs = select) : (s.rest r select).Sound := by
  unfold Receiver.rest
  split
  · rename_i hkind
    exact h.finish rfl rfl rfl nofun (fun hne => by rw [hkind] at hne; cases hne)
      fun hne => absurd hkind hne
  · exact h.advance rfl rfl rfl (hr.keep howed nofun htakes)

theorem Sound.readStatus (h : s.Sound) (hr : s.Fair r) (hstage : r.stage = .status) :
    (s.readStatus r).Sound := by
  have hnot : r.kind ≠ .recvSignal := fun hkind => (hr.signalOnly hkind).1 hstage
  have hgo : s.status ≠ .suspended → (s.advance r (.signals true true)).Sound := fun hne =>
    h.advance rfl rfl rfl (hr.of_eq rfl rfl nofun (fun hsusp => absurd hsusp hne)
      fun hne => absurd hstage hne)
  unfold Receiver.readStatus
  cases hstatus : s.status with
  | suspended =>
    exact h.advance rfl rfl rfl (hr.of_eq rfl rfl nofun (fun _ _ => rfl) fun hne => absurd hstage hne)
  | exited status =>
    dsimp only
    split
    · rename_i hempty
      refine h.finish rfl rfl rfl nofun (fun hkind => absurd hkind hnot)
        fun _ _ => ⟨.inr (by rw [hstatus]; rfl), ?_⟩
      exact List.isEmpty_iff.1 hempty
    · exact hgo (by rw [hstatus]; exact ActorStatus.noConfusion)
  | exiting =>
    dsimp only
    split
    · rename_i hempty
      exact h.finish rfl rfl rfl nofun (fun hkind => absurd hkind hnot)
        fun _ _ => ⟨.inl hstatus, List.isEmpty_iff.1 hempty.1⟩
    · exact hgo (by rw [hstatus]; exact ActorStatus.noConfusion)
  | initializing | running => exact hgo (by rw [hstatus]; exact ActorStatus.noConfusion)

theorem Fair.popSignal (h : s.Fair r) {signal : SignalInterface} {queue : List SignalInterface}
    (hqueue : s.signalQueue = signal :: queue) {stage : ReceiveStage}
    (hpast : stage.pastSignals = false)
    (htakes : r.stage.takesMsgs = false → stage.takesMsgs = false)
    (hsignal : r.kind = .recvSignal → stage ≠ .status) :
    Fair { s with status := (s.status.handleSignal signal).1, signalQueue := queue }
      ⟨r.kind, stage, r.begun, r.owed - 1, r.processed ++ [signal]⟩ where
  owed_le := by
    have hle := h.owed_le
    rw [hqueue, List.length_cons] at hle
    show r.owed - 1 ≤ queue.length
    omega
  owed_eq hpast' := by
    have hpast' : stage.pastSignals = true := hpast'
    rw [hpast] at hpast'
    cases hpast'
  held hbegun := by
    by_cases hresume : signal = .resume
    · exact .inl (.inl (by simp [hresume]))
    by_cases hshutdown : signal = .shutdown
    · exact .inl (.inr (by simp [hshutdown]))
    refine (h.held hbegun).imp (fun hreleased => ?_) fun ⟨hsusp, htakes'⟩ => ⟨?_, htakes htakes'⟩
    · exact hreleased.imp (List.mem_append_left _) (List.mem_append_left _)
    · show (s.status.handleSignal signal).1 = .suspended
      rw [hsusp]
      exact handleSignal_suspended hresume hshutdown
  signalOnly hkind := ⟨hsignal hkind, htakes (h.signalOnly hkind).2⟩

theorem Sound.popSignal (h : s.Sound) (hr : s.Fair r) {signal : SignalInterface}
    {queue : List SignalInterface} (hqueue : s.signalQueue = signal :: queue)
    (hpast : r.stage.pastSignals = false) : (s.popSignal r signal queue).Sound := by
  unfold Receiver.popSignal
  dsimp only
  split
  · exact h.advance rfl rfl rfl (hr.popSignal hqueue hpast id fun hkind => (hr.signalOnly hkind).1)
  · rename_i event _
    split
    · rename_i hkind
      refine h.advance rfl rfl rfl (hr.popSignal hqueue rfl (fun _ => rfl) fun hsignal => ?_)
      rw [hkind] at hsignal
      cases hsignal
    · exact h.finish rfl rfl rfl nofun (fun _ => ⟨event, rfl⟩) nofun

/-- A message comes out of a receive that takes messages, after the signals. -/
theorem Sound.popMsg (h : s.Sound) (hr : s.Fair r) (hstage : r.stage = .msgs) {msg : I}
    {queue : List I} (hqueue : s.msgQueue = msg :: queue) :
    ({ s with msgQueue := queue }.finish r (some (.message msg))).Sound where
  semantics := by
    refine h.semantics.finish rfl rfl hqueue.symm (fun _ => ⟨fun hbegun => ?_, ?_⟩) nofun
    · refine (hr.held hbegun).elim id fun ⟨_, htakes⟩ => ?_
      rw [hstage] at htakes
      cases htakes
    · exact hr.owed_eq (by rw [hstage]; rfl)
  signals := by
    refine signals_finish h.signals rfl fun hkind => ?_
    have htakes := (hr.signalOnly hkind).2
    rw [hstage] at htakes
    cases htakes
  fair := by
    intro r' hr'
    cases hr'

theorem Sound.poll (h : s.Sound) (hr : s.Fair r) (hs : s.poll r = some s') : s'.Sound := by
  unfold Receiver.poll at hs
  cases hstage : r.stage with
  | status =>
    simp only [hstage] at hs
    cases hs
    exact h.readStatus hr hstage
  | signals select thenMsgs =>
    simp only [hstage] at hs
    cases hqueue : s.signalQueue with
    | nil =>
      have howed : r.owed = 0 := by
        have hle := hr.owed_le
        rw [hqueue, List.length_nil] at hle
        omega
      simp only [hqueue, Option.some.injEq] at hs
      subst hs
      split
      · rename_i hselect
        obtain ⟨rfl, -⟩ := Bool.and_eq_true_iff.1 hselect
        exact h.advance rfl rfl rfl (hr.keep howed nofun (by rw [hstage]; rfl))
      · exact h.rest hr howed (by rw [hstage]; rfl)
    | cons signal queue =>
      simp only [hqueue, Option.some.injEq] at hs
      subst hs
      exact h.popSignal hr hqueue (by rw [hstage]; rfl)
  | msgs =>
    simp only [hstage] at hs
    cases hqueue : s.msgQueue with
    | nil =>
      simp only [hqueue, Option.some.injEq] at hs
      subst hs
      exact h.rest hr (hr.owed_eq (by rw [hstage]; rfl)) (by rw [hstage]; rfl)
    | cons msg queue =>
      simp only [hqueue, Option.some.injEq] at hs
      subst hs
      exact h.popMsg hr hstage hqueue
  | waiting select =>
    simp only [hstage] at hs
    cases hs

theorem Sound.wake (h : s.Sound) (hr : s.Fair r) {signal msg : Bool}
    (hs : s.wake r signal msg = some s') : s'.Sound := by
  unfold Receiver.wake at hs
  cases hstage : r.stage with
  | waiting select =>
    simp only [hstage] at hs
    have howed : r.owed = 0 := hr.owed_eq (by rw [hstage]; rfl)
    split at hs
    · cases hs
      exact h.advance rfl rfl rfl (hr.keep howed nofun (by rw [hstage]; rfl))
    · split at hs
      · rename_i hselect
        obtain ⟨rfl, -⟩ := Bool.and_eq_true_iff.1 hselect
        cases hs
        exact h.advance rfl rfl rfl (hr.keep howed nofun (by rw [hstage]; rfl))
      · cases hs
  | status | signals select thenMsgs | msgs =>
    simp only [hstage] at hs
    cases hs

/-! ## Runs -/

theorem Sound.of_idle (h : s.Sound) (hfinished : s'.finished = s.finished)
    (hqueue : s'.msgQueue = s.msgQueue) (hpushed : s'.pushed = s.pushed)
    (hfair : ∀ r ∈ s'.current, s'.Fair r) : s'.Sound where
  semantics := by
    refine h.semantics.of_eq hfinished ?_
    rw [hqueue, hpushed]
    exact h.semantics.inOrder
  signals := by
    rw [hfinished]
    exact h.signals
  fair := hfair

theorem whileIdle_eq_some {s'' : Receiver I} (hs : s.whileIdle s'' = some s') :
    s.current = none ∧ s' = s'' := by
  unfold whileIdle at hs
  split at hs
  · cases hs
    exact ⟨by assumption, rfl⟩
  · cases hs

@[simp] theorem registerInitialized_frame : s.registerInitialized.finished = s.finished ∧
    s.registerInitialized.msgQueue = s.msgQueue ∧ s.registerInitialized.pushed = s.pushed ∧
    s.registerInitialized.signalQueue = s.signalQueue ∧
    s.registerInitialized.current = s.current := by
  unfold registerInitialized
  split <;> exact ⟨rfl, rfl, rfl, rfl, rfl⟩

theorem status_registerInitialized (h : s.status = .suspended) :
    s.registerInitialized.status = .suspended := by
  unfold registerInitialized
  split
  · exact h
  · show s.status.registerInitialized.1 = .suspended
    rw [h]
    rfl

theorem Sound.beginReceive (h : s.Sound) (kind : ReceiveKind) : (s.beginReceive kind).Sound := by
  have hauto : s.maybeAutoInit.finished = s.finished ∧ s.maybeAutoInit.msgQueue = s.msgQueue ∧
      s.maybeAutoInit.pushed = s.pushed ∧ s.maybeAutoInit.signalQueue = s.signalQueue ∧
      (s.status = .suspended → s.maybeAutoInit.status = .suspended) := by
    unfold maybeAutoInit
    split
    · obtain ⟨h₁, h₂, h₃, h₄, -⟩ := registerInitialized_frame (s := s)
      exact ⟨h₁, h₂, h₃, h₄, status_registerInitialized⟩
    · exact ⟨rfl, rfl, rfl, rfl, id⟩
  obtain ⟨hfinished, hqueue, hpushed, hsignals, hstatus⟩ := hauto
  refine h.of_idle hfinished hqueue hpushed fun r hr => ?_
  cases hr
  refine ⟨?_, fun hpast => ?_, fun hbegun => .inr ⟨hstatus hbegun, ?_⟩, fun hkind => ?_⟩
  · show s.signalQueue.length ≤ s.maybeAutoInit.signalQueue.length
    rw [hsignals]
  · revert hpast
    dsimp only
    split <;> exact Bool.noConfusion
  · dsimp only
    split <;> rfl
  · have hkind : kind = .recvSignal := hkind
    simp only [hkind, if_true]
    exact ⟨nofun, rfl⟩

theorem Sound.step (h : s.Sound) (hs : s.step e = some s') : s'.Sound := by
  cases e with
  | pushMsg msg =>
    cases hs
    refine ⟨h.semantics.of_eq rfl ?_, h.signals, fun r hr => ?_⟩
    · show msgs s.finished ++ (s.msgQueue ++ [msg]) = s.pushed ++ [msg]
      rw [← List.append_assoc, h.semantics.inOrder]
    · obtain ⟨hle, hpast, hheld, hsignal⟩ := h.fair r hr
      exact ⟨hle, hpast, hheld, hsignal⟩
  | pushSignal signal =>
    cases hs
    refine h.of_idle rfl rfl rfl fun r hr => ?_
    obtain ⟨hle, hpast, hheld, hsignal⟩ := h.fair r hr
    refine ⟨?_, hpast, hheld, hsignal⟩
    show r.owed ≤ (s.signalQueue ++ [signal]).length
    rw [List.length_append]
    omega
  | receive kind =>
    obtain ⟨-, rfl⟩ := whileIdle_eq_some hs
    exact h.beginReceive kind
  | poll =>
    obtain ⟨r, hr, hs⟩ := Option.bind_eq_some_iff.1 hs
    exact h.poll (h.fair r hr) hs
  | wake signal msg =>
    obtain ⟨r, hr, hs⟩ := Option.bind_eq_some_iff.1 hs
    exact h.wake (h.fair r hr) hs
  | drop =>
    obtain ⟨r, hr, hs⟩ := Option.bind_eq_some_iff.1 hs
    split at hs
    · cases hs
      exact h.of_idle rfl rfl rfl fun r hr => by cases hr
    · cases hs
  | setManualInit | setAutoInit =>
    obtain ⟨hidle, rfl⟩ := whileIdle_eq_some hs
    unfold setInit
    split
    · exact h
    · exact h.of_idle rfl rfl rfl fun r hr => by rw [hidle] at hr; cases hr
  | registerInitialized =>
    obtain ⟨hidle, rfl⟩ := whileIdle_eq_some hs
    obtain ⟨hfinished, hqueue, hpushed, -, hcurrent⟩ := registerInitialized_frame (s := s)
    refine h.of_idle hfinished hqueue hpushed fun r hr => ?_
    rw [hcurrent, hidle] at hr
    cases hr
  | registerExiting | registerExited reason =>
    obtain ⟨hidle, rfl⟩ := whileIdle_eq_some hs
    exact h.of_idle rfl rfl rfl fun r hr => by rw [hidle] at hr; cases hr

theorem sound (h : (runs I).Reachable s) : s.Sound := by
  refine h.invariant (I := Sound) ?_ fun s e s' hi hs => hi.step hs
  rintro _ rfl
  exact sound_new

/-! ## What a poll does -/

/-- The receive is still on, or it has returned. -/
def PollOutcome (s s' : Receiver I) (r : Receive) : Prop :=
  s'.pushed = s.pushed ∧
  (s'.finished = s.finished ∧ (∃ r', s'.current = some r' ∧ r'.kind = r.kind) ∨
    ∃ record, s'.finished = s.finished ++ [record] ∧ record.receive.kind = r.kind ∧
      record.pushed = s.pushed ∧ s'.current = none)

theorem outcome_advance {stage : ReceiveStage} (hfinished : s'.finished = s.finished)
    (hpushed : s'.pushed = s.pushed) {r' : Receive} (hkind : r'.kind = r.kind) :
    PollOutcome s (s'.advance r' stage) r :=
  ⟨hpushed, .inl ⟨hfinished, _, rfl, hkind⟩⟩

theorem outcome_finish (hfinished : s'.finished = s.finished) (hpushed : s'.pushed = s.pushed)
    {r' : Receive} (hkind : r'.kind = r.kind) : PollOutcome s (s'.finish r' result) r :=
  ⟨hpushed, .inr ⟨_, congrArg (· ++ [_]) hfinished, hkind, hpushed, rfl⟩⟩

theorem outcome_rest {select : Bool} : PollOutcome s (s.rest r select) r := by
  unfold Receiver.rest
  split
  · exact outcome_finish rfl rfl rfl
  · exact outcome_advance rfl rfl rfl

theorem outcome_poll (hs : s.poll r = some s') : PollOutcome s s' r := by
  unfold Receiver.poll at hs
  split at hs
  · cases hs
    unfold Receiver.readStatus
    split
    · exact outcome_advance rfl rfl rfl
    · split
      · exact outcome_finish rfl rfl rfl
      · exact outcome_advance rfl rfl rfl
    · split
      · exact outcome_finish rfl rfl rfl
      · exact outcome_advance rfl rfl rfl
    · exact outcome_advance rfl rfl rfl
    · exact outcome_advance rfl rfl rfl
  · split at hs
    · cases hs
      split
      · exact outcome_advance rfl rfl rfl
      · exact outcome_rest
    · cases hs
      unfold Receiver.popSignal
      dsimp only
      split
      · exact outcome_advance rfl rfl rfl
      · split
        · exact outcome_advance rfl rfl rfl
        · exact outcome_finish rfl rfl rfl
  · split at hs
    · cases hs
      exact outcome_rest
    · cases hs
      exact outcome_finish rfl rfl rfl
  · cases hs

theorem outcome_wake {signal msg : Bool} (hs : s.wake r signal msg = some s') : PollOutcome s s' r := by
  unfold Receiver.wake at hs
  split at hs
  · split at hs
    · cases hs
      exact outcome_advance rfl rfl rfl
    · split at hs
      · cases hs
        exact outcome_advance rfl rfl rfl
      · cases hs
  · cases hs

theorem beginReceive_frame (kind : ReceiveKind) :
    (s.beginReceive kind).finished = s.finished ∧ (s.beginReceive kind).pushed = s.pushed := by
  have hauto : s.maybeAutoInit.finished = s.finished ∧ s.maybeAutoInit.pushed = s.pushed := by
    unfold maybeAutoInit
    split
    · exact ⟨registerInitialized_frame.1, registerInitialized_frame.2.2.1⟩
    · exact ⟨rfl, rfl⟩
  exact hauto

/-! ## The receives of every run -/

/-- What comes out of the receives of an actor, whatever is sent to it and whenever. -/
theorem semantics_of_reachable (h : (runs I).Reachable s) : s.Semantics := (sound h).semantics

/-- A suspended actor with a message is resumed and shut down, and receives until the end. -/
theorem semantics_of_reachable_held : ∃ s, (runs ℕ).Reachable s ∧
    (s.finished.map (·.result) = [some (.signal .suspend), some (.message 7), none] ∧
      s.finished.map (·.receive.begun) = [.initializing, .suspended, .exiting]) ∧ s.Semantics := by
  obtain ⟨s, hs, h⟩ : ∃ s, (runs ℕ).Reachable s ∧
      s.finished.map (·.result) = [some (.signal .suspend), some (.message 7), none] ∧
      s.finished.map (·.receive.begun) = [.initializing, .suspended, .exiting] :=
    Lts.exists_reachable_of_exec (s := new) rfl
      [.pushSignal .ping, .pushSignal .suspend, .receive .recvEvent, .poll, .poll, .poll, .pushMsg 7,
        .receive .recv, .poll, .poll, .pushSignal .resume, .pushSignal .shutdown, .wake true false,
        .poll, .poll, .poll, .poll, .poll, .poll, .receive .recv, .poll]
      (by decide +kernel)
  exact ⟨s, hs, h, semantics_of_reachable hs⟩

end Receiver
end Zestors
