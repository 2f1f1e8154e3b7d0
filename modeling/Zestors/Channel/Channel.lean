import Zestors.ActorStatus

/-!
# The channel of an actor

The two queues of a channel, and the sends of its callers one step at a time: `try_cast_with` and
`Channel::signal` read the status, read the length of the queue and push in steps of their own, with
anything in between.
-/

namespace Zestors

/-- `CallOptions`, less the timeout that only a call's receipt looks at. -/
structure CallOptions where
  ignoreBackpressure : Bool := false
  ignoreExiting : Bool := false
deriving DecidableEq

/-- What a queue holds. `pushedIn` is a ghost: the incarnation of the actor at the push. -/
structure Queued (α : Type) where
  item : α
  pushedIn : ℕ
deriving DecidableEq

/-- `Channel`. A message is known by its number, and `reachedBackpressure` (a comparison of floats)
is left open. -/
structure Channel where
  status : ActorStatus
  msgQueue : List (Queued ℕ)
  signalQueue : List (Queued SignalInterface)
  reachedBackpressure : ℕ → Bool
  msgQueueLimit : ℕ
  signalQueueLimit : ℕ

/-- Where a send of a message stands: what it does in its next step. -/
inductive CastStage
  | backpressure
  | status
  | room
  | push
deriving DecidableEq

/-- How `try_cast_with` and `try_cast_dyn_with` end; `noRoom` is the panic of `assert_msg_room`. -/
inductive CastResult
  | full
  | closed
  | noRoom
  | notAccepted
  | receipt
deriving DecidableEq

/-- A call of `try_cast_with` or `try_cast_dyn_with` that has not returned. `member` says whether the
queue's interface has the message's type, which only a dynamic send can miss. -/
structure Cast where
  msg : ℕ
  options : CallOptions
  member : Bool
  stage : CastStage
deriving DecidableEq

inductive SignalStage
  | status
  | room
  | push
deriving DecidableEq

/-- A call of `Channel::signal` that has not returned. -/
structure SignalCall where
  signal : SignalInterface
  stage : SignalStage
deriving DecidableEq

namespace Channel
variable {ch : Channel} {now : ℕ} {cast : Cast} {call : SignalCall}

/-- `Channel::with_limits`. -/
def withLimits (reachedBackpressure : ℕ → Bool) (msgQueueLimit signalQueueLimit : ℕ) : Channel :=
  ⟨.exited .normal, [], [], reachedBackpressure, msgQueueLimit, signalQueueLimit⟩

/-- The next step of `try_cast_with` or `try_cast_dyn_with`: the call that remains, or its result. -/
def stepCast (ch : Channel) (now : ℕ) (cast : Cast) : Channel × Except CastResult Cast :=
  match cast.stage with
  | .backpressure =>
    if !cast.options.ignoreBackpressure && ch.reachedBackpressure ch.msgQueue.length then
      (ch, .error .full)
    else (ch, .ok { cast with stage := .status })
  | .status =>
    if !ch.status.acceptsMessages && !(cast.options.ignoreExiting && ch.status.isExiting) then
      (ch, .error .closed)
    else (ch, .ok { cast with stage := .room })
  | .room =>
    if ch.msgQueue.length ≥ ch.msgQueueLimit then (ch, .error .noRoom)
    else (ch, .ok { cast with stage := .push })
  | .push =>
    if cast.member then
      ({ ch with msgQueue := ch.msgQueue ++ [⟨cast.msg, now⟩] }, .error .receipt)
    else (ch, .error .notAccepted)

/-- The next step of `Channel::signal`: the call that remains, or what it returns. -/
def stepSignal (ch : Channel) (now : ℕ) (call : SignalCall) : Channel × Except Bool SignalCall :=
  match call.stage with
  | .status =>
    if ch.status.isDead || ch.status.isExiting then (ch, .error false)
    else (ch, .ok { call with stage := .room })
  | .room =>
    if ch.signalQueue.length ≥ ch.signalQueueLimit then (ch, .error false)
    else (ch, .ok { call with stage := .push })
  | .push => ({ ch with signalQueue := ch.signalQueue ++ [⟨call.signal, now⟩] }, .error true)

/-- A send either leaves the channel alone or, in its last step, pushes the message. -/
theorem stepCast_cases (ch : Channel) (now : ℕ) (cast : Cast) :
    ((ch.stepCast now cast).1 = ch ∧ (ch.stepCast now cast).2 ≠ .error .receipt) ∨
    (cast.stage = .push ∧ cast.member = true ∧
      (ch.stepCast now cast).1 = { ch with msgQueue := ch.msgQueue ++ [⟨cast.msg, now⟩] } ∧
      (ch.stepCast now cast).2 = .error .receipt) := by
  unfold stepCast
  cases hstage : cast.stage with
  | backpressure | status | room => left; dsimp only; split <;> simp
  | push => dsimp only; split <;> simp_all

theorem stepSignal_cases (ch : Channel) (now : ℕ) (call : SignalCall) :
    (ch.stepSignal now call).1 = ch ∨
    (call.stage = .push ∧ (ch.stepSignal now call).1 =
      { ch with signalQueue := ch.signalQueue ++ [⟨call.signal, now⟩] }) := by
  unfold stepSignal
  cases hstage : call.stage with
  | status | room => left; dsimp only; split <;> rfl
  | push => exact .inr ⟨rfl, rfl⟩

end Channel

end Zestors
