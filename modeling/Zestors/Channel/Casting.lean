import Zestors.Channel.Channel

/-!
# Typed and dynamic sends

A message goes into a channel on one of two paths. The typed one knows the interface of the queue and
builds a value of it. The dynamic one erases the type of the envelope, and the queue finds the variant
by asking the envelope for the type of each one in turn.

On any state of the channel the two paths give the same result and leave the same channel
(`tryCastDynWith_eq`). Both go through the checks of `Program.Refuses` in one order, and what is left
to show is that the variant that the search finds is the one that the typed path takes
(`tryFromDynEnvelope_new`), for which no two variants of an interface may have one message type.
-/

namespace Zestors

/-- Whether a message expects a reply. -/
inductive MessageKind
  | call
  | cast
deriving DecidableEq

namespace MessageKind

/-- The resolver of a call is known by the number of its oneshot channel. -/
def Resolver : MessageKind → Type
  | call => ℕ
  | cast => Unit

def Receipt : MessageKind → Type
  | call => ℕ
  | cast => Unit

/-- `Resolver::new`, where `oneshot` is the channel that a call makes. -/
def newResolver (oneshot : ℕ) : (kind : MessageKind) → kind.Resolver × kind.Receipt
  | call => (oneshot, oneshot)
  | cast => ((), ())

end MessageKind

/-- The message types and the interfaces of a program, each known by its `TypeId`. Two variants of one
interface do not have the same message type: their `From` impls would overlap. The interface `()` has
the one variant `()`, and `Infallible` has none. -/
structure Program where
  MsgId : Type
  InterfaceId : Type
  decEqMsg : DecidableEq MsgId
  decEqInterface : DecidableEq InterfaceId
  Payload : MsgId → Type
  kind : MsgId → MessageKind
  members : InterfaceId → List MsgId
  nodup : ∀ i, (members i).Nodup

namespace Program
variable {P : Program} {m n : P.MsgId} {i j : P.InterfaceId}

instance : DecidableEq P.MsgId := P.decEqMsg
instance : DecidableEq P.InterfaceId := P.decEqInterface

abbrev ReceiptOf (P : Program) (m : P.MsgId) : Type := (P.kind m).Receipt

structure Envelope (P : Program) (m : P.MsgId) where
  msg : P.Payload m
  req : (P.kind m).Resolver

/-- `Envelope::new_pair`. -/
def Envelope.newPair (msg : P.Payload m) (oneshot : ℕ) : P.Envelope m × P.ReceiptOf m :=
  (⟨msg, ((P.kind m).newResolver oneshot).1⟩, ((P.kind m).newResolver oneshot).2)

structure AnyEnvelope (P : Program) where
  type : P.MsgId
  envelope : P.Envelope type

namespace AnyEnvelope

def new (envelope : P.Envelope m) : P.AnyEnvelope := ⟨m, envelope⟩

def newPair (msg : P.Payload m) (oneshot : ℕ) : P.AnyEnvelope × P.ReceiptOf m :=
  (new (Envelope.newPair msg oneshot).1, (Envelope.newPair msg oneshot).2)

def downcast (m : P.MsgId) (envelope : P.AnyEnvelope) : Except P.AnyEnvelope (P.Envelope m) :=
  if h : envelope.type = m then .ok (h ▸ envelope.envelope) else .error envelope

@[simp]
theorem downcast_new (envelope : P.Envelope m) : (new envelope).downcast m = .ok envelope := by
  simp [downcast, new]

theorem downcast_of_ne (envelope : P.Envelope m) (h : m ≠ n) :
    (new envelope).downcast n = .error (new envelope) := dif_neg h

end AnyEnvelope

/-- A variant of a derived interface with these message types, and the one that it holds. -/
inductive Variant {α : Type} : List α → α → Type
  | head {m : α} {l : List α} : Variant (m :: l) m
  | tail {m a : α} {l : List α} : Variant l m → Variant (a :: l) m

theorem Variant.mem {α : Type} {l : List α} {m : α} (v : Variant l m) : m ∈ l := by
  induction v with
  | head => exact List.mem_cons_self
  | tail v ih => exact List.mem_cons_of_mem _ ih

theorem nonempty_variant_iff {α : Type} {l : List α} {m : α} : Nonempty (Variant l m) ↔ m ∈ l := by
  refine ⟨fun ⟨v⟩ => v.mem, fun h => ?_⟩
  induction l with
  | nil => cases h
  | cons a l ih =>
    rcases List.mem_cons.mp h with rfl | h
    · exact ⟨.head⟩
    · obtain ⟨v⟩ := ih h
      exact ⟨.tail v⟩

/-- A value of a derived interface. -/
structure Interface (P : Program) (l : List P.MsgId) where
  type : P.MsgId
  variant : Variant l type
  envelope : P.Envelope type

/-- `From<Envelope<M>>`, for each variant. -/
def Interface.ofEnvelope {l : List P.MsgId} (v : Variant l m) (envelope : P.Envelope m) : P.Interface l :=
  ⟨m, v, envelope⟩

/-- `Interface::try_from_dyn_envelope`, as the derive generates it. -/
def tryFromDynEnvelope : (l : List P.MsgId) → P.AnyEnvelope → Except P.AnyEnvelope (P.Interface l)
  | [], envelope => .error envelope
  | m :: l, envelope =>
    match envelope.downcast m with
    | .ok envelope => .ok (.ofEnvelope .head envelope)
    | .error envelope =>
      match tryFromDynEnvelope l envelope with
      | .ok value => .ok ⟨value.type, .tail value.variant, value.envelope⟩
      | .error envelope => .error envelope

/-- The search for a variant comes to the one that the type of the message has. -/
theorem tryFromDynEnvelope_new {l : List P.MsgId} (hl : l.Nodup) (v : Variant l m)
    (envelope : P.Envelope m) :
    tryFromDynEnvelope l (.new envelope) = .ok (.ofEnvelope v envelope) := by
  induction v with
  | head => simp [tryFromDynEnvelope]
  | @tail m a l v ih =>
    have hne : m ≠ a := by
      rintro rfl
      exact (List.nodup_cons.mp hl).1 v.mem
    rw [tryFromDynEnvelope, AnyEnvelope.downcast_of_ne envelope hne]
    simp only [ih (List.nodup_cons.mp hl).2 envelope]
    rfl

theorem tryFromDynEnvelope_of_notMem {l : List P.MsgId} (h : m ∉ l) (envelope : P.Envelope m) :
    tryFromDynEnvelope l (.new envelope) = .error (.new envelope) := by
  induction l with
  | nil => rfl
  | cons a l ih =>
    obtain ⟨hne, h⟩ := not_or.mp (List.mem_cons.not.mp h)
    rw [tryFromDynEnvelope, AnyEnvelope.downcast_of_ne envelope hne]
    simp only [ih h]

end Program

inductive TryCastError (α : Type)
  | closed (msg : α)
  | full (msg : α)
deriving DecidableEq

structure CastError (α : Type) where
  msg : α
deriving DecidableEq

inductive TryCastDynError (α : Type)
  | closed (msg : α)
  | full (msg : α)
  | notAccepted (msg : α)
deriving DecidableEq

inductive CastDynError (α : Type)
  | closed (msg : α)
  | notAccepted (msg : α)
deriving DecidableEq

/-- Where a send can panic. -/
inductive CastPanic
  /-- `assert_msg_room`. -/
  | noMsgRoom
  /-- A typed send on a channel of an interface that does not have the message. -/
  | notAcceptedByChannel
  /-- `expect("Should be the same type")`. -/
  | otherType
  /-- The debug assertion of `into_cast_error_dbg_assert`. -/
  | fullIntoCastError
deriving DecidableEq

section
variable {α : Type}

def TryCastError.intoInner : TryCastError α → α
  | closed msg | full msg => msg

def TryCastDynError.intoInner : TryCastDynError α → α
  | closed msg | full msg | notAccepted msg => msg

def CastDynError.intoInner : CastDynError α → α
  | closed msg | notAccepted msg => msg

/-- `From<TryCastError<T>> for TryCastDynError<T>`. -/
def TryCastError.toDyn : TryCastError α → TryCastDynError α
  | closed msg => .closed msg
  | full msg => .full msg

def CastError.toDyn (e : CastError α) : CastDynError α := .closed e.msg

def TryCastError.intoCastErrorDbgAssert : TryCastError α → Except CastPanic (CastError α)
  | closed msg => .ok ⟨msg⟩
  | full _ => .error .fullIntoCastError

def TryCastDynError.intoCastErrorDbgAssert : TryCastDynError α → Except CastPanic (CastDynError α)
  | closed msg => .ok (.closed msg)
  | notAccepted msg => .ok (.notAccepted msg)
  | full _ => .error .fullIntoCastError

end

/-- What a call returns, if it does not panic. -/
abbrev CastReturn (ε ρ : Type) : Type := Except CastPanic (Except ε ρ)

/-- `map_err` on what a call returns. -/
def CastReturn.mapErr {ε ε' ρ : Type} (f : ε → Except CastPanic ε') : CastReturn ε ρ → CastReturn ε' ρ
  | .error panic => .error panic
  | .ok (.ok receipt) => .ok (.ok receipt)
  | .ok (.error e) => (f e).map .error

namespace Program

/-- A channel of the interface `i`. `msgNotified` counts the calls of `notify_one` on its message
notifier. -/
structure MsgChannel (P : Program) (i : P.InterfaceId) where
  status : ActorStatus
  msgQueue : List (P.Interface (P.members i))
  msgNotified : ℕ
  msgBackpressureLimit : ℕ
  msgQueueLimit : ℕ

namespace MsgChannel
variable {P : Program} {m : P.MsgId} {i j : P.InterfaceId} (delay : ℕ → ℕ → Option ℕ)

/-- `delay` is `BackpressureConfig::delay`, which computes with floats. -/
def reachedBackpressure (ch : P.MsgChannel i) : Bool :=
  (delay ch.msgQueue.length ch.msgBackpressureLimit).isSome

/-- `ConcurrentQueue::push`, on an unbounded queue that is never closed. -/
def push (ch : P.MsgChannel i) (value : P.Interface (P.members i)) : P.MsgChannel i :=
  { ch with msgQueue := ch.msgQueue ++ [value] }

def msgNotifyOne (ch : P.MsgChannel i) : P.MsgChannel i := { ch with msgNotified := ch.msgNotified + 1 }

def assertMsgRoom (ch : P.MsgChannel i) : Except CastPanic Unit :=
  if ch.msgQueue.length ≥ ch.msgQueueLimit then .error .noMsgRoom else .ok ()

/-- `DynamicQueue::push_envelope_dyn`; the error is the envelope in `NotAccepted`. -/
def pushEnvelopeDyn (ch : P.MsgChannel i) (envelope : P.AnyEnvelope) :
    P.MsgChannel i × Except P.AnyEnvelope Unit :=
  match tryFromDynEnvelope (P.members i) envelope with
  | .ok value => (ch.push value, .ok ())
  | .error envelope => (ch, .error envelope)

/-- `DynamicQueue::try_push_msg`; the error is the message in `NotAccepted`. -/
def tryPushDyn (ch : P.MsgChannel i) (msg : P.Payload m) (oneshot : ℕ) :
    P.MsgChannel i × CastReturn (P.Payload m) (P.ReceiptOf m) :=
  let (envelope, receipt) := AnyEnvelope.newPair msg oneshot
  match ch.pushEnvelopeDyn envelope with
  | (ch', .ok _) => (ch', .ok (.ok receipt))
  | (ch', .error envelope) =>
    match envelope.downcast m with
    | .ok envelope => (ch', .ok (.error envelope.msg))
    | .error _ => (ch', .error .otherType)

/-- `Channel::try_push_msg`. -/
def tryPushMsg (ch : P.MsgChannel i) (msg : P.Payload m) (oneshot : ℕ) :
    P.MsgChannel i × CastReturn (P.Payload m) (P.ReceiptOf m) :=
  match ch.assertMsgRoom with
  | .error panic => (ch, .error panic)
  | .ok _ => ch.tryPushDyn msg oneshot

/-- Dynamically tries to send a message. `oneshot` is the number of the oneshot channel that the send
makes, if it comes to that. -/
def tryCastDynWith (ch : P.MsgChannel i) (msg : P.Payload m) (options : CallOptions) (oneshot : ℕ) :
    P.MsgChannel i × CastReturn (TryCastDynError (P.Payload m)) (P.ReceiptOf m) :=
  if !options.ignoreBackpressure && ch.reachedBackpressure delay then (ch, .ok (.error (.full msg)))
  else if !ch.status.acceptsMessages && !(options.ignoreExiting && ch.status.isExiting) then
    (ch, .ok (.error (.closed msg)))
  else
    match ch.tryPushMsg msg oneshot with
    | (ch', .error panic) => (ch', .error panic)
    | (ch', .ok (.error msg)) => (ch', .ok (.error (.notAccepted msg)))
    | (ch', .ok (.ok receipt)) => (ch'.msgNotifyOne, .ok (.ok receipt))

/-- Statically tries to send a message, by a reference of the interface `j`, whose variant `v` holds it. -/
def tryCastWith (ch : P.MsgChannel i) (v : Variant (P.members j) m) (msg : P.Payload m)
    (options : CallOptions) (oneshot : ℕ) :
    P.MsgChannel i × CastReturn (TryCastError (P.Payload m)) (P.ReceiptOf m) :=
  if h : j = i then
    if !options.ignoreBackpressure && ch.reachedBackpressure delay then (ch, .ok (.error (.full msg)))
    else if !ch.status.acceptsMessages && !(options.ignoreExiting && ch.status.isExiting) then
      (ch, .ok (.error (.closed msg)))
    else
      let (envelope, receipt) := Envelope.newPair msg oneshot
      let interface := Interface.ofEnvelope (h ▸ v : Variant (P.members i) m) envelope
      match ch.assertMsgRoom with
      | .error panic => (ch, .error panic)
      | .ok _ => ((ch.push interface).msgNotifyOne, .ok (.ok receipt))
  else
    -- the queue is not of the interface `j`
    match ch.tryCastDynWith delay msg options oneshot with
    | (ch', .error panic) => (ch', .error panic)
    | (ch', .ok (.ok receipt)) => (ch', .ok (.ok receipt))
    | (ch', .ok (.error (.closed msg))) => (ch', .ok (.error (.closed msg)))
    | (ch', .ok (.error (.full msg))) => (ch', .ok (.error (.full msg)))
    | (ch', .ok (.error (.notAccepted _))) => (ch', .error .notAcceptedByChannel)

/-- What `cast_with` and `cast_dyn_with` do first: the options and the channel that they go on with.
`meanwhile` is what happens to the channel during `delay_for_backpressure`. -/
def delayForBackpressure (ch : P.MsgChannel i) (meanwhile : P.MsgChannel i → P.MsgChannel i)
    (options : CallOptions) : P.MsgChannel i × CallOptions :=
  if !options.ignoreBackpressure then (meanwhile ch, { options with ignoreBackpressure := true })
  else (ch, options)

def castWith (ch : P.MsgChannel i) (meanwhile : P.MsgChannel i → P.MsgChannel i)
    (v : Variant (P.members j) m) (msg : P.Payload m) (options : CallOptions) (oneshot : ℕ) :
    P.MsgChannel i × CastReturn (CastError (P.Payload m)) (P.ReceiptOf m) :=
  let (ch, options) := ch.delayForBackpressure meanwhile options
  let (ch', r) := ch.tryCastWith delay v msg options oneshot
  (ch', r.mapErr TryCastError.intoCastErrorDbgAssert)

def castDynWith (ch : P.MsgChannel i) (meanwhile : P.MsgChannel i → P.MsgChannel i)
    (msg : P.Payload m) (options : CallOptions) (oneshot : ℕ) :
    P.MsgChannel i × CastReturn (CastDynError (P.Payload m)) (P.ReceiptOf m) :=
  let (ch, options) := ch.delayForBackpressure meanwhile options
  let (ch', r) := ch.tryCastDynWith delay msg options oneshot
  (ch', r.mapErr TryCastDynError.intoCastErrorDbgAssert)

/-! ## The two paths agree -/

/-- The checks that come before the room of the queue let a send through. -/
def Passes (ch : P.MsgChannel i) (options : CallOptions) : Prop :=
  (!options.ignoreBackpressure && ch.reachedBackpressure delay) = false ∧
  (!ch.status.acceptsMessages && !(options.ignoreExiting && ch.status.isExiting)) = false

/-- A message goes in: its envelope is the last one of the queue, and the receiver is notified. -/
def enqueue (ch : P.MsgChannel i) (v : Variant (P.members i) m) (msg : P.Payload m) (oneshot : ℕ) :
    P.MsgChannel i :=
  (ch.push (.ofEnvelope v (Envelope.newPair msg oneshot).1)).msgNotifyOne

variable {ch : P.MsgChannel i} {msg : P.Payload m} {options : CallOptions} {oneshot : ℕ}

theorem tryPushDyn_of_variant (v : Variant (P.members i) m) :
    ch.tryPushDyn msg oneshot =
      (ch.push (.ofEnvelope v (Envelope.newPair msg oneshot).1),
        .ok (.ok (Envelope.newPair msg oneshot).2)) := by
  have h := tryFromDynEnvelope_new (P.nodup i) v (Envelope.newPair msg oneshot).1
  simp only [tryPushDyn, pushEnvelopeDyn, AnyEnvelope.newPair, h]

theorem tryPushDyn_of_notMem (h : m ∉ P.members i) :
    ch.tryPushDyn msg oneshot = (ch, .ok (.error msg)) := by
  have h := tryFromDynEnvelope_of_notMem h (Envelope.newPair msg oneshot).1
  simp only [tryPushDyn, pushEnvelopeDyn, AnyEnvelope.newPair, h, AnyEnvelope.downcast_new]
  rfl

/-- Every way in which a dynamic send can end. -/
inductive DynEnd (ch : P.MsgChannel i) (msg : P.Payload m) (options : CallOptions) (oneshot : ℕ) :
    P.MsgChannel i × CastReturn (TryCastDynError (P.Payload m)) (P.ReceiptOf m) → Prop
  | full : options.ignoreBackpressure = false → ¬ ch.Passes delay options →
      DynEnd ch msg options oneshot (ch, .ok (.error (.full msg)))
  | closed : ¬ ch.Passes delay options → DynEnd ch msg options oneshot (ch, .ok (.error (.closed msg)))
  | noRoom : ch.Passes delay options → ch.msgQueueLimit ≤ ch.msgQueue.length →
      DynEnd ch msg options oneshot (ch, .error .noMsgRoom)
  | notAccepted : ch.Passes delay options → ch.msgQueue.length < ch.msgQueueLimit → m ∉ P.members i →
      DynEnd ch msg options oneshot (ch, .ok (.error (.notAccepted msg)))
  | receipt (v : Variant (P.members i) m) : ch.Passes delay options →
      ch.msgQueue.length < ch.msgQueueLimit →
      DynEnd ch msg options oneshot
        (ch.enqueue v msg oneshot, .ok (.ok (Envelope.newPair msg oneshot).2))

theorem tryCastDynWith_ends (ch : P.MsgChannel i) (msg : P.Payload m) (options : CallOptions)
    (oneshot : ℕ) :
    ch.DynEnd delay msg options oneshot (ch.tryCastDynWith delay msg options oneshot) := by
  unfold tryCastDynWith
  split_ifs with hfull hclosed
  · refine .full ?_ fun h => Bool.false_ne_true (h.1.symm.trans hfull)
    cases hoption : options.ignoreBackpressure with
    | false => rfl
    | true => simp [hoption] at hfull
  · exact .closed fun h => Bool.false_ne_true (h.2.symm.trans hclosed)
  have hpass : ch.Passes delay options := ⟨Bool.eq_false_iff.mpr hfull,
    Bool.eq_false_iff.mpr hclosed⟩
  by_cases hroom : ch.msgQueue.length ≥ ch.msgQueueLimit
  · simp only [tryPushMsg, assertMsgRoom, if_pos hroom]
    exact .noRoom hpass hroom
  simp only [tryPushMsg, assertMsgRoom, if_neg hroom]
  by_cases hm : m ∈ P.members i
  · obtain ⟨v⟩ := nonempty_variant_iff.mpr hm
    rw [tryPushDyn_of_variant v]
    exact .receipt v hpass (by omega)
  · rw [tryPushDyn_of_notMem hm]
    exact .notAccepted hpass (by omega) hm

/-- The errors of a typed send, in the words of a dynamic one. -/
def toDyn (r : P.MsgChannel i × CastReturn (TryCastError (P.Payload m)) (P.ReceiptOf m)) :
    P.MsgChannel i × CastReturn (TryCastDynError (P.Payload m)) (P.ReceiptOf m) :=
  (r.1, r.2.mapErr fun e => .ok e.toDyn)

/-- A message of the channel's interface fares the same on both paths, also where the typed reference
is of another interface. -/
theorem tryCastDynWith_eq (ch : P.MsgChannel i) (v : Variant (P.members j) m) (msg : P.Payload m)
    (options : CallOptions) (oneshot : ℕ) (hm : m ∈ P.members i) :
    ch.tryCastDynWith delay msg options oneshot =
      toDyn (ch.tryCastWith delay v msg options oneshot) := by
  unfold tryCastWith
  split_ifs with h hfull hclosed
  · unfold tryCastDynWith
    rw [if_pos hfull]
    rfl
  · unfold tryCastDynWith
    rw [if_neg hfull, if_pos hclosed]
    rfl
  · subst h
    unfold tryCastDynWith
    rw [if_neg hfull, if_neg hclosed]
    unfold tryPushMsg
    cases hroom : ch.assertMsgRoom with
    | error panic => rfl
    | ok _ =>
      simp only
      rw [tryPushDyn_of_variant v]
      rfl
  · have hend := ch.tryCastDynWith_ends delay msg options oneshot
    generalize ch.tryCastDynWith delay msg options oneshot = r at hend ⊢
    cases hend with
    | full | closed | noRoom | receipt => rfl
    | notAccepted _ _ h => exact absurd hm h

theorem tryCastDynWith_error {ch' : P.MsgChannel i} {e : TryCastDynError (P.Payload m)}
    (h : ch.tryCastDynWith delay msg options oneshot = (ch', .ok (.error e))) :
    ch' = ch ∧ e.intoInner = msg := by
  have hend := ch.tryCastDynWith_ends delay msg options oneshot
  rw [h] at hend
  cases hend <;> exact ⟨rfl, rfl⟩

theorem tryCastDynWith_panic_iff {panic : CastPanic} :
    (ch.tryCastDynWith delay msg options oneshot).2 = .error panic ↔
      panic = .noMsgRoom ∧ ch.Passes delay options ∧ ch.msgQueueLimit ≤ ch.msgQueue.length := by
  have hend := ch.tryCastDynWith_ends delay msg options oneshot
  generalize ch.tryCastDynWith delay msg options oneshot = r at hend ⊢
  cases hend with
  | full _ hpass => simp [hpass]
  | closed hpass => simp [hpass]
  | noRoom hpass hroom => simp [hpass, hroom, eq_comm]
  | notAccepted _ hroom _ | receipt _ _ hroom => simp; omega

theorem tryCastWith_error {v : Variant (P.members j) m} {ch' : P.MsgChannel i}
    {e : TryCastError (P.Payload m)} (hm : m ∈ P.members i)
    (h : ch.tryCastWith delay v msg options oneshot = (ch', .ok (.error e))) :
    ch' = ch ∧ e.intoInner = msg := by
  have hdyn := ch.tryCastDynWith_eq delay v msg options oneshot hm
  rw [h] at hdyn
  obtain ⟨hch, hmsg⟩ := tryCastDynWith_error delay hdyn
  refine ⟨hch, ?_⟩
  cases e <;> exact hmsg

theorem tryCastWith_panic_iff {v : Variant (P.members j) m} {panic : CastPanic} (hm : m ∈ P.members i) :
    (ch.tryCastWith delay v msg options oneshot).2 = .error panic ↔
      panic = .noMsgRoom ∧ ch.Passes delay options ∧ ch.msgQueueLimit ≤ ch.msgQueue.length := by
  rw [← tryCastDynWith_panic_iff delay, ch.tryCastDynWith_eq delay v msg options oneshot hm]
  unfold toDyn
  generalize (ch.tryCastWith delay v msg options oneshot).2 = r
  rcases r with panic | e | receipt <;> simp [CastReturn.mapErr, Except.map]

/-! ## Sends that wait -/

theorem tryCastDynWith_ne_full (ch : P.MsgChannel i) (msg : P.Payload m) (oneshot : ℕ)
    (h : options.ignoreBackpressure = true) (sent : P.Payload m) :
    (ch.tryCastDynWith delay msg options oneshot).2 ≠ .ok (.error (.full sent)) := by
  have hend := ch.tryCastDynWith_ends delay msg options oneshot
  generalize ch.tryCastDynWith delay msg options oneshot = r at hend
  intro hfull
  cases hend with
  | full hoption _ => simp [h] at hoption
  | closed | noRoom | notAccepted | receipt => simp at hfull

theorem ignoreBackpressure_delayForBackpressure (ch : P.MsgChannel i)
    (meanwhile : P.MsgChannel i → P.MsgChannel i) (options : CallOptions) :
    (ch.delayForBackpressure meanwhile options).2.ignoreBackpressure = true := by
  unfold delayForBackpressure
  cases h : options.ignoreBackpressure
  · rfl
  · exact h

/-- A send that waits does not come to the assertion that it is not full. -/
theorem castDynWith_ne_full (meanwhile : P.MsgChannel i → P.MsgChannel i) :
    (ch.castDynWith delay meanwhile msg options oneshot).2 ≠ .error .fullIntoCastError := by
  have hignore := ch.ignoreBackpressure_delayForBackpressure meanwhile options
  unfold castDynWith
  generalize ch.delayForBackpressure meanwhile options = waited at hignore
  obtain ⟨ch, options⟩ := waited
  have hend := ch.tryCastDynWith_ends delay msg options oneshot
  have hfull := ch.tryCastDynWith_ne_full delay msg oneshot hignore
  simp only
  generalize ch.tryCastDynWith delay msg options oneshot = r at hend hfull ⊢
  cases hend with
  | full => exact absurd rfl (hfull msg)
  | closed | noRoom | notAccepted | receipt => intro h; cases h

theorem castDynWith_eq (ch : P.MsgChannel i) (meanwhile : P.MsgChannel i → P.MsgChannel i)
    (v : Variant (P.members j) m) (msg : P.Payload m) (options : CallOptions) (oneshot : ℕ)
    (hm : m ∈ P.members i) :
    ch.castDynWith delay meanwhile msg options oneshot =
      ((ch.castWith delay meanwhile v msg options oneshot).1,
        (ch.castWith delay meanwhile v msg options oneshot).2.mapErr fun e => .ok e.toDyn) := by
  unfold castDynWith castWith
  obtain ⟨ch, options⟩ := ch.delayForBackpressure meanwhile options
  simp only [ch.tryCastDynWith_eq delay v msg options oneshot hm, toDyn]
  congr 1
  rcases (ch.tryCastWith delay v msg options oneshot).2 with panic | e | receipt
  · rfl
  · cases e <;> rfl
  · rfl

theorem castWith_ne_full {v : Variant (P.members j) m} (meanwhile : P.MsgChannel i → P.MsgChannel i)
    (hm : m ∈ P.members i) :
    (ch.castWith delay meanwhile v msg options oneshot).2 ≠ .error .fullIntoCastError := by
  intro h
  have hdyn := ch.castDynWith_eq delay meanwhile v msg options oneshot hm
  rw [h] at hdyn
  exact ch.castDynWith_ne_full delay meanwhile (congrArg Prod.snd hdyn)

end MsgChannel

/-- On every state of a channel, for every message and all options: a typed send of a message that the
channel's interface has does what the dynamic one does; both panic at the limit of the queue and for
nothing else; every error gives the message back and leaves the channel as it is, on the dynamic path
for any message; and a send that waits first does not fail as full. -/
theorem typed_and_dynamic_casts_agree (P : Program) (delay : ℕ → ℕ → Option ℕ) {i : P.InterfaceId}
    (ch : P.MsgChannel i) {m : P.MsgId} (msg : P.Payload m) (options : CallOptions) (oneshot : ℕ) :
    (∀ (j : P.InterfaceId) (v : Variant (P.members j) m), m ∈ P.members i →
      ch.tryCastDynWith delay msg options oneshot =
        MsgChannel.toDyn (ch.tryCastWith delay v msg options oneshot) ∧
      (∀ panic, (ch.tryCastWith delay v msg options oneshot).2 = .error panic ↔
        panic = .noMsgRoom ∧ ch.Passes delay options ∧ ch.msgQueueLimit ≤ ch.msgQueue.length) ∧
      (∀ ch' e, ch.tryCastWith delay v msg options oneshot = (ch', .ok (.error e)) →
        ch' = ch ∧ e.intoInner = msg) ∧
      ∀ meanwhile,
        (ch.castWith delay meanwhile v msg options oneshot).2 ≠ .error .fullIntoCastError) ∧
    (∀ panic, (ch.tryCastDynWith delay msg options oneshot).2 = .error panic ↔
      panic = .noMsgRoom ∧ ch.Passes delay options ∧ ch.msgQueueLimit ≤ ch.msgQueue.length) ∧
    (∀ ch' e, ch.tryCastDynWith delay msg options oneshot = (ch', .ok (.error e)) →
      ch' = ch ∧ e.intoInner = msg) ∧
    ∀ meanwhile,
      (ch.castDynWith delay meanwhile msg options oneshot).2 ≠ .error .fullIntoCastError := by
  refine ⟨fun j v hm => ⟨?_, fun panic => ?_, fun ch' e h => ?_, fun meanwhile => ?_⟩,
    fun panic => ?_, fun ch' e h => ?_, fun meanwhile => ?_⟩
  · exact ch.tryCastDynWith_eq delay v msg options oneshot hm
  · exact MsgChannel.tryCastWith_panic_iff delay hm
  · exact MsgChannel.tryCastWith_error delay hm h
  · exact MsgChannel.castWith_ne_full delay meanwhile hm
  · exact MsgChannel.tryCastDynWith_panic_iff delay
  · exact MsgChannel.tryCastDynWith_error delay h
  · exact ch.castDynWith_ne_full delay meanwhile

/-- Two interfaces that share a call, the message `1`. -/
def sampleProgram : Program where
  MsgId := ℕ
  InterfaceId := Bool
  decEqMsg := inferInstance
  decEqInterface := inferInstance
  Payload _ := ℕ
  kind m := if m = 1 then .call else .cast
  members i := if i then [0, 1] else [1, 2]
  nodup i := by cases i <;> decide

/-- A call on a running channel of the interface `true`, through a reference of the interface `false`. -/
def sampleChannel : sampleProgram.MsgChannel true := ⟨.running, [], 0, 10, 100⟩

def sampleVariant : Variant (sampleProgram.members false) (1 : ℕ) := Variant.head

theorem casts_agree_on_sample :
    sampleChannel.tryCastDynWith (fun _ _ => none) (m := (1 : ℕ)) (7 : ℕ) {} 3 =
        MsgChannel.toDyn (sampleChannel.tryCastWith (fun _ _ => none) sampleVariant (7 : ℕ) {} 3) ∧
      (sampleChannel.tryCastDynWith (fun _ _ => none) (m := (1 : ℕ)) (7 : ℕ) {} 3).2 =
        .ok (.ok (3 : ℕ)) := by
  have h := typed_and_dynamic_casts_agree sampleProgram (fun _ _ => none) sampleChannel
    (m := (1 : ℕ)) (7 : ℕ) {} 3
  exact ⟨(h.1 false sampleVariant (List.mem_cons_of_mem _ List.mem_cons_self)).1, rfl⟩

end Program

end Zestors
