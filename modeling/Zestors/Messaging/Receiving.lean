import Zestors.Link.Lane
import Zestors.Messaging.Backlog
import Zestors.Messaging.Frame

/-!
# Answering what other nodes send

What a node does with the messages that arrive for one of its actors: the router puts them in the
actor's queue, refuses them or has them processed at once, a message is delivered or fails, and what it
asks for is answered: the call itself, and the requests in it, each by a reply frame in a lane to the
node that it came from.

`Answers` says of every answer that a message asks for that its frame has been put in the lane, or that
somebody is still about to see to it. It holds in the runs in which no answer is refused for want of
room in its lane, and nothing panics with an answer on its hands (`answers_of_heeds`).
-/

namespace Zestors
open Messaging

/-- What decoding a payload has imported, and why it failed, if it did. -/
structure Decoded where
  imported : List UInt64
  error : Option String

/-- `Typed` delivers to the mailbox of the actor, `Builtin` is an operation on the actor itself. -/
inductive HandlerKind
  | typed
  | builtin
deriving DecidableEq

structure Handler where
  kind : HandlerKind
  decode : Bytes → Decoded

def Handler.bypassesQueue (handler : Handler) : Bool :=
  match handler.kind with
  | .typed => false
  | .builtin => true

/-- The parts of `CommunicationView` that receiving has to do with. There is at least one lane. -/
structure CommunicationView where
  shards : UInt8
  shards_ne_zero : shards ≠ 0
  handlers : MessageId → Option Handler

namespace Receiving

/-- A message for a local actor, and where its reply goes. `node` is the one that it is from. -/
structure Work where
  node : NodeName
  msg : MessageId
  requests : List UInt64
  payload : Bytes
  callId : Option UInt64

/-- Which of the messages for the actor it is: of those that take their place in the queue, or of those
that bypass it. -/
inductive Key
  | queued (id : ℕ)
  | bypassing (id : ℕ)
deriving DecidableEq

/-- What `cast_dyn` comes to, when the mailbox has room. -/
inductive CastDyn
  | accepted
  | closed
  | notAccepted

/-- Where `Session::process` is. `answering` are the ids that are still to learn of the error. -/
inductive ProcessStage
  | delivering
  | answering (ids : List UInt64) (error : RemoteError)

structure Process where
  key : Key
  work : Work
  stage : ProcessStage

/-- The task that waits for a reply and sends it to `node`: of the call, or of a request that has been
imported. -/
structure ReplyTask where
  key : Key
  node : NodeName
  id : UInt64
  result : Option (Except RemoteError Bytes)

/-- A frame in the lane `shard` to `node`. -/
structure Posted where
  node : NodeName
  shard : ℕ
  frame : Bytes

end Receiving

open Receiving

/-- The receiving side, as far as it is concerned with one actor. `queued` and `bypassing` are the
history of the messages for it, and `enqueued` of the frames that were put in a lane because of them.
`members` are the nodes whose lanes are open. -/
structure Receiving where
  router : Router
  queued : List Work
  bypassing : List Work
  processes : List Process
  replies : List ReplyTask
  lanes : List Posted
  members : NodeName → Bool
  enqueued : List (Key × NodeName × Bytes)

namespace CommunicationView
variable (view : CommunicationView)

def bypassesQueue (msg : MessageId) : Bool := (view.handlers msg).any Handler.bypassesQueue

/-- The lane that the reply to a call goes through. -/
def shardOf (callId : UInt64) : ℕ := callId.toNat % view.shards.toNat

def decode (work : Work) : Decoded :=
  match view.handlers work.msg with
  | none => ⟨[], none⟩
  | some handler => handler.decode work.payload

/-- `Session::deliver`: what has been imported, and the error, if there is one. `address` is `none` where
the actor has no address. -/
def deliver (work : Work) (address : Option CastDyn) : List UInt64 × Option RemoteError :=
  match view.handlers work.msg with
  | none => ([], some .unknownMessage)
  | some handler =>
    match address with
    | none => ([], some .noSuchActor)
    | some cast =>
      match (handler.decode work.payload).error with
      | some reason => ((handler.decode work.payload).imported, some (.decode reason))
      | none =>
        match handler.kind, cast with
        | .typed, .closed => ((handler.decode work.payload).imported, some .closed)
        | .typed, .notAccepted => ((handler.decode work.payload).imported, some .notAccepted)
        | .typed, .accepted | .builtin, _ => ((handler.decode work.payload).imported, none)

end CommunicationView

namespace Receiving

def Work.answers (work : Work) : List UInt64 := work.callId.toList ++ work.requests

/-- The answers that a message asks for. A request that is listed, but is not in a payload that can be
decoded, is nobody's. -/
def Work.asks (view : CommunicationView) (work : Work) : List UInt64 :=
  work.callId.toList ++ work.requests.filter fun id =>
    (view.handlers work.msg).isNone || (view.decode work).error.isSome || id ∈ (view.decode work).imported

def Process.ids (view : CommunicationView) (p : Process) : List UInt64 :=
  match p.stage with
  | .delivering => p.work.asks view
  | .answering ids _ => ids

def new (members : NodeName → Bool) : Receiving := ⟨.new, [], [], [], [], [], members, []⟩

inductive Event
  /-- A message arrives, and is routed. -/
  | incoming (work : Work)
  /-- Somebody else puts a frame in a lane. -/
  | traffic (posted : Posted)
  | joins (node : NodeName)
  | leaves (node : NodeName)
  /-- The router and the tasks of the actor. -/
  | queue (e : Router.Event)
  /-- The delivery of a message. -/
  | deliver (k : ℕ) (address : Option CastDyn)
  | answer (k : ℕ)
  /-- The actor replies, or drops the request. -/
  | settle (j : ℕ) (result : Except RemoteError Bytes)
  | reply (j : ℕ)
  /-- The connection takes a frame from a lane. -/
  | drain (node : NodeName) (shard : ℕ)
  /-- The processing of a message that bypassed the queue panics. -/
  | panicProcess (k : ℕ)
  | panicReply (j : ℕ)

variable (view : CommunicationView) {s s' : Receiving} {e : Event} {node : NodeName} {key : Key}
  {work : Work} {id : UInt64}

def work? (s : Receiving) : Key → Option Work
  | .queued id => s.queued[id]?
  | .bypassing id => s.bypassing[id]?

def waiting (s : Receiving) (node : NodeName) (shard : ℕ) : ℕ :=
  s.lanes.countP fun posted => posted.node = node ∧ posted.shard = shard

def enqueue (s : Receiving) (key : Key) (node : NodeName) (id : UInt64) (frame : Bytes) : Receiving :=
  { s with
    lanes := s.lanes ++ [⟨node, view.shardOf id, frame⟩]
    enqueued := s.enqueued ++ [(key, node, frame)] }

/-- The `try_send` of a refusal, whose result is ignored. -/
def tryReply (s : Receiving) (key : Key) (node : NodeName) (error : RemoteError) (id : UInt64) : Receiving :=
  if s.members node = false then s
  else if s.waiting node (view.shardOf id) < laneQueue then
    s.enqueue view key node id (Frame.reply id (.error error)).encode
  else s

def refuse (s : Receiving) (key : Key) (work : Work) (error : RemoteError) : Receiving :=
  work.answers.foldl (fun s id => s.tryReply view key work.node error id) s

/-- The reply, or that it is too large. -/
def replyFrame (id : UInt64) (result : Except RemoteError Bytes) : Bytes :=
  (Frame.reply id result).sent.getD (Frame.reply id (.error .tooLarge)).encode

/-- `Session::reply`, or `none` while the lane is full. -/
def reply (s : Receiving) (key : Key) (node : NodeName) (id : UInt64) (result : Except RemoteError Bytes) :
    Option Receiving :=
  if s.members node = false then some s
  else if s.waiting node (view.shardOf id) < laneQueue then
    some (s.enqueue view key node id (replyFrame id result))
  else none

/-- `Router::route`, up to the send. -/
def incoming (s : Receiving) (work : Work) : Option Receiving :=
  if s.router.routing ≠ none then none
  else if view.bypassesQueue work.msg then
    some { s with
      bypassing := s.bypassing ++ [work]
      processes := s.processes ++ [⟨.bypassing s.bypassing.length, work, .delivering⟩] }
  else do
    let router ← s.router.step (.arrive work.payload.length)
    let admitted := { s with router, queued := s.queued ++ [work] }
    some (if s.router.overloaded work.payload.length then
      admitted.refuse view (.queued s.queued.length) work .overloaded else admitted)

/-- The message that a task has begun to process. -/
def working (s : Receiving) (i : ℕ) : Option Router.Work := do
  let task ← s.router.tasks[i]?
  match task.stage with
  | .processing w => some w
  | _ => none

/-- A step of the router or of a task, and what becomes of the message that the task begins to process. -/
def moveQueue (s : Receiving) (e : Router.Event) : Option Receiving := do
  let router ← s.router.step e
  let begun := router.processed.drop s.router.processed.length
  some { s with
    router
    processes := s.processes ++ begun.filterMap fun w =>
      (s.queued[w.id]?).map fun work => ⟨.queued w.id, work, .delivering⟩ }

def stepQueue (s : Receiving) (e : Router.Event) : Option Receiving :=
  match e with
  | .arrive _ => none
  | .processed i =>
    -- the task goes on when `process` has returned
    if ∃ p ∈ s.processes, ∃ w ∈ s.working i, p.key = .queued w.id then none else s.moveQueue e
  | .panic i => (s.moveQueue e).map fun s' =>
      { s' with processes := s'.processes.filter fun p => ∀ w ∈ s.working i, p.key ≠ .queued w.id }
  | .send | .retain | .recv _ | .timeout _ | .close _ | .process _ => s.moveQueue e

/-- What `process` does with the result of the delivery. The requests in a message that failed are
dropped. -/
def delivered (s : Receiving) (k : ℕ) (p : Process) (result : List UInt64 × Option RemoteError) : Receiving :=
  match result.2 with
  | none => { s with
      processes := s.processes.eraseIdx k
      replies := s.replies ++ (p.work.callId.toList ++ result.1).map fun id =>
        ⟨p.key, p.work.node, id, none⟩ }
  | some error => { s with
      processes := s.processes.set k { p with stage := .answering p.work.answers error }
      replies := s.replies ++ result.1.map fun id => ⟨p.key, p.work.node, id, some (.error .noReply)⟩ }

def step (s : Receiving) : Event → Option Receiving
  | .incoming work => s.incoming view work
  | .traffic posted =>
    if s.waiting posted.node posted.shard < laneQueue then some { s with lanes := s.lanes ++ [posted] }
    else none
  | .joins node => some { s with members := fun n => n = node || s.members n }
  | .leaves node => some { s with members := fun n => n ≠ node && s.members n }
  | .queue e => s.stepQueue e
  | .deliver k address => do
    let p ← s.processes[k]?
    match p.stage with
    | .delivering => some (s.delivered k p (view.deliver p.work address))
    | .answering _ _ => none
  | .answer k => do
    let p ← s.processes[k]?
    match p.stage with
    | .delivering => none
    | .answering [] _ => some { s with processes := s.processes.eraseIdx k }
    | .answering (id :: ids) error =>
      reply view { s with processes := s.processes.set k { p with stage := .answering ids error } } p.key
        p.work.node id (.error error)
  | .settle j result => do
    let t ← s.replies[j]?
    match t.result with
    | none => some { s with replies := s.replies.set j { t with result := some result } }
    | some _ => none
  | .reply j => do
    let t ← s.replies[j]?
    let result ← t.result
    reply view { s with replies := s.replies.eraseIdx j } t.key t.node t.id result
  | .drain node shard =>
    if 0 < s.waiting node shard then
      some { s with lanes := s.lanes.eraseP fun posted => posted.node = node ∧ posted.shard = shard }
    else none
  | .panicProcess k => do
    let p ← s.processes[k]?
    match p.key with
    | .bypassing _ => some { s with processes := s.processes.eraseIdx k }
    | .queued _ => none
  | .panicReply j => if j < s.replies.length then some { s with replies := s.replies.eraseIdx j } else none

/-- The runs that begin while `node` is a member. -/
def runs (node : NodeName) : Lts Receiving Event :=
  Lts.ofFun (fun s => ∃ members, members node = true ∧ s = new members) (step view)

/-- The reply to `id` has been put in a lane to the node that it goes to. -/
def Answered (s : Receiving) (key : Key) (id : UInt64) : Prop :=
  ∃ work result, s.work? key = some work ∧ (key, work.node, (Frame.reply id result).encode) ∈ s.enqueued

/-- Somebody is still about to see to the reply: the router and the tasks of the actor, the processing of
the message, or a task of its own. -/
def Pends (s : Receiving) (key : Key) (id : UInt64) : Prop :=
  (∃ w ∈ s.router.backlog, key = .queued w.id) ∨
  (∃ p ∈ s.processes, p.key = key ∧ id ∈ p.ids view) ∨
  ∃ t ∈ s.replies, t.key = key ∧ t.id = id

structure Answers (s : Receiving) (node : NodeName) : Prop where
  /-- Everything that `node` asks for is answered, or somebody is about to see to it. -/
  asked : ∀ key work, s.work? key = some work → work.node = node → ∀ id ∈ work.asks view,
    s.Answered key id ∨ s.Pends view key id
  /-- Where a message was refused, all that is listed in it has its answer. -/
  refused : ∀ w ∈ s.router.refused, ∃ work, s.work? (.queued w.id) = some work ∧
    (work.node = node → ∀ id ∈ work.answers, s.Answered (.queued w.id) id)

def AllAnswered (s : Receiving) (node : NodeName) : Prop :=
  ∀ key work, s.work? key = some work → work.node = node → ∀ id ∈ work.asks view, s.Answered key id

/-- There is room for the replies to all the ids. -/
def RoomFor (s : Receiving) (node : NodeName) (ids : List UInt64) : Prop :=
  ∀ id ∈ ids, s.waiting node (view.shardOf id) +
    ids.countP (fun id' => view.shardOf id' = view.shardOf id) ≤ laneQueue

/-- Neither of the messages is waited for by `node`. -/
def NotAsked (s : Receiving) (node : NodeName) (keys : List Key) : Prop :=
  ∀ key ∈ keys, ∀ work ∈ s.work? key, work.node = node → work.asks view = []

/-- What a task has with it. -/
def atTask (s : Receiving) (i : ℕ) : List Key :=
  ((s.working i).toList ++ (s.router.tasks[i]?).toList.flatMap fun task => task.queue).map fun w =>
    .queued w.id

/-- Where a message from `node` is refused there is room for the answers; nothing panics that `node` waits
for; and `node` stays a member. -/
def Heeds (s : Receiving) (node : NodeName) : Event → Prop
  | .incoming work => work.node = node → view.bypassesQueue work.msg = false →
      s.router.overloaded work.payload.length = true → s.RoomFor view node work.answers
  | .leaves n => n ≠ node
  | .queue (.panic i) => s.NotAsked view node (s.atTask i)
  | .panicProcess k => ∀ p ∈ s.processes[k]?, s.NotAsked view node [p.key]
  | .panicReply j => ∀ t ∈ s.replies[j]?, t.node ≠ node
  | _ => True

def Event.isInner : Event → Bool
  | .incoming _ | .traffic _ | .joins _ | .leaves _ => false
  | .queue _ | .deliver _ _ | .answer _ | .settle _ _ | .reply _ | .drain _ _ | .panicProcess _
  | .panicReply _ => true

/-! ## Who sees to what -/

theorem replyFrame_eq (id : UInt64) (result : Except RemoteError Bytes) :
    ∃ result', replyFrame id result = (Frame.reply id result').encode := by
  unfold replyFrame Frame.sent
  split
  · exact ⟨_, Option.getD_none⟩
  · exact ⟨_, Option.getD_some⟩

theorem reply_cases {result : Except RemoteError Bytes} (hs : s.reply view key node id result = some s') :
    s.members node = false ∧ s' = s ∨
      s.members node = true ∧ s' = s.enqueue view key node id (replyFrame id result) := by
  unfold reply at hs
  split at hs <;> rename_i hmember
  · cases hs
    exact .inl ⟨hmember, rfl⟩
  · split at hs <;> cases hs
    exact .inr ⟨by simpa using hmember, rfl⟩

theorem answered_enqueue {result : Except RemoteError Bytes} (hwork : s.work? key = some work) :
    (s.enqueue view key work.node id (Frame.reply id result).encode).Answered key id :=
  ⟨work, result, hwork, List.mem_append_right _ (List.mem_singleton.2 rfl)⟩

theorem Answered.mono (h : s.Answered key id)
    (hwork : ∀ key work, s.work? key = some work → s'.work? key = some work)
    (henq : ∀ x ∈ s.enqueued, x ∈ s'.enqueued) : s'.Answered key id := by
  obtain ⟨work, result, hw, hmem⟩ := h
  exact ⟨work, result, hwork _ _ hw, henq _ hmem⟩

/-- Everything that `node` asks for is seen to, and whoever sees to a message has the message that
arrived. -/
structure Accounts (s : Receiving) (node : NodeName) : Prop where
  member : s.members node = true
  sound : s.router.Sound
  count : s.queued.length = s.router.accepted.length + s.router.refused.length
  backlog : ∀ w ∈ s.router.backlog, w.id < s.queued.length
  processes : ∀ p ∈ s.processes, s.work? p.key = some p.work
  replies : ∀ t ∈ s.replies, ∃ work, s.work? t.key = some work ∧ work.node = t.node
  answers : s.Answers view node

theorem accounts_new {members : NodeName → Bool} (h : members node = true) :
    (new members).Accounts view node := by
  refine ⟨h, Router.sound_new, rfl, nofun, nofun, nofun, fun key work hwork => ?_, nofun⟩
  cases key <;> cases hwork

/-- Nothing that has arrived is forgotten, everything that pends is answered or pends on, and so does what
arrives. -/
theorem Accounts.mono (h : s.Accounts view node) (hmember : s'.members node = true)
    (hsound : s'.router.Sound)
    (hcount : s'.queued.length = s'.router.accepted.length + s'.router.refused.length)
    (hbacklog : ∀ w ∈ s'.router.backlog, w.id < s'.queued.length)
    (hwork : ∀ key work, s.work? key = some work → s'.work? key = some work)
    (henq : ∀ x ∈ s.enqueued, x ∈ s'.enqueued)
    (hprocesses : ∀ p ∈ s'.processes, s'.work? p.key = some p.work)
    (hreplies : ∀ t ∈ s'.replies, ∃ work, s'.work? t.key = some work ∧ work.node = t.node)
    (hpends : ∀ key work, s.work? key = some work → work.node = node → ∀ id ∈ work.asks view,
      s.Pends view key id → s'.Answered key id ∨ s'.Pends view key id)
    (hnew : ∀ key work, s'.work? key = some work → work.node = node → s.work? key = some work ∨
      ∀ id ∈ work.asks view, s'.Answered key id ∨ s'.Pends view key id)
    (hrefused : ∀ w ∈ s'.router.refused, w ∈ s.router.refused ∨ ∃ work, s'.work? (.queued w.id) = some work ∧
      (work.node = node → ∀ id ∈ work.answers, s'.Answered (.queued w.id) id)) : s'.Accounts view node := by
  refine ⟨hmember, hsound, hcount, hbacklog, hprocesses, hreplies, fun key work hw hnode id hid => ?_,
    fun w hw => ?_⟩
  · rcases hnew key work hw hnode with hold | hnew
    · rcases h.answers.asked key work hold hnode id hid with hanswered | hpend
      · exact .inl (hanswered.mono hwork henq)
      · exact hpends key work hold hnode id hid hpend
    · exact hnew id hid
  · rcases hrefused w hw with hold | hnew
    · obtain ⟨work, hold, hanswered⟩ := h.answers.refused w hold
      exact ⟨work, hwork _ _ hold, fun hnode id hid => (hanswered hnode id hid).mono hwork henq⟩
    · exact hnew

/-- What the processes and the tasks do to one another: whoever of them has seen to an answer before has
put it in the lane, or somebody sees to it still. -/
theorem Accounts.hand (h : s.Accounts view node) (hrouter : s'.router = s.router)
    (hqueued : s'.queued = s.queued) (hbypassing : s'.bypassing = s.bypassing)
    (hmember : s'.members = s.members) (henq : ∀ x ∈ s.enqueued, x ∈ s'.enqueued)
    (hprocesses : ∀ p ∈ s'.processes, s.work? p.key = some p.work)
    (hreplies : ∀ t ∈ s'.replies, ∃ work, s.work? t.key = some work ∧ work.node = t.node)
    (hp : ∀ p ∈ s.processes, p.work.node = node → ∀ id ∈ p.ids view, id ∈ p.work.asks view →
      s'.Answered p.key id ∨ s'.Pends view p.key id)
    (ht : ∀ t ∈ s.replies, t.node = node → s'.Answered t.key t.id ∨ s'.Pends view t.key t.id) :
    s'.Accounts view node := by
  have hwork : ∀ key, s'.work? key = s.work? key := by
    rintro (id | id)
    · simp only [work?, hqueued]
    · simp only [work?, hbypassing]
  refine h.mono view (hmember ▸ h.member) (hrouter ▸ h.sound) (hrouter ▸ hqueued ▸ h.count)
    (hrouter ▸ hqueued ▸ h.backlog) (fun key _ hw => (hwork key).trans hw) henq
    (fun p hp => (hwork _).trans (hprocesses p hp)) (fun t ht => ?_) (fun key work hw hnode id hid hpend => ?_)
    (fun key work hw _ => .inl ((hwork key).symm.trans hw)) fun w hw => .inl (hrouter ▸ hw)
  · obtain ⟨work, hw, hnode⟩ := hreplies t ht
    exact ⟨work, (hwork _).trans hw, hnode⟩
  · rcases hpend with hback | ⟨p, hmem, rfl, hpid⟩ | ⟨t, hmem, rfl, rfl⟩
    · exact .inr (.inl (hrouter ▸ hback))
    · cases hw.symm.trans (h.processes p hmem)
      exact hp p hmem hnode id hpid hid
    · obtain ⟨work', hw', hnode'⟩ := h.replies t hmem
      cases hw.symm.trans hw'
      exact ht t hmem (hnode'.symm.trans hnode)

theorem Accounts.lanes (h : s.Accounts view node) {lanes : List Posted} {members : NodeName → Bool}
    (hmember : members node = true) : Accounts view { s with lanes, members } node :=
  ⟨hmember, h.sound, h.count, h.backlog, h.processes, h.replies, h.answers.asked, h.answers.refused⟩

theorem pends_process {p : Process} (hp : p ∈ s.processes) (hid : id ∈ p.ids view) :
    s.Pends view p.key id := .inr (.inl ⟨p, hp, rfl, hid⟩)

theorem pends_reply {t : ReplyTask} (ht : t ∈ s.replies) : s.Pends view t.key t.id :=
  .inr (.inr ⟨t, ht, rfl, rfl⟩)

/-- A reply that comes from a process or from a task of its own: the rest of them stays. -/
theorem Accounts.reply {processes : List Process} {replies : List ReplyTask}
    {result : Except RemoteError Bytes} (h : s.Accounts view node)
    (hs : Receiving.reply view { s with processes, replies } key work.node id result = some s')
    (hwork : s.work? key = some work)
    (hprocesses : ∀ p ∈ processes, s.work? p.key = some p.work)
    (hreplies : ∀ t ∈ replies, t ∈ s.replies)
    (hp : ∀ p ∈ s.processes, ∀ id' ∈ p.ids view, p.key = key ∧ id' = id ∨
      ∃ p' ∈ processes, p'.key = p.key ∧ id' ∈ p'.ids view)
    (ht : ∀ t ∈ s.replies, t.key = key ∧ t.id = id ∨ t ∈ replies) : s'.Accounts view node := by
  rcases reply_cases view hs with ⟨hmember, rfl⟩ | ⟨hmember, rfl⟩
  · have hne : work.node ≠ node := by
      rintro rfl
      cases hmember.symm.trans h.member
    refine h.hand view rfl rfl rfl rfl (fun _ hx => hx) hprocesses (fun t ht' => h.replies t (hreplies t ht'))
      (fun p hmem hnode id' hid' _ => ?_) fun t hmem hnode => ?_
    · rcases hp p hmem id' hid' with ⟨rfl, rfl⟩ | ⟨p', hp', hkey, hid'⟩
      · cases hwork.symm.trans (h.processes p hmem)
        exact absurd hnode hne
      · exact .inr (hkey ▸ pends_process view hp' hid')
    · rcases ht t hmem with ⟨rfl, rfl⟩ | hmem'
      · obtain ⟨work', hw', hnode'⟩ := h.replies t hmem
        cases hwork.symm.trans hw'
        exact absurd (hnode'.trans hnode) hne
      · exact .inr (pends_reply view hmem')
  · obtain ⟨result', hframe⟩ := replyFrame_eq id result
    rw [hframe]
    have hanswered : (enqueue view { s with processes, replies } key work.node id
        (Frame.reply id result').encode).Answered key id :=
      answered_enqueue view hwork
    refine h.hand view rfl rfl rfl rfl (fun _ hx => List.mem_append_left _ hx) hprocesses
      (fun t ht' => h.replies t (hreplies t ht')) (fun p hmem _ id' hid' _ => ?_) fun t hmem _ => ?_
    · rcases hp p hmem id' hid' with ⟨rfl, rfl⟩ | ⟨p', hp', hkey, hid'⟩
      · exact .inl hanswered
      · exact .inr (.inr (.inl ⟨p', hp', hkey, hid'⟩))
    · rcases ht t hmem with ⟨rfl, rfl⟩ | hmem'
      · exact .inl hanswered
      · exact .inr (.inr (.inr ⟨t, hmem', rfl, rfl⟩))

/-! ## Refusals -/

theorem foldl_tryReply_same (key : Key) (node : NodeName) (error : RemoteError) (ids : List UInt64)
    (s : Receiving) :
    ∃ lanes enqueued, ids.foldl (fun s id => s.tryReply view key node error id) s =
      { s with lanes, enqueued := s.enqueued ++ enqueued } := by
  induction ids generalizing s with
  | nil => exact ⟨s.lanes, [], by simp⟩
  | cons id ids ih =>
    obtain ⟨lanes, enqueued, heq⟩ := ih (s.tryReply view key node error id)
    rw [List.foldl_cons, heq]
    unfold tryReply
    split
    · exact ⟨lanes, enqueued, rfl⟩
    · split
      · exact ⟨lanes, (key, node, (Frame.reply id (.error error)).encode) :: enqueued, by simp [enqueue]⟩
      · exact ⟨lanes, enqueued, rfl⟩

theorem waiting_enqueue {frame : Bytes} {shard : ℕ} :
    (s.enqueue view key node id frame).waiting node shard =
      s.waiting node shard + if view.shardOf id = shard then 1 else 0 := by
  simp only [waiting, enqueue, List.countP_append, List.countP_singleton]
  simp

theorem RoomFor.cons {frame : Bytes} {ids : List UInt64} (h : s.RoomFor view node (id :: ids)) :
    (s.enqueue view key node id frame).RoomFor view node ids := by
  intro id' hid'
  have hroom := h id' (List.mem_cons_of_mem _ hid')
  rw [List.countP_cons] at hroom
  rw [waiting_enqueue]
  simp only [decide_eq_true_eq] at hroom
  omega

theorem mem_enqueued_of_room (key : Key) (error : RemoteError) {ids : List UInt64}
    (hmember : s.members node = true)
    (hroom : s.RoomFor view node ids) (hid : id ∈ ids) :
    (key, node, (Frame.reply id (.error error)).encode) ∈
      (ids.foldl (fun s id => s.tryReply view key node error id) s).enqueued := by
  induction ids generalizing s with
  | nil => cases hid
  | cons id' ids ih =>
    have hfree : s.waiting node (view.shardOf id') < laneQueue := by
      have := hroom id' List.mem_cons_self
      rw [List.countP_cons_of_pos (by simp)] at this
      omega
    have htry : s.tryReply view key node error id' =
        s.enqueue view key node id' (Frame.reply id' (.error error)).encode := by
      rw [tryReply, if_neg (by simp [hmember]), if_pos hfree]
    rw [List.foldl_cons, htry]
    rcases List.mem_cons.1 hid with rfl | hid
    · obtain ⟨lanes, enqueued, heq⟩ := foldl_tryReply_same view key node error ids
        (s.enqueue view key node id (Frame.reply id (.error error)).encode)
      rw [heq]
      exact List.mem_append_left _ (List.mem_append_right _ (List.mem_singleton.2 rfl))
    · exact ih hmember hroom.cons hid

/-! ## Steps -/

theorem work?_queued (hqueued : s'.queued = s.queued ++ [work]) (hbypassing : s'.bypassing = s.bypassing)
    {w : Work} :
    s'.work? key = some w ↔ s.work? key = some w ∨ key = .queued s.queued.length ∧ work = w := by
  cases key with
  | queued id => simp only [work?, hqueued, List.getElem?_concat_eq_some, Key.queued.injEq]
  | bypassing id => simp [work?, hbypassing]

theorem work?_bypassing (hqueued : s'.queued = s.queued) (hbypassing : s'.bypassing = s.bypassing ++ [work])
    {w : Work} :
    s'.work? key = some w ↔ s.work? key = some w ∨ key = .bypassing s.bypassing.length ∧ work = w := by
  cases key with
  | queued id => simp [work?, hqueued]
  | bypassing id => simp only [work?, hbypassing, List.getElem?_concat_eq_some, Key.bypassing.injEq]

theorem mem_asks (h : id ∈ work.asks view) : id ∈ work.answers := by
  rcases List.mem_append.1 h with h | h
  · exact List.mem_append_left _ h
  · exact List.mem_append_right _ (List.mem_filter.1 h).1

theorem Accounts.bypass (h : s.Accounts view node) : Accounts view { s with
    bypassing := s.bypassing ++ [work]
    processes := s.processes ++ [⟨.bypassing s.bypassing.length, work, .delivering⟩] } node := by
  generalize hs' : ({ s with
    bypassing := s.bypassing ++ [work]
    processes := s.processes ++ [⟨.bypassing s.bypassing.length, work, .delivering⟩] } : Receiving) = s'
  have hqueued : s'.queued = s.queued := by rw [← hs']
  have hbypassing : s'.bypassing = s.bypassing ++ [work] := by rw [← hs']
  have hiff : ∀ key w, s'.work? key = some w ↔
      s.work? key = some w ∨ key = .bypassing s.bypassing.length ∧ work = w := fun _ _ =>
    work?_bypassing hqueued hbypassing
  have hold : ∀ key w, s.work? key = some w → s'.work? key = some w := fun key w hw => (hiff key w).2 (.inl hw)
  subst hs'
  refine h.mono view h.member h.sound h.count h.backlog hold (fun _ hx => hx) (fun p hp => ?_) (fun t ht => ?_)
    (fun key w _ _ id _ hpend => .inr ?_) (fun key w hw _ => ?_) fun _ => .inl
  · rcases List.mem_append.1 hp with hp | hp
    · exact hold _ _ (h.processes p hp)
    · rw [List.mem_singleton.1 hp]
      exact (hiff _ _).2 (.inr ⟨rfl, rfl⟩)
  · obtain ⟨w, hw, hnode⟩ := h.replies t ht
    exact ⟨w, hold _ _ hw, hnode⟩
  · exact hpend.imp_right (Or.imp_left fun ⟨p, hp, hkey, hid⟩ => ⟨p, List.mem_append_left _ hp, hkey, hid⟩)
  · refine ((hiff key w).1 hw).imp_right ?_
    rintro ⟨rfl, rfl⟩ id hid
    exact .inr (pends_process view (p := ⟨_, work, .delivering⟩)
      (List.mem_append_right _ (List.mem_singleton.2 rfl)) hid)

theorem Accounts.enter (h : s.Accounts view node) {router : Router}
    (harrive : s.router.step (.arrive work.payload.length) = some router) (lanes : List Posted)
    (enqueued : List (Key × NodeName × Bytes))
    (hrefused : work.node = node → s.router.overloaded work.payload.length = true → ∀ id ∈ work.answers,
      ∃ result, (.queued s.queued.length, node, (Frame.reply id result).encode) ∈ s.enqueued ++ enqueued) :
    Accounts view { s with
      router, queued := s.queued ++ [work], lanes, enqueued := s.enqueued ++ enqueued } node := by
  have harrives := Router.step_arrive harrive
  have hcount := h.count
  generalize hs' : ({ s with
    router, queued := s.queued ++ [work], lanes, enqueued := s.enqueued ++ enqueued } : Receiving) = s'
  have hqueued : s'.queued = s.queued ++ [work] := by rw [← hs']
  have hbypassing : s'.bypassing = s.bypassing := by rw [← hs']
  have hiff : ∀ key w, s'.work? key = some w ↔
      s.work? key = some w ∨ key = .queued s.queued.length ∧ work = w := fun _ _ =>
    work?_queued hqueued hbypassing
  have hold : ∀ key w, s.work? key = some w → s'.work? key = some w := fun key w hw => (hiff key w).2 (.inl hw)
  subst hs'
  refine h.mono view h.member (h.sound.step harrive) ?_ (fun w hw => ?_) hold
    (fun _ hx => List.mem_append_left _ hx) (fun p hp => hold _ _ (h.processes p hp)) (fun t ht => ?_)
    (fun key w _ _ id _ hpend => .inr ?_) (fun key w hw hnode => ?_) fun w hw => ?_
  · show (s.queued ++ [work]).length = _
    rw [List.length_append, List.length_singleton, harrives.count, hcount]
  · show w.id < (s.queued ++ [work]).length
    rw [List.length_append, List.length_singleton]
    rcases (harrives.backlog w).1 hw with hw | ⟨-, rfl⟩
    · exact Nat.lt_succ_of_lt (h.backlog w hw)
    · show s.router.accepted.length + s.router.refused.length < _
      omega
  · obtain ⟨w, hw, hnode⟩ := h.replies t ht
    exact ⟨w, hold _ _ hw, hnode⟩
  · exact hpend.imp_left fun ⟨w, hw, hkey⟩ => ⟨w, (harrives.backlog w).2 (.inl hw), hkey⟩
  · refine ((hiff key w).1 hw).imp_right ?_
    rintro ⟨rfl, rfl⟩ id hid
    rcases hover : s.router.overloaded work.payload.length with _ | _
    · refine .inr (.inl ⟨⟨s.router.accepted.length + s.router.refused.length, work.payload.length⟩, ?_, ?_⟩)
      · exact (harrives.backlog _).2 (.inr ⟨hover, rfl⟩)
      · rw [hcount]
    · obtain ⟨result, hmem⟩ := hrefused hnode hover id (mem_asks view hid)
      exact .inl ⟨work, result, (hiff _ _).2 (.inr ⟨rfl, rfl⟩), hnode ▸ hmem⟩
  · refine (harrives.refused w hw).imp_right ?_
    rintro ⟨hover, rfl⟩
    rw [← hcount]
    refine ⟨work, (hiff _ _).2 (.inr ⟨rfl, rfl⟩), fun hnode id hid => ?_⟩
    obtain ⟨result, hmem⟩ := hrefused hnode hover id hid
    exact ⟨work, result, (hiff _ _).2 (.inr ⟨rfl, rfl⟩), hnode ▸ hmem⟩

theorem Accounts.incoming (h : s.Accounts view node) (hok : s.Heeds view node (.incoming work))
    (hs : s.incoming view work = some s') : s'.Accounts view node := by
  unfold Receiving.incoming at hs
  split at hs
  · cases hs
  split at hs <;> rename_i hbypass
  · cases hs
    exact h.bypass view
  · obtain ⟨router, harrive, hs⟩ := Option.bind_eq_some_iff.1 hs
    cases hs
    split <;> rename_i hover
    · obtain ⟨lanes, enqueued, heq⟩ := foldl_tryReply_same view (.queued s.queued.length)
        work.node .overloaded work.answers { s with router, queued := s.queued ++ [work] }
      rw [refuse, heq]
      refine h.enter view harrive lanes enqueued fun hnode _ id hid => ⟨.error .overloaded, ?_⟩
      have hroom := hok hnode (by simpa using hbypass) hover
      have hmem := mem_enqueued_of_room view (s := { s with router, queued := s.queued ++ [work] })
        (.queued s.queued.length) .overloaded h.member hroom hid
      rw [← hnode, heq] at hmem
      exact hnode ▸ hmem
    · have henter := h.enter view harrive s.lanes [] fun _ hfull =>
        absurd hfull hover
      rwa [List.append_nil] at henter

/-- The router or a task takes a step: whatever is begun is processed, and nothing is lost that `node`
waits for. -/
theorem Accounts.move (h : s.Accounts view node) {e : Router.Event} {router : Router}
    {begun : List Router.Work} (hs : s.router.step e = some router) (hmoves : s.router.Moves e router begun)
    {processes : List Process}
    (hprocesses : ∀ p ∈ processes, s.work? p.key = some p.work)
    (hkept : ∀ p ∈ s.processes, p ∈ processes ∨ s.NotAsked view node [p.key])
    (hbegun : ∀ w ∈ begun, ∀ work, s.queued[w.id]? = some work →
      ⟨.queued w.id, work, .delivering⟩ ∈ processes)
    (hlost : ∀ i task, e = .panic i → s.router.tasks[i]? = some task → ∀ w ∈ task.queue,
      s.NotAsked view node [.queued w.id]) :
    Accounts view { s with router, processes } node := by
  have hasked : ∀ {key work id}, s.work? key = some work → work.node = node → id ∈ work.asks view →
      ¬ s.NotAsked view node [key] := by
    intro key work id hw hnode hid hnot
    rw [hnot key (List.mem_singleton.2 rfl) work hw hnode] at hid
    cases hid
  refine h.mono view h.member (h.sound.step hs) ?_ (fun w hw => h.backlog w (hmoves.kept w hw))
    (fun _ _ hw => hw) (fun _ hx => hx) hprocesses h.replies (fun key work hw hnode id hid hpend => ?_)
    (fun key work hw _ => .inl hw) fun w hw => .inl (hmoves.refused ▸ hw)
  · show s.queued.length = _
    rw [h.count, hmoves.accepted, hmoves.refused]
  · rcases hpend with ⟨w, hback, rfl⟩ | ⟨p, hp, rfl, hpid⟩ | htask
    · rcases hmoves.left w hback with hback | hbegan | ⟨i, task, he, hi, hqueue⟩
      · exact .inr (.inl ⟨w, hback, rfl⟩)
      · exact .inr (pends_process view (p := ⟨_, work, .delivering⟩) (hbegun w hbegan work hw) hid)
      · exact absurd (hlost i task he hi w hqueue) (hasked hw hnode hid)
    · rcases hkept p hp with hp | hnot
      · exact .inr (pends_process view hp hpid)
      · exact absurd hnot (hasked hw hnode hid)
    · exact .inr (.inr (.inr htask))

theorem mem_begun {begun : List Router.Work} {p : Process}
    (hp : p ∈ begun.filterMap fun w => (s.queued[w.id]?).map fun work => ⟨.queued w.id, work, .delivering⟩) :
    s.work? p.key = some p.work := by
  obtain ⟨w, -, hp⟩ := List.mem_filterMap.1 hp
  obtain ⟨work, hw, rfl⟩ := Option.map_eq_some_iff.1 hp
  exact hw

theorem Accounts.moveQueue {e : Router.Event} (h : s.Accounts view node) (he : e.isMove = true)
    (hpanic : ∀ i, e ≠ .panic i) (hs : s.moveQueue e = some s') : s'.Accounts view node := by
  obtain ⟨router, hrouter, hs⟩ := Option.bind_eq_some_iff.1 hs
  cases hs
  obtain ⟨begun, hmoves⟩ := Router.step_backlog he hrouter
  rw [hmoves.processed, List.drop_left]
  refine h.move view hrouter hmoves (fun p hp => ?_) (fun p hp => .inl (List.mem_append_left _ hp))
    (fun w hw work hwork => List.mem_append_right _ ?_) fun i _ hi => absurd hi (hpanic i)
  · rcases List.mem_append.1 hp with hp | hp
    · exact h.processes p hp
    · exact mem_begun hp
  · exact List.mem_filterMap.2 ⟨w, hw, by rw [hwork]; rfl⟩

theorem Accounts.panic {i : ℕ} (h : s.Accounts view node) (hok : s.NotAsked view node (s.atTask i))
    (hs : s.stepQueue (.panic i) = some s') : s'.Accounts view node := by
  obtain ⟨s₁, hmove, rfl⟩ := Option.map_eq_some_iff.1 hs
  obtain ⟨router, hrouter, hmove⟩ := Option.bind_eq_some_iff.1 hmove
  cases hmove
  obtain ⟨begun, hmoves⟩ := Router.step_backlog (e := .panic i) rfl hrouter
  obtain rfl := hmoves.panicked i rfl
  rw [hmoves.processed, List.append_nil, List.drop_length, List.filterMap_nil, List.append_nil]
  refine h.move view hrouter hmoves (fun p hp => h.processes p (List.mem_filter.1 hp).1) (fun p hp => ?_) nofun
    fun k task hk htask w hw => ?_
  · by_cases hkey : ∀ w ∈ s.working i, p.key ≠ .queued w.id
    · exact .inl (List.mem_filter.2 ⟨hp, by simpa using hkey⟩)
    · push Not at hkey
      obtain ⟨w, hw, hkey⟩ := hkey
      refine .inr fun key hmem => hok key ?_
      rw [List.mem_singleton.1 hmem, hkey]
      exact List.mem_map.2 ⟨w, List.mem_append_left _ (Option.mem_toList.2 hw), rfl⟩
  · cases hk
    refine fun key hmem => hok key ?_
    rw [List.mem_singleton.1 hmem]
    refine List.mem_map.2 ⟨w, List.mem_append_right _ ?_, rfl⟩
    simpa [htask] using hw

theorem Accounts.stepQueue {e : Router.Event} (h : s.Accounts view node)
    (hok : s.Heeds view node (.queue e)) (hs : s.stepQueue e = some s') : s'.Accounts view node := by
  cases e with
  | arrive len => cases hs
  | processed i =>
    simp only [Receiving.stepQueue] at hs
    split at hs
    · cases hs
    · exact h.moveQueue view rfl (by simp) hs
  | panic i => exact h.panic view hok hs
  | send | retain | recv i | timeout i | close i | process i => exact h.moveQueue view rfl (by simp) hs

/-- Where the delivery succeeds, the call and every request that is asked for is waited for. -/
theorem mem_of_delivered {address : Option CastDyn} (hdeliver : (view.deliver work address).2 = none)
    (hid : id ∈ work.asks view) : id ∈ work.callId.toList ++ (view.deliver work address).1 := by
  refine List.mem_append.2 ((List.mem_append.1 hid).imp_right fun hid => ?_)
  have hheld := (List.mem_filter.1 hid).2
  unfold CommunicationView.decode at hheld
  unfold CommunicationView.deliver at hdeliver ⊢
  cases hhandler : view.handlers work.msg with
  | none => simp [hhandler] at hdeliver
  | some handler =>
    cases address with
    | none => simp [hhandler] at hdeliver
    | some cast =>
      cases hdecode : (handler.decode work.payload).error with
      | some reason => simp [hhandler, hdecode] at hdeliver
      | none =>
        simp only [hhandler, hdecode, Option.isNone_some, Option.isSome_none, Bool.false_or,
          decide_eq_true_eq] at hheld
        simp only [hdecode]
        split <;> exact hheld

theorem Accounts.delivered (h : s.Accounts view node) {k : ℕ} {p : Process} (hk : s.processes[k]? = some p)
    (hstage : p.stage = .delivering) (address : Option CastDyn) :
    (s.delivered k p (view.deliver p.work address)).Accounts view node := by
  have hwork := h.processes p (List.mem_of_getElem? hk)
  unfold Receiving.delivered
  split <;> rename_i hresult
  · refine h.hand view rfl rfl rfl rfl (fun _ hx => hx) (fun p' hp' => ?_) (fun t ht => ?_)
      (fun p' hp' _ id _ hid => .inr ?_) fun t ht _ => .inr (pends_reply view (List.mem_append_left _ ht))
    · exact h.processes p' (List.mem_of_mem_eraseIdx hp')
    · rcases List.mem_append.1 ht with ht | ht
      · exact h.replies t ht
      · obtain ⟨id, -, rfl⟩ := List.mem_map.1 ht
        exact ⟨p.work, hwork, rfl⟩
    · rcases (List.mem_iff_of_getElem? hk).1 hp' with rfl | hp'
      · exact pends_reply view (t := ⟨p'.key, p'.work.node, id, none⟩)
          (List.mem_append_right _ (List.mem_map.2 ⟨id, mem_of_delivered view hresult hid, rfl⟩))
      · exact pends_process view hp' ‹_›
  · rename_i error
    refine h.hand view rfl rfl rfl rfl (fun _ hx => hx) (fun p' hp' => ?_) (fun t ht => ?_)
      (fun p' hp' _ id hpid hid => .inr ?_) fun t ht _ => .inr (pends_reply view (List.mem_append_left _ ht))
    · rcases (List.mem_set_iff_of_getElem? hk).1 hp' with rfl | hp'
      · exact hwork
      · exact h.processes p' (List.mem_of_mem_eraseIdx hp')
    · rcases List.mem_append.1 ht with ht | ht
      · exact h.replies t ht
      · obtain ⟨id, -, rfl⟩ := List.mem_map.1 ht
        exact ⟨p.work, hwork, rfl⟩
    · rcases (List.mem_iff_of_getElem? hk).1 hp' with rfl | hp'
      · exact pends_process view (p := { p' with stage := .answering p'.work.answers error })
          ((List.mem_set_iff_of_getElem? hk).2 (.inl rfl)) (mem_asks view hid)
      · exact pends_process view ((List.mem_set_iff_of_getElem? hk).2 (.inr hp')) hpid

theorem Accounts.answer (h : s.Accounts view node) {k : ℕ} (hs : s.step view (.answer k) = some s') :
    s'.Accounts view node := by
  obtain ⟨p, hk, hs⟩ := Option.bind_eq_some_iff.1 hs
  have hwork := h.processes p (List.mem_of_getElem? hk)
  split at hs <;> rename_i hstage
  · cases hs
  · cases hs
    refine h.hand view rfl rfl rfl rfl (fun _ hx => hx)
      (fun p' hp' => h.processes p' (List.mem_of_mem_eraseIdx hp')) h.replies (fun p' hp' _ id hpid _ => .inr ?_)
      fun t ht _ => .inr (pends_reply view ht)
    rcases (List.mem_iff_of_getElem? hk).1 hp' with rfl | hp'
    · rw [Process.ids, hstage] at hpid
      cases hpid
    · exact pends_process view hp' hpid
  · rename_i id ids error
    refine h.reply view hs hwork (fun p' hp' => ?_) (fun _ ht => ht) (fun p' hp' id' hid' => ?_)
      fun _ ht => .inr ht
    · rcases (List.mem_set_iff_of_getElem? hk).1 hp' with rfl | hp'
      · exact hwork
      · exact h.processes p' (List.mem_of_mem_eraseIdx hp')
    · rcases (List.mem_iff_of_getElem? hk).1 hp' with rfl | hp'
      · rw [Process.ids, hstage] at hid'
        rcases List.mem_cons.1 hid' with rfl | hid'
        · exact .inl ⟨rfl, rfl⟩
        · exact .inr ⟨{ p' with stage := .answering ids error },
            (List.mem_set_iff_of_getElem? hk).2 (.inl rfl), rfl, hid'⟩
      · exact .inr ⟨p', (List.mem_set_iff_of_getElem? hk).2 (.inr hp'), rfl, hid'⟩

theorem Accounts.settle (h : s.Accounts view node) {j : ℕ} {result : Except RemoteError Bytes}
    (hs : s.step view (.settle j result) = some s') : s'.Accounts view node := by
  obtain ⟨t, hj, hs⟩ := Option.bind_eq_some_iff.1 hs
  split at hs <;> cases hs
  refine h.hand view rfl rfl rfl rfl (fun _ hx => hx) h.processes (fun t' ht' => ?_)
    (fun p hp _ id hid _ => .inr (pends_process view hp hid)) fun t' ht' _ => .inr ?_
  · rcases (List.mem_set_iff_of_getElem? hj).1 ht' with rfl | ht'
    · exact h.replies t (List.mem_of_getElem? hj)
    · exact h.replies t' (List.mem_of_mem_eraseIdx ht')
  · rcases (List.mem_iff_of_getElem? hj).1 ht' with rfl | ht'
    · exact pends_reply view (t := { t' with result := some result })
        ((List.mem_set_iff_of_getElem? hj).2 (.inl rfl))
    · exact pends_reply view ((List.mem_set_iff_of_getElem? hj).2 (.inr ht'))

theorem Accounts.sendReply (h : s.Accounts view node) {j : ℕ} (hs : s.step view (.reply j) = some s') :
    s'.Accounts view node := by
  obtain ⟨t, hj, hs⟩ := Option.bind_eq_some_iff.1 hs
  obtain ⟨result, -, hs⟩ := Option.bind_eq_some_iff.1 hs
  obtain ⟨work, hwork, hnode⟩ := h.replies t (List.mem_of_getElem? hj)
  rw [← hnode] at hs
  refine h.reply view hs hwork h.processes (fun t' ht' => List.mem_of_mem_eraseIdx ht')
    (fun p hp id' hid' => .inr ⟨p, hp, rfl, hid'⟩) fun t' ht' => ?_
  refine ((List.mem_iff_of_getElem? hj).1 ht').imp_left ?_
  rintro rfl
  exact ⟨rfl, rfl⟩

theorem Accounts.step (h : s.Accounts view node) (hok : s.Heeds view node e) (hs : s.step view e = some s') :
    s'.Accounts view node := by
  cases e with
  | incoming work => exact h.incoming view hok hs
  | traffic posted =>
    simp only [Receiving.step] at hs
    split at hs <;> cases hs
    exact h.lanes view h.member
  | joins n =>
    cases hs
    exact h.lanes view (by simp [h.member])
  | leaves n =>
    cases hs
    have hne : n ≠ node := hok
    exact h.lanes view (by simp [h.member, hne.symm])
  | queue e => exact h.stepQueue view hok hs
  | deliver k address =>
    obtain ⟨p, hk, hs⟩ := Option.bind_eq_some_iff.1 hs
    split at hs <;> rename_i hstage <;> cases hs
    exact h.delivered view hk hstage address
  | answer k => exact h.answer view hs
  | settle j result => exact h.settle view hs
  | reply j => exact h.sendReply view hs
  | drain n shard =>
    simp only [Receiving.step] at hs
    split at hs <;> cases hs
    exact h.lanes view h.member
  | panicProcess k =>
    obtain ⟨p, hk, hs⟩ := Option.bind_eq_some_iff.1 hs
    split at hs <;> cases hs
    refine h.hand view rfl rfl rfl rfl (fun _ hx => hx)
      (fun p' hp' => h.processes p' (List.mem_of_mem_eraseIdx hp')) h.replies
      (fun p' hp' hnode id hpid hid => .inr ?_) fun t ht _ => .inr (pends_reply view ht)
    rcases (List.mem_iff_of_getElem? hk).1 hp' with rfl | hp'
    · have hnot := hok p' hk p'.key (List.mem_singleton.2 rfl) p'.work (h.processes p' (List.mem_of_getElem? hk))
      rw [hnot hnode] at hid
      cases hid
    · exact pends_process view hp' hpid
  | panicReply j =>
    simp only [Receiving.step] at hs
    split at hs <;> cases hs
    refine h.hand view rfl rfl rfl rfl (fun _ hx => hx) h.processes
      (fun t ht => h.replies t (List.mem_of_mem_eraseIdx ht))
      (fun p hp _ id hid _ => .inr (pends_process view hp hid)) fun t ht hnode => .inr ?_
    have hj := List.getElem?_eq_getElem ‹j < s.replies.length›
    rcases (List.mem_iff_of_getElem? hj).1 ht with rfl | ht
    · exact absurd hnode (hok _ hj)
    · exact pends_reply view ht

theorem accounts_of_heeds (h : ((runs view node).guard (Heeds view · node)).Reachable s) :
    s.Accounts view node := by
  refine h.guard_invariant (I := (Accounts view · node)) (fun s h₀ => ?_) fun s e s' hi hok hs =>
    hi.step view hok hs
  obtain ⟨members, hmember, rfl⟩ := h₀
  exact accounts_new view hmember

end Receiving
end Zestors
