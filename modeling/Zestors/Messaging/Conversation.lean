import Zestors.Lib.Lts
import Zestors.Messaging.Pending

/-!
# Calls across restarts of the caller

A caller that may crash and be started again under its name, the peer that it calls, and everything
that is on its way between the two. A reply carries the id of its call and nothing else, and every
incarnation of the caller numbers its calls from zero: a reply answers only its own call
(`AnswersOwn`) in the runs that never reuse an id while an answer to it may still come
(`answersOwn_of_freshIds`).
-/

namespace Zestors

/-- How far a call has come. A message waits in a lane of the caller, is read by the peer and handled
there; its reply waits in a lane of the peer and is then written to one incarnation of the caller. -/
inductive ExchangeStage
  | lane
  | wire
  | work
  | replyLane (result : Except RemoteError Bytes)
  | replyWire (incarnation : ℕ) (result : Except RemoteError Bytes)

/-- A call, or a request in a message, that has not been answered. `call` is a ghost: which of all the
calls it is. -/
structure Exchange where
  callId : UInt64
  call : ℕ
  stage : ExchangeStage

/-- An answer that a caller got: to its call `call`, from the reply to the call `answered`. -/
structure Completion where
  call : ℕ
  answered : ℕ
  answer : Answer
deriving DecidableEq

/-- What a run of the calling node has: `next_call` and the calls it waits for. -/
structure Caller where
  nextCall : UInt64
  pending : Pending

structure Conversation where
  peer : NodeName
  incarnation : ℕ
  caller : Option Caller
  /-- The incarnation at the caller's end of the connection. -/
  link : Option ℕ
  exchanges : List Exchange
  /-- The number of calls so far. -/
  asked : ℕ
  completed : List Completion

/-- The exchange can still answer a call of that incarnation. -/
def Exchange.Deliverable (incarnation : ℕ) (x : Exchange) : Prop :=
  match x.stage with
  | .lane | .wire | .work | .replyLane _ => True
  | .replyWire reader _ => reader = incarnation

instance (incarnation : ℕ) (x : Exchange) : Decidable (x.Deliverable incarnation) := by
  unfold Exchange.Deliverable; split <;> infer_instance

namespace Conversation

/-- Nobody has called `peer` yet. -/
def new (peer : NodeName) : Conversation := ⟨peer, 0, none, none, [], 0, []⟩

inductive Event
  | crash
  | start
  | connect
  | disconnect
  /-- A number is drawn for a monitor, or for a message that is not sent after all. -/
  | draw
  /-- `prepare` numbers a call, or `export` a request in its message. -/
  | call
  | send (k : ℕ)
  | read (k : ℕ)
  | answer (k : ℕ) (result : Except RemoteError Bytes)
  | write (k : ℕ)
  | deliver (k : ℕ)
  /-- The message or its reply is dropped on the way. -/
  | lose (k : ℕ)
  /-- The call is no longer waited for: `Pending::remove`. -/
  | giveUp (id : UInt64)
  | failNode

variable {s s' : Conversation} {e : Event}

/-- Moves the `k`-th exchange on, if it is where the step finds it. -/
def advance (s : Conversation) (k : ℕ) (f : ExchangeStage → Option ExchangeStage) :
    Option Conversation := do
  let x ← s.exchanges[k]?
  let stage ← f x.stage
  return { s with exchanges := s.exchanges.set k { x with stage := stage } }

/-- `Router::on_incoming` of a reply. -/
def onReply (s : Conversation) (caller : Caller) (k : ℕ) (x : Exchange)
    (result : Except RemoteError Bytes) : Conversation :=
  { s with
    caller := some { caller with pending := (caller.pending.complete s.peer x.callId result).1 }
    exchanges := s.exchanges.eraseIdx k
    completed := match (caller.pending.complete s.peer x.callId result).2 with
      | some (call, answer) => ⟨call, x.call, answer⟩ :: s.completed
      | none => s.completed }

def step (s : Conversation) : Event → Option Conversation
  -- what waits in the caller's lanes goes down with it
  | .crash => some { s with
      caller := none
      exchanges := s.exchanges.filter fun x => !(x.stage matches .lane) }
  | .start =>
    match s.caller with
    | some _ => none
    | none => some { s with incarnation := s.incarnation + 1, caller := some ⟨0, .empty⟩ }
  | .connect => s.caller.map fun _ => { s with link := some s.incarnation }
  | .disconnect => some { s with link := none }
  | .draw => s.caller.map fun caller =>
      { s with caller := some { caller with nextCall := caller.nextCall + 1 } }
  | .call => s.caller.map fun caller => { s with
      caller := some ⟨caller.nextCall + 1, caller.pending.insert caller.nextCall s.peer s.asked⟩
      exchanges := s.exchanges ++ [⟨caller.nextCall, s.asked, .lane⟩]
      asked := s.asked + 1 }
  | .send k => s.advance k fun
      | .lane => if s.link = some s.incarnation then some .wire else none
      | _ => none
  | .read k => s.advance k fun
      | .wire => some .work
      | _ => none
  | .answer k result => s.advance k fun
      | .work => some (.replyLane result)
      | _ => none
  | .write k => s.advance k fun
      | .replyLane result => s.link.map fun reader => .replyWire reader result
      | _ => none
  | .deliver k =>
    match s.caller, s.exchanges[k]? with
    | some caller, some x =>
      match x.stage with
      | .replyWire reader result =>
        if reader = s.incarnation then some (s.onReply caller k x result) else none
      | _ => none
    | _, _ => none
  | .lose k => some { s with exchanges := s.exchanges.eraseIdx k }
  | .giveUp id => s.caller.map fun caller =>
      { s with caller := some { caller with pending := caller.pending.remove id } }
  | .failNode => s.caller.map fun caller =>
      { s with caller := some { caller with pending := (caller.pending.failNode s.peer).1 } }

/-- Every interleaving of calls, replies, crashes, starts and reconnections. -/
def runs : Lts Conversation Event := Lts.ofFun (fun s => ∃ peer, s = new peer) step

/-- Every call was answered by the reply to it. -/
def AnswersOwn (s : Conversation) : Prop := ∀ c ∈ s.completed, c.call = c.answered

instance (s : Conversation) : Decidable s.AnswersOwn := by unfold AnswersOwn; infer_instance

/-- A call is numbered by an id that no message or reply still under way has. -/
def FreshId (s : Conversation) : Event → Prop
  | .call => ∀ caller ∈ s.caller, ∀ x ∈ s.exchanges,
      x.callId = caller.nextCall → ¬ x.Deliverable s.incarnation
  | _ => True

instance (s : Conversation) (e : Event) : Decidable (s.FreshId e) := by
  cases e <;> unfold FreshId <;> infer_instance

/-- Whatever is under way belongs to the call that waits under its id, if one does. -/
structure Matched (s : Conversation) : Prop where
  own : s.AnswersOwn
  waiting : ∀ caller, s.caller = some caller → ∀ x ∈ s.exchanges, x.Deliverable s.incarnation →
    ∀ call ∈ caller.pending.get? x.callId, call.reply = x.call

theorem matched_new (peer : NodeName) : (new peer).Matched := ⟨nofun, nofun⟩

theorem Matched.advance (h : s.Matched) {k : ℕ} {f : ExchangeStage → Option ExchangeStage}
    (hf : ∀ stage, (f stage).isSome → ∀ i c n, (⟨i, c, stage⟩ : Exchange).Deliverable n)
    (hs : s.advance k f = some s') : s'.Matched := by
  unfold Conversation.advance at hs
  obtain ⟨x, hx, hs⟩ := Option.bind_eq_some_iff.1 hs
  obtain ⟨stage, hstage, hs⟩ := Option.bind_eq_some_iff.1 hs
  cases hs
  refine ⟨h.own, fun caller hcaller y hy hdel call hcall => ?_⟩
  rcases List.mem_or_eq_of_mem_set hy with hy | rfl
  · exact h.waiting caller hcaller y hy hdel call hcall
  · exact h.waiting caller hcaller x (List.mem_of_getElem? hx)
      (hf x.stage (by rw [hstage]; rfl) _ _ _) call hcall

theorem Matched.mono (h : s.Matched) (hown : s'.AnswersOwn) (hinc : s'.incarnation = s.incarnation)
    (hx : ∀ x ∈ s'.exchanges, x ∈ s.exchanges)
    (hp : ∀ caller', s'.caller = some caller' → ∃ caller, s.caller = some caller ∧ ∀ id call,
      caller'.pending.get? id = some call → caller.pending.get? id = some call) : s'.Matched := by
  refine ⟨hown, fun caller' hcaller' x hx' hdel call hcall => ?_⟩
  obtain ⟨caller, hcaller, hsub⟩ := hp caller' hcaller'
  exact h.waiting caller hcaller x (hx x hx') (hinc ▸ hdel) call (hsub _ _ hcall)

theorem Matched.onReply (h : s.Matched) {caller : Caller} {k : ℕ} {x : Exchange}
    {result : Except RemoteError Bytes} (hcaller : s.caller = some caller)
    (hx : s.exchanges[k]? = some x) (hdel : x.Deliverable s.incarnation) :
    (s.onReply caller k x result).Matched := by
  have hx := List.mem_of_getElem? hx
  refine h.mono ?_ rfl (fun y hy => List.mem_of_mem_eraseIdx hy) ?_
  · unfold AnswersOwn Conversation.onReply
    dsimp only
    split
    · rename_i call answer hcomplete
      intro c hc
      rcases List.mem_cons.1 hc with rfl | hc
      · exact h.waiting caller hcaller x hx hdel _ (Pending.complete_eq_some hcomplete)
      · exact h.own c hc
    · exact h.own
  · rintro _ ⟨⟩
    exact ⟨caller, hcaller, fun id call => Pending.get?_complete⟩

theorem Matched.call (h : s.Matched) {caller : Caller} (hcaller : s.caller = some caller)
    (hfresh : ∀ x ∈ s.exchanges, x.callId = caller.nextCall → ¬ x.Deliverable s.incarnation) :
    Matched { s with
      caller := some ⟨caller.nextCall + 1, caller.pending.insert caller.nextCall s.peer s.asked⟩
      exchanges := s.exchanges ++ [⟨caller.nextCall, s.asked, .lane⟩]
      asked := s.asked + 1 } := by
  refine ⟨h.own, ?_⟩
  rintro _ ⟨⟩ x hx hdel call hcall
  have hcall : (caller.pending.insert caller.nextCall s.peer s.asked).get? x.callId = some call := hcall
  rw [Pending.get?_insert] at hcall
  rcases List.mem_append.1 hx with hx | hx
  · rw [if_neg fun hid => hfresh x hx hid hdel] at hcall
    exact h.waiting caller hcaller x hx hdel call hcall
  · rw [List.mem_singleton.1 hx] at hcall ⊢
    rw [if_pos rfl] at hcall
    cases hcall; rfl

theorem Matched.step (h : s.Matched) (hok : s.FreshId e) (hs : s.step e = some s') : s'.Matched := by
  cases e with
  | crash =>
    cases hs
    exact h.mono h.own rfl (fun x hx => (List.mem_filter.1 hx).1) nofun
  | start =>
    simp only [Conversation.step] at hs
    split at hs
    · cases hs
    · cases hs
      refine ⟨h.own, ?_⟩
      rintro _ ⟨⟩ x _ _ call hcall
      cases hcall
  | connect =>
    obtain ⟨caller, hcaller, rfl⟩ := Option.map_eq_some_iff.1 hs
    exact h.mono h.own rfl (fun _ hx => hx) fun caller' h' => ⟨caller', h', fun _ _ hc => hc⟩
  | disconnect =>
    cases hs
    exact h.mono h.own rfl (fun _ hx => hx) fun caller' h' => ⟨caller', h', fun _ _ hc => hc⟩
  | draw =>
    obtain ⟨caller, hcaller, rfl⟩ := Option.map_eq_some_iff.1 hs
    refine h.mono h.own rfl (fun _ hx => hx) ?_
    rintro _ ⟨⟩
    exact ⟨caller, hcaller, fun _ _ hc => hc⟩
  | call =>
    obtain ⟨caller, hcaller, rfl⟩ := Option.map_eq_some_iff.1 hs
    exact h.call hcaller (hok caller hcaller)
  | send k | read k | answer k result | write k =>
    simp only [Conversation.step] at hs
    refine h.advance ?_ hs
    rintro (_ | _ | _ | _ | _) hstage i c n <;> trivial
  | deliver k =>
    simp only [Conversation.step] at hs
    split at hs
    · rename_i caller x hcaller hx
      split at hs
      · rename_i reader result hstage
        split at hs
        · rename_i hreader
          cases hs
          exact h.onReply hcaller hx (by unfold Exchange.Deliverable; rw [hstage]; exact hreader)
        · cases hs
      · cases hs
    · cases hs
  | lose k =>
    cases hs
    exact h.mono h.own rfl (fun x hx => List.mem_of_mem_eraseIdx hx)
      fun caller' h' => ⟨caller', h', fun _ _ hc => hc⟩
  | giveUp id =>
    obtain ⟨caller, hcaller, rfl⟩ := Option.map_eq_some_iff.1 hs
    refine h.mono h.own rfl (fun _ hx => hx) ?_
    rintro _ ⟨⟩
    refine ⟨caller, hcaller, fun id' call hc => ?_⟩
    have hc : (caller.pending.remove id).get? id' = some call := hc
    rw [Pending.get?_remove] at hc
    split at hc
    · cases hc
    · exact hc
  | failNode =>
    obtain ⟨caller, hcaller, rfl⟩ := Option.map_eq_some_iff.1 hs
    refine h.mono h.own rfl (fun _ hx => hx) ?_
    rintro _ ⟨⟩
    exact ⟨caller, hcaller, fun id call hc => (Pending.get?_failNode hc).1⟩

/-- A reply answers only its own call in the runs that number every call by a fresh id. -/
theorem answersOwn_of_freshIds (h : (runs.guard FreshId).Reachable s) : s.AnswersOwn := by
  refine (h.guard_invariant (I := Matched) ?_ fun s e s' hm hok hs => hm.step hok hs).own
  rintro _ ⟨peer, rfl⟩
  exact matched_new peer

/-- The caller crashes while the peer works on its first call, which is answered before the next
incarnation calls anybody: its first call, under the same id, gets its own reply. -/
theorem answersOwn_of_freshIds_restarted : ∃ s, (runs.guard FreshId).Reachable s ∧
    (s.incarnation = 2 ∧ s.completed = [⟨1, 1, .ok [7]⟩]) ∧ s.AnswersOwn := by
  obtain ⟨s, hs, h⟩ : ∃ s, (runs.guard FreshId).Reachable s ∧ _ :=
    Lts.exists_guard_reachable_of_exec (f := step)
      (p := fun s => s.incarnation = 2 ∧ s.completed = [⟨1, 1, .ok [7]⟩])
    (s := new "node-b") ⟨_, rfl⟩
    [.start, .connect, .call, .send 0, .read 0, .crash, .start, .connect, .answer 0 (.ok [3]),
      .write 0, .deliver 0, .call, .send 0, .read 0, .answer 0 (.ok [7]), .write 0, .deliver 0]
    (by decide +kernel)
  exact ⟨s, hs, h, answersOwn_of_freshIds hs⟩

/-- The peer is still working on the first call of a caller that crashes. The next incarnation calls
the peer under the same id, and gets the reply to the call that it never made. -/
theorem not_answersOwn : ¬ ∀ s, runs.Reachable s → s.AnswersOwn :=
  Lts.not_invariant_of_exec (s := new "node-b") ⟨_, rfl⟩
    [.start, .connect, .call, .send 0, .read 0, .crash, .start, .connect, .call, .answer 0 (.ok [3]),
      .write 0, .deliver 0]
    (by decide +kernel)

end Conversation

end Zestors
