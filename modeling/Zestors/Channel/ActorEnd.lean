import Zestors.Channel.Spawns

/-!
# The end of an actor and its queues

A channel with the tasks of all its incarnations, as `Incarnations` has them, and any number of sends
under way. Nothing is stranded (`NothingStranded`) in the runs whose pushes all find the drain of their
queue still to come, and in which no bomb goes off under a later incarnation
(`nothingStranded_of_timely`).

The code asks for neither. Between the check of the status and the push, the inbox may be dropped; and
a task that has panicked registers its exit before it drops its bomb, so that the next incarnation may
be there by then.
-/

namespace Zestors

/-- The drop of the inbox has found the message queue empty and does not look at it again. -/
def Stage.msgsOver : Stage → Bool
  | registered | running => false
  | ending todo => todo.all fun
    | .drainMsgs => false
    | _ => true

/-- Likewise for the signal queue. -/
def Stage.signalsOver : Stage → Bool
  | registered | running => false
  | ending todo => todo.all fun
    | .drainSignals => false
    | _ => true

def Cleanup.isExit : Cleanup → Bool
  | registerExited _ => true
  | drainMsgs | drainSignals | recordExit _ | bomb => false

namespace Incarnations

def msgsOver (s : Incarnations) : Bool := s.tasks.getLast?.all Stage.msgsOver

def signalsOver (s : Incarnations) : Bool := s.tasks.getLast?.all Stage.signalsOver

/-- The event is the drop of an armed bomb that finds the channel alive, for an incarnation that it does
not belong to. -/
def killsOther (s : Incarnations) : Event → Bool
  | .cleanup i =>
    match s.tasks[i]? with
    | some (.ending (.bomb :: _)) => decide (i + 1 < s.tasks.length) && !s.channel.status.isDead
    | _ => false
  | .cleanupLost k =>
    match s.lost[k]? with
    | some (.bomb :: _) => !s.channel.status.isDead
    | _ => false
  | _ => false

end Incarnations

/-- A send that has not returned. -/
inductive Send
  | cast (cast : Cast)
  | signal (call : SignalCall)
deriving DecidableEq

/-- The send is not about to push, or the drain of its queue is still to come. -/
def Send.InTime (s : Incarnations) : Send → Prop
  | .cast c => c.stage = .push → c.member = true → s.msgsOver = false
  | .signal c => c.stage = .push → s.signalsOver = false

instance (s : Incarnations) (send : Send) : Decidable (send.InTime s) := by
  cases send <;> unfold Send.InTime <;> infer_instance

/-- A channel, its tasks and its callers. `accepted`, `received`, `signalled` and `dropped` are the
history: the messages whose sender got a receipt, what an incarnation took from the queues, and the
messages that a drain dropped. -/
structure Mailbox where
  actor : Incarnations
  sends : List Send
  nextMsg : ℕ
  accepted : List ℕ
  received : List (Queued ℕ × ℕ)
  signalled : List (Queued SignalInterface × ℕ)
  dropped : List ℕ

namespace Mailbox

/-- A new channel that nobody has sent to yet. -/
def new (channel : Channel) : Mailbox := ⟨.new channel, [], 0, [], [], [], []⟩

inductive Event
  /-- A caller begins `try_cast_with`; `cast_with` does so after its delay, and then ignores the
  backpressure. -/
  | cast (options : CallOptions) (member : Bool)
  | signal (signal : SignalInterface)
  /-- The `k`-th send under way takes its next step. -/
  | send (k : ℕ)
  /-- Anything else that happens to the channel and its tasks. -/
  | actor (e : Incarnations.Event)

variable {s s' : Mailbox} {e : Event}

def channel (s : Mailbox) : Channel := s.actor.channel

def setChannel (s : Mailbox) (channel : Channel) : Mailbox :=
  { s with actor := { s.actor with channel := channel } }

/-- The `k`-th send, of the message `msg`, has taken a step. -/
def afterCast (s : Mailbox) (k msg : ℕ) : Except CastResult Cast → Mailbox
  | .ok cast => { s with sends := s.sends.set k (.cast cast) }
  | .error .receipt => { s with sends := s.sends.eraseIdx k, accepted := msg :: s.accepted }
  | .error _ => { s with sends := s.sends.eraseIdx k }

def afterSignal (s : Mailbox) (k : ℕ) : Except Bool SignalCall → Mailbox
  | .ok call => { s with sends := s.sends.set k (.signal call) }
  | .error _ => { s with sends := s.sends.eraseIdx k }

/-- Somebody takes the next message. -/
def receive (s : Mailbox) (n : ℕ) : Mailbox :=
  { s with received := (s.channel.msgQueue.head?.map (·, n)).toList ++ s.received }

def takeSignal (s : Mailbox) (n : ℕ) : Mailbox :=
  { s with signalled := (s.channel.signalQueue.head?.map (·, n)).toList ++ s.signalled }

def drop (s : Mailbox) : Mailbox :=
  { s with dropped := (s.channel.msgQueue.head?.map Queued.item).toList ++ s.dropped }

/-- What the event takes from the queues. The inbox of a call of `spawn` that has panicked drains them
too, and belongs to no incarnation. -/
def record (s : Mailbox) : Incarnations.Event → Mailbox
  | .popMsg i => s.receive (i + 1)
  | .popSignal i => s.takeSignal (i + 1)
  | .cleanup i =>
    match s.actor.tasks[i]? with
    | some (.ending (.drainMsgs :: _)) => s.drop
    | some (.ending (.drainSignals :: _)) => s.takeSignal (i + 1)
    | _ => s
  | .cleanupLost k =>
    match s.actor.lost[k]? with
    | some (.drainMsgs :: _) => s.drop
    | _ => s
  | _ => s

def step (s : Mailbox) : Event → Option Mailbox
  | .cast options member => some { s with
      sends := s.sends ++ [.cast ⟨s.nextMsg, options, member, .backpressure⟩]
      nextMsg := s.nextMsg + 1 }
  | .signal signal => some { s with sends := s.sends ++ [.signal ⟨signal, .status⟩] }
  | .send k =>
    match s.sends[k]? with
    | none => none
    | some (.cast cast) =>
      some ((s.setChannel (s.channel.stepCast s.actor.tasks.length cast).1).afterCast k cast.msg
        (s.channel.stepCast s.actor.tasks.length cast).2)
    | some (.signal call) =>
      some ((s.setChannel (s.channel.stepSignal s.actor.tasks.length call).1).afterSignal k
        (s.channel.stepSignal s.actor.tasks.length call).2)
  | .actor (.pushMsg _) | .actor (.pushSignal _) => none
  | .actor e => (s.actor.step e).map fun actor => { s.record e with actor := actor }

/-- Every interleaving of the callers, the incarnations and the calls of `spawn`. -/
def runs : Lts Mailbox Event :=
  Lts.ofFun (fun s => ∃ backpressure msgs signals,
    s = new (.withLimits backpressure msgs signals)) step

/-- With the actor dead and no send half done, both queues are empty and every accepted message was
received or dropped; and no incarnation takes anything that was pushed in another one. -/
def NothingStranded (s : Mailbox) : Prop :=
  (s.channel.status.isDead = true → s.sends = [] →
    s.channel.msgQueue = [] ∧ s.channel.signalQueue = [] ∧
    ∀ m ∈ s.accepted, m ∈ s.received.map (·.1.item) ∨ m ∈ s.dropped) ∧
  (∀ r ∈ s.received, r.1.pushedIn = r.2) ∧ ∀ r ∈ s.signalled, r.1.pushedIn = r.2

instance (s : Mailbox) : Decidable s.NothingStranded := by
  unfold NothingStranded; infer_instance

/-- A push finds the drain of its queue still to come, and no bomb goes off under another incarnation. -/
def Timely (s : Mailbox) : Event → Prop
  | .send k => ∀ send ∈ s.sends[k]?, send.InTime s.actor
  | .actor e => s.actor.killsOther e = false
  | .cast _ _ | .signal _ => True

instance (s : Mailbox) (e : Event) : Decidable (s.Timely e) := by
  cases e <;> unfold Timely <;> infer_instance

end Mailbox

/-! ## One incarnation after the other -/

theorem over_of_ends {stage : Stage} (h : stage.Ends true) :
    stage.msgsOver = true ∧ stage.signalsOver = true := by
  cases stage with
  | registered | running => cases h
  | ending todo =>
    induction todo with
    | nil => exact ⟨rfl, rfl⟩
    | cons op todo ih =>
      cases op with
      | drainMsgs | drainSignals | registerExited reason => cases h.1
      | recordExit reason => exact ih h.2
      | bomb =>
        obtain rfl : todo = [] := h
        exact ⟨rfl, rfl⟩

theorem isDead_of_registerSpawned {status status' : ActorStatus}
    (h : status.registerSpawned = (status', .ok ())) : status.isDead = true ∧ status'.isDead = false := by
  cases status with
  | exited reason =>
    cases h
    exact ⟨rfl, rfl⟩
  | initializing | running | suspended | exiting => cases h

theorem not_over_todo (outcome : Outcome) :
    (Stage.ending outcome.todo).msgsOver = false ∧ (Stage.ending outcome.todo).signalsOver = false := by
  cases outcome <;> exact ⟨rfl, rfl⟩

namespace Incarnations
variable {s s' : Incarnations} {e : Event} {i k : ℕ} {stage stage' : Stage}

/-- Only the last incarnation can be alive, and nobody else ends it. -/
structure InTurn (s : Incarnations) : Prop where
  dead : s.tasks = [] → s.channel.status.isDead = true
  older : ∀ i stage, s.tasks[i]? = some stage → i + 1 < s.tasks.length → stage.Ends true
  last : ∀ i stage, s.tasks[i]? = some stage → i + 1 = s.tasks.length → stage.Ends s.channel.status.isDead
  lost : ∀ todo ∈ s.lost, ∀ op ∈ todo, op.isExit = false

theorem inTurn_new (backpressure : ℕ → Bool) (msgs signals : ℕ) :
    (new (.withLimits backpressure msgs signals)).InTurn where
  dead _ := rfl
  older _ _ hi := by cases hi
  last _ _ hi := by cases hi
  lost _ hmem := by cases hmem

theorem InTurn.channel (h : s.InTurn) {ch : Channel} (hdead : ch.status.isDead = s.channel.status.isDead) :
    InTurn { s with channel := ch } where
  dead hnone := hdead.trans (h.dead hnone)
  older := h.older
  last i stage hi hlast := by
    show stage.Ends ch.status.isDead
    rw [hdead]
    exact h.last i stage hi hlast
  lost := h.lost

theorem getLast?_of_last (hi : s.tasks[i]? = some stage) (hlast : i + 1 = s.tasks.length) :
    s.tasks.getLast? = some stage := by
  rw [List.getLast?_eq_getElem?, ← hlast]
  exact hi

/-- A task that is not through with its inbox is the last one. -/
theorem InTurn.eq_last (h : s.InTurn) (hi : s.tasks[i]? = some stage) (hends : ¬ stage.Ends true) :
    i + 1 = s.tasks.length := by
  have hlt := (List.getElem?_eq_some_iff.1 hi).1
  by_contra hne
  exact hends (h.older i stage hi (by omega))

theorem InTurn.over (h : s.InTurn) (hdead : s.channel.status.isDead = true) :
    s.msgsOver = true ∧ s.signalsOver = true := by
  unfold msgsOver signalsOver
  cases hlast : s.tasks.getLast? with
  | none => exact ⟨rfl, rfl⟩
  | some stage =>
    rw [List.getLast?_eq_getElem?] at hlast
    have hlt := (List.getElem?_eq_some_iff.1 hlast).1
    have hends := h.last _ stage hlast (by omega)
    rw [hdead] at hends
    exact over_of_ends hends

theorem InTurn.setLast (h : s.InTurn) (hi : s.tasks[i]? = some stage) (hlast : i + 1 = s.tasks.length)
    (htasks : s'.tasks = s.tasks.set i stage') (hlost : s'.lost = s.lost)
    (hends : stage'.Ends s'.channel.status.isDead) : s'.InTurn where
  dead hnone := by
    rw [htasks, List.set_eq_nil_iff] at hnone
    rw [hnone] at hi
    cases hi
  older k st hk hlt := by
    rw [htasks, List.length_set] at hlt
    rw [htasks, List.getElem?_set_of_getElem? hi, if_neg (by omega)] at hk
    exact h.older k st hk hlt
  last k st hk heq := by
    rw [htasks, List.length_set] at heq
    obtain rfl : i = k := by omega
    rw [htasks, List.getElem?_set_of_getElem? hi, if_pos rfl] at hk
    cases hk
    exact hends
  lost := hlost ▸ h.lost

theorem InTurn.setOlder (h : s.InTurn) (hi : s.tasks[i]? = some stage) (hlt : i + 1 < s.tasks.length)
    (htasks : s'.tasks = s.tasks.set i stage') (hlost : s'.lost = s.lost)
    (hdead : s'.channel.status.isDead = s.channel.status.isDead) (hends : stage'.Ends true) : s'.InTurn where
  dead hnone := by
    rw [htasks, List.set_eq_nil_iff] at hnone
    rw [hnone] at hi
    cases hi
  older k st hk hk' := by
    rw [htasks, List.length_set] at hk'
    rw [htasks, List.getElem?_set_of_getElem? hi] at hk
    split at hk
    · cases hk
      exact hends
    · exact h.older k st hk hk'
  last k st hk heq := by
    rw [htasks, List.length_set] at heq
    rw [htasks, List.getElem?_set_of_getElem? hi, if_neg (by omega)] at hk
    rw [hdead]
    exact h.last k st hk heq
  lost := hlost ▸ h.lost

theorem InTurn.cleanupOlder (h : s.InTurn) {op : Cleanup} {todo : List Cleanup}
    (hi : s.tasks[i]? = some (.ending (op :: todo))) (hlt : i + 1 < s.tasks.length)
    (hok : s.killsOther (.cleanup i) = false) : (s.cleanup (i + 1) op).1.channel = s.channel ∧
      (Stage.ending ((s.cleanup (i + 1) op).2 ++ todo)).Ends true := by
  have hends : Ends true (op :: todo) := h.older i _ hi hlt
  cases op with
  | drainMsgs | drainSignals | registerExited reason => cases hends.1
  | recordExit reason => exact ⟨rfl, hends.2⟩
  | bomb =>
    obtain rfl : todo = [] := hends
    simp only [killsOther, hi, hlt, decide_true, Bool.true_and, Bool.not_eq_false'] at hok
    refine ⟨rfl, ?_⟩
    simp only [cleanup, hok, if_true]
    rfl

theorem InTurn.cleanup (h : s.InTurn) (hok : s.killsOther (.cleanup i) = false)
    (hs : s.step (.cleanup i) = some s') : s'.InTurn := by
  simp only [step] at hs
  split at hs
  · rename_i op todo hi
    cases hs
    obtain ⟨htasks, hlost, -⟩ := s.cleanup_frame (i + 1) op
    have hset : ((s.cleanup (i + 1) op).1.setTask i (.ending ((s.cleanup (i + 1) op).2 ++ todo))).tasks =
        s.tasks.set i (.ending ((s.cleanup (i + 1) op).2 ++ todo)) := congrArg (List.set · i _) htasks
    have hbound := (List.getElem?_eq_some_iff.1 hi).1
    by_cases hlast : i + 1 = s.tasks.length
    · exact h.setLast hi hlast hset hlost (ends_cleanup (h.last i _ hi hlast))
    · obtain ⟨hch, hends⟩ := h.cleanupOlder hi (by omega) hok
      exact h.setOlder hi (by omega) hset hlost (congrArg (·.status.isDead) hch) hends
  · cases hs

/-- A call of `spawn` that has panicked brings nobody to an end, unless its bomb does. -/
theorem cleanup_lost {op : Cleanup} {todo : List Cleanup} (hk : s.lost[k]? = some (op :: todo))
    (hop : op.isExit = false) (hok : s.killsOther (.cleanupLost k) = false) :
    (s.cleanup 0 op).1.channel.status.isDead = s.channel.status.isDead ∧
      ∀ op' ∈ (s.cleanup 0 op).2, op'.isExit = false := by
  cases op with
  | drainMsgs =>
    obtain ⟨ch, more, hs, hdead, hmore⟩ := s.cleanup_drain 0 (.inl rfl)
    rw [hs]
    refine ⟨hdead, fun op' hop' => ?_⟩
    rcases hmore with rfl | rfl
    · cases hop'
    · exact List.mem_singleton.1 hop' ▸ rfl
  | drainSignals =>
    obtain ⟨ch, more, hs, hdead, hmore⟩ := s.cleanup_drain 0 (.inr rfl)
    rw [hs]
    refine ⟨hdead, fun op' hop' => ?_⟩
    rcases hmore with rfl | rfl
    · cases hop'
    · exact List.mem_singleton.1 hop' ▸ rfl
  | registerExited reason => cases hop
  | recordExit reason => exact ⟨rfl, fun op' hop' => by cases hop'⟩
  | bomb =>
    simp only [killsOther, hk, Bool.not_eq_false'] at hok
    refine ⟨rfl, fun op' hop' => ?_⟩
    simp only [Incarnations.cleanup, hok, if_true] at hop'
    cases hop'

theorem InTurn.cleanupLost (h : s.InTurn) (hok : s.killsOther (.cleanupLost k) = false)
    (hs : s.step (.cleanupLost k) = some s') : s'.InTurn := by
  simp only [step] at hs
  split at hs
  · rename_i op todo hk
    cases hs
    have hlost := h.lost _ (List.mem_of_getElem? hk)
    obtain ⟨hdead, hmore⟩ := cleanup_lost hk (hlost op List.mem_cons_self) hok
    obtain ⟨htasks, hlosts, -⟩ := s.cleanup_frame 0 op
    refine ⟨fun hnone => ?_, fun i stage hi hlt => ?_, fun i stage hi hlast => ?_, fun todo' htodo => ?_⟩
    · exact hdead.trans (h.dead (htasks.symm.trans hnone))
    · exact h.older i stage (htasks ▸ hi) (htasks ▸ hlt)
    · show stage.Ends (s.cleanup 0 op).1.channel.status.isDead
      rw [hdead]
      exact h.last i stage (htasks ▸ hi) (htasks ▸ hlast)
    · rcases List.mem_or_eq_of_mem_set htodo with htodo | rfl
      · exact h.lost todo' htodo
      · exact List.forall_mem_append.2 ⟨hmore, fun op' hop' => hlost op' (List.mem_cons_of_mem _ hop')⟩
  · cases hs

theorem InTurn.register (h : s.InTurn) (hs : s.step .register = some s') : s'.InTurn := by
  simp only [step] at hs
  split at hs
  · cases hs
  split at hs
  · rename_i hreg
    cases hs
    have hstatus := isDead_of_registerSpawned hreg
    refine ⟨fun hnone => ?_, fun i stage hi hlt => ?_, fun i stage hi hlast => ?_, h.lost⟩
    · exact absurd hnone (List.append_ne_nil_of_right_ne_nil _ (List.cons_ne_nil _ _))
    · replace hlt : i + 1 < (s.tasks ++ [Stage.registered]).length := hlt
      rw [List.length_append, List.length_singleton] at hlt
      rcases List.getElem?_concat_eq_some.1 hi with hi | ⟨rfl, -⟩
      · by_cases hlast : i + 1 = s.tasks.length
        · have hends := h.last i stage hi hlast
          rwa [hstatus.1] at hends
        · exact h.older i stage hi (by omega)
      · omega
    · replace hlast : i + 1 = (s.tasks ++ [Stage.registered]).length := hlast
      rw [List.length_append, List.length_singleton] at hlast
      rcases List.getElem?_concat_eq_some.1 hi with hi | ⟨rfl, rfl⟩
      · have hlt := (List.getElem?_eq_some_iff.1 hi).1
        omega
      · exact hstatus.2
  · cases hs
    refine ⟨h.dead, h.older, h.last, fun todo htodo => ?_⟩
    rcases List.mem_append.1 htodo with htodo | htodo
    · exact h.lost todo htodo
    · rw [List.mem_singleton.1 htodo]
      decide

theorem InTurn.step (h : s.InTurn) (hok : s.killsOther e = false) (hs : s.step e = some s') : s'.InTurn := by
  cases e with
  | pushMsg msg | pushSignal signal => cases hs; exact h.channel rfl
  | spawn =>
    simp only [Incarnations.step] at hs
    split at hs <;> cases hs
    exact ⟨h.dead, h.older, h.last, h.lost⟩
  | register => exact h.register hs
  | recordSpawn i =>
    simp only [Incarnations.step] at hs
    split at hs
    · rename_i hi
      cases hs
      have hlast := h.eq_last hi (fun hends => by cases hends)
      have hdead : s.channel.status.isDead = false := h.last i _ hi hlast
      exact h.setLast hi hlast rfl rfl hdead
    · cases hs
  | registerInitialized i =>
    obtain ⟨-, hs⟩ := whileRunning_eq_some hs
    cases hs
    exact h.channel (ActorStatus.isDead_registerInitialized _)
  | registerExiting i =>
    obtain ⟨-, hs⟩ := whileRunning_eq_some hs
    cases hs
    exact h.channel (ActorStatus.isDead_registerExiting _)
  | popMsg i =>
    obtain ⟨ch, rfl, hdead⟩ := popMsg_eq_some (whileRunning_eq_some hs).2
    exact h.channel hdead
  | popSignal i =>
    obtain ⟨ch, rfl, hdead⟩ := popSignal_eq_some (whileRunning_eq_some hs).2
    exact h.channel hdead
  | finish i outcome =>
    obtain ⟨hi, hs⟩ := whileRunning_eq_some hs
    cases hs
    have hlast := h.eq_last hi (fun hends => by cases hends)
    have hdead : s.channel.status.isDead = false := h.last i _ hi hlast
    refine h.setLast hi hlast rfl rfl ?_
    show Ends s.channel.status.isDead outcome.todo
    rw [hdead]
    exact ends_todo outcome
  | cleanup i => exact h.cleanup hok hs
  | cleanupLost k => exact h.cleanupLost hok hs

/-! ## What a step does to the queues -/

theorem popMsg_cons (hs : s.popMsg = some s') : ∃ q rest, s.channel.msgQueue = q :: rest ∧
    s' = { s with channel := { s.channel with msgQueue := rest } } := by
  unfold popMsg at hs
  split at hs <;> cases hs
  exact ⟨_, _, by assumption, rfl⟩

theorem popSignal_cons (hs : s.popSignal = some s') : ∃ q rest, s.channel.signalQueue = q :: rest ∧
    s' = { s with channel := { s.channel with
      status := (s.channel.status.handleSignal q.item).1, signalQueue := rest } } := by
  unfold popSignal at hs
  split at hs <;> cases hs
  exact ⟨_, _, by assumption, rfl⟩

theorem popMsg_eq_none (hs : s.popMsg = none) : s.channel.msgQueue = [] := by
  unfold popMsg at hs
  split at hs
  · assumption
  · cases hs

theorem popSignal_eq_none (hs : s.popSignal = none) : s.channel.signalQueue = [] := by
  unfold popSignal at hs
  split at hs
  · assumption
  · cases hs

/-- Only a drain takes from the queues. -/
theorem queues_cleanup {n : ℕ} {op : Cleanup} (hmsgs : op ≠ .drainMsgs) (hsignals : op ≠ .drainSignals) :
    (s.cleanup n op).1.channel.msgQueue = s.channel.msgQueue ∧
      (s.cleanup n op).1.channel.signalQueue = s.channel.signalQueue ∧ ∀ todo,
        (Stage.ending ((s.cleanup n op).2 ++ todo)).msgsOver = (Stage.ending (op :: todo)).msgsOver ∧
        (Stage.ending ((s.cleanup n op).2 ++ todo)).signalsOver = (Stage.ending (op :: todo)).signalsOver := by
  cases op with
  | drainMsgs => exact absurd rfl hmsgs
  | drainSignals => exact absurd rfl hsignals
  | registerExited reason =>
    refine ⟨rfl, rfl, fun todo => ?_⟩
    simp only [cleanup]
    split <;> exact ⟨rfl, rfl⟩
  | recordExit reason => exact ⟨rfl, rfl, fun todo => ⟨rfl, rfl⟩⟩
  | bomb =>
    refine ⟨rfl, rfl, fun todo => ?_⟩
    simp only [cleanup]
    split <;> exact ⟨rfl, rfl⟩

theorem over_of_last (hi : s.tasks[i]? = some stage) (hlast : i + 1 = s.tasks.length) :
    s.msgsOver = stage.msgsOver ∧ s.signalsOver = stage.signalsOver := by
  rw [msgsOver, signalsOver, getLast?_of_last hi hlast]
  exact ⟨rfl, rfl⟩

theorem over_set_last (hi : s.tasks[i]? = some stage) (hlast : i + 1 = s.tasks.length)
    (htasks : s'.tasks = s.tasks.set i stage') :
    s'.msgsOver = stage'.msgsOver ∧ s'.signalsOver = stage'.signalsOver := by
  have hget : s'.tasks.getLast? = some stage' := by
    rw [htasks, List.getLast?_eq_getElem?, List.length_set, ← hlast, Nat.add_sub_cancel,
      List.getElem?_set_of_getElem? hi, if_pos rfl]
  rw [msgsOver, signalsOver, hget]
  exact ⟨rfl, rfl⟩

theorem over_set_older (hi : s.tasks[i]? = some stage) (hlt : i + 1 < s.tasks.length)
    (htasks : s'.tasks = s.tasks.set i stage') :
    s'.msgsOver = s.msgsOver ∧ s'.signalsOver = s.signalsOver := by
  have hget : s'.tasks.getLast? = s.tasks.getLast? := by
    rw [htasks, List.getLast?_eq_getElem?, List.length_set, List.getElem?_set_of_getElem? hi,
      if_neg (by omega), List.getLast?_eq_getElem?]
  rw [msgsOver, signalsOver, hget]
  exact ⟨rfl, rfl⟩

end Incarnations

/-! ## Nothing is stranded -/

namespace Mailbox
variable {s s' : Mailbox} {e : Event} {ev : Incarnations.Event} {i k : ℕ} {stage : Stage}

/-- Why nothing is stranded: the drains leave their queues empty, and what is in a queue or was taken
from it was pushed in the incarnation that is there. -/
structure Kept (s : Mailbox) : Prop where
  turn : s.actor.InTurn
  msgs : s.actor.msgsOver = true → s.channel.msgQueue = []
  signals : s.actor.signalsOver = true → s.channel.signalQueue = []
  msgsOwn : ∀ q ∈ s.channel.msgQueue, q.pushedIn = s.actor.tasks.length
  signalsOwn : ∀ q ∈ s.channel.signalQueue, q.pushedIn = s.actor.tasks.length
  settled : ∀ m ∈ s.accepted, m ∈ s.channel.msgQueue.map (·.item) ∨
    m ∈ s.received.map (·.1.item) ∨ m ∈ s.dropped
  receivedOwn : ∀ r ∈ s.received, r.1.pushedIn = r.2
  signalledOwn : ∀ r ∈ s.signalled, r.1.pushedIn = r.2

theorem Kept.nothingStranded (h : s.Kept) : s.NothingStranded := by
  refine ⟨fun hdead _ => ?_, h.receivedOwn, h.signalledOwn⟩
  obtain ⟨hmsgsOver, hsignalsOver⟩ := h.turn.over hdead
  have hmsgs := h.msgs hmsgsOver
  refine ⟨hmsgs, h.signals hsignalsOver, fun m hm => ?_⟩
  simpa [hmsgs] using h.settled m hm

theorem kept_new (backpressure : ℕ → Bool) (msgs signals : ℕ) :
    (new (.withLimits backpressure msgs signals)).Kept where
  turn := Incarnations.inTurn_new backpressure msgs signals
  msgs _ := rfl
  signals _ := rfl
  msgsOwn _ hq := by cases hq
  signalsOwn _ hq := by cases hq
  settled _ hm := by cases hm
  receivedOwn _ hr := by cases hr
  signalledOwn _ hr := by cases hr

/-! ### Sends -/

theorem Kept.sends (h : s.Kept) (sends : List Send) (n : ℕ) :
    Kept { s with sends := sends, nextMsg := n } := { h with }

theorem Kept.pushMsg (h : s.Kept) (hover : s.actor.msgsOver = false) (m : ℕ) (sends : List Send) :
    Kept { s.setChannel { s.channel with msgQueue := s.channel.msgQueue ++ [⟨m, s.actor.tasks.length⟩] } with
      sends := sends
      accepted := m :: s.accepted } :=
  { h with
    turn := h.turn.channel rfl
    msgs := fun hmsgs => by
      replace hmsgs : s.actor.msgsOver = true := hmsgs
      rw [hover] at hmsgs
      cases hmsgs
    msgsOwn := fun q hq => by
      rcases List.mem_append.1 hq with hq | hq
      · exact h.msgsOwn q hq
      · rw [List.mem_singleton.1 hq]
        rfl
    settled := fun m' hm' => by
      show m' ∈ (s.channel.msgQueue ++ [(⟨m, s.actor.tasks.length⟩ : Queued ℕ)]).map Queued.item ∨ _
      rw [List.map_append, List.mem_append]
      rcases List.mem_cons.1 hm' with rfl | hm'
      · exact .inl (.inr (List.mem_singleton_self _))
      · rcases h.settled m' hm' with hq | hrest
        · exact .inl (.inl hq)
        · exact .inr hrest }

theorem Kept.pushSignal (h : s.Kept) (hover : s.actor.signalsOver = false) (signal : SignalInterface)
    (sends : List Send) :
    Kept { s.setChannel { s.channel with
        signalQueue := s.channel.signalQueue ++ [⟨signal, s.actor.tasks.length⟩] } with
      sends := sends } :=
  { h with
    turn := h.turn.channel rfl
    signals := fun hsignals => by
      replace hsignals : s.actor.signalsOver = true := hsignals
      rw [hover] at hsignals
      cases hsignals
    signalsOwn := fun q hq => by
      rcases List.mem_append.1 hq with hq | hq
      · exact h.signalsOwn q hq
      · rw [List.mem_singleton.1 hq]
        rfl }

theorem Kept.stepCast (h : s.Kept) {cast : Cast} (hin : (Send.cast cast).InTime s.actor) :
    Kept ((s.setChannel (s.channel.stepCast s.actor.tasks.length cast).1).afterCast k cast.msg
      (s.channel.stepCast s.actor.tasks.length cast).2) := by
  rcases s.channel.stepCast_cases s.actor.tasks.length cast with ⟨hch, hres⟩ | ⟨hstage, hmember, hch, hres⟩
  · rw [hch]
    generalize (s.channel.stepCast s.actor.tasks.length cast).2 = result at hres
    match result with
    | .ok cast' => exact h.sends _ _
    | .error .receipt => exact absurd rfl hres
    | .error .full | .error .closed | .error .noRoom | .error .notAccepted => exact h.sends _ _
  · rw [hch, hres]
    exact h.pushMsg (hin hstage hmember) cast.msg _

theorem Kept.stepSignal (h : s.Kept) {call : SignalCall} (hin : (Send.signal call).InTime s.actor) :
    Kept ((s.setChannel (s.channel.stepSignal s.actor.tasks.length call).1).afterSignal k
      (s.channel.stepSignal s.actor.tasks.length call).2) := by
  rcases s.channel.stepSignal_cases s.actor.tasks.length call with hch | ⟨hstage, hch⟩
  · rw [hch]
    cases (s.channel.stepSignal s.actor.tasks.length call).2 with
    | ok call' => exact h.sends _ _
    | error sent => exact h.sends _ _
  · rw [hch]
    cases (s.channel.stepSignal s.actor.tasks.length call).2 with
    | ok call' => exact h.pushSignal (hin hstage) call.signal _
    | error sent => exact h.pushSignal (hin hstage) call.signal _

/-! ### Tasks -/

theorem Kept.quiet (h : s.Kept) {actor : Incarnations} (hturn : actor.InTurn)
    (hlen : actor.tasks.length = s.actor.tasks.length) (hmsgs : actor.channel.msgQueue = s.channel.msgQueue)
    (hsignals : actor.channel.signalQueue = s.channel.signalQueue)
    (hmsgsOver : actor.msgsOver = true → s.channel.msgQueue = [])
    (hsignalsOver : actor.signalsOver = true → s.channel.signalQueue = []) :
    Kept { s with actor := actor } where
  turn := hturn
  msgs hover := hmsgs.trans (hmsgsOver hover)
  signals hover := hsignals.trans (hsignalsOver hover)
  msgsOwn q hq := (h.msgsOwn q (hmsgs ▸ hq)).trans hlen.symm
  signalsOwn q hq := (h.signalsOwn q (hsignals ▸ hq)).trans hlen.symm
  settled m hm := by
    show m ∈ actor.channel.msgQueue.map _ ∨ _
    rw [hmsgs]
    exact h.settled m hm
  receivedOwn := h.receivedOwn
  signalledOwn := h.signalledOwn

theorem Kept.aside (h : s.Kept) {actor : Incarnations} (hturn : actor.InTurn)
    (htasks : actor.tasks = s.actor.tasks) (hmsgs : actor.channel.msgQueue = s.channel.msgQueue)
    (hsignals : actor.channel.signalQueue = s.channel.signalQueue) : Kept { s with actor := actor } := by
  refine h.quiet hturn (congrArg List.length htasks) hmsgs hsignals (fun hover => h.msgs ?_)
    fun hover => h.signals ?_
  · rwa [Incarnations.msgsOver, htasks] at hover
  · rwa [Incarnations.signalsOver, htasks] at hover

theorem Kept.takeMsg (h : s.Kept) {q : Queued ℕ} {rest : List (Queued ℕ)}
    (hq : s.channel.msgQueue = q :: rest) (hturn : s'.actor.InTurn)
    (hlen : s'.actor.tasks.length = s.actor.tasks.length) (hmsgs : s'.channel.msgQueue = rest)
    (hsignals : s'.channel.signalQueue = s.channel.signalQueue)
    (hmsgsOver : s'.actor.msgsOver = true → rest = [])
    (hsignalsOver : s'.actor.signalsOver = true → s.actor.signalsOver = true)
    (haccepted : s'.accepted = s.accepted) (hsignalled : s'.signalled = s.signalled)
    (htaken : s'.received = (q, s.actor.tasks.length) :: s.received ∧ s'.dropped = s.dropped ∨
      s'.received = s.received ∧ s'.dropped = q.item :: s.dropped) : s'.Kept where
  turn := hturn
  msgs hover := hmsgs.trans (hmsgsOver hover)
  signals hover := hsignals.trans (h.signals (hsignalsOver hover))
  msgsOwn q' hq' := by
    rw [hmsgs] at hq'
    rw [hlen]
    exact h.msgsOwn q' (hq ▸ List.mem_cons_of_mem q hq')
  signalsOwn q' hq' := by
    rw [hsignals] at hq'
    rw [hlen]
    exact h.signalsOwn q' hq'
  settled m hm := by
    have hsettled := h.settled m (haccepted ▸ hm)
    rw [hq, List.map_cons, List.mem_cons] at hsettled
    rw [hmsgs]
    rcases htaken with ⟨hreceived, hdropped⟩ | ⟨hreceived, hdropped⟩
    · rw [hreceived, hdropped, List.map_cons, List.mem_cons]
      tauto
    · rw [hreceived, hdropped, List.mem_cons]
      tauto
  receivedOwn r hr := by
    rcases htaken with ⟨hreceived, -⟩ | ⟨hreceived, -⟩
    · rw [hreceived] at hr
      rcases List.mem_cons.1 hr with rfl | hr
      · exact h.msgsOwn q (hq ▸ List.mem_cons_self)
      · exact h.receivedOwn r hr
    · exact h.receivedOwn r (hreceived ▸ hr)
  signalledOwn := hsignalled ▸ h.signalledOwn

theorem Kept.takeSig (h : s.Kept) {q : Queued SignalInterface} {rest : List (Queued SignalInterface)}
    (hq : s.channel.signalQueue = q :: rest) (hturn : s'.actor.InTurn)
    (hlen : s'.actor.tasks.length = s.actor.tasks.length) (hmsgs : s'.channel.msgQueue = s.channel.msgQueue)
    (hsignals : s'.channel.signalQueue = rest)
    (hmsgsOver : s'.actor.msgsOver = true → s.actor.msgsOver = true)
    (hsignalsOver : s'.actor.signalsOver = true → rest = [])
    (haccepted : s'.accepted = s.accepted) (hreceived : s'.received = s.received)
    (hdropped : s'.dropped = s.dropped)
    (hsignalled : s'.signalled = (q, s.actor.tasks.length) :: s.signalled ∨ s'.signalled = s.signalled) :
    s'.Kept where
  turn := hturn
  msgs hover := hmsgs.trans (h.msgs (hmsgsOver hover))
  signals hover := hsignals.trans (hsignalsOver hover)
  msgsOwn q' hq' := by
    rw [hmsgs] at hq'
    rw [hlen]
    exact h.msgsOwn q' hq'
  signalsOwn q' hq' := by
    rw [hsignals] at hq'
    rw [hlen]
    exact h.signalsOwn q' (hq ▸ List.mem_cons_of_mem q hq')
  settled m hm := by
    rw [hmsgs, hreceived, hdropped]
    exact h.settled m (haccepted ▸ hm)
  receivedOwn := hreceived ▸ h.receivedOwn
  signalledOwn r hr := by
    rcases hsignalled with hsignalled | hsignalled
    · rw [hsignalled] at hr
      rcases List.mem_cons.1 hr with rfl | hr
      · exact h.signalsOwn q (hq ▸ List.mem_cons_self)
      · exact h.signalledOwn r hr
    · exact h.signalledOwn r (hsignalled ▸ hr)

/-! ### What the tasks take -/

theorem drop_of_nil (hq : s.channel.msgQueue = []) : s.drop = s := by
  rw [drop, hq]
  rfl

theorem takeSignal_of_nil (hq : s.channel.signalQueue = []) (n : ℕ) : s.takeSignal n = s := by
  rw [takeSignal, hq]
  rfl

theorem Kept.drainMsgs (h : s.Kept) {n : ℕ} {actor : Incarnations} (hturn : actor.InTurn)
    (hlen : actor.tasks.length = s.actor.tasks.length)
    (hchannel : actor.channel = (s.actor.cleanup n .drainMsgs).1.channel)
    (hmsgs : actor.msgsOver = true → (s.actor.cleanup n .drainMsgs).2 = [] ∨ s.actor.msgsOver = true)
    (hsignals : actor.signalsOver = true → s.actor.signalsOver = true) :
    Kept { s.drop with actor := actor } := by
  cases hpop : s.actor.popMsg with
  | none =>
    have hq := Incarnations.popMsg_eq_none hpop
    simp only [Incarnations.cleanup, hpop] at hchannel
    rw [drop_of_nil hq]
    exact h.quiet hturn hlen (congrArg Channel.msgQueue hchannel)
      (congrArg Channel.signalQueue hchannel) (fun _ => hq) fun hover => h.signals (hsignals hover)
  | some popped =>
    obtain ⟨q, rest, hq, rfl⟩ := Incarnations.popMsg_cons hpop
    simp only [Incarnations.cleanup, hpop] at hchannel hmsgs
    have hmsgQueue : actor.channel.msgQueue = rest := congrArg Channel.msgQueue hchannel
    have hsignalQueue : actor.channel.signalQueue = s.channel.signalQueue := by
      rw [hchannel]
      rfl
    refine h.takeMsg hq hturn hlen hmsgQueue hsignalQueue (fun hover => ?_) hsignals rfl rfl (.inr ⟨rfl, ?_⟩)
    · rcases hmsgs hover with hnil | hover
      · cases hnil
      · have hnil := h.msgs hover
        rw [channel, hq] at hnil
        cases hnil
    · show (s.channel.msgQueue.head?.map Queued.item).toList ++ s.dropped = _
      rw [channel, hq]
      rfl

theorem Kept.drainSignals (h : s.Kept) {n : ℕ} {actor : Incarnations} (hturn : actor.InTurn)
    (hlen : actor.tasks.length = s.actor.tasks.length)
    (hchannel : actor.channel = (s.actor.cleanup n .drainSignals).1.channel)
    (hmsgs : actor.msgsOver = true → s.actor.msgsOver = true)
    (hsignals : actor.signalsOver = true →
      (s.actor.cleanup n .drainSignals).2 = [] ∨ s.actor.signalsOver = true)
    {signalled : List (Queued SignalInterface × ℕ)}
    (hsignalled : signalled = (s.takeSignal s.actor.tasks.length).signalled ∨ signalled = s.signalled) :
    Kept { s with actor := actor, signalled := signalled } := by
  cases hpop : s.actor.popSignal with
  | none =>
    have hq := Incarnations.popSignal_eq_none hpop
    simp only [Incarnations.cleanup, hpop] at hchannel
    rw [takeSignal_of_nil hq, or_self] at hsignalled
    subst hsignalled
    exact h.quiet hturn hlen (congrArg Channel.msgQueue hchannel) (congrArg Channel.signalQueue hchannel)
      (fun hover => h.msgs (hmsgs hover)) fun _ => hq
  | some popped =>
    obtain ⟨q, rest, hq, rfl⟩ := Incarnations.popSignal_cons hpop
    simp only [Incarnations.cleanup, hpop] at hchannel hsignals
    have hmsgQueue : actor.channel.msgQueue = s.channel.msgQueue := by
      rw [hchannel]
      rfl
    have hsignalQueue : actor.channel.signalQueue = rest := congrArg Channel.signalQueue hchannel
    refine h.takeSig hq hturn hlen hmsgQueue hsignalQueue hmsgs (fun hover => ?_) rfl rfl rfl
      (hsignalled.imp (fun heq => ?_) id)
    · rcases hsignals hover with hnil | hover
      · cases hnil
      · have hnil := h.signals hover
        rw [channel, hq] at hnil
        cases hnil
    · refine heq.trans ?_
      show (s.channel.signalQueue.head?.map (·, s.actor.tasks.length)).toList ++ s.signalled = _
      rw [channel, hq]
      rfl

theorem record_cleanup {op : Cleanup} {todo : List Cleanup}
    (hi : s.actor.tasks[i]? = some (.ending (op :: todo))) (hmsgs : op ≠ .drainMsgs)
    (hsignals : op ≠ .drainSignals) : s.record (.cleanup i) = s := by
  simp only [record, hi]
  cases op with
  | drainMsgs => exact absurd rfl hmsgs
  | drainSignals => exact absurd rfl hsignals
  | registerExited reason | recordExit reason | bomb => rfl

theorem Kept.cleanupLast (h : s.Kept) {op : Cleanup} {todo : List Cleanup}
    (hi : s.actor.tasks[i]? = some (.ending (op :: todo))) (hlast : i + 1 = s.actor.tasks.length)
    {actor : Incarnations} (hturn : actor.InTurn)
    (htasks : actor.tasks = s.actor.tasks.set i (.ending ((s.actor.cleanup (i + 1) op).2 ++ todo)))
    (hchannel : actor.channel = (s.actor.cleanup (i + 1) op).1.channel) :
    Kept { s.record (.cleanup i) with actor := actor } := by
  have hlen := (congrArg List.length htasks).trans List.length_set
  obtain ⟨hmsgs', hsignals'⟩ := Incarnations.over_set_last hi hlast htasks
  obtain ⟨hmsgs, hsignals⟩ := Incarnations.over_of_last hi hlast
  by_cases hdrain : op = .drainMsgs ∨ op = .drainSignals
  · obtain ⟨ch, more, hcleanup, -, hmore⟩ := s.actor.cleanup_drain (i + 1) hdrain
    rw [hcleanup] at hmsgs' hsignals'
    simp only [record, hi]
    rcases hdrain with rfl | rfl
    · refine h.drainMsgs hturn hlen hchannel (fun hover => ?_) fun hover => ?_
      · rw [hmsgs'] at hover
        rcases hmore with rfl | rfl
        · exact .inl (congrArg Prod.snd hcleanup)
        · cases hover
      · rw [hsignals'] at hover
        rw [hsignals]
        rcases hmore with rfl | rfl <;> exact hover
    · refine h.drainSignals hturn hlen hchannel (fun hover => ?_) (fun hover => ?_) (.inl (by rw [← hlast]))
      · rw [hmsgs'] at hover
        rw [hmsgs]
        rcases hmore with rfl | rfl <;> exact hover
      · rw [hsignals'] at hover
        rcases hmore with rfl | rfl
        · exact .inl (congrArg Prod.snd hcleanup)
        · cases hover
  · rw [not_or] at hdrain
    obtain ⟨hmsgQueue, hsignalQueue, hover⟩ :=
      Incarnations.queues_cleanup (s := s.actor) (n := i + 1) hdrain.1 hdrain.2
    rw [record_cleanup hi hdrain.1 hdrain.2]
    refine h.quiet hturn hlen ((congrArg Channel.msgQueue hchannel).trans hmsgQueue)
      ((congrArg Channel.signalQueue hchannel).trans hsignalQueue) (fun hmsgsOver => h.msgs ?_)
      fun hsignalsOver => h.signals ?_
    · rwa [hmsgs, ← (hover todo).1, ← hmsgs']
    · rwa [hsignals, ← (hover todo).2, ← hsignals']

theorem Kept.cleanup (h : s.Kept) (hok : s.actor.killsOther (.cleanup i) = false) {actor : Incarnations}
    (hs : s.actor.step (.cleanup i) = some actor) : Kept { s.record (.cleanup i) with actor := actor } := by
  have hturn := h.turn.cleanup hok hs
  simp only [Incarnations.step] at hs
  split at hs
  · rename_i op todo hi
    cases hs
    obtain ⟨htasks, -, -⟩ := s.actor.cleanup_frame (i + 1) op
    have hbound := (List.getElem?_eq_some_iff.1 hi).1
    by_cases hlast : i + 1 = s.actor.tasks.length
    · exact h.cleanupLast hi hlast hturn (congrArg (List.set · i _) htasks) rfl
    · obtain ⟨hch, -⟩ := h.turn.cleanupOlder hi (by omega) hok
      have hends : Ends true (op :: todo) := h.turn.older i _ hi (by omega)
      set actor := (s.actor.cleanup (i + 1) op).1.setTask i (.ending ((s.actor.cleanup (i + 1) op).2 ++ todo))
      have hset : actor.tasks = s.actor.tasks.set i (.ending ((s.actor.cleanup (i + 1) op).2 ++ todo)) :=
        congrArg (List.set · i _) htasks
      obtain ⟨hmsgs, hsignals⟩ := Incarnations.over_set_older hi (by omega) hset
      have hdrain : op ≠ .drainMsgs ∧ op ≠ .drainSignals := by
        constructor
        · rintro rfl
          cases hends.1
        · rintro rfl
          cases hends.1
      rw [record_cleanup hi hdrain.1 hdrain.2]
      exact h.quiet hturn ((congrArg List.length hset).trans List.length_set)
        (congrArg Channel.msgQueue hch) (congrArg Channel.signalQueue hch)
        (fun hover => h.msgs (hmsgs.symm.trans hover)) fun hover => h.signals (hsignals.symm.trans hover)
  · cases hs

theorem Kept.cleanupLost (h : s.Kept) (hok : s.actor.killsOther (.cleanupLost k) = false)
    {actor : Incarnations} (hs : s.actor.step (.cleanupLost k) = some actor) :
    Kept { s.record (.cleanupLost k) with actor := actor } := by
  have hturn := h.turn.cleanupLost hok hs
  simp only [Incarnations.step] at hs
  split at hs
  · rename_i op todo hk
    cases hs
    obtain ⟨htasks, -, -⟩ := s.actor.cleanup_frame 0 op
    have hlen := congrArg List.length htasks
    have hmsgs : (s.actor.cleanup 0 op).1.msgsOver = s.actor.msgsOver := by
      rw [Incarnations.msgsOver, htasks]
      rfl
    have hsignals : (s.actor.cleanup 0 op).1.signalsOver = s.actor.signalsOver := by
      rw [Incarnations.signalsOver, htasks]
      rfl
    simp only [record, hk]
    by_cases hdrain : op = .drainMsgs ∨ op = .drainSignals
    · rcases hdrain with rfl | rfl
      · exact h.drainMsgs hturn hlen rfl (fun hover => .inr (hmsgs ▸ hover)) fun hover => hsignals ▸ hover
      · exact h.drainSignals hturn hlen rfl (fun hover => hmsgs ▸ hover)
          (fun hover => .inr (hsignals ▸ hover)) (.inr rfl)
    · rw [not_or] at hdrain
      obtain ⟨hmsgQueue, hsignalQueue, -⟩ :=
        Incarnations.queues_cleanup (s := s.actor) (n := 0) hdrain.1 hdrain.2
      split
      · rename_i heq
        cases heq
        exact absurd rfl hdrain.1
      · exact h.aside hturn htasks hmsgQueue hsignalQueue
  · cases hs

/-- Whoever registers finds the queues empty, with what was pushed before gone. -/
theorem Kept.register (h : s.Kept) {actor : Incarnations} (hs : s.actor.step .register = some actor) :
    Kept { s with actor := actor } := by
  have hturn := h.turn.register hs
  simp only [Incarnations.step] at hs
  split at hs
  · cases hs
  split at hs
  · rename_i heq
    cases hs
    obtain ⟨hmsgsOver, hsignalsOver⟩ := h.turn.over (isDead_of_registerSpawned heq).1
    have hmsgs := h.msgs hmsgsOver
    have hsignals := h.signals hsignalsOver
    exact { h with
      turn := hturn
      msgs := fun _ => hmsgs
      signals := fun _ => hsignals
      msgsOwn := fun q hq => by
        replace hq : q ∈ s.channel.msgQueue := hq
        rw [hmsgs] at hq
        cases hq
      signalsOwn := fun q hq => by
        replace hq : q ∈ s.channel.signalQueue := hq
        rw [hsignals] at hq
        cases hq }
  · cases hs
    exact h.aside hturn rfl rfl rfl

theorem Kept.goOn (h : s.Kept) {stage stage' : Stage} (hi : s.actor.tasks[i]? = some stage)
    (hlast : i + 1 = s.actor.tasks.length) {actor : Incarnations} (hturn : actor.InTurn)
    (htasks : actor.tasks = s.actor.tasks.set i stage') (hchannel : actor.channel = s.channel)
    (hmsgs : stage'.msgsOver = false) (hsignals : stage'.signalsOver = false) :
    Kept { s with actor := actor } := by
  obtain ⟨hmsgs', hsignals'⟩ := Incarnations.over_set_last hi hlast htasks
  rw [hmsgs] at hmsgs'
  rw [hsignals] at hsignals'
  refine h.quiet hturn ((congrArg List.length htasks).trans List.length_set)
    (congrArg Channel.msgQueue hchannel) (congrArg Channel.signalQueue hchannel) (fun hover => ?_)
    fun hover => ?_
  · rw [hmsgs'] at hover
    cases hover
  · rw [hsignals'] at hover
    cases hover

/-- An incarnation takes a message; it is the last one, which the message was pushed in. -/
theorem Kept.receive (h : s.Kept) (hi : s.actor.tasks[i]? = some .running) {actor : Incarnations}
    (hturn : actor.InTurn) (hpop : s.actor.popMsg = some actor) :
    Kept { s.receive (i + 1) with actor := actor } := by
  have hlast := h.turn.eq_last hi (fun hends => by cases hends)
  have hover := (Incarnations.over_of_last hi hlast).1
  obtain ⟨q, rest, hq, rfl⟩ := Incarnations.popMsg_cons hpop
  refine h.takeMsg hq hturn rfl rfl rfl (fun hover' => ?_) id rfl rfl (.inl ⟨?_, rfl⟩)
  · replace hover' : s.actor.msgsOver = true := hover'
    rw [hover] at hover'
    cases hover'
  · show (s.channel.msgQueue.head?.map (·, i + 1)).toList ++ s.received = _
    rw [channel, hq, hlast]
    rfl

theorem Kept.takeSignal (h : s.Kept) (hi : s.actor.tasks[i]? = some .running) {actor : Incarnations}
    (hturn : actor.InTurn) (hpop : s.actor.popSignal = some actor) :
    Kept { s.takeSignal (i + 1) with actor := actor } := by
  have hlast := h.turn.eq_last hi (fun hends => by cases hends)
  have hover := (Incarnations.over_of_last hi hlast).2
  obtain ⟨q, rest, hq, rfl⟩ := Incarnations.popSignal_cons hpop
  refine h.takeSig hq hturn rfl rfl rfl id (fun hover' => ?_) rfl rfl rfl (.inl ?_)
  · replace hover' : s.actor.signalsOver = true := hover'
    rw [hover] at hover'
    cases hover'
  · show (s.channel.signalQueue.head?.map (·, i + 1)).toList ++ s.signalled = _
    rw [channel, hq, hlast]
    rfl

theorem step_actor (hs : s.step (.actor ev) = some s') :
    (∀ msg signal, ev ≠ .pushMsg msg ∧ ev ≠ .pushSignal signal) ∧
      ∃ actor, s.actor.step ev = some actor ∧ { s.record ev with actor := actor } = s' := by
  cases ev with
  | pushMsg msg | pushSignal signal => cases hs
  | spawn | register | recordSpawn | registerInitialized | registerExiting | popMsg | popSignal | finish
    | cleanup | cleanupLost =>
    refine ⟨fun msg signal => ⟨fun heq => ?_, fun heq => ?_⟩, Option.map_eq_some_iff.1 hs⟩ <;> cases heq

theorem Kept.stepActor (h : s.Kept) (hok : s.actor.killsOther ev = false) {actor : Incarnations}
    (hs : s.actor.step ev = some actor) (hpush : ∀ msg signal, ev ≠ .pushMsg msg ∧ ev ≠ .pushSignal signal) :
    Kept { s.record ev with actor := actor } := by
  have hturn := h.turn.step hok hs
  cases ev with
  | pushMsg msg => exact absurd rfl (hpush msg .shutdown).1
  | pushSignal signal => exact absurd rfl (hpush 0 signal).2
  | cleanup i => exact h.cleanup hok hs
  | cleanupLost k => exact h.cleanupLost hok hs
  | register => exact h.register hs
  | spawn =>
    simp only [Incarnations.step] at hs
    split at hs <;> cases hs
    exact h.aside hturn rfl rfl rfl
  | recordSpawn i =>
    simp only [Incarnations.step] at hs
    split at hs
    · rename_i hi
      cases hs
      have hlast := h.turn.eq_last hi (fun hends => by cases hends)
      exact h.goOn hi hlast hturn rfl rfl rfl rfl
    · cases hs
  | registerInitialized i | registerExiting i =>
    obtain ⟨-, hs⟩ := Incarnations.whileRunning_eq_some hs
    cases hs
    exact h.aside hturn rfl rfl rfl
  | popMsg i =>
    obtain ⟨hi, hpop⟩ := Incarnations.whileRunning_eq_some hs
    exact h.receive hi hturn hpop
  | popSignal i =>
    obtain ⟨hi, hpop⟩ := Incarnations.whileRunning_eq_some hs
    exact h.takeSignal hi hturn hpop
  | finish i outcome =>
    obtain ⟨hi, hs⟩ := Incarnations.whileRunning_eq_some hs
    cases hs
    have hlast := h.turn.eq_last hi (fun hends => by cases hends)
    obtain ⟨hmsgs, hsignals⟩ := not_over_todo outcome
    exact h.goOn hi hlast hturn rfl rfl hmsgs hsignals

/-! ### Runs -/

theorem Kept.step (h : s.Kept) (hok : s.Timely e) (hs : s.step e = some s') : s'.Kept := by
  cases e with
  | cast options member | signal signal =>
    cases hs
    exact h.sends _ _
  | send k =>
    simp only [Mailbox.step] at hs
    split at hs
    · cases hs
    · rename_i cast hk
      cases hs
      exact h.stepCast (hok _ hk)
    · rename_i call hk
      cases hs
      exact h.stepSignal (hok _ hk)
  | actor ev =>
    obtain ⟨hpush, actor, hactor, rfl⟩ := step_actor hs
    exact h.stepActor hok hactor hpush

/-- Nothing is stranded in the runs whose pushes come before the drain and in which each bomb goes off in
the incarnation it belongs to. -/
theorem nothingStranded_of_timely (h : (runs.guard Timely).Reachable s) : s.NothingStranded := by
  refine (h.guard_invariant (I := Kept) ?_ fun s e s' hi hok hs => hi.step hok hs).nothingStranded
  rintro _ ⟨backpressure, msgs, signals, rfl⟩
  exact kept_new backpressure msgs signals

/-- The channel of the runs below, with the limits of the runtime. -/
def sample : Mailbox := new (.withLimits (fun len => 50 ≤ len) 1000000 1000000)

/-- One message is received, a second one is pushed into the drain of an incarnation that has panicked,
and a ping into the drain of its signals; the next incarnation receives a third one. -/
theorem nothingStranded_of_timely_racing : ∃ s, (runs.guard Timely).Reachable s ∧
    (s.channel.status.isDead = true ∧ s.dropped = [1] ∧ s.received = [(⟨2, 2⟩, 2), (⟨0, 1⟩, 1)] ∧
      s.signalled = [(⟨.ping, 1⟩, 1)]) ∧ s.NothingStranded := by
  obtain ⟨s, hs, h⟩ : ∃ s, (runs.guard Timely).Reachable s ∧ _ :=
    Lts.exists_guard_reachable_of_exec (f := step)
      (p := fun s => s.channel.status.isDead = true ∧ s.dropped = [1] ∧
        s.received = [(⟨2, 2⟩, 2), (⟨0, 1⟩, 1)] ∧ s.signalled = [(⟨.ping, 1⟩, 1)])
      (s := sample) ⟨_, _, _, rfl⟩
      [.actor .spawn, .actor .register, .actor (.recordSpawn 0), .actor (.registerInitialized 0),
        .cast {} true, .send 0, .send 0, .send 0, .send 0, .actor (.popMsg 0), .cast {} true, .send 0,
        .send 0, .send 0, .signal .ping, .send 1, .send 1, .actor (.finish 0 .panicked), .send 0,
        .actor (.cleanup 0), .actor (.cleanup 0), .send 0, .actor (.cleanup 0), .actor (.cleanup 0),
        .actor (.cleanup 0), .actor (.cleanup 0), .actor (.cleanup 0), .actor .spawn, .actor .register,
        .actor (.recordSpawn 1), .cast {} true, .send 0, .send 0, .send 0, .send 0, .actor (.popMsg 1),
        .actor (.finish 1 .ok), .actor (.cleanup 1), .actor (.cleanup 1), .actor (.cleanup 1),
        .actor (.cleanup 1)]
      (by decide +kernel)
  exact ⟨s, hs, h, nothingStranded_of_timely hs⟩

/-- The inbox is dropped between a sender's look at the status and its push: the message stays in the
queue of the dead actor. Likewise where the bomb of a panicked incarnation says that the next one is
aborted while it runs. -/
theorem not_nothingStranded : (∃ s, runs.Reachable s ∧ s.channel.status = .exited .normal ∧ s.sends = [] ∧
      s.channel.msgQueue = [⟨0, 1⟩] ∧ s.accepted = [0]) ∧
    (∃ s, runs.Reachable s ∧ s.channel.status = .exited .aborted ∧ s.sends = [] ∧
      s.actor.msgsOver = false ∧ s.channel.msgQueue = [⟨0, 2⟩] ∧ s.accepted = [0]) ∧
    ¬ ∀ s, runs.Reachable s → s.NothingStranded := by
  obtain ⟨s, hs, hstatus, hsends, hqueue, haccepted⟩ :
      ∃ s, runs.Reachable s ∧ s.channel.status = .exited .normal ∧ s.sends = [] ∧
        s.channel.msgQueue = [⟨0, 1⟩] ∧ s.accepted = [0] :=
    Lts.exists_reachable_of_exec (s := sample) ⟨_, _, _, rfl⟩
      [.actor .spawn, .actor .register, .actor (.recordSpawn 0), .actor (.registerInitialized 0),
        .cast {} true, .send 0, .send 0, .send 0, .actor (.finish 0 .ok), .actor (.cleanup 0),
        .actor (.cleanup 0), .send 0, .actor (.cleanup 0)]
      (by decide +kernel)
  refine ⟨⟨s, hs, hstatus, hsends, hqueue, haccepted⟩, ?_, fun hall => ?_⟩
  · exact Lts.exists_reachable_of_exec (s := sample) ⟨_, _, _, rfl⟩
      [.actor .spawn, .actor .register, .actor (.recordSpawn 0), .actor (.finish 0 .panicked),
        .actor (.cleanup 0), .actor (.cleanup 0), .actor (.cleanup 0), .actor .spawn, .actor .register,
        .actor (.recordSpawn 1), .cast {} true, .send 0, .send 0, .send 0, .send 0, .actor (.cleanup 0),
        .actor (.cleanup 0), .actor (.cleanup 0)]
      (by decide +kernel)
  · have hempty := ((hall s hs).1 (by rw [hstatus]; rfl) hsends).1
    rw [hqueue] at hempty
    cases hempty

end Mailbox

end Zestors
