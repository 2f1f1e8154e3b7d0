import Mathlib.Algebra.Order.BigOperators.Group.List
import Zestors.Messaging.Receiving

/-!
# Every call is answered

While somebody is about to see to an answer there is a step to take, and with every step that does not
come from outside there is less left to do. So whatever a node asks for is answered in the end, once no
more messages arrive (`answers_of_heeds`).
-/

namespace Zestors
open Messaging
namespace Receiving

variable (view : CommunicationView) {s s' : Receiving} {e : Event} {node : NodeName} {key : Key}
  {work : Work} {id : UInt64}

/-! ## How much there is to do -/

/-- How many steps it takes at most to see to a message, from its delivery on. -/
def Work.cost (work : Work) : ℕ :=
  2 + 3 * work.answers.length + 3 * (view.decode work).imported.length

def Process.remaining (p : Process) : ℕ :=
  match p.stage with
  | .delivering => p.work.cost view
  | .answering ids _ => 1 + 2 * ids.length

def ReplyTask.remaining (t : ReplyTask) : ℕ := if t.result.isNone then 3 else 2

/-- What the message that the router has counted so will cost. -/
def queuedCost (queued : List Work) (w : Router.Work) : ℕ := ((queued[w.id]?).map (Work.cost view)).getD 0

def remaining (s : Receiving) : ℕ :=
  s.router.remaining (queuedCost view s.queued) + (s.processes.map (Process.remaining view)).sum +
    (s.replies.map ReplyTask.remaining).sum + s.lanes.length

theorem length_deliver (work : Work) (address : Option CastDyn) :
    (view.deliver work address).1.length ≤ (view.decode work).imported.length := by
  unfold CommunicationView.deliver CommunicationView.decode
  cases view.handlers work.msg with
  | none => simp
  | some handler =>
    cases address with
    | none => simp
    | some cast =>
      dsimp only
      split
      · rfl
      · split <;> rfl

theorem sum_remaining_waiting (ids : List UInt64) (f : UInt64 → ReplyTask) {c : ℕ}
    (hf : ∀ id, (f id).remaining = c) : ((ids.map f).map ReplyTask.remaining).sum = c * ids.length := by
  simp [Function.comp_def, hf, Nat.mul_comm]

theorem reply_remaining {result : Except RemoteError Bytes}
    (hs : s.reply view key node id result = some s') : s'.remaining view ≤ s.remaining view + 1 := by
  rcases reply_cases view hs with ⟨-, rfl⟩ | ⟨-, rfl⟩
  · omega
  · simp only [remaining, enqueue, List.length_append, List.length_singleton]
    omega

theorem sum_begun (begun : List Router.Work) :
    (((begun.filterMap fun w => (s.queued[w.id]?).map fun work =>
      (⟨.queued w.id, work, .delivering⟩ : Process))).map (Process.remaining view)).sum =
      (begun.map (queuedCost view s.queued)).sum := by
  induction begun with
  | nil => rfl
  | cons w begun ih =>
    rw [List.filterMap_cons, List.map_cons, List.sum_cons, queuedCost]
    cases s.queued[w.id]? with
    | none => simpa using ih
    | some work =>
      simp only [Option.map_some, List.map_cons, List.sum_cons, Option.getD_some, ih]
      rfl

theorem moveQueue_remaining {e : Router.Event} (he : e.isMove = true) (hs : s.moveQueue e = some s') :
    s'.remaining view < s.remaining view := by
  obtain ⟨router, hrouter, hs⟩ := Option.bind_eq_some_iff.1 hs
  cases hs
  obtain ⟨begun, hmoves⟩ := Router.step_backlog he hrouter
  have hlt := Router.step_remaining (queuedCost view s.queued) he hrouter hmoves.processed
  have hsum := sum_begun view (s := s) begun
  rw [hmoves.processed, List.drop_left]
  simp only [remaining, List.map_append, List.sum_append]
  change router.remaining (queuedCost view s.queued) + _ + _ + _ < _
  omega

theorem stepQueue_remaining {e : Router.Event} (hs : s.stepQueue e = some s') :
    s'.remaining view < s.remaining view := by
  cases e with
  | arrive len => cases hs
  | processed i =>
    simp only [stepQueue] at hs
    split at hs
    · cases hs
    · exact moveQueue_remaining view rfl hs
  | panic i =>
    obtain ⟨s₁, hmove, rfl⟩ := Option.map_eq_some_iff.1 hs
    have hlt := moveQueue_remaining view rfl hmove
    have hsub := (List.filter_sublist (p := fun p => ∀ w ∈ s.working i, p.key ≠ Key.queued w.id)
      (l := s₁.processes)).map (Process.remaining view)
    have hle := hsub.sum_le_sum fun _ _ => Nat.zero_le _
    simp only [remaining] at hlt ⊢
    change s₁.router.remaining (queuedCost view s₁.queued) + _ + _ + _ < _
    omega
  | send | retain | recv i | timeout i | close i | process i => exact moveQueue_remaining view rfl hs

theorem delivered_remaining {k : ℕ} {p : Process} (hk : s.processes[k]? = some p)
    (hstage : p.stage = .delivering) (address : Option CastDyn) :
    (s.delivered k p (view.deliver p.work address)).remaining view < s.remaining view := by
  have himported := length_deliver view p.work address
  have hcost : p.remaining view = 2 + 3 * p.work.answers.length + 3 * (view.decode p.work).imported.length := by
    rw [Process.remaining, hstage, Work.cost]
  unfold delivered
  split
  · have hcalls : p.work.callId.toList.length ≤ p.work.answers.length := by
      rw [Work.answers, List.length_append]
      omega
    have hwaiting := sum_remaining_waiting (p.work.callId.toList ++ (view.deliver p.work address).1)
      (fun id => ⟨p.key, p.work.node, id, none⟩) (c := 3) fun _ => rfl
    rw [List.length_append] at hwaiting
    simp only [remaining, List.map_append, List.sum_append, List.sum_map_of_getElem? hk] at hwaiting ⊢
    omega
  · rename_i error _
    have hdropped := sum_remaining_waiting (view.deliver p.work address).1
      (fun id => ⟨p.key, p.work.node, id, some (.error .noReply)⟩) (c := 2) fun _ => rfl
    have hanswering : ({ p with stage := .answering p.work.answers error } : Process).remaining view =
        1 + 2 * p.work.answers.length := rfl
    simp only [remaining, List.map_append, List.sum_append, List.sum_map_of_getElem? hk, List.sum_map_set hk,
      hanswering] at hdropped ⊢
    omega

theorem answer_remaining {k : ℕ} (hs : s.step view (.answer k) = some s') :
    s'.remaining view < s.remaining view := by
  obtain ⟨p, hk, hs⟩ := Option.bind_eq_some_iff.1 hs
  split at hs <;> rename_i hstage
  · cases hs
  · cases hs
    have hone : p.remaining view = 1 := by simp only [Process.remaining, hstage, List.length_nil]
    simp only [remaining, List.sum_map_of_getElem? hk, hone]
    omega
  · rename_i id ids error
    have hle := reply_remaining view hs
    have hmore : p.remaining view = 3 + 2 * ids.length := by
      simp only [Process.remaining, hstage, List.length_cons]
      omega
    have hless : ({ p with stage := .answering ids error } : Process).remaining view =
        1 + 2 * ids.length := rfl
    simp only [remaining, List.sum_map_of_getElem? hk, List.sum_map_set hk, hmore, hless] at hle ⊢
    omega

theorem Process.remaining_pos (p : Process) : 0 < p.remaining view := by
  unfold Process.remaining
  split
  · rw [Work.cost]
    omega
  · omega

theorem ReplyTask.remaining_pos (t : ReplyTask) : 0 < t.remaining := by
  unfold ReplyTask.remaining
  split <;> omega

/-- With every step that does not come from outside there is less left to do. -/
theorem remaining_lt (he : e.isInner = true) (hs : s.step view e = some s') :
    s'.remaining view < s.remaining view := by
  cases e with
  | incoming work | traffic posted | joins n | leaves n => cases he
  | queue e => exact stepQueue_remaining view hs
  | deliver k address =>
    obtain ⟨p, hk, hs⟩ := Option.bind_eq_some_iff.1 hs
    split at hs <;> rename_i hstage <;> cases hs
    exact delivered_remaining view hk hstage address
  | answer k => exact answer_remaining view hs
  | settle j result =>
    obtain ⟨t, hj, hs⟩ := Option.bind_eq_some_iff.1 hs
    split at hs <;> rename_i hresult <;> cases hs
    have hmore : t.remaining = 3 := by rw [ReplyTask.remaining, hresult]; rfl
    have hless : ReplyTask.remaining { t with result := some result } = 2 := rfl
    simp only [remaining, List.sum_map_of_getElem? hj, List.sum_map_set hj, hmore, hless]
    omega
  | reply j =>
    obtain ⟨t, hj, hs⟩ := Option.bind_eq_some_iff.1 hs
    obtain ⟨result, hresult, hs⟩ := Option.bind_eq_some_iff.1 hs
    have hle := reply_remaining view hs
    have htwo : t.remaining = 2 := by rw [ReplyTask.remaining, hresult]; rfl
    simp only [remaining, List.sum_map_of_getElem? hj, htwo] at hle ⊢
    omega
  | drain n shard =>
    simp only [step] at hs
    split at hs <;> rename_i hwaiting <;> cases hs
    obtain ⟨posted, hmem, hp⟩ := List.countP_pos_iff.1 hwaiting
    have hlen := List.length_eraseP_of_mem (p := fun posted : Posted => posted.node = n ∧ posted.shard = shard)
      hmem hp
    have hpos := List.length_pos_of_mem hmem
    simp only [remaining, hlen]
    omega
  | panicProcess k =>
    obtain ⟨p, hk, hs⟩ := Option.bind_eq_some_iff.1 hs
    split at hs <;> cases hs
    have hpos := p.remaining_pos view
    simp only [remaining, List.sum_map_of_getElem? hk]
    omega
  | panicReply j =>
    simp only [step] at hs
    split at hs <;> rename_i hj <;> cases hs
    have hpos := s.replies[j].remaining_pos
    simp only [remaining, List.sum_map_of_getElem? (List.getElem?_eq_getElem hj)]
    omega

/-! ## The next step -/

theorem exists_reply (s : Receiving) (key : Key) (node : NodeName) (id : UInt64)
    (result : Except RemoteError Bytes) :
    (∃ s', s.reply view key node id result = some s') ∨ 0 < s.waiting node (view.shardOf id) := by
  unfold reply
  split
  · exact .inl ⟨_, rfl⟩
  · split <;> rename_i hroom
    · exact .inl ⟨_, rfl⟩
    · refine .inr ?_
      have : 0 < laneQueue := by decide
      omega

theorem exists_drain {shard : ℕ} (h : 0 < s.waiting node shard) :
    ∃ s', s.step view (.drain node shard) = some s' :=
  ⟨_, if_pos h⟩

/-- Whoever processes a message can take a step, or the lane can be drained. -/
theorem exists_step_of_process {p : Process} (hp : p ∈ s.processes) :
    ∃ e s', s.step view e = some s' ∧ s.Heeds view node e ∧ e.isInner = true := by
  obtain ⟨k, hk⟩ := List.mem_iff_getElem?.1 hp
  cases hstage : p.stage with
  | delivering =>
    have hstep : s.step view (.deliver k none) = some (s.delivered k p (view.deliver p.work none)) := by
      simp [step, hk, hstage]
    exact ⟨_, _, hstep, trivial, rfl⟩
  | answering ids error =>
    cases ids with
    | nil =>
      have hstep : s.step view (.answer k) = some { s with processes := s.processes.eraseIdx k } := by
        simp [step, hk, hstage]
      exact ⟨_, _, hstep, trivial, rfl⟩
    | cons id ids =>
      have hstep : s.step view (.answer k) = reply view { s with
          processes := s.processes.set k { p with stage := .answering ids error } } p.key p.work.node id
          (.error error) := by
        simp [step, hk, hstage]
      rcases exists_reply view { s with
          processes := s.processes.set k { p with stage := .answering ids error } } p.key p.work.node id
          (.error error) with ⟨s', hs'⟩ | hfull
      · exact ⟨_, s', hstep.trans hs', trivial, rfl⟩
      · obtain ⟨s', hs'⟩ := exists_drain view (s := s) hfull
        exact ⟨_, s', hs', trivial, rfl⟩

theorem exists_step_of_reply {t : ReplyTask} (ht : t ∈ s.replies) :
    ∃ e s', s.step view e = some s' ∧ s.Heeds view node e ∧ e.isInner = true := by
  obtain ⟨j, hj⟩ := List.mem_iff_getElem?.1 ht
  cases hresult : t.result with
  | none =>
    have hstep : s.step view (.settle j (.error .noReply)) =
        some { s with replies := s.replies.set j { t with result := some (.error .noReply) } } := by
      simp [step, hj, hresult]
    exact ⟨_, _, hstep, trivial, rfl⟩
  | some result =>
    have hstep : s.step view (.reply j) =
        reply view { s with replies := s.replies.eraseIdx j } t.key t.node t.id result := by
      simp [step, hj, hresult]
    rcases exists_reply view { s with replies := s.replies.eraseIdx j } t.key t.node t.id result with
      ⟨s', hs'⟩ | hfull
    · exact ⟨_, s', hstep.trans hs', trivial, rfl⟩
    · obtain ⟨s', hs'⟩ := exists_drain view (s := s) hfull
      exact ⟨_, s', hs', trivial, rfl⟩

theorem exists_step_of_router {e : Router.Event} {router : Router} (hs : s.router.step e = some router)
    (hqueue : s.stepQueue e = s.moveQueue e) (hok : s.Heeds view node (.queue e)) :
    ∃ e s', s.step view e = some s' ∧ s.Heeds view node e ∧ e.isInner = true := by
  have hmove : ∃ s', s.moveQueue e = some s' := by
    simp only [moveQueue, hs, Option.bind_eq_bind, Option.bind_some]
    exact ⟨_, rfl⟩
  obtain ⟨s', hs'⟩ := hmove
  exact ⟨.queue e, s', hqueue.trans hs', hok, rfl⟩

/-- As long as somebody sees to an answer there is a step to take. -/
theorem exists_inner_step (h : s.Accounts view node) (hpend : s.Pends view key id) :
    ∃ e s', s.step view e = some s' ∧ s.Heeds view node e ∧ e.isInner = true := by
  rcases hpend with ⟨w, hback, -⟩ | ⟨p, hp, -⟩ | ⟨t, ht, -⟩
  · rcases h.sound.exists_step hback with ⟨e, router, he, hs⟩ | ⟨i, task, w', hi, hstage⟩
    · cases e with
      | arrive len | processed i | panic i => cases he
      | send | retain | recv i | timeout i | close i | process i =>
        exact exists_step_of_router view hs rfl trivial
    · -- The task goes on when the message has been processed.
      by_cases hover : ∃ p ∈ s.processes, ∃ w ∈ s.working i, p.key = .queued w.id
      · obtain ⟨p, hp, -⟩ := hover
        exact exists_step_of_process view hp
      · have hs : ∃ router, s.router.step (.processed i) = some router := by
          simp [Router.step, Router.runTask, Router.stepTask, hi, hstage]
        obtain ⟨router, hs⟩ := hs
        exact exists_step_of_router view hs (if_neg hover) trivial
  · exact exists_step_of_process view hp
  · exact exists_step_of_reply view ht

/-- Every answer that `node` asks for is put in its lane, or somebody is about to see to it; and however
things go on, all of them are in their lanes in the end, once no more messages arrive. This holds in the
runs in which no answer is refused for want of room in its lane, and nothing panics that `node` waits
for. -/
theorem answers_of_heeds (h : ((runs view node).guard (Heeds view · node)).Reachable s) :
    s.Answers view node ∧
      ((runs view node).guard fun s e => s.Heeds view node e ∧ e.isInner = true).Inevitable
        (AllAnswered view · node) s := by
  have haccounts := accounts_of_heeds view h
  refine ⟨haccounts.answers, Lts.inevitable_of_bound (I := (Accounts view · node)) (remaining view)
    (fun s e s' hi hs => ?_) (fun s hi hnot => ?_) haccounts⟩
  · obtain ⟨hs, hok, he⟩ := hs
    exact ⟨hi.step view hok hs, remaining_lt view he hs⟩
  · by_contra hstuck
    refine hnot fun key work hw hnode id hid => ?_
    rcases hi.answers.asked key work hw hnode id hid with hanswered | hpend
    · exact hanswered
    · obtain ⟨e, s', hs, hok, he⟩ := exists_inner_step view hi hpend
      exact absurd ⟨e, s', hs, hok, he⟩ hstuck

instance (ids : List UInt64) : Decidable (s.RoomFor view node ids) := List.decidableBAll _ ids

instance (keys : List Key) : Decidable (s.NotAsked view node keys) := by
  unfold NotAsked
  infer_instance

instance (s : Receiving) (node : NodeName) : (e : Event) → Decidable (s.Heeds view node e)
  | .incoming work => inferInstanceAs (Decidable (work.node = node → view.bypassesQueue work.msg = false →
      s.router.overloaded work.payload.length = true → s.RoomFor view node work.answers))
  | .leaves n => inferInstanceAs (Decidable (n ≠ node))
  | .queue (.panic i) => inferInstanceAs (Decidable (s.NotAsked view node (s.atTask i)))
  | .panicProcess k => inferInstanceAs (Decidable (∀ p ∈ s.processes[k]?, s.NotAsked view node [p.key]))
  | .panicReply j => inferInstanceAs (Decidable (∀ t ∈ s.replies[j]?, t.node ≠ node))
  | .traffic _ | .joins _ | .deliver _ _ | .answer _ | .settle _ _ | .reply _ | .drain _ _ => isTrue trivial
  | .queue (.arrive _) | .queue .send | .queue .retain | .queue (.recv _) | .queue (.timeout _)
  | .queue (.close _) | .queue (.process _) | .queue (.processed _) => isTrue trivial

/-- A node that knows one message, with the request `7` in it. -/
def fetching : CommunicationView :=
  ⟨4, by decide, fun msg => if msg = ⟨1⟩ then some ⟨.typed, fun _ => ⟨[7], none⟩⟩ else none⟩

/-- The call `1` finds the actor closed. -/
theorem answers_of_heeds_closed :
    ∃ s, (s.enqueued.length = 2 ∧ s.processes.length = 1) ∧ s.Answers fetching "a" ∧
      ((runs fetching "a").guard fun s e => s.Heeds fetching "a" e ∧ e.isInner = true).Inevitable
        (AllAnswered fetching · "a") s := by
  have hrun : ∃ s, ((runs fetching "a").guard (Heeds fetching · "a")).Reachable s ∧
      s.enqueued.length = 2 ∧ s.processes.length = 1 :=
    Lts.exists_guard_reachable_of_exec (s := new fun _ => true) ⟨fun _ => true, rfl, rfl⟩
      [.incoming ⟨"a", ⟨1⟩, [7], [0], some 1⟩, .queue (.recv 0), .queue (.process 0), .deliver 0 (some .closed),
        .answer 0, .reply 0] (by decide +kernel)
  obtain ⟨s, hr, hs⟩ := hrun
  exact ⟨s, hs, answers_of_heeds fetching hr⟩

/-! ## A refusal that nobody hears of -/

/-- The router while `k` messages of `len` bytes are before the task of the actor. -/
def backedUp (len k : ℕ) : Router where
  route := some 0
  routing := none
  tasks := [⟨(List.range k).map (⟨·, len⟩), false, ⟨k, k * len⟩, .receiving⟩]
  accepted := (List.range k).map (⟨·, len⟩)
  refused := []
  processed := []

theorem step_new_arrive (len : ℕ) : Router.new.step (.arrive len) = some (backedUp len 1) := by
  simp [Router.step, Router.arrive, Router.start, Router.new, backedUp]

theorem admit_backedUp {len k : ℕ} (hk : k < Router.actorQueueMessages)
    (hroom : (k + 1) * len ≤ Router.actorQueueBytes) :
    Router.Queued.admit ⟨k, k * len⟩ len = some ⟨k + 1, (k + 1) * len⟩ := by
  rw [Nat.succ_mul] at hroom ⊢
  exact if_neg fun ⟨_, hfull⟩ => by dsimp only at hfull; omega

theorem step_backedUp {len k : ℕ} (hk : k < Router.actorQueueMessages)
    (hroom : (k + 1) * len ≤ Router.actorQueueBytes) :
    ∃ router, (backedUp len k).step (.arrive len) = some router ∧ (backedUp len k).overloaded len = false ∧
      router.step .send = some (backedUp len (k + 1)) ∧ router.processed = [] := by
  have hadmit := admit_backedUp hk hroom
  refine ⟨{ backedUp len (k + 1) with
    routing := some ⟨k, len⟩
    tasks := [⟨(List.range k).map (⟨·, len⟩), false, ⟨k + 1, (k + 1) * len⟩, .receiving⟩] }, ?_, ?_, ?_, rfl⟩
  · simp [Router.step, Router.arrive, backedUp, hadmit, List.range_succ]
  · simp [Router.overloaded, backedUp, hadmit]
  · simp [Router.step, Router.send, backedUp, List.range_succ]

theorem reachable_incoming {router : Router} {len : ℕ} (h : (runs view node).Reachable s)
    (hlen : work.payload.length = len) (hbypass : view.bypassesQueue work.msg = false)
    (hrouting : s.router.routing = none) (hfree : s.router.overloaded len = false)
    (harrive : s.router.step (.arrive len) = some router) :
    (runs view node).Reachable { s with router, queued := s.queued ++ [work] } := by
  refine h.step (e := .incoming work) ?_
  subst hlen
  show s.incoming view work = _
  simp [incoming, hrouting, hbypass, harrive, hfree]

theorem reachable_send {router : Router} (h : (runs view node).Reachable s)
    (hsend : s.router.step .send = some router) (hprocessed : router.processed = s.router.processed) :
    (runs view node).Reachable { s with router } := by
  refine h.step (e := .queue .send) ?_
  show s.moveQueue .send = _
  simp [moveQueue, hsend, hprocessed]

theorem step_overloaded {router : Router} {len : ℕ} (hrouting : router.routing = none)
    (hfull : router.overloaded len = true) : router.step (.arrive len) = some { router with
      refused := router.refused ++ [⟨router.accepted.length + router.refused.length, len⟩] } := by
  obtain ⟨task, ⟨i, hroute, hi⟩, hadmit⟩ : ∃ task, (∃ i, router.route = some i ∧ router.tasks[i]? = some task) ∧
      task.queued.admit len = none := by
    simpa [Router.overloaded, Option.any_eq_true, Option.bind_eq_some_iff] using hfull
  simp [Router.step, Router.arrive, hrouting, hroute, hi, hadmit]

theorem reachable_backedUp (len : ℕ) (first : Work) (works : List Work)
    (hbypass : ∀ work ∈ first :: works, view.bypassesQueue work.msg = false)
    (hlen : ∀ work ∈ first :: works, work.payload.length = len)
    (hmessages : works.length < Router.actorQueueMessages)
    (hbytes : (works.length + 1) * len ≤ Router.actorQueueBytes) :
    (runs view node).Reachable
      { new fun _ => true with router := backedUp len (works.length + 1), queued := first :: works } := by
  induction works using List.reverseRecOn with
  | nil =>
    exact reachable_incoming view (.init ⟨fun _ => true, rfl, rfl⟩) (hlen first List.mem_cons_self)
      (hbypass first List.mem_cons_self) rfl rfl (step_new_arrive len)
  | append_singleton works work ih =>
    rw [List.length_append, List.length_singleton] at hmessages hbytes ⊢
    have hbefore : (works.length + 1) * len ≤ Router.actorQueueBytes :=
      (Nat.mul_le_mul_right len (Nat.le_succ _)).trans hbytes
    have hr := ih (fun work h => hbypass work (List.mem_append_left [_] h))
      (fun work h => hlen work (List.mem_append_left [_] h)) (by omega) hbefore
    have hmem : work ∈ first :: (works ++ [work]) := by simp
    obtain ⟨router, harrive, hfree, hsend, hprocessed⟩ := step_backedUp hmessages hbytes
    have hadmitted := reachable_incoming view hr (hlen work hmem) (hbypass work hmem) rfl hfree harrive
    exact reachable_send view hadmitted hsend hprocessed.symm

theorem waiting_replicate (s : Receiving) (posted : Posted) (n : ℕ) :
    waiting { s with lanes := s.lanes ++ List.replicate n posted } posted.node posted.shard =
      s.waiting posted.node posted.shard + n := by
  simp [waiting, List.countP_append, List.countP_replicate]

theorem reachable_traffic (h : (runs view node).Reachable s) (posted : Posted) (n : ℕ)
    (hroom : s.waiting posted.node posted.shard + n ≤ laneQueue) :
    (runs view node).Reachable { s with lanes := s.lanes ++ List.replicate n posted } := by
  induction n with
  | zero => simpa using h
  | succ n ih =>
    have hfree : s.waiting posted.node posted.shard + n < laneQueue := hroom
    have hstep : step view { s with lanes := s.lanes ++ List.replicate n posted } (.traffic posted) =
        some { s with lanes := s.lanes ++ List.replicate n posted ++ [posted] } :=
      if_pos (s.waiting_replicate posted n ▸ hfree)
    have hr := (ih hfree.le).step hstep
    rwa [List.append_assoc, ← List.replicate_succ'] at hr

theorem foldl_tryReply_full (key : Key) (error : RemoteError) {ids : List UInt64}
    (hfull : ∀ id ∈ ids, laneQueue ≤ s.waiting node (view.shardOf id)) :
    ids.foldl (fun s id => s.tryReply view key node error id) s = s := by
  induction ids with
  | nil => rfl
  | cons id ids ih =>
    have hid := hfull id List.mem_cons_self
    have htry : s.tryReply view key node error id = s := by
      unfold tryReply
      split
      · rfl
      · exact if_neg (by omega)
    rw [List.foldl_cons, htry]
    exact ih fun id hid => hfull id (List.mem_cons_of_mem _ hid)

theorem reachable_refused {router : Router} {len : ℕ} (h : (runs view node).Reachable s)
    (hlen : work.payload.length = len) (hbypass : view.bypassesQueue work.msg = false)
    (hrouting : s.router.routing = none) (hover : s.router.overloaded len = true)
    (harrive : s.router.step (.arrive len) = some router)
    (hfull : ∀ id ∈ work.answers, laneQueue ≤ s.waiting work.node (view.shardOf id)) :
    (runs view node).Reachable { s with router, queued := s.queued ++ [work] } := by
  refine h.step (e := .incoming work) ?_
  subst hlen
  have hrefuse := foldl_tryReply_full view (s := { s with router, queued := s.queued ++ [work] })
    (.queued s.queued.length) .overloaded hfull
  show s.incoming view work = _
  simp [incoming, hrouting, hbypass, harrive, hover, refuse, hrefuse]

/-- A call of the message `0`, which does not bypass the queue. -/
def call (payload : Bytes) (callId : UInt64) : Work := ⟨"a", ⟨0⟩, [], payload, some callId⟩

/-- Four large calls wait for the actor, and the lane that replies to `a` go through is full when the
fifth comes. -/
theorem not_answers :
    ¬ ∀ (view : CommunicationView) (node : NodeName) (s : Receiving), (runs view node).Reachable s →
      s.Answers view node := by
  intro hall
  -- The payload is as large as a frame has room for; only its length matters.
  obtain ⟨payload, hlen⟩ : ∃ payload : Bytes, payload.length = 4194204 := ⟨.replicate _ 0, List.length_replicate⟩
  have hqueue : (runs fetching "a").Reachable _ := reachable_backedUp fetching 4194204 (call payload 0)
    [call payload 4, call payload 8, call payload 12] (by simp [call]; decide) (by simp [call, hlen])
    (show 3 < Router.actorQueueMessages by decide) (show 4 * 4194204 ≤ Router.actorQueueBytes by decide)
  have hlane := reachable_traffic fetching hqueue ⟨"a", 0, []⟩ 128 (show 0 + 128 ≤ laneQueue by decide)
  have hfull : (backedUp 4194204 4).overloaded 4194204 = true := by decide
  have hlast : (call payload 16).payload.length = 4194204 := hlen
  have hanswers : (call payload 16).answers = [16] := rfl
  have hasks : 16 ∈ (call payload 16).asks fetching := by simp [Work.asks, call]
  have hr := reachable_refused fetching hlane hlast rfl rfl hfull (step_overloaded rfl hfull) fun id hid => by
    obtain rfl := List.mem_singleton.1 (hanswers ▸ hid)
    exact (Nat.le_add_left 128 _).trans (waiting_replicate _ ⟨"a", 0, []⟩ 128).ge
  rcases (hall fetching "a" _ hr).asked (.queued 4) (call payload 16) rfl rfl 16 hasks with
    ⟨_, _, -, hmem⟩ | ⟨w, hw, hkey⟩ | ⟨p, hp, -⟩ | ⟨t, ht, -⟩
  · cases hmem
  · have hbefore : ∀ w ∈ (backedUp 4194204 4).backlog, w.id ≠ 4 := by decide
    exact hbefore w hw (Key.queued.inj hkey).symm
  · cases hp
  · cases ht

end Receiving
end Zestors
