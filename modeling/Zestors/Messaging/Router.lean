import Zestors.Lib.ListOrder
import Zestors.Lib.Lts

/-!
# The router and the tasks of one actor

The messages that arrive for one actor, the router that hands them to the actor's task, and every task
that it has started for the actor: a task that has waited too long closes its queue and takes what is
left, and the router starts another one when it finds the queue closed.

The messages are processed one after the other, in the order of their arrival (`HandedOver`), in the
runs in which a queue is closed only when it is empty (`handedOver_of_closesEmpty`). A message that
comes between the timeout and the close is processed by the old task while the new one is at work.
-/

namespace Zestors

namespace Router

def actorQueueMessages : ℕ := 100000

def actorQueueBytes : ℕ := 16 * 1024 * 1024

/-- A message for the actor. `id` is a ghost: which arrival it was. -/
structure Work where
  id : ℕ
  len : ℕ
deriving DecidableEq

/-- What waits for the actor, so that it can be bounded. -/
structure Queued where
  messages : ℕ
  bytes : ℕ
deriving DecidableEq

/-- `Queued::admit`, or `none` if too much is waiting already. -/
def Queued.admit (queued : Queued) (len : ℕ) : Option Queued :=
  if queued.messages > 0 ∧
      (queued.messages ≥ actorQueueMessages ∨ queued.bytes + len > actorQueueBytes) then none
  else some ⟨queued.messages + 1, queued.bytes + len⟩

def Queued.release (queued : Queued) (len : ℕ) : Queued :=
  ⟨queued.messages - 1, queued.bytes - len⟩

/-- Where an `actor_task` is. `idle` is after the timeout, before the queue is closed. -/
inductive TaskStage
  | receiving
  | idle
  | taken (work : Work)
  | processing (work : Work)
  | over
deriving DecidableEq

/-- An `actor_task`, its queue and the counters that it shares with the router. -/
structure ActorTask where
  queue : List Work
  closed : Bool
  queued : Queued
  stage : TaskStage
deriving DecidableEq

namespace ActorTask

def isProcessing (task : ActorTask) : Bool :=
  match task.stage with
  | .processing _ => true
  | _ => false

/-- What the task has and has not begun to process. -/
def held (task : ActorTask) : List Work :=
  match task.stage with
  | .taken work => work :: task.queue
  | _ => task.queue

/-- Nothing is left for the task to do but to end. -/
def Quiet (task : ActorTask) : Prop := task.held = [] ∧ task.isProcessing = false

end ActorTask

end Router

open Router

/-- The router, as far as it is concerned with one actor. `route` is the task whose queue it has, and
`routing` the message that it has admitted and not sent on. `accepted`, `refused` and `processed` are
the history: what has arrived, by the answer to it, and in which order it was processed. -/
structure Router where
  route : Option ℕ
  routing : Option Work
  tasks : List ActorTask
  accepted : List Work
  refused : List Work
  processed : List Work

namespace Router

def new : Router := ⟨none, none, [], [], [], []⟩

inductive Event
  /-- A message of `len` bytes arrives, and is admitted or not. -/
  | arrive (len : ℕ)
  /-- An admitted message is put in the queue, or in a new one. -/
  | send
  /-- The routes of tasks that are long gone are dropped, on behalf of another actor. -/
  | retain
  | recv (i : ℕ)
  | timeout (i : ℕ)
  | close (i : ℕ)
  | process (i : ℕ)
  | processed (i : ℕ)
  /-- The processing of a message panics, which ends the task. -/
  | panic (i : ℕ)

variable {s s' : Router} {e : Event} {i : ℕ} {task task' : ActorTask}

/-- A new task, with its first message. -/
def start (s : Router) (work : Work) : Router :=
  { s with
    route := some s.tasks.length
    routing := none
    tasks := s.tasks ++ [⟨[work], false, ⟨1, work.len⟩, .receiving⟩] }

/-- `Router::route`, up to the send. -/
def arrive (s : Router) (work : Work) : Option Router :=
  match s.route with
  | none => some (start { s with accepted := s.accepted ++ [work] } work)
  | some i => do
    let task ← s.tasks[i]?
    match task.queued.admit work.len with
    | none => some { s with refused := s.refused ++ [work] }
    | some queued => some { s with
        routing := some work
        tasks := s.tasks.set i { task with queued := queued }
        accepted := s.accepted ++ [work] }

/-- The send, and what becomes of the message if the task has ended. -/
def send (s : Router) (work : Work) : Option Router := do
  let i ← s.route
  let task ← s.tasks[i]?
  if task.closed then
    some (start { s with
      tasks := s.tasks.set i { task with queued := task.queued.release work.len } } work)
  else some { s with
    routing := none
    tasks := s.tasks.set i { task with queue := task.queue ++ [work] } }

/-- The next step of a task: the task that remains, and the message that it begins to process. -/
def stepTask (task : ActorTask) : Event → Option (ActorTask × List Work)
  | .recv _ =>
    match task.stage, task.queue with
    | .receiving, work :: rest => some ({ task with queue := rest, stage := .taken work }, [])
    | .receiving, [] => if task.closed then some ({ task with stage := .over }, []) else none
    | _, _ => none
  | .timeout _ =>
    if task.stage = .receiving ∧ task.queue = [] ∧ task.closed = false then
      some ({ task with stage := .idle }, [])
    else none
  | .close _ =>
    if task.stage = .idle then some ({ task with closed := true, stage := .receiving }, []) else none
  | .process _ =>
    match task.stage with
    | .taken work => some ({ task with
        queued := task.queued.release work.len, stage := .processing work }, [work])
    | _ => none
  | .processed _ =>
    match task.stage with
    | .processing _ => some ({ task with stage := .receiving }, [])
    | _ => none
  -- the queue goes with what is in it
  | .panic _ =>
    match task.stage with
    | .processing _ => some ({ task with queue := [], closed := true, stage := .over }, [])
    | _ => none
  | .arrive _ | .send | .retain => none

/-- The `i`-th task takes a step. -/
def runTask (s : Router) (i : ℕ) (e : Event) : Option Router := do
  let task ← s.tasks[i]?
  let next ← stepTask task e
  some { s with tasks := s.tasks.set i next.1, processed := s.processed ++ next.2 }

def step (s : Router) : Event → Option Router
  | .arrive len =>
    if s.routing = none then s.arrive ⟨s.accepted.length + s.refused.length, len⟩ else none
  | .send => do
    let work ← s.routing
    s.send work
  | .retain => do
    let i ← s.route
    let task ← s.tasks[i]?
    if s.routing = none ∧ task.closed = true then some { s with route := none } else none
  | .recv i => s.runTask i (.recv i)
  | .timeout i => s.runTask i (.timeout i)
  | .close i => s.runTask i (.close i)
  | .process i => s.runTask i (.process i)
  | .processed i => s.runTask i (.processed i)
  | .panic i => s.runTask i (.panic i)

/-- Every interleaving of the router and the tasks of the actor. -/
def runs : Lts Router Event := Lts.ofFun (fun s => s = new) step

/-- The messages that were not refused are processed in the order of their arrival, all of them when
nothing is left to do, and no two tasks are at it at once. -/
def HandedOver (s : Router) : Prop :=
  s.processed <+: s.accepted ∧
  (s.routing = none → (∀ task ∈ s.tasks, task.held = []) → s.processed = s.accepted) ∧
  ∀ (i j : ℕ) (task task' : ActorTask), s.tasks[i]? = some task → s.tasks[j]? = some task' →
    task.isProcessing = true → task'.isProcessing = true → i = j

/-- A queue is closed when there is nothing in it. -/
def ClosesEmpty (s : Router) : Event → Prop
  | .close i | .panic i => ∀ task ∈ s.tasks[i]?, task.queue = []
  | _ => True

instance (s : Router) (e : Event) : Decidable (s.ClosesEmpty e) := by
  cases e <;> unfold ClosesEmpty <;> infer_instance

/-- What the task of the route has and has not begun to process. -/
def waiting (s : Router) : List Work :=
  match s.route.bind (s.tasks[·]?) with
  | none => []
  | some task => task.held

/-- Everything is with the task of the route, while it takes messages. -/
structure Ordered (s : Router) : Prop where
  quiet : ∀ i task, s.tasks[i]? = some task → s.route ≠ some i ∨ task.closed = true → task.Quiet
  accepted : s.accepted = s.processed ++ s.waiting ++ s.routing.toList

theorem ordered_new : new.Ordered := ⟨nofun, rfl⟩

theorem waiting_eq (hi : s.tasks[i]? = some task) (hroute : s.route = some i) :
    s.waiting = task.held := by
  unfold waiting
  rw [hroute, Option.bind_some, hi]

theorem Ordered.handedOver (h : s.Ordered) : s.HandedOver := by
  have hroute : ∀ i task, s.tasks[i]? = some task → task.isProcessing = true → s.route = some i := by
    intro i task hi hproc
    by_contra hne
    rw [(h.quiet i task hi (.inl hne)).2] at hproc
    cases hproc
  refine ⟨?_, fun hrouting hheld => ?_, fun i j task task' hi hj hp hp' => ?_⟩
  · rw [h.accepted, List.append_assoc]
    exact List.prefix_append _ _
  · have hwaiting : s.waiting = [] := by
      unfold waiting
      split
      · rfl
      · rename_i task htask
        obtain ⟨i, -, hi⟩ := Option.bind_eq_some_iff.1 htask
        exact hheld task (List.mem_of_getElem? hi)
    rw [h.accepted, hwaiting, hrouting, Option.toList_none, List.append_nil, List.append_nil]
  · exact Option.some.inj ((hroute i task hi hp).symm.trans (hroute j task' hj hp'))

/-! ## Steps -/

theorem Ordered.setTask (h : s.Ordered) (hi : s.tasks[i]? = some task) {work : List Work}
    (hheld : work ++ task'.held = task.held) (hquiet : task.Quiet → task'.Quiet)
    (hclosed : task'.closed = true → task'.Quiet) :
    Ordered { s with tasks := s.tasks.set i task', processed := s.processed ++ work } := by
  have hget : ∀ k, (s.tasks.set i task')[k]? = if i = k then some task' else s.tasks[k]? := fun _ =>
    List.getElem?_set_of_getElem? hi
  refine ⟨fun k t hk hor => ?_, ?_⟩
  · rw [hget] at hk
    split at hk
    · cases hk
      subst k
      rcases hor with hne | hc
      · exact hquiet (h.quiet i task hi (.inl hne))
      · exact hclosed hc
    · exact h.quiet k t hk hor
  · refine h.accepted.trans (congrArg (· ++ s.routing.toList) ?_)
    by_cases hroute : s.route = some i
    · have hwaiting : waiting { s with tasks := s.tasks.set i task', processed := s.processed ++ work } =
          task'.held := waiting_eq ((hget i).trans (if_pos rfl)) hroute
      rw [hwaiting, waiting_eq hi hroute, ← hheld, List.append_assoc]
    · have hq := h.quiet i task hi (.inl hroute)
      rw [hq.1, List.append_eq_nil_iff] at hheld
      rw [hheld.1, List.append_nil]
      unfold waiting
      cases hr : s.route with
      | none => rfl
      | some k =>
        have hne : i ≠ k := fun heq => hroute (hr.trans (congrArg some heq.symm))
        simp only [Option.bind_some, hget, if_neg hne]

theorem stepTask_spec {work : List Work} (hs : stepTask task e = some (task', work))
    (hclosed : task.closed = true → task.Quiet)
    (hempty : (∃ i, e = .close i ∨ e = .panic i) → task.queue = []) :
    work ++ task'.held = task.held ∧ (task.Quiet → task'.Quiet) ∧
      (task'.closed = true → task'.Quiet) := by
  cases e with
  | arrive len | send | retain => cases hs
  | recv i =>
    simp only [stepTask] at hs
    split at hs
    · rename_i hstage hqueue
      cases hs
      have hheld : task.held = task.queue := by simp only [ActorTask.held, hstage]
      refine ⟨?_, fun hq => ?_, fun hc => ?_⟩
      · rw [hheld, hqueue]
        rfl
      · rw [ActorTask.Quiet, hheld, hqueue] at hq
        cases hq.1
      · have hq := hclosed hc
        rw [ActorTask.Quiet, hheld, hqueue] at hq
        cases hq.1
    · rename_i hstage hqueue
      split at hs
      · cases hs
        simp [ActorTask.held, ActorTask.Quiet, ActorTask.isProcessing, hstage, hqueue]
      · cases hs
    · cases hs
  | timeout i =>
    simp only [stepTask] at hs
    split at hs
    · rename_i h
      cases hs
      simp [ActorTask.held, ActorTask.Quiet, ActorTask.isProcessing, h]
    · cases hs
  | close i =>
    simp only [stepTask] at hs
    have hqueue := hempty ⟨i, .inl rfl⟩
    split at hs
    · rename_i hstage
      cases hs
      simp [ActorTask.held, ActorTask.Quiet, ActorTask.isProcessing, hstage, hqueue]
    · cases hs
  | process i =>
    simp only [stepTask] at hs
    split at hs
    · rename_i w hstage
      cases hs
      have hheld : task.held = w :: task.queue := by simp only [ActorTask.held, hstage]
      have hnot : ¬ task.Quiet := fun hq => by
        rw [ActorTask.Quiet, hheld] at hq
        cases hq.1
      exact ⟨hheld.symm, fun hq => absurd hq hnot, fun hc => absurd (hclosed hc) hnot⟩
    · cases hs
  | processed i =>
    simp only [stepTask] at hs
    split at hs
    · rename_i w hstage
      cases hs
      have hnot : ¬ task.Quiet := fun hq => by
        have := hq.2
        rw [ActorTask.isProcessing, hstage] at this
        cases this
      refine ⟨by simp only [ActorTask.held, hstage, List.nil_append], fun hq => absurd hq hnot,
        fun hc => absurd (hclosed hc) hnot⟩
    · cases hs
  | panic i =>
    simp only [stepTask] at hs
    have hqueue := hempty ⟨i, .inr rfl⟩
    split at hs
    · rename_i w hstage
      cases hs
      simp [ActorTask.held, ActorTask.Quiet, ActorTask.isProcessing, hstage, hqueue]
    · cases hs

theorem Ordered.runTask (h : s.Ordered) (hs : s.runTask i e = some s')
    (hempty : (∃ k, e = .close k ∨ e = .panic k) → ∀ task ∈ s.tasks[i]?, task.queue = []) :
    s'.Ordered := by
  obtain ⟨task, hi, hs⟩ := Option.bind_eq_some_iff.1 hs
  obtain ⟨⟨task', work⟩, hnext, hs⟩ := Option.bind_eq_some_iff.1 hs
  cases hs
  obtain ⟨hheld, hquiet, hclosed⟩ := stepTask_spec hnext (fun hc => h.quiet i task hi (.inr hc))
    fun he => hempty he task hi
  exact h.setTask hi hheld hquiet hclosed

theorem Ordered.start {work : Work} (hquiet : ∀ task ∈ s.tasks, task.Quiet)
    (haccepted : s.accepted = s.processed ++ [work]) : (s.start work).Ordered := by
  refine ⟨fun k t hk hor => ?_, ?_⟩
  · rcases List.getElem?_concat_eq_some.1 hk with hk | ⟨rfl, rfl⟩
    · exact hquiet t (List.mem_of_getElem? hk)
    · rcases hor with hne | hc
      · exact absurd rfl hne
      · cases hc
  · have hwaiting : (s.start work).waiting = [work] :=
      waiting_eq (s := s.start work) (List.getElem?_concat_eq_some.2 (.inr ⟨rfl, rfl⟩)) rfl
    rw [hwaiting]
    exact haccepted.trans (List.append_nil _).symm

theorem Ordered.arrive (h : s.Ordered) {work : Work} (hrouting : s.routing = none)
    (hs : s.arrive work = some s') : s'.Ordered := by
  unfold Router.arrive at hs
  split at hs
  · rename_i hroute
    cases hs
    refine Ordered.start (fun task ht => ?_) ?_
    · obtain ⟨i, hi⟩ := List.mem_iff_getElem?.1 ht
      exact h.quiet i task hi (.inl (by rw [hroute]; nofun))
    · have hwaiting : s.waiting = [] := by rw [waiting, hroute]; rfl
      show s.accepted ++ [work] = s.processed ++ [work]
      rw [h.accepted, hwaiting, hrouting, Option.toList_none, List.append_nil, List.append_nil]
  · rename_i i hroute
    obtain ⟨task, hi, hs⟩ := Option.bind_eq_some_iff.1 hs
    split at hs
    · cases hs
      exact ⟨h.quiet, h.accepted⟩
    · rename_i queued hadmit
      cases hs
      have hset : Ordered { s with
          tasks := s.tasks.set i { task with queued := queued }, processed := s.processed ++ [] } :=
        h.setTask hi rfl id fun hc => h.quiet i task hi (.inr hc)
      refine ⟨hset.quiet, ?_⟩
      have haccepted := hset.accepted
      show s.accepted ++ [work] = s.processed ++ _ ++ [work]
      simp only [hrouting, Option.toList_none, List.append_nil] at haccepted
      rw [haccepted]
      rfl

theorem Ordered.send (h : s.Ordered) {work : Work} (hrouting : s.routing = some work)
    (hs : s.send work = some s') : s'.Ordered := by
  obtain ⟨i, hroute, hs⟩ := Option.bind_eq_some_iff.1 hs
  obtain ⟨task, hi, hs⟩ := Option.bind_eq_some_iff.1 hs
  have hget : ∀ {t : ActorTask} k, (s.tasks.set i t)[k]? = if i = k then some t else s.tasks[k]? :=
    fun _ => List.getElem?_set_of_getElem? hi
  have hother : ∀ k t, i ≠ k → s.tasks[k]? = some t → t.Quiet := fun k t hne hk =>
    h.quiet k t hk (.inl fun heq => hne (Option.some.inj (hroute.symm.trans heq)))
  have haccepted := h.accepted
  rw [waiting_eq hi hroute, hrouting] at haccepted
  split at hs
  · rename_i hclosed
    cases hs
    have hquiet := h.quiet i task hi (.inr hclosed)
    refine Ordered.start (fun t ht => ?_) ?_
    · obtain ⟨k, hk⟩ := List.mem_iff_getElem?.1 ht
      rw [hget] at hk
      split at hk
      · cases hk
        exact hquiet
      · rename_i hne
        exact hother k t hne hk
    · rw [hquiet.1, List.append_nil] at haccepted
      exact haccepted
  · rename_i hclosed
    cases hs
    have hheld : ActorTask.held { task with queue := task.queue ++ [work] } = task.held ++ [work] := by
      unfold ActorTask.held
      cases task.stage <;> rfl
    refine ⟨fun k t hk hor => ?_, ?_⟩
    · rw [hget] at hk
      split at hk
      · cases hk
        subst k
        rcases hor with hne | hc
        · exact absurd hroute hne
        · exact absurd hc hclosed
      · rename_i hne
        exact hother k t hne hk
    · have hwaiting : waiting { s with
          routing := none, tasks := s.tasks.set i { task with queue := task.queue ++ [work] } } =
          ActorTask.held { task with queue := task.queue ++ [work] } :=
        waiting_eq ((hget i).trans (if_pos rfl)) hroute
      rw [hwaiting, hheld]
      show s.accepted = s.processed ++ (task.held ++ [work]) ++ []
      rw [haccepted, List.append_nil, List.append_assoc]
      rfl

theorem Ordered.step (h : s.Ordered) (hok : s.ClosesEmpty e) (hs : s.step e = some s') :
    s'.Ordered := by
  cases e with
  | arrive len =>
    simp only [Router.step] at hs
    split at hs
    · exact h.arrive (by assumption) hs
    · cases hs
  | send =>
    obtain ⟨work, hrouting, hs⟩ := Option.bind_eq_some_iff.1 hs
    exact h.send hrouting hs
  | retain =>
    obtain ⟨i, hroute, hs⟩ := Option.bind_eq_some_iff.1 hs
    obtain ⟨task, hi, hs⟩ := Option.bind_eq_some_iff.1 hs
    split at hs
    · rename_i hclosed
      cases hs
      have hquiet := h.quiet i task hi (.inr hclosed.2)
      refine ⟨fun k t hk _ => ?_, ?_⟩
      · by_cases hne : i = k
        · subst k
          rw [hi] at hk
          cases hk
          exact hquiet
        · exact h.quiet k t hk (.inl fun heq => hne (Option.some.inj (hroute.symm.trans heq)))
      · have haccepted := h.accepted
        rw [waiting_eq hi hroute, hquiet.1] at haccepted
        exact haccepted
    · cases hs
  | recv i | timeout i | process i | processed i => exact h.runTask hs (by simp)
  | close i | panic i => exact h.runTask hs fun _ => hok

/-! ## Runs -/

/-- The messages are handed over in the runs in which every queue is closed empty. -/
theorem handedOver_of_closesEmpty (h : (runs.guard ClosesEmpty).Reachable s) : s.HandedOver := by
  refine (h.guard_invariant (I := Ordered) ?_ fun s e s' hi hok hs => hi.step hok hs).handedOver
  rintro _ rfl
  exact ordered_new

/-- The second message comes when the task of the first one is about to end, and is processed by the
next task. -/
theorem handedOver_of_closesEmpty_restarted : ∃ s, (runs.guard ClosesEmpty).Reachable s ∧
    (s.tasks.length = 2 ∧ s.processed = [⟨0, 10⟩, ⟨1, 20⟩]) ∧ s.HandedOver := by
  obtain ⟨s, hs, h⟩ : ∃ s, (runs.guard ClosesEmpty).Reachable s ∧ _ :=
    Lts.exists_guard_reachable_of_exec (f := step)
      (p := fun s => s.tasks.length = 2 ∧ s.processed = [⟨0, 10⟩, ⟨1, 20⟩]) (s := new) rfl
      [.arrive 10, .recv 0, .process 0, .processed 0, .timeout 0, .arrive 20, .close 0, .send, .recv 0,
        .recv 1, .process 1, .processed 1]
      (by decide +kernel)
  exact ⟨s, hs, h, handedOver_of_closesEmpty hs⟩

/-- The second message comes between the timeout and the close, and the third one after it: the two
tasks are at work at once, and the third message is processed before the second. -/
theorem not_handedOver : (∃ s, runs.Reachable s ∧ s.accepted = [⟨0, 10⟩, ⟨1, 20⟩, ⟨2, 30⟩] ∧
      s.processed = [⟨0, 10⟩, ⟨2, 30⟩, ⟨1, 20⟩] ∧ s.tasks.map (·.isProcessing) = [true, true]) ∧
    ¬ ∀ s, runs.Reachable s → s.HandedOver := by
  obtain ⟨s, hs, hacc, hproc, hrest⟩ : ∃ s, runs.Reachable s ∧
      s.accepted = [⟨0, 10⟩, ⟨1, 20⟩, ⟨2, 30⟩] ∧ s.processed = [⟨0, 10⟩, ⟨2, 30⟩, ⟨1, 20⟩] ∧
      s.tasks.map (·.isProcessing) = [true, true] :=
    Lts.exists_reachable_of_exec (s := new) rfl
      [.arrive 10, .recv 0, .process 0, .processed 0, .timeout 0, .arrive 20, .send, .close 0,
        .arrive 30, .send, .recv 1, .process 1, .recv 0, .process 0]
      (by decide +kernel)
  refine ⟨⟨s, hs, hacc, hproc, hrest⟩, fun hall => ?_⟩
  have := (hall s hs).1
  rw [hacc, hproc] at this
  revert this
  decide

end Router

end Zestors
