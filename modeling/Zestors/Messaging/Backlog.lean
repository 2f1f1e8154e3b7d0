import Zestors.Messaging.Router

/-!
# What is left for the tasks of an actor

The backlog of an actor is what the router has admitted and no task has begun to process. Nothing leaves
it but by a task that begins to process it, or together with the queue of a task that panics
(`step_backlog`). As long as there is a backlog there is a step to take, and with every step that is no
arrival there is less left to do.
-/

namespace Zestors
namespace Router

variable {s s' : Router} {e : Event} {i : ℕ} {task task' : ActorTask}

def backlog (s : Router) : List Work := s.tasks.flatMap ActorTask.held ++ s.routing.toList

theorem mem_backlog {work : Work} :
    work ∈ s.backlog ↔ (∃ task ∈ s.tasks, work ∈ task.held) ∨ s.routing = some work := by
  rw [backlog, List.mem_append, List.mem_flatMap, Option.mem_toList]

theorem mem_backlog_of_getElem? {work : Work} (hi : s.tasks[i]? = some task) :
    work ∈ s.backlog ↔
      work ∈ task.held ∨ (∃ t ∈ s.tasks.eraseIdx i, work ∈ t.held) ∨ s.routing = some work := by
  simp only [mem_backlog, List.mem_iff_of_getElem? hi, or_and_right, exists_or, exists_eq_left, or_assoc]

theorem mem_backlog_set (task' : ActorTask) {work : Work} (hi : s.tasks[i]? = some task)
    (htasks : s'.tasks = s.tasks.set i task') :
    work ∈ s'.backlog ↔
      work ∈ task'.held ∨ (∃ t ∈ s.tasks.eraseIdx i, work ∈ t.held) ∨ s'.routing = some work := by
  simp only [mem_backlog, htasks, List.mem_set_iff_of_getElem? hi, or_and_right, exists_or, exists_eq_left,
    or_assoc]

theorem mem_backlog_start {work w : Work} :
    w ∈ (s.start work).backlog ↔ (∃ t ∈ s.tasks, w ∈ t.held) ∨ w = work := by
  simp [mem_backlog, start, or_and_right, exists_or, ActorTask.held]

def Event.isMove : Event → Bool
  | .arrive _ => false
  | .send | .retain | .recv _ | .timeout _ | .close _ | .process _ | .processed _ | .panic _ => true

theorem move_cases (he : e.isMove = true) (hs : s.step e = some s') :
    (∃ i task next, s.tasks[i]? = some task ∧ stepTask task e = some next ∧ (∀ k, e = .panic k → k = i) ∧
      s' = { s with tasks := s.tasks.set i next.1, processed := s.processed ++ next.2 }) ∨
    (∃ work, e = .send ∧ s.routing = some work ∧ s.send work = some s') ∨
    (∃ i, e = .retain ∧ s.routing = none ∧ s.route = some i ∧ s' = { s with route := none }) := by
  have hrun : ∀ i, (∀ k, e = .panic k → k = i) → s.runTask i e = some s' → ∃ i task next,
      s.tasks[i]? = some task ∧ stepTask task e = some next ∧ (∀ k, e = .panic k → k = i) ∧
      s' = { s with tasks := s.tasks.set i next.1, processed := s.processed ++ next.2 } := by
    intro i hpanic hs
    obtain ⟨task, hi, hs⟩ := Option.bind_eq_some_iff.1 hs
    obtain ⟨next, hnext, hs⟩ := Option.bind_eq_some_iff.1 hs
    cases hs
    exact ⟨i, task, next, hi, hnext, hpanic, rfl⟩
  cases e with
  | arrive len => cases he
  | send =>
    obtain ⟨work, hrouting, hs⟩ := Option.bind_eq_some_iff.1 hs
    exact .inr (.inl ⟨work, rfl, hrouting, hs⟩)
  | retain =>
    obtain ⟨i, hroute, hs⟩ := Option.bind_eq_some_iff.1 hs
    obtain ⟨task, hi, hs⟩ := Option.bind_eq_some_iff.1 hs
    split at hs
    · rename_i hif
      cases hs
      exact .inr (.inr ⟨i, rfl, hif.1, hroute, rfl⟩)
    · cases hs
  | recv i | timeout i | close i | process i | processed i => exact .inl (hrun i (by simp) hs)
  | panic i =>
    refine .inl (hrun i (fun k hk => ?_) hs)
    cases hk
    rfl

theorem send_cases {work : Work} (hs : s.send work = some s') :
    ∃ i task, s.route = some i ∧ s.tasks[i]? = some task ∧
      (task.closed = true ∧ s' = start { s with
          tasks := s.tasks.set i { task with queued := task.queued.release work.len } } work ∨
        task.closed = false ∧ s' = { s with
          routing := none, tasks := s.tasks.set i { task with queue := task.queue ++ [work] } }) := by
  obtain ⟨i, hroute, hs⟩ := Option.bind_eq_some_iff.1 hs
  obtain ⟨task, hi, hs⟩ := Option.bind_eq_some_iff.1 hs
  refine ⟨i, task, hroute, hi, ?_⟩
  split at hs <;> rename_i hclosed
  · cases hs
    exact .inl ⟨hclosed, rfl⟩
  · cases hs
    exact .inr ⟨by simpa using hclosed, rfl⟩

theorem held_append {work : Work} :
    ActorTask.held { task with queue := task.queue ++ [work] } = task.held ++ [work] := by
  unfold ActorTask.held
  cases task.stage <;> rfl

/-- A task keeps what it does not begin to process, unless it panics. -/
theorem stepTask_held {begun : List Work} (hs : stepTask task e = some (task', begun)) :
    begun ++ task'.held = task.held ∨ (∃ i, e = .panic i) ∧ begun = [] ∧ task.held = task.queue := by
  cases e with
  | arrive len | send | retain => cases hs
  | recv i =>
    simp only [stepTask] at hs
    split at hs
    · cases hs
      simp [ActorTask.held, *]
    · split at hs <;> cases hs
      simp [ActorTask.held, *]
    · cases hs
  | timeout i =>
    simp only [stepTask] at hs
    split at hs
    · cases hs
      simp [ActorTask.held, *]
    · cases hs
  | close i =>
    simp only [stepTask] at hs
    split at hs
    · cases hs
      simp [ActorTask.held, *]
    · cases hs
  | process i | processed i =>
    simp only [stepTask] at hs
    split at hs
    · cases hs
      simp [ActorTask.held, *]
    · cases hs
  | panic i =>
    simp only [stepTask] at hs
    split at hs
    · cases hs
      exact .inr ⟨⟨i, rfl⟩, rfl, by simp [ActorTask.held, *]⟩
    · cases hs

theorem stepTask_panic {begun : List Work} (hs : stepTask task (.panic i) = some (task', begun)) :
    begun = [] ∧ task'.held = [] := by
  simp only [stepTask] at hs
  split at hs <;> cases hs
  exact ⟨rfl, rfl⟩

/-- What a step that is no arrival does to the backlog: nothing comes, and whoever leaves it is being
processed, unless its task has panicked. -/
structure Moves (s : Router) (e : Event) (s' : Router) (begun : List Work) : Prop where
  processed : s'.processed = s.processed ++ begun
  accepted : s'.accepted = s.accepted
  refused : s'.refused = s.refused
  kept : ∀ work ∈ s'.backlog, work ∈ s.backlog
  left : ∀ work ∈ s.backlog, work ∈ s'.backlog ∨ work ∈ begun ∨
    ∃ i task, e = .panic i ∧ s.tasks[i]? = some task ∧ work ∈ task.queue
  panicked : ∀ i, e = .panic i → begun = []

theorem step_backlog (he : e.isMove = true) (hs : s.step e = some s') : ∃ begun, Moves s e s' begun := by
  rcases move_cases he hs with ⟨i, task, ⟨task', begun⟩, hi, hnext, hpanic, rfl⟩ |
    ⟨work, rfl, hrouting, hsend⟩ | ⟨i, rfl, hrouting, hroute, rfl⟩
  · refine ⟨begun, rfl, rfl, rfl, fun w hw => ?_, fun w hw => ?_, fun k hk => ?_⟩
    · refine (mem_backlog_of_getElem? hi).2 (((mem_backlog_set task' hi rfl).1 hw).imp_left fun hw => ?_)
      rcases stepTask_held hnext with hheld | ⟨⟨k, rfl⟩, -, -⟩
      · exact hheld ▸ List.mem_append_right _ hw
      · rw [(stepTask_panic hnext).2] at hw
        cases hw
    · rw [mem_backlog_set task' hi rfl]
      rcases (mem_backlog_of_getElem? hi).1 hw with hw | hw
      · rcases stepTask_held hnext with hheld | ⟨⟨k, rfl⟩, -, hqueue⟩
        · rw [← hheld, List.mem_append] at hw
          rcases hw with hw | hw
          · exact .inr (.inl hw)
          · exact .inl (.inl hw)
        · refine .inr (.inr ⟨k, task, rfl, ?_, hqueue ▸ hw⟩)
          rw [hpanic k rfl]
          exact hi
      · exact .inl (.inr hw)
    · subst hk
      exact (stepTask_panic hnext).1
  · obtain ⟨i, task, hroute, hi, ⟨hclosed, rfl⟩ | ⟨hclosed, rfl⟩⟩ := send_cases hsend
    · have hiff : ∀ w, w ∈ (start { s with
          tasks := s.tasks.set i { task with queued := task.queued.release work.len } } work).backlog ↔
          w ∈ s.backlog := by
        intro w
        rw [mem_backlog_start, mem_backlog_of_getElem? hi, hrouting, Option.some.injEq]
        simp only [List.mem_set_iff_of_getElem? hi, or_and_right, exists_or, exists_eq_left, or_assoc]
        exact or_congr_right (or_congr_right eq_comm)
      exact ⟨[], (List.append_nil _).symm, rfl, rfl, fun w => (hiff w).1, fun w hw => .inl ((hiff w).2 hw),
        nofun⟩
    · have hiff : ∀ w, w ∈ backlog { s with
          routing := none, tasks := s.tasks.set i { task with queue := task.queue ++ [work] } } ↔
          w ∈ s.backlog := by
        intro w
        rw [mem_backlog_set _ hi rfl, mem_backlog_of_getElem? hi, held_append, hrouting]
        simp only [List.mem_append, List.mem_singleton, Option.some.injEq, reduceCtorEq, or_false]
        rw [or_assoc, eq_comm, or_comm (a := work = w)]
      exact ⟨[], (List.append_nil _).symm, rfl, rfl, fun w => (hiff w).1, fun w hw => .inl ((hiff w).2 hw),
        nofun⟩
  · exact ⟨[], (List.append_nil _).symm, rfl, rfl, fun _ hw => hw, fun _ hw => .inl hw, nofun⟩

/-- Too much is waiting for the actor already to take in another message of `len` bytes. -/
def overloaded (s : Router) (len : ℕ) : Bool :=
  (s.route.bind (s.tasks[·]?)).any fun task => Option.isNone <| task.queued.admit len

/-- What an arrival does: the message is refused, and nothing else happens, or it is in the backlog. -/
structure Arrives (s : Router) (work : Work) (s' : Router) : Prop where
  routing : s.routing = none
  processed : s'.processed = s.processed
  count : s'.accepted.length + s'.refused.length = s.accepted.length + s.refused.length + 1
  backlog : ∀ w, w ∈ s'.backlog ↔ w ∈ s.backlog ∨ s.overloaded work.len = false ∧ w = work
  refused : ∀ w ∈ s'.refused, w ∈ s.refused ∨ s.overloaded work.len = true ∧ w = work

theorem step_arrive {len : ℕ} (hs : s.step (.arrive len) = some s') :
    Arrives s ⟨s.accepted.length + s.refused.length, len⟩ s' := by
  simp only [step] at hs
  split at hs
  · rename_i hrouting
    generalize hwork : (⟨s.accepted.length + s.refused.length, len⟩ : Work) = work at hs ⊢
    have hlen : work.len = len := by rw [← hwork]
    unfold arrive at hs
    split at hs
    · rename_i hroute
      cases hs
      have hfree : s.overloaded work.len = false := by rw [overloaded, hroute]; rfl
      refine ⟨hrouting, rfl, ?_, fun w => ?_, fun _ => .inl⟩
      · simp only [start, List.length_append, List.length_singleton]
        omega
      · rw [mem_backlog_start, mem_backlog, hrouting, hfree]
        simp
    · rename_i i hroute
      obtain ⟨task, hi, hs⟩ := Option.bind_eq_some_iff.1 hs
      split at hs
      · rename_i hadmit
        cases hs
        have hfull : s.overloaded work.len = true := by
          rw [overloaded, hroute, Option.bind_some, hi, Option.any_some, hadmit, Option.isNone_none]
        refine ⟨hrouting, rfl, ?_, fun w => ?_, fun w hw => ?_⟩
        · simp only [List.length_append, List.length_singleton]
          omega
        · rw [hfull]
          simp [mem_backlog]
        · exact (List.mem_append.1 hw).imp_right fun hw => ⟨hfull, List.mem_singleton.1 hw⟩
      · rename_i queued hadmit
        cases hs
        have hfree : s.overloaded work.len = false := by
          rw [overloaded, hroute, Option.bind_some, hi, Option.any_some, hadmit, Option.isNone_some]
        refine ⟨hrouting, rfl, ?_, fun w => ?_, fun _ => .inl⟩
        · simp only [List.length_append, List.length_singleton]
          omega
        · rw [mem_backlog_set { task with queued := queued } hi rfl, mem_backlog_of_getElem? hi,
            hrouting, hfree]
          simp [ActorTask.held, eq_comm, or_assoc]
  · cases hs

/-! ## How much there is to do -/

/-- How many steps a task can take before it ends, with the cost of each message that it has still to
begin. -/
def ActorTask.remaining (cost : Work → ℕ) (task : ActorTask) : ℕ :=
  (match task.stage with
    | .receiving => if task.closed then 1 else 3
    | .idle => 2
    | .taken work => (if task.closed then 3 else 5) + cost work
    | .processing _ => if task.closed then 2 else 4
    | .over => 0) + (task.queue.map fun work => 4 + cost work).sum

def remaining (cost : Work → ℕ) (s : Router) : ℕ :=
  (s.tasks.map (ActorTask.remaining cost)).sum + (s.routing.toList.map fun work => 10 + cost work).sum +
    s.route.toList.length

theorem stepTask_remaining (cost : Work → ℕ) {begun : List Work} (hs : stepTask task e = some (task', begun)) :
    task'.remaining cost + (begun.map cost).sum < task.remaining cost := by
  cases e with
  | arrive len | send | retain => cases hs
  | recv i =>
    simp only [stepTask] at hs
    split at hs
    · rename_i work rest hstage hqueue
      cases hs
      simp only [ActorTask.remaining, hstage, hqueue, List.map_cons, List.sum_cons, List.map_nil, List.sum_nil]
      split <;> omega
    · rename_i hstage hqueue
      split at hs <;> rename_i hclosed <;> cases hs
      simp [ActorTask.remaining, hstage, hqueue, hclosed]
    · cases hs
  | timeout i =>
    simp only [stepTask] at hs
    split at hs <;> rename_i h <;> cases hs
    simp [ActorTask.remaining, h]
  | close i =>
    simp only [stepTask] at hs
    split at hs <;> rename_i h <;> cases hs
    simp [ActorTask.remaining, h]
  | process i =>
    simp only [stepTask] at hs
    split at hs <;> rename_i h <;> cases hs
    simp only [ActorTask.remaining, h, List.map_cons, List.sum_cons, List.map_nil, List.sum_nil]
    split <;> omega
  | processed i =>
    simp only [stepTask] at hs
    split at hs <;> rename_i h <;> cases hs
    simp only [ActorTask.remaining, h, List.map_nil, List.sum_nil]
    split <;> omega
  | panic i =>
    simp only [stepTask] at hs
    split at hs <;> rename_i h <;> cases hs
    simp only [ActorTask.remaining, h, List.map_nil, List.sum_nil]
    split <;> omega

/-- With every step that is no arrival there is less left to do, the messages that it begins to process
included. -/
theorem step_remaining (cost : Work → ℕ) (he : e.isMove = true) (hs : s.step e = some s') {begun : List Work}
    (hbegun : s'.processed = s.processed ++ begun) :
    s'.remaining cost + (begun.map cost).sum < s.remaining cost := by
  rcases move_cases he hs with ⟨i, task, ⟨task', begun'⟩, hi, hnext, -, rfl⟩ |
    ⟨work, -, hrouting, hsend⟩ | ⟨i, -, hrouting, hroute, rfl⟩
  · cases List.append_cancel_left hbegun
    have hlt := stepTask_remaining cost hnext
    simp only [remaining, List.sum_map_of_getElem? hi, List.sum_map_set hi]
    omega
  · obtain ⟨i, task, hroute, hi, ⟨-, rfl⟩ | ⟨-, rfl⟩⟩ := send_cases hsend
    · obtain rfl : begun = [] := List.self_eq_append_right.1 hbegun
      have hsame : ActorTask.remaining cost { task with queued := task.queued.release work.len } =
          task.remaining cost := rfl
      have hnew : ActorTask.remaining cost ⟨[work], false, ⟨1, work.len⟩, .receiving⟩ = 7 + cost work := by
        simp [ActorTask.remaining]
        omega
      simp only [remaining, start, List.map_append, List.sum_append, List.map_cons, List.map_nil,
        List.sum_cons, List.sum_nil, List.sum_map_of_getElem? hi, List.sum_map_set hi, hsame, hnew, hrouting,
        hroute, Option.toList_none, Option.toList_some, List.length_cons, List.length_nil]
      omega
    · obtain rfl : begun = [] := List.self_eq_append_right.1 hbegun
      have hmore : ActorTask.remaining cost { task with queue := task.queue ++ [work] } =
          task.remaining cost + (4 + cost work) := by
        simp [ActorTask.remaining]
        omega
      simp only [remaining, List.sum_map_of_getElem? hi, List.sum_map_set hi, hmore, hrouting,
        Option.toList_none, Option.toList_some, List.map_cons, List.map_nil, List.sum_cons, List.sum_nil]
      omega
  · obtain rfl : begun = [] := List.self_eq_append_right.1 hbegun
    simp [remaining, hrouting, hroute]

/-! ## The next step -/

/-- The router has the queue that it sends to, and a task ends with an empty queue. -/
structure Sound (s : Router) : Prop where
  route : ∀ i, s.route = some i → i < s.tasks.length
  routing : s.routing ≠ none → s.route ≠ none
  ended : ∀ task ∈ s.tasks, task.stage = .over → task.queue = [] ∧ task.closed = true

theorem sound_new : new.Sound := ⟨nofun, fun h => absurd rfl h, nofun⟩

theorem stepTask_over {begun : List Work} (hs : stepTask task e = some (task', begun)) :
    task'.stage = .over → task'.queue = [] ∧ task'.closed = true := by
  intro hover
  cases e with
  | arrive len | send | retain => cases hs
  | recv i =>
    simp only [stepTask] at hs
    split at hs
    · cases hs
      cases hover
    · rename_i hstage hqueue
      split at hs <;> rename_i hclosed <;> cases hs
      exact ⟨hqueue, hclosed⟩
    · cases hs
  | timeout i | close i | process i | processed i =>
    simp only [stepTask] at hs
    split at hs <;> cases hs
    cases hover
  | panic i =>
    simp only [stepTask] at hs
    split at hs <;> cases hs
    exact ⟨rfl, rfl⟩

theorem Sound.start (h : s.Sound) (work : Work) : (s.start work).Sound := by
  refine ⟨fun i hi => ?_, fun hrouting => absurd rfl hrouting, fun task ht hover => ?_⟩
  · cases hi
    simp [Router.start]
  · rcases List.mem_append.1 ht with ht | ht
    · exact h.ended task ht hover
    · rw [List.mem_singleton.1 ht] at hover
      cases hover

theorem Sound.set (h : s.Sound) (task' : ActorTask) (hi : s.tasks[i]? = some task)
    (hover : task'.stage = .over → task'.queue = [] ∧ task'.closed = true) :
    Sound { s with tasks := s.tasks.set i task' } := by
  refine ⟨fun k hk => ?_, h.routing, fun t ht => ?_⟩
  · show k < (s.tasks.set i task').length
    rw [List.length_set]
    exact h.route k hk
  · rcases (List.mem_set_iff_of_getElem? hi).1 ht with rfl | ht
    · exact hover
    · exact h.ended t ((List.mem_iff_of_getElem? hi).2 (.inr ht))

theorem Sound.step (h : s.Sound) (hs : s.step e = some s') : s'.Sound := by
  by_cases he : e.isMove = true
  · rcases move_cases he hs with ⟨i, task, ⟨task', begun⟩, hi, hnext, -, rfl⟩ |
      ⟨work, -, hrouting, hsend⟩ | ⟨i, -, hrouting, hroute, rfl⟩
    · have hset := h.set task' hi (stepTask_over hnext)
      exact ⟨hset.route, hset.routing, hset.ended⟩
    · obtain ⟨i, task, hroute, hi, ⟨-, rfl⟩ | ⟨hclosed, rfl⟩⟩ := send_cases hsend
      · have hover := h.ended task (List.mem_of_getElem? hi)
        exact (h.set { task with queued := task.queued.release work.len } hi hover).start work
      · have hset := h.set { task with queue := task.queue ++ [work] } hi fun hover => by
          cases hclosed.symm.trans (h.ended task (List.mem_of_getElem? hi) hover).2
        exact ⟨hset.route, fun hnone => absurd rfl hnone, hset.ended⟩
    · exact ⟨nofun, fun hne => absurd hrouting hne, h.ended⟩
  · cases e with
    | arrive len =>
      simp only [Router.step] at hs
      split at hs
      · unfold Router.arrive at hs
        split at hs
        · cases hs
          have hsound : Sound { s with
              accepted := s.accepted ++ [⟨s.accepted.length + s.refused.length, len⟩] } :=
            ⟨h.route, h.routing, h.ended⟩
          exact hsound.start _
        · rename_i i hroute
          obtain ⟨task, hi, hs⟩ := Option.bind_eq_some_iff.1 hs
          split at hs
          · cases hs
            exact ⟨h.route, h.routing, h.ended⟩
          · rename_i queued hadmit
            cases hs
            have hset := h.set { task with queued := queued } hi
              (h.ended task (List.mem_of_getElem? hi))
            exact ⟨hset.route, fun _ => by simp [hroute], hset.ended⟩
      · cases hs
    | send | retain | recv i | timeout i | close i | process i | processed i | panic i =>
      exact absurd rfl he

/-- The step is neither an arrival nor the end of a message that is being processed. -/
def Event.isHandling : Event → Bool
  | .arrive _ | .processed _ | .panic _ => false
  | .send | .retain | .recv _ | .timeout _ | .close _ | .process _ => true

/-- As long as there is a backlog there is a step to take, if no task is busy processing. -/
theorem Sound.exists_step (h : s.Sound) {work : Work} (hw : work ∈ s.backlog) :
    (∃ e s', e.isHandling = true ∧ s.step e = some s') ∨
      ∃ (i : ℕ) (task : ActorTask) (w : Work), s.tasks[i]? = some task ∧ task.stage = .processing w := by
  rcases mem_backlog.1 hw with ⟨task, ht, hheld⟩ | hrouting
  · obtain ⟨i, hi⟩ := List.mem_iff_getElem?.1 ht
    have hstep : ∀ {e : Event}, e.isHandling = true → s.step e = s.runTask i e → stepTask task e ≠ none →
        ∃ e s', e.isHandling = true ∧ s.step e = some s' := by
      intro e he heq hnext
      obtain ⟨next, hnext⟩ := Option.ne_none_iff_exists'.1 hnext
      have hrun : s.runTask i e = some { s with
          tasks := s.tasks.set i next.1, processed := s.processed ++ next.2 } := by
        rw [runTask, hi, Option.bind_eq_bind, Option.bind_some, hnext]
        rfl
      exact ⟨e, _, he, heq.trans hrun⟩
    cases hstage : task.stage with
    | receiving =>
      cases hqueue : task.queue with
      | nil => simp [ActorTask.held, hstage, hqueue] at hheld
      | cons w rest => exact .inl (hstep (e := .recv i) rfl rfl (by simp [stepTask, hstage, hqueue]))
    | idle => exact .inl (hstep (e := .close i) rfl rfl (by simp [stepTask, hstage]))
    | taken w => exact .inl (hstep (e := .process i) rfl rfl (by simp [stepTask, hstage]))
    | processing w => exact .inr ⟨i, task, w, hi, hstage⟩
    | _ =>
      have hqueue := (h.ended task ht hstage).1
      simp [ActorTask.held, hstage, hqueue] at hheld
  · obtain ⟨i, hroute⟩ := Option.ne_none_iff_exists'.1 (h.routing (by simp [hrouting]))
    have hi := List.getElem?_eq_getElem (h.route i hroute)
    refine .inl ⟨.send, ?_⟩
    have hsend : ∃ s', s.send work = some s' := by
      rw [send, hroute, Option.bind_eq_bind, Option.bind_some, hi]
      simp only [Option.bind_eq_bind, Option.bind_some]
      split
      · exact ⟨_, rfl⟩
      · exact ⟨_, rfl⟩
    obtain ⟨s', hs'⟩ := hsend
    exact ⟨s', rfl, by simpa [Router.step, hrouting] using hs'⟩

end Router
end Zestors
