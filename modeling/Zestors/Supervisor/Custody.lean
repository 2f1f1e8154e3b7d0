import Zestors.Channel.Spawns
import Zestors.Supervisor.Lifecycle

/-!
# A supervisee and its tasks

A supervisee over the channel of its specification. What it starts is a task on that channel, which it
holds as a child until the task is over; a child that is dropped tells its task to abort. Anybody else
who has the address may send, and may spawn on the channel too.

No task is left on its own: one that is not over and has not been told to abort is the one that the
supervisee holds (`custody_of_reachable`). `refines_supervisee` connects this to the machine that the
strategies see.
-/

namespace Zestors

/-- What awaiting a task yields. -/
def Outcome.joined : Outcome → Except JoinError Unit
  | ok => .ok ()
  | err => .error .unhandledError
  | panicked => .error .panic
  | aborted => .error .aborted

/-- The blueprint is instantiated under a timeout, which is looked at last. -/
structure StartFuture where
  instantiated : Option Bool
  elapsed : Bool
deriving DecidableEq

/-- `SuperviseeState` with what it holds; a child is known by the number of its task. -/
inductive ChildState
  | starting (fut : StartFuture)
  /-- A poll is on its way: it has an inbox, and registers next. -/
  | spawning
  | initializing (child : ℕ)
  | alive (child : ℕ)
  /-- `elapsed` is the abort timeout. -/
  | shuttingDown (child : ℕ) (elapsed : Bool)
  | dead
deriving DecidableEq

namespace ChildState

def state : ChildState → SuperviseeState
  | starting _ | spawning => .starting
  | initializing _ => .initializing
  | alive _ => .alive
  | shuttingDown _ _ => .shuttingDown
  | dead => .dead

def child : ChildState → Option ℕ
  | initializing child | alive child | shuttingDown child _ => some child
  | starting _ | spawning | dead => none

def isSpawning : ChildState → Bool
  | spawning => true
  | _ => false

end ChildState

/-- `dropped` is set once the supervisee is gone. `outcomes` has how tasks have ended and `aborted` those
that were told to abort. The last two fields are ghosts: the tasks that the supervisee has spawned, and
the items that it has yielded. -/
structure Custody where
  actor : Incarnations
  spec : ChildSpec
  restarter : Option RestartLimiter
  state : ChildState
  dropped : Bool
  outcomes : List (ℕ × Outcome)
  aborted : List ℕ
  own : List ℕ
  items : List SuperviseeItem

namespace Custody

def new (spec : ChildSpec) (channel : Channel) : Custody :=
  ⟨.new channel, spec, spec.cfg.intensity.map RestartLimiter.new, .dead, false, [], [], [], []⟩

def supervisee (s : Custody) : Supervisee := ⟨s.spec, s.state.state, s.restarter⟩

/-- Not in the middle of a poll. -/
def isFree (s : Custody) : Bool := !s.dropped && !s.state.isSpawning

def yield (s : Custody) (item : SuperviseeItem) (state : ChildState) : Custody :=
  { s with state := state, items := s.items ++ [item] }

def abort (s : Custody) (child : ℕ) : Custody := { s with aborted := s.aborted.insert child }

/-- `Channel::signal` -/
def signal (s : Custody) (signal : SignalInterface) : Custody :=
  if s.actor.channel.status.isDead || s.actor.channel.status.isExiting then s
  else if s.actor.channel.signalQueue.length ≥ s.actor.channel.signalQueueLimit then s
  else { s with actor := { s.actor with channel := { s.actor.channel with
    signalQueue := s.actor.channel.signalQueue ++ [⟨signal, s.actor.tasks.length⟩] } } }

/-- What the handle of a task is ready with. -/
def joined (s : Custody) (child : ℕ) : Option (Except JoinError Unit) :=
  match s.actor.tasks[child]? with
  | some (.ending []) => (s.outcomes.lookup child).map Outcome.joined
  | _ => none

def start (s : Custody) : Custody × Except SuperviseeIsShuttingDown Bool :=
  match s.state with
  | .dead => ({ s with state := .starting ⟨none, false⟩ }, .ok true)
  | .starting _ | .spawning | .initializing _ | .alive _ => (s, .ok false)
  | .shuttingDown _ _ => (s, .error .mk)

def stop (s : Custody) : Custody × StopOutcome :=
  match s.state with
  | .dead => (s, .dead)
  | .starting _ | .spawning => ({ s with state := .dead }, .cancelled)
  | .initializing child | .alive child =>
    ({ s.signal .shutdown with state := .shuttingDown child false }, .shuttingDown)
  | .shuttingDown _ _ => (s, .shuttingDown)

/-- The supervisee goes, and its child with it. -/
def drop (s : Custody) : Custody :=
  match s.state.child with
  | some child => { s.abort child with state := .dead, dropped := true }
  | none => { s with state := .dead, dropped := true }

/-- `Supervisee::poll_next`, up to where it spawns. -/
def poll (s : Custody) : Custody :=
  match s.state with
  | .dead | .spawning => s
  | .starting ⟨some true, _⟩ =>
    match s.actor.step .spawn with
    | some actor => { s with actor := actor, state := .spawning }
    | none => s.yield (.started (.error .concurrentInbox)) .dead
  | .starting ⟨some false, _⟩ => s.yield (.started (.error .instantiation)) .dead
  | .starting ⟨none, true⟩ => s.yield (.started (.error .timeout)) .dead
  | .starting ⟨none, false⟩ => s
  | .initializing child =>
    match s.actor.channel.status with
    | .running => s.yield (.initialized (.ok ())) (.alive child)
    | .exited exit => (s.abort child).yield (.initialized (.error exit)) .dead
    | .initializing | .suspended | .exiting => s
  | .alive child =>
    match s.joined child with
    | some (.ok _) => s.yield (.exit .normalExit) .dead
    | some (.error e) => s.yield (.exit (.joinError e)) .dead
    | none => s
  | .shuttingDown child elapsed =>
    match s.joined child with
    | some (.ok _) => s.yield (.exit .normalShutdown) .dead
    | some (.error e) => s.yield (.exit (.joinError e)) .dead
    | none => if elapsed then s.abort child else s

/-- The rest of a poll that spawns: `register_spawned`, and the `expect` of what it returns. -/
def spawned (s : Custody) : Option Custody := do
  let actor ← s.actor.step .register
  match s.actor.channel.status.registerSpawned.2 with
  | .ok _ => do
    let actor ← actor.step (.recordSpawn s.actor.tasks.length)
    some { s.yield (.started (.ok ())) (.initializing s.actor.tasks.length) with
      actor := actor
      own := s.own ++ [s.actor.tasks.length] }
  -- the supervisee unwinds
  | .error _ => some { s with actor := actor, state := .dead, dropped := true }

/-- The timer of the state fires. -/
def elapse (s : Custody) : Option Custody :=
  match s.state with
  | .starting fut => some { s with state := .starting { fut with elapsed := true } }
  | .shuttingDown child _ => some { s with state := .shuttingDown child true }
  | _ => none

def instantiate (s : Custody) (ok : Bool) : Option Custody :=
  match s.state with
  | .starting ⟨none, elapsed⟩ => some { s with state := .starting ⟨some ok, elapsed⟩ }
  | _ => none

/-- How a task has ended, if `e` ends it. -/
def ended : Incarnations.Event → List (ℕ × Outcome)
  | .finish i outcome => [(i, outcome)]
  | _ => []

/-- Something happens to the channel. -/
def others (s : Custody) (e : Incarnations.Event) : Option Custody :=
  (s.actor.step e).map fun actor => { s with actor := actor, outcomes := ended e ++ s.outcomes }

/-- Nobody registers with the inbox of the supervisee. -/
def stepActor (s : Custody) : Incarnations.Event → Option Custody
  | .register =>
    if s.state.isSpawning && s.actor.spawning ≤ 1 then none else s.others .register
  | e => s.others e

inductive Event
  | start
  | stop
  | drop
  | permit (now : Instant)
  | instantiate (ok : Bool)
  | elapse
  | poll
  /-- The rest of a poll that spawns. -/
  | spawned
  | actor (e : Incarnations.Event)

def step (s : Custody) : Event → Option Custody
  | .start => if s.isFree then some s.start.1 else none
  | .stop => if s.isFree then some s.stop.1 else none
  | .drop => if s.isFree then some s.drop else none
  | .permit now =>
    if s.isFree then
      some { s with restarter := (s.supervisee.acquireRestartPermit now).1.restarter }
    else none
  | .instantiate ok => s.instantiate ok
  | .elapse => s.elapse
  | .poll => if s.isFree then some s.poll else none
  | .spawned => if s.state.isSpawning then s.spawned else none
  | .actor e => s.stepActor e

/-- Every interleaving of the supervisee, its tasks and the others. -/
def runs : Lts Custody Event :=
  Lts.ofFun (fun s => ∃ spec backpressure msgs signals,
    s = new spec (.withLimits backpressure msgs signals)) step

end Custody

/-! ## What happens to a task -/

namespace Incarnations
variable {s s' : Incarnations} {e : Event}

/-- How one task moves, or none does. -/
inductive TaskMove (s s' : Incarnations) : Event → Prop
  | none {e : Event} : s'.tasks = s.tasks → TaskMove s s' e
  | register : s'.tasks = s.tasks ++ [.registered] → TaskMove s s' .register
  | recordSpawn {i : ℕ} : s.tasks[i]? = some .registered → s'.tasks = s.tasks.set i .running →
      TaskMove s s' (.recordSpawn i)
  | finish {i : ℕ} {outcome : Outcome} : s.tasks[i]? = some .running →
      s'.tasks = s.tasks.set i (.ending outcome.todo) → TaskMove s s' (.finish i outcome)
  | cleanup {i : ℕ} {op : Cleanup} {todo : List Cleanup} : s.tasks[i]? = some (.ending (op :: todo)) →
      s' = (s.cleanup (i + 1) op).1.setTask i (.ending ((s.cleanup (i + 1) op).2 ++ todo)) →
      TaskMove s s' (.cleanup i)

theorem tasks_popMsg (hs : s.popMsg = some s') : s'.tasks = s.tasks := by
  obtain ⟨ch, rfl, -⟩ := popMsg_eq_some hs
  rfl

theorem tasks_popSignal (hs : s.popSignal = some s') : s'.tasks = s.tasks := by
  obtain ⟨ch, rfl, -⟩ := popSignal_eq_some hs
  rfl

theorem taskMove_of_step (hs : s.step e = some s') : TaskMove s s' e := by
  cases e with
  | pushMsg msg | pushSignal signal => cases hs; exact .none rfl
  | spawn =>
    simp only [step] at hs
    split at hs <;> cases hs
    exact .none rfl
  | register =>
    simp only [step] at hs
    split at hs
    · cases hs
    · split at hs <;> cases hs
      · exact .register rfl
      · exact .none rfl
  | recordSpawn i =>
    simp only [step] at hs
    split at hs
    · rename_i hi
      cases hs
      exact .recordSpawn hi rfl
    · cases hs
  | registerInitialized i | registerExiting i =>
    obtain ⟨-, hs⟩ := whileRunning_eq_some hs
    cases hs
    exact .none rfl
  | popMsg i => exact .none (tasks_popMsg (whileRunning_eq_some hs).2)
  | popSignal i => exact .none (tasks_popSignal (whileRunning_eq_some hs).2)
  | finish i outcome =>
    obtain ⟨hi, hs⟩ := whileRunning_eq_some hs
    cases hs
    exact .finish hi rfl
  | cleanup i =>
    simp only [step] at hs
    split at hs
    · rename_i op todo hi
      cases hs
      exact .cleanup hi rfl
    · cases hs
  | cleanupLost k =>
    simp only [step] at hs
    split at hs
    · rename_i op todo hk
      cases hs
      exact .none (s.cleanup_frame 0 op).1
    · cases hs

theorem tasks_cleanup (n : ℕ) (op : Cleanup) (i : ℕ) (stage : Stage) :
    ((s.cleanup n op).1.setTask i stage).tasks = s.tasks.set i stage :=
  congrArg (List.set · i stage) (s.cleanup_frame n op).1

theorem length_tasks_le (hs : s.step e = some s') : s.tasks.length ≤ s'.tasks.length := by
  cases taskMove_of_step hs with
  | none h => rw [h]
  | register h => rw [h, List.length_append]; omega
  | recordSpawn hi h | finish hi h => rw [h, List.length_set]
  | cleanup hi h => rw [h, tasks_cleanup, List.length_set]

/-- What is over stays so. -/
theorem over_of_step {i : ℕ} (hs : s.step e = some s') (h : s.tasks[i]? = some (.ending [])) :
    s'.tasks[i]? = some (.ending []) := by
  have hset : ∀ {j stage stage'}, s.tasks[j]? = some stage → stage ≠ .ending [] →
      (s.tasks.set j stage')[i]? = some (.ending []) := by
    intro j stage stage' hj hne
    rw [List.getElem?_set_of_getElem? hj, if_neg, h]
    rintro rfl
    rw [hj] at h
    exact hne (Option.some.inj h)
  cases taskMove_of_step hs with
  | none heq => rw [heq, h]
  | register heq =>
    rw [heq, List.getElem?_append_left (List.getElem?_eq_some_iff.1 h).1, h]
  | recordSpawn hj heq | finish hj heq => rw [heq, hset hj (by simp)]
  | cleanup hj heq => rw [heq, tasks_cleanup, hset hj (by simp)]

/-- Only the end of its future makes a task end. -/
theorem ending_of_step {i : ℕ} {todo : List Cleanup} (hs : s.step e = some s')
    (h : s'.tasks[i]? = some (.ending todo)) :
    (∃ todo', s.tasks[i]? = some (.ending todo')) ∨ ∃ outcome, e = .finish i outcome := by
  cases taskMove_of_step hs with
  | none heq => exact .inl ⟨todo, heq ▸ h⟩
  | register heq =>
    rw [heq] at h
    rcases List.getElem?_concat_eq_some.1 h with h | ⟨-, h⟩
    · exact .inl ⟨todo, h⟩
    · cases h
  | recordSpawn hj heq =>
    rw [heq, List.getElem?_set_of_getElem? hj] at h
    split at h
    · cases h
    · exact .inl ⟨todo, h⟩
  | finish hj heq =>
    rw [heq, List.getElem?_set_of_getElem? hj] at h
    split at h
    · rename_i hij
      obtain rfl := hij
      exact .inr ⟨_, rfl⟩
    · exact .inl ⟨todo, h⟩
  | cleanup hj heq =>
    rw [heq, tasks_cleanup, List.getElem?_set_of_getElem? hj] at h
    split at h
    · rename_i hij
      exact .inl ⟨_, hij ▸ hj⟩
    · exact .inl ⟨todo, h⟩

end Incarnations

/-! ## No task is left on its own -/

namespace Custody
variable {s s' : Custody} {e : Event}

theorem others_of_stepActor {e : Incarnations.Event} (hs : s.stepActor e = some s') :
    s.others e = some s' := by
  unfold stepActor at hs
  split at hs
  · split at hs
    · cases hs
    · exact hs
  · exact hs

def IsOver (s : Custody) (i : ℕ) : Prop := s.actor.tasks[i]? = some (.ending [])

/-- The abort timeout of a stop has passed. -/
def HasElapsed (s : Custody) : Prop := ∃ child, s.state = .shuttingDown child true

/-- The tasks of the supervisee exist; each one that is not over and has not been told to abort is its
child; the child is told to abort after its timeout only; and how a task has ended is known. -/
structure Holds (s : Custody) : Prop where
  own : ∀ i ∈ s.own, i < s.actor.tasks.length
  aborted : ∀ i ∈ s.aborted, i ∈ s.own
  child : ∀ i, s.state.child = some i → i ∈ s.own
  kept : ∀ i ∈ s.own, ¬ s.IsOver i → i ∉ s.aborted → s.state.child = some i
  spared : ∀ i, s.state.child = some i → i ∈ s.aborted → s.HasElapsed
  outcomes : ∀ i todo, s.actor.tasks[i]? = some (.ending todo) → ∃ outcome, s.outcomes.lookup i = some outcome
  gone : s.dropped = true → s.state = .dead

/-- What a poll does. -/
inductive PollMove (s : Custody) : Custody → Prop
  | idle : PollMove s s
  | inbox {fut : StartFuture} {actor : Incarnations} : s.state = .starting fut →
      s.actor.step .spawn = some actor → PollMove s { s with actor := actor, state := .spawning }
  | failed {fut : StartFuture} (e : StartSuperviseeError) : s.state = .starting fut →
      (e = .concurrentInbox → s.actor.step .spawn = none) →
      PollMove s (s.yield (.started (.error e)) .dead)
  | initialized {child : ℕ} : s.state = .initializing child →
      PollMove s (s.yield (.initialized (.ok ())) (.alive child))
  | initExit {child : ℕ} {exit : ExitStatus} : s.state = .initializing child →
      s.actor.channel.status = .exited exit →
      PollMove s ((s.abort child).yield (.initialized (.error exit)) .dead)
  | exited {child : ℕ} {exit : SuperviseeExit} : s.state.child = some child → s.IsOver child →
      s.supervisee.supervise (.exit exit) = some (s.supervisee.withState .dead) →
      PollMove s (s.yield (.exit exit) .dead)
  | aborted {child : ℕ} : s.state = .shuttingDown child true → PollMove s (s.abort child)

theorem isOver_of_joined {child : ℕ} {result : Except JoinError Unit}
    (h : s.joined child = some result) : s.IsOver child := by
  unfold joined at h
  split at h
  · assumption
  · cases h

theorem pollMove_poll (s : Custody) : PollMove s s.poll := by
  unfold poll
  split
  · exact .idle
  · exact .idle
  · rename_i hstate
    cases hspawn : s.actor.step .spawn with
    | some actor => exact .inbox hstate hspawn
    | none => exact .failed _ hstate fun _ => hspawn
  · exact .failed _ ‹_› (by simp)
  · exact .failed _ ‹_› (by simp)
  · exact .idle
  · rename_i child hstate
    split
    · exact .initialized hstate
    · exact .initExit hstate ‹_›
    all_goals exact .idle
  · rename_i child hstate
    have hchild : s.state.child = some child := by rw [hstate]; rfl
    have hkind : s.supervisee.state = .alive := by rw [supervisee, hstate]; rfl
    cases hjoined : s.joined child with
    | none => exact .idle
    | some result =>
      cases result with
      | ok _ => exact .exited hchild (isOver_of_joined hjoined) (by simp [Supervisee.supervise, hkind])
      | error e => exact .exited hchild (isOver_of_joined hjoined) (by simp [Supervisee.supervise, hkind])
  · rename_i child elapsed hstate
    have hchild : s.state.child = some child := by rw [hstate]; rfl
    have hkind : s.supervisee.state = .shuttingDown := by rw [supervisee, hstate]; rfl
    cases hjoined : s.joined child with
    | none =>
      cases elapsed with
      | true => exact .aborted hstate
      | false => exact .idle
    | some result =>
      cases result with
      | ok _ => exact .exited hchild (isOver_of_joined hjoined) (by simp [Supervisee.supervise, hkind])
      | error e => exact .exited hchild (isOver_of_joined hjoined) (by simp [Supervisee.supervise, hkind])

/-- A poll that spawns holds the task that it has spawned; one that finds the actor alive unwinds. -/
theorem spawned_cases (hs : s.spawned = some s') :
    (s.actor.channel.status.isDead = true ∧ ∃ actor : Incarnations,
      actor.tasks = s.actor.tasks ++ [.running] ∧ actor.lost = s.actor.lost ∧
      actor.spawning = s.actor.spawning - 1 ∧
      s' = { s.yield (.started (.ok ())) (.initializing s.actor.tasks.length) with
        actor := actor
        own := s.own ++ [s.actor.tasks.length] }) ∨
    (s.actor.channel.status.isDead = false ∧ ∃ actor : Incarnations, actor.tasks = s.actor.tasks ∧
      s' = { s with actor := actor, state := .dead, dropped := true }) := by
  obtain ⟨actor, hactor, hs⟩ := Option.bind_eq_some_iff.1 hs
  simp only [Incarnations.step] at hactor
  split at hactor
  · cases hactor
  cases hstatus : s.actor.channel.status with
  | exited status =>
    rw [hstatus] at hactor hs
    cases hactor
    refine .inl ⟨rfl, ?_⟩
    obtain ⟨actor, hactor, hs⟩ := Option.bind_eq_some_iff.1 hs
    have hlast : (s.actor.tasks ++ [Stage.registered])[s.actor.tasks.length]? = some .registered :=
      List.getElem?_concat_length
    simp only [Incarnations.step, Incarnations.setStatus, hlast] at hactor
    cases hactor
    cases hs
    refine ⟨_, ?_, ?_, ?_, rfl⟩
    · simp [Incarnations.setTask]
    · rfl
    · rfl
  | initializing | running | suspended | exiting =>
    rw [hstatus] at hactor hs
    cases hactor
    cases hs
    refine .inr ⟨rfl, _, ?_, rfl⟩
    rfl

theorem tasks_signal (signal : SignalInterface) : (s.signal signal).actor.tasks = s.actor.tasks := by
  unfold Custody.signal
  split
  · rfl
  · split <;> rfl

theorem mem_aborted_abort {child i : ℕ} : i ∈ (s.abort child).aborted ↔ i = child ∨ i ∈ s.aborted :=
  List.mem_insert_iff

namespace Holds

theorem change (h : s.Holds) (htasks : s'.actor.tasks = s.actor.tasks) (hown : s'.own = s.own)
    (houtcomes : s'.outcomes = s.outcomes)
    (htold : ∀ i ∈ s'.aborted, i ∈ s.aborted ∨ s.state.child = some i)
    (hsub : ∀ i ∈ s.aborted, i ∈ s'.aborted)
    (hchild : ∀ i, s'.state.child = some i → s.state.child = some i)
    (hleft : ∀ i, s.state.child = some i → s'.state.child = some i ∨ s.IsOver i ∨ i ∈ s'.aborted)
    (hspared : ∀ i, s'.state.child = some i → i ∈ s'.aborted → s'.HasElapsed)
    (hgone : s'.dropped = true → s'.state = .dead) : s'.Holds where
  own := by rw [hown, htasks]; exact h.own
  aborted i hi := by
    rw [hown]
    exact (htold i hi).elim (h.aborted i) (h.child i)
  child i hi := hown ▸ h.child i (hchild i hi)
  kept i hi hover hnot := by
    have hover : ¬ s.IsOver i := fun ho => hover (by unfold IsOver; rw [htasks]; exact ho)
    have hheld := h.kept i (hown ▸ hi) hover fun hi => hnot (hsub i hi)
    exact ((hleft i hheld).resolve_right fun hor => hor.elim hover hnot)
  spared := hspared
  outcomes := by rw [htasks, houtcomes]; exact h.outcomes
  gone := hgone

theorem letGo (h : s.Holds) (htasks : s'.actor.tasks = s.actor.tasks) (hown : s'.own = s.own)
    (houtcomes : s'.outcomes = s.outcomes)
    (htold : ∀ i ∈ s'.aborted, i ∈ s.aborted ∨ s.state.child = some i)
    (hsub : ∀ i ∈ s.aborted, i ∈ s'.aborted) (hdead : s'.state = .dead)
    (hleft : ∀ i, s.state.child = some i → s.IsOver i ∨ i ∈ s'.aborted) : s'.Holds := by
  have hnone : s'.state.child = none := by rw [hdead]; rfl
  refine h.change htasks hown houtcomes htold hsub (fun i hi => ?_) (fun i hi => .inr (hleft i hi))
    (fun i hi => ?_) fun _ => hdead
  · rw [hnone] at hi
    cases hi
  · rw [hnone] at hi
    cases hi

theorem same (h : s.Holds) (htasks : s'.actor.tasks = s.actor.tasks) (hown : s'.own = s.own)
    (houtcomes : s'.outcomes = s.outcomes) (haborted : s'.aborted = s.aborted)
    (hchild : s'.state.child = s.state.child) (helapsed : ¬ s.HasElapsed)
    (hgone : s'.dropped = true → s'.state = .dead) : s'.Holds := by
  refine h.change htasks hown houtcomes (fun i hi => .inl (haborted ▸ hi)) (fun i hi => haborted ▸ hi)
    (fun i hi => hchild ▸ hi) (fun i hi => .inl (hchild ▸ hi)) (fun i hi hmem => ?_) hgone
  exact absurd (h.spared i (hchild ▸ hi) (haborted ▸ hmem)) helapsed

theorem poll (h : s.Holds) (hfree : s.dropped = false) : s.poll.Holds := by
  have hgone : ∀ {state : ChildState}, s.dropped = true → state = .dead := by
    intro state hd
    rw [hfree] at hd
    cases hd
  have hmove := pollMove_poll s
  generalize s.poll = s' at hmove ⊢
  cases hmove with
  | idle => exact h
  | inbox hstate hspawn =>
    refine h.same ?_ rfl rfl rfl (by rw [hstate]; rfl) ?_ hgone
    · simp only [Incarnations.step] at hspawn
      split at hspawn <;> cases hspawn
      rfl
    · rintro ⟨child, hs⟩
      rw [hs] at hstate
      cases hstate
  | failed e hstate _ =>
    refine h.letGo rfl rfl rfl (fun i hi => .inl hi) (fun i hi => hi) rfl fun i hi => ?_
    rw [hstate] at hi
    cases hi
  | initialized hstate =>
    refine h.same rfl rfl rfl rfl (by rw [hstate]; rfl) ?_ hgone
    rintro ⟨child, hs⟩
    rw [hs] at hstate
    cases hstate
  | @initExit child exit hstate _ =>
    have hchild : s.state.child = some child := by rw [hstate]; rfl
    refine h.letGo rfl rfl rfl (fun i hi => ?_) (fun i hi => mem_aborted_abort.2 (.inr hi)) rfl
      fun i hi => .inr ?_
    · exact (mem_aborted_abort.1 hi).elim (fun heq => .inr (heq ▸ hchild)) .inl
    · exact mem_aborted_abort.2 (.inl (Option.some.inj (hi.symm.trans hchild)))
  | @exited child exit hchild hover _ =>
    refine h.letGo rfl rfl rfl (fun i hi => .inl hi) (fun i hi => hi) rfl fun i hi => .inl ?_
    obtain rfl : child = i := Option.some.inj (hchild.symm.trans hi)
    exact hover
  | @aborted child hstate =>
    have hchild : s.state.child = some child := by rw [hstate]; rfl
    refine h.change rfl rfl rfl (fun i hi => ?_) (fun i hi => mem_aborted_abort.2 (.inr hi))
      (fun i hi => hi) (fun i hi => .inl hi) (fun i _ _ => ⟨child, hstate⟩) hgone
    exact (mem_aborted_abort.1 hi).elim (fun heq => .inr (heq ▸ hchild)) .inl

theorem stop (h : s.Holds) (hfree : s.dropped = false) : s.stop.1.Holds := by
  have hgone : ∀ {state : ChildState}, s.dropped = true → state = .dead := by
    intro state hd
    rw [hfree] at hd
    cases hd
  have hshutdown : ∀ {child}, s.state.child = some child → ¬ s.HasElapsed →
      Holds { s.signal .shutdown with state := .shuttingDown child false } := by
    intro child hchild helapsed
    have hframe : (s.signal .shutdown).own = s.own ∧ (s.signal .shutdown).outcomes = s.outcomes ∧
        (s.signal .shutdown).aborted = s.aborted ∧ (s.signal .shutdown).dropped = s.dropped := by
      unfold Custody.signal
      split
      · exact ⟨rfl, rfl, rfl, rfl⟩
      · split <;> exact ⟨rfl, rfl, rfl, rfl⟩
    obtain ⟨hown, houtcomes, haborted, hdropped⟩ := hframe
    exact h.same (tasks_signal .shutdown) hown houtcomes haborted hchild.symm helapsed
      fun hd => hgone (hdropped ▸ hd)
  unfold Custody.stop
  cases hstate : s.state with
  | dead | shuttingDown child elapsed => exact h
  | starting fut | spawning =>
    refine h.letGo rfl rfl rfl (fun i hi => .inl hi) (fun i hi => hi) rfl fun i hi => ?_
    rw [hstate] at hi
    cases hi
  | initializing child | alive child =>
    refine hshutdown (by rw [hstate]; rfl) ?_
    rintro ⟨child, hs⟩
    rw [hs] at hstate
    cases hstate

theorem drop (h : s.Holds) : s.drop.Holds := by
  unfold Custody.drop
  cases hchild : s.state.child with
  | none =>
    refine h.letGo rfl rfl rfl (fun i hi => .inl hi) (fun i hi => hi) rfl fun i hi => ?_
    rw [hchild] at hi
    cases hi
  | some child =>
    refine h.letGo rfl rfl rfl (fun i hi => ?_) (fun i hi => mem_aborted_abort.2 (.inr hi)) rfl
      fun i hi => .inr ?_
    · exact (mem_aborted_abort.1 hi).elim (fun heq => .inr (heq ▸ hchild)) .inl
    · exact mem_aborted_abort.2 (.inl (Option.some.inj (hi.symm.trans hchild)))

theorem start (h : s.Holds) (hfree : s.dropped = false) : s.start.1.Holds := by
  unfold Custody.start
  cases hstate : s.state with
  | dead =>
    refine h.same rfl rfl rfl rfl (by rw [hstate]; rfl) ?_ fun hd => ?_
    · rintro ⟨child, hs⟩
      rw [hs] at hstate
      cases hstate
    · rw [hfree] at hd
      cases hd
  | starting fut | spawning | initializing child | alive child | shuttingDown child elapsed => exact h

theorem others (h : s.Holds) {e : Incarnations.Event} (hs : s.others e = some s') : s'.Holds := by
  obtain ⟨actor, hactor, rfl⟩ := Option.map_eq_some_iff.1 hs
  refine ⟨fun i hi => (h.own i hi).trans_le (Incarnations.length_tasks_le hactor), h.aborted, h.child,
    fun i hi hover => h.kept i hi fun ho => hover (Incarnations.over_of_step hactor ho), h.spared,
    fun i todo hi => ?_, h.gone⟩
  show ∃ outcome, List.lookup i (ended e ++ s.outcomes) = some outcome
  rcases Incarnations.ending_of_step hactor hi with ⟨todo', hi⟩ | ⟨outcome, rfl⟩
  · obtain ⟨outcome, ho⟩ := h.outcomes i todo' hi
    cases e with
    | finish j outcome' =>
      by_cases hij : i = j
      · exact ⟨outcome', by simp [ended, hij]⟩
      · refine ⟨outcome, ?_⟩
        have hne : (i == j) = false := by simpa using hij
        simpa [ended, List.lookup_cons, hne] using ho
    | pushMsg | pushSignal | spawn | register | recordSpawn | registerInitialized | registerExiting
    | popMsg | popSignal | cleanup | cleanupLost => exact ⟨outcome, ho⟩
  · exact ⟨outcome, by simp [ended]⟩

theorem spawned (h : s.Holds) (hstate : s.state = .spawning) (hs : s.spawned = some s') : s'.Holds := by
  have hnone : ∀ i, s.state.child ≠ some i := by simp [hstate, ChildState.child]
  rcases spawned_cases hs with ⟨-, actor, htasks, -, -, rfl⟩ | ⟨-, actor, htasks, rfl⟩
  · refine ⟨fun i hi => ?_, fun i hi => List.mem_append_left _ (h.aborted i hi), fun i hi => ?_,
      fun i hi hover hnot => ?_, fun i hi hmem => ?_, fun i todo hi => ?_, fun hd => ?_⟩
    · show i < actor.tasks.length
      rw [htasks, List.length_append, List.length_singleton]
      rcases List.mem_append.1 hi with hi | hi
      · have := h.own i hi
        omega
      · rw [List.mem_singleton.1 hi]
        omega
    · obtain rfl : s.actor.tasks.length = i := Option.some.inj hi
      exact List.mem_append_right _ (List.mem_singleton_self _)
    · rcases List.mem_append.1 hi with hi | hi
      · refine absurd (h.kept i hi (fun ho => hover ?_) hnot) (hnone i)
        show actor.tasks[i]? = some (.ending [])
        rw [htasks, List.getElem?_append_left (h.own i hi)]
        exact ho
      · rw [List.mem_singleton.1 hi]
        rfl
    · obtain rfl : s.actor.tasks.length = i := Option.some.inj hi
      exact absurd (h.own _ (h.aborted _ hmem)) (by omega)
    · have hi : actor.tasks[i]? = some (.ending todo) := hi
      rw [htasks] at hi
      rcases List.getElem?_concat_eq_some.1 hi with hi | ⟨-, hi⟩
      · exact h.outcomes i todo hi
      · cases hi
    · have hd : s.dropped = true := hd
      rw [h.gone hd] at hstate
      cases hstate
  · exact h.letGo htasks rfl rfl (fun i hi => .inl hi) (fun i hi => hi) rfl
      fun i hi => absurd hi (hnone i)

theorem elapse (h : s.Holds) (hs : s.elapse = some s') : s'.Holds := by
  unfold Custody.elapse at hs
  cases hstate : s.state with
  | starting fut =>
    rw [hstate] at hs
    cases hs
    refine h.same rfl rfl rfl rfl (by rw [hstate]; rfl) ?_ fun hd => ?_
    · rintro ⟨child, hs⟩
      rw [hs] at hstate
      cases hstate
    · have hd : s.dropped = true := hd
      rw [h.gone hd] at hstate
      cases hstate
  | shuttingDown child elapsed =>
    rw [hstate] at hs
    cases hs
    have hchild : s.state.child = some child := by rw [hstate]; rfl
    refine h.change rfl rfl rfl (fun i hi => .inl hi) (fun i hi => hi)
      (fun i hi => hchild.trans hi) (fun i hi => .inl (hchild.symm.trans hi))
      (fun i _ _ => ⟨child, rfl⟩) fun hd => ?_
    have hd : s.dropped = true := hd
    rw [h.gone hd] at hstate
    cases hstate
  | dead | spawning | initializing child | alive child => rw [hstate] at hs; cases hs

theorem instantiate (h : s.Holds) {ok : Bool} (hs : s.instantiate ok = some s') : s'.Holds := by
  unfold Custody.instantiate at hs
  split at hs
  · rename_i elapsed hstate
    cases hs
    refine h.same rfl rfl rfl rfl (by rw [hstate]; rfl) ?_ fun hd => ?_
    · rintro ⟨child, hs⟩
      rw [hs] at hstate
      cases hstate
    · have hd : s.dropped = true := hd
      rw [h.gone hd] at hstate
      cases hstate
  · cases hs

theorem step (h : s.Holds) (hs : s.step e = some s') : s'.Holds := by
  have hfree : s.isFree = true → s.dropped = false := by
    intro hfree
    cases hd : s.dropped with
    | false => rfl
    | true => simp [isFree, hd] at hfree
  cases e with
  | start =>
    obtain ⟨hf, hs⟩ := Option.ite_none_right_eq_some.1 hs
    cases hs
    exact h.start (hfree hf)
  | stop =>
    obtain ⟨hf, hs⟩ := Option.ite_none_right_eq_some.1 hs
    cases hs
    exact h.stop (hfree hf)
  | drop =>
    obtain ⟨-, hs⟩ := Option.ite_none_right_eq_some.1 hs
    cases hs
    exact h.drop
  | permit now =>
    obtain ⟨-, hs⟩ := Option.ite_none_right_eq_some.1 hs
    cases hs
    exact ⟨h.own, h.aborted, h.child, h.kept, h.spared, h.outcomes, h.gone⟩
  | instantiate ok => exact h.instantiate hs
  | elapse => exact h.elapse hs
  | poll =>
    obtain ⟨hf, hs⟩ := Option.ite_none_right_eq_some.1 hs
    cases hs
    exact h.poll (hfree hf)
  | spawned =>
    obtain ⟨hstate, hs⟩ := Option.ite_none_right_eq_some.1 hs
    cases hst : s.state with
    | spawning => exact h.spawned hst hs
    | starting fut | initializing child | alive child | shuttingDown child elapsed | dead =>
      rw [hst] at hstate
      cases hstate
  | actor e => exact h.others (others_of_stepActor hs)

end Holds

theorem holds_of_reachable (h : runs.Reachable s) : s.Holds := by
  refine h.invariant (I := Holds) ?_ fun s e s' hi hs => hi.step hs
  rintro _ ⟨spec, backpressure, msgs, signals, rfl⟩
  exact ⟨nofun, nofun, nofun, nofun, nofun, nofun, nofun⟩

/-- Whatever the supervisee, its tasks and the others do: a task that it has spawned, that is not over and
that has not been told to abort is the child that it holds now. And it tells a child that it holds to abort
only once a stop has lasted longer than the abort timeout. -/
theorem custody_of_reachable (h : runs.Reachable s) :
    (∀ i ∈ s.own, ¬ s.IsOver i → i ∉ s.aborted → s.state.child = some i) ∧
    ∀ i, s.state.child = some i → i ∈ s.aborted → ∃ child, s.state = .shuttingDown child true :=
  have hholds := holds_of_reachable h
  ⟨hholds.kept, hholds.spared⟩

/-- A child with a start timeout, on a channel with the limits of the runtime. -/
def sample : Custody :=
  new ⟨⟨"a"⟩, ⟨.always, none, 1, 1, 1⟩⟩ (.withLimits (fun len => 50 ≤ len) 1000000 1000000)

/-- The first task panics before it is initialized, and is let go in the middle of its end. The second one
runs, and is stopped. -/
def restart : List Event :=
  [.start, .instantiate true, .elapse, .poll, .spawned, .actor (.finish 0 .panicked), .actor (.cleanup 0),
    .actor (.cleanup 0), .actor (.cleanup 0), .poll, .start, .instantiate true, .poll, .spawned,
    .actor (.registerInitialized 1), .poll, .stop]

theorem custody_of_reachable_restarted : ∃ s, runs.Reachable s ∧
    (s.own = [0, 1] ∧ s.aborted = [0] ∧ s.state = .shuttingDown 1 false) ∧
    ∀ i ∈ s.own, ¬ s.IsOver i → i ∉ s.aborted → s.state.child = some i := by
  obtain ⟨s, hs, h⟩ : ∃ s, runs.Reachable s ∧ _ :=
    Lts.exists_reachable_of_exec (f := step)
      (p := fun s : Custody => s.own = [0, 1] ∧ s.aborted = [0] ∧ s.state = .shuttingDown 1 false)
      (s := sample) ⟨_, _, _, _, rfl⟩ restart (by decide +kernel)
  exact ⟨s, hs, h, (custody_of_reachable hs).1⟩

end Custody

/-! ## The machine that the strategies see -/

/-- The items of an event. -/
def Supervisee.LifeEvent.items : Supervisee.LifeEvent → List SuperviseeItem
  | .item next => [next]
  | .start | .stop | .permit _ | .idle => []

theorem Supervisee.spec_live {sv sv' : Supervisee} {event : LifeEvent} (h : sv.live event = some sv') :
    sv'.spec = sv.spec := by
  cases event with
  | start => cases h; exact spec_start
  | stop => cases h; exact spec_stop
  | item item =>
    simp only [live, supervise] at h
    split at h <;> cases h <;> rfl
  | permit now => cases h; exact spec_acquireRestartPermit
  | idle => cases h; rfl

namespace Custody
variable {s s' : Custody} {e : Event}

theorem live_poll (s : Custody) : ∃ event : Supervisee.LifeEvent,
    s.supervisee.live event = some s.poll.supervisee ∧ s.poll.items = s.items ++ event.items := by
  have hmove := pollMove_poll s
  generalize s.poll = s' at hmove ⊢
  cases hmove with
  | idle => exact ⟨.idle, rfl, (List.append_nil _).symm⟩
  | inbox hstate hspawn =>
    refine ⟨.idle, ?_, (List.append_nil _).symm⟩
    simp [Supervisee.live, supervisee, hstate, ChildState.state]
  | failed e hstate _ =>
    refine ⟨.item (.started (.error e)), ?_, rfl⟩
    simp [Supervisee.live, Supervisee.supervise, supervisee, hstate, ChildState.state, yield,
      Supervisee.withState]
  | initialized hstate =>
    refine ⟨.item (.initialized (.ok ())), ?_, rfl⟩
    simp [Supervisee.live, Supervisee.supervise, supervisee, hstate, ChildState.state, yield,
      Supervisee.withState]
  | @initExit child exit hstate _ =>
    refine ⟨.item (.initialized (.error exit)), ?_, rfl⟩
    simp [Supervisee.live, Supervisee.supervise, supervisee, hstate, ChildState.state, yield,
      Supervisee.withState, abort]
  | @exited child exit _ _ hexit => exact ⟨.item (.exit exit), hexit, rfl⟩
  | aborted hstate => exact ⟨.idle, rfl, (List.append_nil _).symm⟩

theorem live_start : s.supervisee.live .start = some s.start.1.supervisee := by
  cases hstate : s.state <;>
    simp [Supervisee.live, Supervisee.start, supervisee, start, hstate, ChildState.state,
      Supervisee.withState]

theorem live_stop : s.supervisee.live .stop = some s.stop.1.supervisee ∧ s.stop.1.items = s.items := by
  have hsignal : (s.signal .shutdown).spec = s.spec ∧ (s.signal .shutdown).restarter = s.restarter ∧
      (s.signal .shutdown).items = s.items := by
    unfold signal
    split
    · exact ⟨rfl, rfl, rfl⟩
    · split <;> exact ⟨rfl, rfl, rfl⟩
  obtain ⟨hspec, hrestarter, hitems⟩ := hsignal
  cases hstate : s.state <;>
    simp [Supervisee.live, Supervisee.stop, supervisee, stop, hstate, ChildState.state,
      Supervisee.withState, hspec, hrestarter, hitems]

/-- Every step of a supervisee that is not dropped is an event of its machine. -/
theorem live_of_step (hs : s.step e = some s') (hd : s'.dropped = false) :
    ∃ event : Supervisee.LifeEvent, s.supervisee.live event = some s'.supervisee ∧
      s'.items = s.items ++ event.items := by
  cases e with
  | start =>
    obtain ⟨-, hs⟩ := Option.ite_none_right_eq_some.1 hs
    cases hs
    refine ⟨.start, live_start, ?_⟩
    unfold start
    cases s.state <;> exact (List.append_nil _).symm
  | stop =>
    obtain ⟨-, hs⟩ := Option.ite_none_right_eq_some.1 hs
    cases hs
    exact ⟨.stop, live_stop.1, live_stop.2.trans (List.append_nil _).symm⟩
  | drop =>
    obtain ⟨-, hs⟩ := Option.ite_none_right_eq_some.1 hs
    cases hs
    unfold drop at hd
    split at hd <;> cases hd
  | permit now =>
    obtain ⟨-, hs⟩ := Option.ite_none_right_eq_some.1 hs
    cases hs
    refine ⟨.permit now, ?_, (List.append_nil _).symm⟩
    cases hr : s.restarter <;> simp [Supervisee.live, Supervisee.acquireRestartPermit, supervisee, hr]
  | instantiate ok =>
    simp only [step, instantiate] at hs
    split at hs
    · rename_i elapsed hstate
      cases hs
      exact ⟨.idle, by simp [Supervisee.live, supervisee, hstate, ChildState.state],
        (List.append_nil _).symm⟩
    · cases hs
  | elapse =>
    simp only [step, elapse] at hs
    cases hstate : s.state with
    | starting _ | shuttingDown _ _ =>
      rw [hstate] at hs
      cases hs
      exact ⟨.idle, by simp [Supervisee.live, supervisee, hstate, ChildState.state],
        (List.append_nil _).symm⟩
    | dead | spawning | initializing _ | alive _ => rw [hstate] at hs; cases hs
  | poll =>
    obtain ⟨-, hs⟩ := Option.ite_none_right_eq_some.1 hs
    cases hs
    exact live_poll s
  | spawned =>
    obtain ⟨hstate, hs⟩ := Option.ite_none_right_eq_some.1 hs
    have hkind : s.supervisee.state = .starting := by
      unfold supervisee
      cases hst : s.state <;> rw [hst] at hstate <;> first | rfl | cases hstate
    rcases spawned_cases hs with ⟨-, actor, -, -, -, rfl⟩ | ⟨-, actor, -, rfl⟩
    · refine ⟨.item (.started (.ok ())), ?_, rfl⟩
      simp [Supervisee.live, Supervisee.supervise, hkind]
      rfl
    · cases hd
  | actor e =>
    obtain ⟨actor, -, rfl⟩ := Option.map_eq_some_iff.1 (others_of_stepActor hs)
    exact ⟨.idle, rfl, (List.append_nil _).symm⟩

/-- What is gone does not come back. -/
theorem dropped_of_step (h : s.Holds) (hs : s.step e = some s') (hd : s.dropped = true) :
    s'.dropped = true := by
  have hstate := h.gone hd
  have hfree : s.isFree = false := by simp [isFree, hd]
  cases e with
  | start | stop | drop | permit now | poll =>
    simp only [step, hfree] at hs
    cases hs
  | instantiate ok | elapse | spawned =>
    simp only [step, instantiate, elapse, hstate] at hs
    cases hs
  | actor e =>
    obtain ⟨actor, -, rfl⟩ := Option.map_eq_some_iff.1 (others_of_stepActor hs)
    exact hd

/-- A supervisee that is not gone has gone through events of its machine, which have yielded the same
items. -/
theorem refines_supervisee (h : runs.Reachable s) (hd : s.dropped = false) :
    ∃ es, Lts.exec Supervisee.live (.new s.spec) es = some s.supervisee ∧
      es.flatMap Supervisee.LifeEvent.items = s.items := by
  induction h with
  | init h₀ =>
    obtain ⟨spec, backpressure, msgs, signals, rfl⟩ := h₀
    exact ⟨[], rfl, rfl⟩
  | @step s s' e hr hs ih =>
    have hbefore : s.dropped = false := by
      cases hd' : s.dropped with
      | false => rfl
      | true =>
        have hafter := dropped_of_step (holds_of_reachable hr) hs hd'
        rw [hd] at hafter
        cases hafter
    obtain ⟨es, hexec, hitems⟩ := ih hbefore
    obtain ⟨event, hlive, hitem⟩ := live_of_step hs hd
    have hspec : s'.spec = s.spec := Supervisee.spec_live hlive
    refine ⟨es ++ [event], ?_, ?_⟩
    · rw [hspec, Lts.exec_append, hexec]
      simp only [Option.bind_some, Lts.exec, hlive]
    · rw [List.flatMap_append, hitems, hitem, List.flatMap_cons, List.flatMap_nil, List.append_nil]

theorem refines_supervisee_restarted : ∃ s, runs.Reachable s ∧
    s.items.length = 4 ∧
    ∃ es, Lts.exec Supervisee.live (.new s.spec) es = some s.supervisee ∧
      es.flatMap Supervisee.LifeEvent.items = s.items := by
  obtain ⟨s, hs, hd, hitems⟩ : ∃ s, runs.Reachable s ∧ _ :=
    Lts.exists_reachable_of_exec (f := step)
      (p := fun s : Custody => s.dropped = false ∧ s.items.length = 4) (s := sample) ⟨_, _, _, _, rfl⟩ restart
      (by decide +kernel)
  exact ⟨s, hs, hitems, refines_supervisee hs hd⟩

end Custody

end Zestors
