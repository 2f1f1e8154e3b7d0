import Zestors.Supervisor.Custody

/-!
# Starting and stopping a child

If nobody else spawns on the channel of a child specification, its supervisee is never refused for a
concurrent inbox, although it may start the next task while the last one has not unwound
(`unrefused_of_alone`). And a stop comes to an exit, whatever the child does: the abort timeout passes,
and the task is told to abort (`inevitable_exit`).
-/

namespace Zestors

/-! ## A start is not refused -/

/-- The steps bring a live channel to a dead one. -/
def Cleanup.closes : Cleanup → Bool
  | .registerExited _ | .bomb => true
  | .drainMsgs | .drainSignals | .recordExit _ => false

/-- By the time it is over, the channel is dead. -/
def Stage.Closes (dead : Bool) : Stage → Prop
  | registered | running => True
  | ending todo => dead = true ∨ ∃ op ∈ todo, op.closes = true

theorem Stage.Closes.mono {stage : Stage} {dead dead' : Bool} (h : stage.Closes dead)
    (hdead : dead = true → dead' = true) : stage.Closes dead' := by
  cases stage with
  | registered | running => trivial
  | ending todo => exact h.imp hdead id

theorem closes_todo (dead : Bool) (outcome : Outcome) : (Stage.ending outcome.todo).Closes dead := by
  refine .inr ?_
  cases outcome <;> simp [Outcome.todo, Cleanup.closes]

namespace Incarnations
variable {s s' : Incarnations} {e : Event}

theorem closes_cleanup {n : ℕ} {op : Cleanup} {todo : List Cleanup}
    (h : (Stage.ending (op :: todo)).Closes s.channel.status.isDead) :
    (Stage.ending ((s.cleanup n op).2 ++ todo)).Closes (s.cleanup n op).1.channel.status.isDead := by
  rcases h with hdead | ⟨closer, hmem, hcloses⟩
  · exact .inl (isDead_cleanup hdead)
  rcases List.mem_cons.1 hmem with rfl | hmem
  · cases closer with
    | drainMsgs | drainSignals | recordExit reason => cases hcloses
    | registerExited reason =>
      refine .inl ?_
      show (s.channel.status.registerExited reason).1.isDead = true
      cases s.channel.status <;> rfl
    | bomb =>
      simp only [cleanup]
      cases hdead : s.channel.status.isDead with
      | true => exact .inl rfl
      | false => exact .inr ⟨_, List.mem_cons_self, rfl⟩
  · exact .inr ⟨closer, List.mem_append_right _ hmem, hcloses⟩

/-- Only a registration brings a channel to life. -/
theorem isDead_of_step (hs : s.step e = some s') (hregister : e ≠ .register)
    (hdead : s.channel.status.isDead = true) : s'.channel.status.isDead = true := by
  cases e with
  | pushMsg msg | pushSignal signal => cases hs; exact hdead
  | spawn =>
    rw [step, if_pos hdead] at hs
    cases hs
    exact hdead
  | register => exact absurd rfl hregister
  | recordSpawn i =>
    simp only [step] at hs
    split at hs <;> cases hs
    exact hdead
  | registerInitialized i =>
    obtain ⟨-, hs⟩ := whileRunning_eq_some hs
    cases hs
    exact (ActorStatus.isDead_registerInitialized _).trans hdead
  | registerExiting i =>
    obtain ⟨-, hs⟩ := whileRunning_eq_some hs
    cases hs
    exact (ActorStatus.isDead_registerExiting _).trans hdead
  | popMsg i =>
    obtain ⟨ch, rfl, hsame⟩ := popMsg_eq_some (whileRunning_eq_some hs).2
    exact hsame.trans hdead
  | popSignal i =>
    obtain ⟨ch, rfl, hsame⟩ := popSignal_eq_some (whileRunning_eq_some hs).2
    exact hsame.trans hdead
  | finish i outcome =>
    obtain ⟨-, hs⟩ := whileRunning_eq_some hs
    cases hs
    exact hdead
  | cleanup i =>
    simp only [step] at hs
    split at hs <;> cases hs
    exact isDead_cleanup hdead
  | cleanupLost k =>
    simp only [step] at hs
    split at hs <;> cases hs
    exact isDead_cleanup hdead

theorem closes_of_step {i : ℕ} {stage stage' : Stage} (hs : s.step e = some s')
    (hregister : e ≠ .register) (hi : s.tasks[i]? = some stage)
    (h : stage.Closes s.channel.status.isDead) (hi' : s'.tasks[i]? = some stage') :
    stage'.Closes s'.channel.status.isDead := by
  have hmono := h.mono fun hdead => isDead_of_step hs hregister hdead
  cases taskMove_of_step hs with
  | none heq =>
    rw [heq, hi] at hi'
    cases hi'
    exact hmono
  | register heq => exact absurd rfl hregister
  | recordSpawn hj heq =>
    rw [heq, List.getElem?_set_of_getElem? hj] at hi'
    split at hi'
    · cases hi'
      trivial
    · rw [hi] at hi'
      cases hi'
      exact hmono
  | finish hj heq =>
    rw [heq, List.getElem?_set_of_getElem? hj] at hi'
    split at hi'
    · cases hi'
      exact closes_todo _ _
    · rw [hi] at hi'
      cases hi'
      exact hmono
  | cleanup hj heq =>
    rw [heq, tasks_cleanup, List.getElem?_set_of_getElem? hj] at hi'
    split at hi'
    · rename_i hji
      cases hi'
      rw [← hji, hj] at hi
      cases hi
      rw [heq]
      exact closes_cleanup h
    · rw [hi] at hi'
      cases hi'
      exact hmono

/-- Only spawns have inboxes to register, and only their registrations fail. -/
theorem spawning_of_step (hs : s.step e = some s') (hspawn : e ≠ .spawn) (hregister : e ≠ .register) :
    s'.spawning = s.spawning ∧ (s.lost = [] → s'.lost = []) := by
  cases e with
  | pushMsg msg | pushSignal signal => cases hs; exact ⟨rfl, id⟩
  | spawn => exact absurd rfl hspawn
  | register => exact absurd rfl hregister
  | recordSpawn i =>
    simp only [step] at hs
    split at hs <;> cases hs
    exact ⟨rfl, id⟩
  | registerInitialized i | registerExiting i | finish i outcome =>
    obtain ⟨-, hs⟩ := whileRunning_eq_some hs
    cases hs
    exact ⟨rfl, id⟩
  | popMsg i =>
    obtain ⟨ch, rfl, -⟩ := popMsg_eq_some (whileRunning_eq_some hs).2
    exact ⟨rfl, id⟩
  | popSignal i =>
    obtain ⟨ch, rfl, -⟩ := popSignal_eq_some (whileRunning_eq_some hs).2
    exact ⟨rfl, id⟩
  | cleanup i =>
    simp only [step] at hs
    split at hs <;> cases hs
    exact ⟨spawning_cleanup _ _, fun hlost => (s.cleanup_frame _ _).2.1.trans hlost⟩
  | cleanupLost k =>
    refine ⟨?_, fun hlost => ?_⟩
    · simp only [step] at hs
      split at hs <;> cases hs
      exact spawning_cleanup _ _
    · simp only [step, hlost] at hs
      cases hs

end Incarnations

namespace Custody
variable {s s' : Custody} {e : Event}

/-- Somebody else gets an inbox. -/
def Event.spawns : Event → Bool
  | .actor .spawn => true
  | _ => false

/-- Nobody else spawns on the channel. -/
def Alone (_ : Custody) (e : Event) : Prop := e.spawns = false

instance (s : Custody) (e : Event) : Decidable (s.Alone e) := inferInstanceAs (Decidable (_ = _))

/-- The channel is dead while the supervisee holds no child, and by the time that its child is over. -/
structure Sole (s : Custody) : Prop where
  inboxes : s.actor.spawning = if s.state.isSpawning then 1 else 0
  waits : s.dropped = false → s.state.child = none → s.actor.channel.status.isDead = true
  closes : ∀ i stage, s.state.child = some i → s.actor.tasks[i]? = some stage →
    stage.Closes s.actor.channel.status.isDead
  lost : s.actor.lost = []
  items : .started (.error .concurrentInbox) ∉ s.items

namespace Sole

theorem change (h : s.Sole) (hstatus : s'.actor.channel.status = s.actor.channel.status)
    (htasks : s'.actor.tasks = s.actor.tasks) (hlost : s'.actor.lost = s.actor.lost)
    (hinboxes : s'.actor.spawning = if s'.state.isSpawning then 1 else 0)
    (hwaits : s'.dropped = false → s'.state.child = none → s.actor.channel.status.isDead = true)
    (hchild : ∀ i, s'.state.child = some i → s.state.child = some i)
    (hitems : .started (.error .concurrentInbox) ∉ s'.items) : s'.Sole where
  inboxes := hinboxes
  waits hd hnone := hstatus ▸ hwaits hd hnone
  closes i stage hi hstage := by
    rw [hstatus]
    exact h.closes i stage (hchild i hi) (htasks ▸ hstage)
  lost := hlost.trans h.lost
  items := hitems

theorem isDead_of_isOver (h : s.Sole) {child : ℕ} (hchild : s.state.child = some child)
    (hover : s.IsOver child) : s.actor.channel.status.isDead = true := by
  rcases h.closes child _ hchild hover with hdead | ⟨op, hmem, -⟩
  · exact hdead
  · cases hmem

theorem poll (h : s.Sole) (hfree : s.isFree = true) : s.poll.Sole := by
  obtain ⟨hd, hspawning⟩ : s.dropped = false ∧ s.state.isSpawning = false := by
    simpa [isFree] using hfree
  have hzero : s.actor.spawning = 0 := by rw [h.inboxes, hspawning]; rfl
  have hyield : ∀ {item : SuperviseeItem}, item ≠ .started (.error .concurrentInbox) →
      .started (.error .concurrentInbox) ∉ s.items ++ [item] := by
    intro item hne hmem
    rcases List.mem_append.1 hmem with hmem | hmem
    · exact h.items hmem
    · exact hne (List.mem_singleton.1 hmem).symm
  have hmove := pollMove_poll s
  generalize s.poll = s' at hmove ⊢
  cases hmove with
  | idle => exact h
  | inbox hstate hspawn =>
    have hdead := h.waits hd (by rw [hstate]; rfl)
    rw [Incarnations.step, if_pos hdead] at hspawn
    cases hspawn
    exact h.change rfl rfl rfl (congrArg (· + 1) hzero) (fun _ _ => hdead) (fun _ hi => by cases hi) h.items
  | failed e hstate hrefused =>
    have hdead := h.waits hd (by rw [hstate]; rfl)
    refine h.change rfl rfl rfl hzero (fun _ _ => hdead) (fun _ hi => by cases hi) (hyield fun heq => ?_)
    cases heq
    have hnone := hrefused rfl
    rw [Incarnations.step, if_pos hdead] at hnone
    cases hnone
  | initialized hstate =>
    exact h.change rfl rfl rfl hzero (fun _ hnone => by cases hnone) (fun i hi => by rw [hstate]; exact hi)
      (hyield fun heq => by cases heq)
  | initExit hstate hstatus =>
    exact h.change rfl rfl rfl hzero (fun _ _ => by rw [hstatus]; rfl)
      (fun _ hi => by cases hi) (hyield fun heq => by cases heq)
  | exited hchild hover _ =>
    exact h.change rfl rfl rfl hzero (fun _ _ => h.isDead_of_isOver hchild hover) (fun _ hi => by cases hi)
      (hyield fun heq => by cases heq)
  | aborted hstate =>
    exact h.change rfl rfl rfl h.inboxes h.waits (fun i hi => hi) h.items

theorem stop (h : s.Sole) (hfree : s.isFree = true) : s.stop.1.Sole := by
  obtain ⟨hd, hspawning⟩ : s.dropped = false ∧ s.state.isSpawning = false := by
    simpa [isFree] using hfree
  have hzero : s.actor.spawning = 0 := by rw [h.inboxes, hspawning]; rfl
  have hshutdown : ∀ {child}, s.state.child = some child →
      Sole { s.signal .shutdown with state := .shuttingDown child false } := by
    intro child hchild
    have hframe : (s.signal .shutdown).actor.channel.status = s.actor.channel.status ∧
        (s.signal .shutdown).actor.lost = s.actor.lost ∧
        (s.signal .shutdown).actor.spawning = s.actor.spawning ∧
        (s.signal .shutdown).items = s.items := by
      unfold Custody.signal
      split
      · exact ⟨rfl, rfl, rfl, rfl⟩
      · split <;> exact ⟨rfl, rfl, rfl, rfl⟩
    obtain ⟨hstatus, hlost, hinboxes, hitems⟩ := hframe
    exact h.change hstatus (tasks_signal .shutdown) hlost
      (hinboxes.trans hzero) (fun _ hnone => by cases hnone)
      (fun i hi => hchild.trans hi) (hitems ▸ h.items)
  unfold Custody.stop
  cases hstate : s.state with
  | dead | shuttingDown child elapsed => exact h
  | starting fut | spawning =>
    exact h.change rfl rfl rfl hzero (fun _ _ => h.waits hd (by rw [hstate]; rfl))
      (fun _ hi => by cases hi) h.items
  | initializing child | alive child => exact hshutdown (by rw [hstate]; rfl)

theorem drop (h : s.Sole) (hfree : s.isFree = true) : s.drop.Sole := by
  obtain ⟨-, hspawning⟩ : s.dropped = false ∧ s.state.isSpawning = false := by
    simpa [isFree] using hfree
  have hzero : s.actor.spawning = 0 := by rw [h.inboxes, hspawning]; rfl
  unfold Custody.drop
  cases s.state.child <;>
    exact h.change rfl rfl rfl hzero (fun hd => by cases hd) (fun _ hi => by cases hi) h.items

theorem start (h : s.Sole) (hfree : s.isFree = true) : s.start.1.Sole := by
  obtain ⟨hd, hspawning⟩ : s.dropped = false ∧ s.state.isSpawning = false := by
    simpa [isFree] using hfree
  have hzero : s.actor.spawning = 0 := by rw [h.inboxes, hspawning]; rfl
  unfold Custody.start
  cases hstate : s.state with
  | dead =>
    exact h.change rfl rfl rfl hzero (fun _ _ => h.waits hd (by rw [hstate]; rfl))
      (fun _ hi => by cases hi) h.items
  | starting fut | spawning | initializing child | alive child | shuttingDown child elapsed => exact h

/-- The channel that a poll has found dead is dead when it registers. -/
theorem spawned (h : s.Sole) (hd : s.dropped = false) (hstate : s.state = .spawning)
    (hs : s.spawned = some s') : s'.Sole := by
  have hdead := h.waits hd (by rw [hstate]; rfl)
  rcases spawned_cases hs with ⟨-, actor, htasks, hlost, hspawning, rfl⟩ | ⟨hlive, -⟩
  · refine ⟨?_, nofun, fun i stage hi hstage => ?_, hlost.trans h.lost, fun hmem => ?_⟩
    · show actor.spawning = 0
      rw [hspawning, h.inboxes, hstate]
      rfl
    · obtain rfl : s.actor.tasks.length = i := Option.some.inj hi
      have hstage : actor.tasks[s.actor.tasks.length]? = some stage := hstage
      rw [htasks, List.getElem?_concat_length] at hstage
      cases hstage
      trivial
    · rcases List.mem_append.1 hmem with hmem | hmem
      · exact h.items hmem
      · cases List.mem_singleton.1 hmem
  · rw [hdead] at hlive
    cases hlive

theorem actor (h : s.Sole) (hholds : s.Holds) {e : Incarnations.Event} (halone : e ≠ .spawn)
    (hs : s.stepActor e = some s') : s'.Sole := by
  have hregister : e ≠ .register := by
    rintro rfl
    simp only [stepActor] at hs
    split at hs
    · cases hs
    · rename_i hnot
      obtain ⟨actor, hactor, -⟩ := Option.map_eq_some_iff.1 hs
      have hzero : s.actor.spawning = 0 := by
        have := h.inboxes
        split at this <;> simp_all
      rw [Incarnations.step, if_pos hzero] at hactor
      cases hactor
  obtain ⟨actor, hactor, rfl⟩ := Option.map_eq_some_iff.1 (others_of_stepActor hs)
  obtain ⟨hspawning, hlost⟩ := Incarnations.spawning_of_step hactor halone hregister
  refine ⟨hspawning.trans h.inboxes, fun hd hnone => ?_, fun i stage hi hstage => ?_, hlost h.lost,
    h.items⟩
  · exact Incarnations.isDead_of_step hactor hregister (h.waits hd hnone)
  · have hlt := hholds.own i (hholds.child i hi)
    have hbefore : s.actor.tasks[i]? = some s.actor.tasks[i] := List.getElem?_eq_getElem hlt
    exact Incarnations.closes_of_step hactor hregister hbefore (h.closes i _ hi hbefore) hstage

theorem step (h : s.Sole) (hholds : s.Holds) (hok : s.Alone e) (hs : s.step e = some s') : s'.Sole := by
  cases e with
  | start =>
    obtain ⟨hfree, hs⟩ := Option.ite_none_right_eq_some.1 hs
    cases hs
    exact h.start hfree
  | stop =>
    obtain ⟨hfree, hs⟩ := Option.ite_none_right_eq_some.1 hs
    cases hs
    exact h.stop hfree
  | drop =>
    obtain ⟨hfree, hs⟩ := Option.ite_none_right_eq_some.1 hs
    cases hs
    exact h.drop hfree
  | permit now =>
    obtain ⟨-, hs⟩ := Option.ite_none_right_eq_some.1 hs
    cases hs
    exact h.change rfl rfl rfl h.inboxes h.waits (fun i hi => hi) h.items
  | instantiate ok =>
    simp only [Custody.step, instantiate] at hs
    split at hs
    · rename_i elapsed hstate
      cases hs
      have hzero : s.actor.spawning = 0 := by rw [h.inboxes, hstate]; rfl
      exact h.change rfl rfl rfl
        hzero (fun hd _ => h.waits hd (by rw [hstate]; rfl)) (fun _ hi => by cases hi) h.items
    · cases hs
  | elapse =>
    simp only [Custody.step, elapse] at hs
    cases hstate : s.state with
    | starting fut =>
      rw [hstate] at hs
      cases hs
      have hzero : s.actor.spawning = 0 := by rw [h.inboxes, hstate]; rfl
      exact h.change rfl rfl rfl
        hzero (fun hd _ => h.waits hd (by rw [hstate]; rfl)) (fun _ hi => by cases hi) h.items
    | shuttingDown child elapsed =>
      rw [hstate] at hs
      cases hs
      have hzero : s.actor.spawning = 0 := by rw [h.inboxes, hstate]; rfl
      exact h.change rfl rfl rfl
        hzero (fun _ hnone => by cases hnone) (fun i hi => by rw [hstate]; exact hi) h.items
    | dead | spawning | initializing child | alive child => rw [hstate] at hs; cases hs
  | poll =>
    obtain ⟨hfree, hs⟩ := Option.ite_none_right_eq_some.1 hs
    cases hs
    exact h.poll hfree
  | spawned =>
    obtain ⟨hstate, hs⟩ := Option.ite_none_right_eq_some.1 hs
    cases hst : s.state with
    | spawning =>
      refine h.spawned ?_ hst hs
      cases hd : s.dropped with
      | false => rfl
      | true =>
        have hgone := hholds.gone hd
        rw [hst] at hgone
        cases hgone
    | starting fut | initializing child | alive child | shuttingDown child elapsed | dead =>
      rw [hst] at hstate
      cases hstate
  | actor e =>
    refine h.actor hholds ?_ hs
    rintro rfl
    cases hok

end Sole

/-- Where nobody else spawns on the channel: a start is never refused for a concurrent inbox, a poll that
spawns never panics, and the channel of a supervisee that holds no child is dead. -/
theorem unrefused_of_alone (h : (runs.guard Alone).Reachable s) :
    .started (.error .concurrentInbox) ∉ s.items ∧ s.actor.lost = [] ∧
    (s.dropped = false → s.state.child = none → s.actor.channel.status.isDead = true) := by
  have hsole : s.Holds ∧ s.Sole := by
    refine h.guard_invariant (I := fun s => s.Holds ∧ s.Sole) ?_ fun s e s' hi hok hs =>
      ⟨hi.1.step hs, hi.2.step hi.1 hok hs⟩
    rintro _ ⟨spec, backpressure, msgs, signals, rfl⟩
    exact ⟨⟨nofun, nofun, nofun, nofun, nofun, nofun, nofun⟩, ⟨rfl, fun _ _ => rfl, nofun, rfl, nofun⟩⟩
  exact ⟨hsole.2.items, hsole.2.lost, hsole.2.waits⟩

/-- The task of the first start unwinds when the second one spawns. -/
theorem unrefused_of_alone_unwinding : ∃ s, (runs.guard Alone).Reachable s ∧
    (s.own = [0, 1] ∧ s.state = .initializing 1 ∧ s.items.length = 3) ∧
    .started (.error .concurrentInbox) ∉ s.items := by
  obtain ⟨s, hs, h⟩ : ∃ s, (runs.guard Alone).Reachable s ∧ _ :=
    Lts.exists_guard_reachable_of_exec (f := step)
      (p := fun s : Custody => s.own = [0, 1] ∧ s.state = .initializing 1 ∧ s.items.length = 3)
      (s := sample) ⟨_, _, _, _, rfl⟩
      [.start, .instantiate true, .poll, .spawned, .actor (.finish 0 .panicked),
        .actor (.cleanup 0), .actor (.cleanup 0), .actor (.cleanup 0), .poll, .start,
        .instantiate true, .poll, .spawned]
      (by decide +kernel)
  exact ⟨s, hs, h, (unrefused_of_alone hs).1⟩

end Custody

/-! ## A stop comes to its exit -/

def Cleanup.weight : Cleanup → ℕ
  | .drainMsgs | .drainSignals | .recordExit _ => 1
  | .registerExited _ => 2
  | .bomb => 3

/-- The steps that are left, drained entries apart. -/
def weightOf (todo : List Cleanup) : ℕ := (todo.map Cleanup.weight).sum

def Stage.weight : Stage → ℕ
  | registered => 9
  | running => 8
  | ending todo => weightOf todo

/-- How often a status may change before it has to go back. -/
def ActorStatus.rank : ActorStatus → ℕ
  | initializing => 2
  | running | suspended => 1
  | exiting | exited _ => 0

theorem ActorStatus.rank_handleSignal (status : ActorStatus) (signal : SignalInterface) :
    (status.handleSignal signal).1.rank ≤ status.rank := by
  cases status <;> cases signal <;> first | decide | exact Nat.le_refl 0

theorem weightOf_todo (outcome : Outcome) : weightOf outcome.todo < 8 := by
  cases outcome <;> decide

namespace Incarnations
variable {s s' : Incarnations} {e : Event}

/-- What the queues and the status allow for. -/
def slack (s : Incarnations) : ℕ :=
  s.channel.msgQueue.length + s.channel.signalQueue.length + s.channel.status.rank

/-- A bound on what can happen before somebody sends, or spawns. -/
def left (s : Incarnations) : ℕ :=
  (s.tasks.map Stage.weight).sum + (s.lost.map weightOf).sum + s.slack

/-- Nobody sends, and nobody spawns. -/
def Event.goes : Event → Bool
  | pushMsg _ | pushSignal _ | spawn | register => false
  | recordSpawn _ | registerInitialized _ | registerExiting _ | popMsg _ | popSignal _ | finish _ _
  | cleanup _ | cleanupLost _ => true

theorem popMsg_slack (hs : s.popMsg = some s') :
    s'.slack < s.slack ∧ s'.tasks = s.tasks ∧ s'.lost = s.lost := by
  unfold popMsg at hs
  split at hs
  · cases hs
  · rename_i entry rest hqueue
    cases hs
    refine ⟨?_, rfl, rfl⟩
    simp only [slack, hqueue, List.length_cons]
    omega

theorem popSignal_slack (hs : s.popSignal = some s') :
    s'.slack < s.slack ∧ s'.tasks = s.tasks ∧ s'.lost = s.lost := by
  unfold popSignal at hs
  split at hs
  · cases hs
  · rename_i entry rest hqueue
    cases hs
    refine ⟨?_, rfl, rfl⟩
    have := ActorStatus.rank_handleSignal s.channel.status entry.item
    simp only [slack, hqueue, List.length_cons]
    omega

/-- A step of an end is one less to take, or takes something off a queue. -/
theorem cleanup_weight (s : Incarnations) (n : ℕ) (op : Cleanup) (todo : List Cleanup) :
    (s.cleanup n op).1.slack + weightOf ((s.cleanup n op).2 ++ todo) < s.slack + weightOf (op :: todo) := by
  have hcons : ∀ op todo, weightOf (op :: todo) = op.weight + weightOf todo := fun _ _ => rfl
  cases op with
  | drainMsgs =>
    simp only [cleanup]
    cases hpop : s.popMsg with
    | none =>
      simp only [List.nil_append, hcons, Cleanup.weight]
      omega
    | some s' =>
      have := (popMsg_slack hpop).1
      simp only [List.cons_append, List.nil_append, hcons, Cleanup.weight]
      omega
  | drainSignals =>
    simp only [cleanup]
    cases hpop : s.popSignal with
    | none =>
      simp only [List.nil_append, hcons, Cleanup.weight]
      omega
    | some s' =>
      have := (popSignal_slack hpop).1
      simp only [List.cons_append, List.nil_append, hcons, Cleanup.weight]
      omega
  | registerExited reason =>
    have hrank : (s.channel.status.registerExited reason).1.rank ≤ s.channel.status.rank := by
      cases s.channel.status <;> exact Nat.zero_le _
    have hslack : (s.cleanup n (.registerExited reason)).1.slack ≤ s.slack :=
      Nat.add_le_add_left hrank _
    have hmore : weightOf ((s.cleanup n (.registerExited reason)).2 ++ todo) ≤ 1 + weightOf todo := by
      simp only [cleanup]
      split
      · simp only [List.cons_append, List.nil_append, hcons, Cleanup.weight]
        omega
      · simp only [List.nil_append]
        omega
    simp only [hcons, Cleanup.weight]
    omega
  | recordExit reason =>
    show s.slack + weightOf todo < s.slack + weightOf (.recordExit reason :: todo)
    simp only [hcons, Cleanup.weight]
    omega
  | bomb =>
    have hmore : weightOf ((s.cleanup n .bomb).2 ++ todo) ≤ 2 + weightOf todo := by
      simp only [cleanup]
      split
      · simp only [List.nil_append]
        omega
      · simp only [List.cons_append, List.nil_append, hcons, Cleanup.weight]
        omega
    show s.slack + weightOf ((s.cleanup n .bomb).2 ++ todo) < _
    simp only [hcons, Cleanup.weight]
    omega

theorem left_setTask {i : ℕ} {stage stage' : Stage} (hi : s.tasks[i]? = some stage)
    (htasks : s'.tasks = s.tasks.set i stage') (hlost : s'.lost = s.lost)
    (hlt : s'.slack + stage'.weight < s.slack + stage.weight) : s'.left < s.left := by
  have hset : ((s.tasks.set i stage').map Stage.weight).sum + stage.weight =
    (s.tasks.map Stage.weight).sum + stage'.weight := List.sum_map_set_add hi
  unfold left
  rw [htasks, hlost]
  omega

theorem left_cleanup {i : ℕ} {op : Cleanup} {todo : List Cleanup}
    (hi : s.tasks[i]? = some (.ending (op :: todo))) (hs : s.step (.cleanup i) = some s') :
    s'.left < s.left := by
  simp only [step, hi] at hs
  cases hs
  exact left_setTask hi (tasks_cleanup _ _ _ _) (s.cleanup_frame (i + 1) op).2.1
    (cleanup_weight s (i + 1) op todo)

/-- What happens while nobody sends or spawns changes nothing, or leaves less to happen. -/
theorem left_of_step (hgoes : e.goes = true) (hs : s.step e = some s') :
    (s' = s ∧ Custody.ended e = []) ∨ s'.left < s.left := by
  cases e with
  | pushMsg msg | pushSignal signal | spawn | register => cases hgoes
  | recordSpawn i =>
    simp only [step] at hs
    split at hs
    · rename_i hi
      cases hs
      exact .inr (left_setTask hi rfl rfl (Nat.lt_succ_self (s.slack + 8)))
    · cases hs
  | registerInitialized i =>
    obtain ⟨-, hs⟩ := whileRunning_eq_some hs
    cases hs
    have hrank : s.channel.status.registerInitialized.1 = s.channel.status ∨
        s.channel.status.registerInitialized.1.rank < s.channel.status.rank := by
      cases s.channel.status <;> first | exact .inl rfl | exact .inr (by decide)
    refine hrank.imp (fun heq => ⟨?_, rfl⟩) fun hlt => Nat.add_lt_add_left (Nat.add_lt_add_left hlt _) _
    rw [heq]
    rfl
  | registerExiting i =>
    obtain ⟨-, hs⟩ := whileRunning_eq_some hs
    cases hs
    have hrank : s.channel.status.registerExiting.1 = s.channel.status ∨
        s.channel.status.registerExiting.1.rank < s.channel.status.rank := by
      cases s.channel.status <;> first | exact .inl rfl | exact .inr (by decide)
    refine hrank.imp (fun heq => ⟨?_, rfl⟩) fun hlt => Nat.add_lt_add_left (Nat.add_lt_add_left hlt _) _
    rw [heq]
    rfl
  | popMsg i =>
    obtain ⟨hslack, htasks, hlost⟩ := popMsg_slack (whileRunning_eq_some hs).2
    refine .inr ?_
    unfold left
    rw [htasks, hlost]
    omega
  | popSignal i =>
    obtain ⟨hslack, htasks, hlost⟩ := popSignal_slack (whileRunning_eq_some hs).2
    refine .inr ?_
    unfold left
    rw [htasks, hlost]
    omega
  | finish i outcome =>
    obtain ⟨hi, hs⟩ := whileRunning_eq_some hs
    cases hs
    exact .inr (left_setTask hi rfl rfl (Nat.add_lt_add_left (weightOf_todo outcome) s.slack))
  | cleanup i =>
    have hs' := hs
    simp only [step] at hs'
    split at hs'
    · rename_i op todo hi
      exact .inr (left_cleanup hi hs)
    · cases hs'
  | cleanupLost k =>
    simp only [step] at hs
    split at hs
    · rename_i op todo hk
      cases hs
      have hweight := cleanup_weight s 0 op todo
      have hset : ((s.lost.set k ((s.cleanup 0 op).2 ++ todo)).map weightOf).sum +
        weightOf (op :: todo) = (s.lost.map weightOf).sum + weightOf ((s.cleanup 0 op).2 ++ todo) :=
        List.sum_map_set_add hk
      refine .inr ?_
      show ((s.cleanup 0 op).1.tasks.map Stage.weight).sum +
        ((s.lost.set k ((s.cleanup 0 op).2 ++ todo)).map weightOf).sum + (s.cleanup 0 op).1.slack < s.left
      rw [(s.cleanup_frame 0 op).1]
      unfold left
      omega
    · cases hs

theorem next_of_not_over {i : ℕ} {stage : Stage} (hi : s.tasks[i]? = some stage)
    (hover : stage ≠ .ending []) : ∃ e s', (e.goes = true ∧ ∀ j, e = .finish j .aborted → j = i) ∧
      s.step e = some s' ∧ s'.left < s.left := by
  cases stage with
  | registered =>
    have hs : s.step (.recordSpawn i) = some { s.setTask i .running with
        spawns := pushKeeping keepNSpawns s.spawns (i + 1) } := by
      simp only [step, hi]
    exact ⟨.recordSpawn i, _, ⟨rfl, fun _ heq => by cases heq⟩, hs,
      left_setTask hi rfl rfl (Nat.lt_succ_self (s.slack + 8))⟩
  | running =>
    have hs : s.step (.finish i .aborted) = some (s.setTask i (.ending Outcome.aborted.todo)) := by
      simp only [step, whileRunning, hi]
    refine ⟨.finish i .aborted, _, ⟨rfl, fun j heq => ?_⟩, hs,
      left_setTask hi rfl rfl (Nat.add_lt_add_left (weightOf_todo .aborted) s.slack)⟩
    cases heq
    rfl
  | ending todo =>
    cases todo with
    | nil => exact absurd rfl hover
    | cons op todo =>
      have hs : s.step (.cleanup i) = some ((s.cleanup (i + 1) op).1.setTask i
          (.ending ((s.cleanup (i + 1) op).2 ++ todo))) := by
        simp only [step, hi]
      exact ⟨.cleanup i, _, ⟨rfl, fun _ heq => by cases heq⟩, hs, left_cleanup hi hs⟩

end Incarnations

/-- How often a stop may go on by itself: its timeout passes, and its exit comes. -/
def ChildState.polls : ChildState → ℕ
  | dead => 0
  | shuttingDown _ true => 1
  | _ => 2

namespace Custody
variable {s s' : Custody} {e : Event} {child : ℕ} {elapsed : Bool}

/-- The supervisee is polled and its timer fires, and the tasks go on. None of its own is aborted that was
not told to, and what changes nothing does not count. -/
def Goes (s : Custody) (e : Event) : Prop :=
  (match e with
    | .poll | .elapse => True
    | .actor e => e.goes = true ∧ ∀ i, e = .finish i .aborted → i ∈ s.own → i ∈ s.aborted
    | _ => False) ∧ s.step e ≠ some s

theorem step_actor_of_goes {e : Incarnations.Event} {actor : Incarnations} (hgoes : e.goes = true)
    (hs : s.actor.step e = some actor) :
    s.step (.actor e) = some { s with actor := actor, outcomes := ended e ++ s.outcomes } := by
  have hothers : s.others e = some { s with actor := actor, outcomes := ended e ++ s.outcomes } := by
    rw [others, hs]
    rfl
  cases e <;> first | exact hothers | cases hgoes

/-- A bound on what can happen to a supervisee that is shutting down. -/
def bound (child : ℕ) (s : Custody) : ℕ :=
  s.actor.left + (if child ∈ s.aborted then 0 else 1) + s.state.polls

/-- The supervisee is shutting down its child, and has yielded `items` so far. -/
structure Stopping (child : ℕ) (items : List SuperviseeItem) (s : Custody) : Prop where
  holds : s.Holds
  state : ∃ elapsed, s.state = .shuttingDown child elapsed
  items : s.items = items

/-- It has yielded the exit of its child, which is over. -/
def HasExited (child : ℕ) (items : List SuperviseeItem) (s : Custody) : Prop :=
  ∃ exit, s.items = items ++ [.exit exit] ∧ s.state = .dead ∧ s.IsOver child

namespace Stopping
variable {items : List SuperviseeItem}

theorem isFree (h : Stopping child items s) : s.isFree = true := by
  obtain ⟨elapsed, hstate⟩ := h.state
  cases hd : s.dropped with
  | false => simp [Custody.isFree, hd, hstate, ChildState.isSpawning]
  | true =>
    have hgone := h.holds.gone hd
    rw [hstate] at hgone
    cases hgone

theorem step (h : Stopping child items s) (hgoes : s.Goes e) (hs : s.step e = some s') :
    (Stopping child items s' ∨ HasExited child items s') ∧ bound child s' < bound child s := by
  have hholds := h.holds.step hs
  obtain ⟨elapsed, hstate⟩ := h.state
  obtain ⟨hclass, hchange⟩ := hgoes
  have hne : s' ≠ s := fun heq => hchange (heq ▸ hs)
  cases e with
  | poll =>
    obtain ⟨-, hs⟩ := Option.ite_none_right_eq_some.1 hs
    cases hs
    have hmove := pollMove_poll s
    generalize s.poll = s' at hmove hholds hne ⊢
    cases hmove with
    | idle => exact absurd rfl hne
    | inbox hst _ | failed _ hst _ | initialized hst | initExit hst _ =>
      rw [hstate] at hst
      cases hst
    | @exited c exit hchild hover _ =>
      obtain rfl : child = c := by
        rw [hstate] at hchild
        exact Option.some.inj hchild
      refine ⟨.inr ⟨exit, by rw [← h.items]; rfl, rfl, hover⟩, ?_⟩
      show s.actor.left + _ + 0 < s.actor.left + _ + s.state.polls
      have hpos : 0 < s.state.polls := by rw [hstate]; cases elapsed <;> exact Nat.succ_pos _
      exact Nat.add_lt_add_left hpos _
    | @aborted c hst =>
      obtain ⟨rfl, rfl⟩ : child = c ∧ elapsed = true := by
        rw [hstate] at hst
        cases hst
        exact ⟨rfl, rfl⟩
      refine ⟨.inl ⟨hholds, ⟨true, hst⟩, h.items⟩, ?_⟩
      have hnot : child ∉ s.aborted := by
        intro hmem
        refine hne ?_
        unfold abort
        rw [List.insert_of_mem hmem]
      have htold : child ∈ (s.abort child).aborted := mem_aborted_abort.2 (.inl rfl)
      unfold bound
      rw [if_neg hnot, if_pos htold]
      exact Nat.add_lt_add_right (Nat.lt_succ_self s.actor.left) s.state.polls
  | elapse =>
    simp only [Custody.step, elapse, hstate] at hs
    cases hs
    refine ⟨.inl ⟨hholds, ⟨true, rfl⟩, h.items⟩, ?_⟩
    cases elapsed with
    | true => exact absurd (by rw [← hstate]) hne
    | false =>
      refine Nat.add_lt_add_left ?_ _
      rw [hstate]
      exact Nat.lt_succ_self 1
  | actor e =>
    obtain ⟨actor, hactor, rfl⟩ := Option.map_eq_some_iff.1 (others_of_stepActor hs)
    refine ⟨.inl ⟨hholds, ⟨elapsed, hstate⟩, h.items⟩, ?_⟩
    rcases Incarnations.left_of_step hclass.1 hactor with ⟨rfl, hended⟩ | hlt
    · refine absurd ?_ hne
      rw [hended]
      rfl
    · exact Nat.add_lt_add_right (Nat.add_lt_add_right hlt _) _
  | start | stop | drop | permit now | instantiate ok | spawned => cases hclass

/-- Something can always go on: the task that has been told to abort, if nothing else. -/
theorem next (h : Stopping child items s) : ∃ e s', s.step e = some s' ∧ s.Goes e := by
  obtain ⟨elapsed, hstate⟩ := h.state
  have hown : child ∈ s.own := h.holds.child child (by rw [hstate]; rfl)
  have hpoll : s.poll ≠ s → ∃ e s', s.step e = some s' ∧ s.Goes e := by
    intro hne
    have hstep : s.step .poll = some s.poll := if_pos h.isFree
    exact ⟨.poll, s.poll, hstep, trivial, fun heq => hne (Option.some.inj (hstep.symm.trans heq))⟩
  cases hstage : s.actor.tasks[child]? with
  | none =>
    have := List.getElem?_eq_none_iff.1 hstage
    have := h.holds.own child hown
    omega
  | some stage =>
    by_cases hover : stage = .ending []
    · subst hover
      obtain ⟨outcome, hlookup⟩ := h.holds.outcomes child [] hstage
      have hjoined : s.joined child = some outcome.joined := by
        unfold joined
        rw [hstage, hlookup]
        rfl
      refine hpoll fun heq => ?_
      have hdead : s.poll.state = .dead := by
        unfold poll
        rw [hstate]
        simp only [hjoined]
        cases outcome.joined <;> rfl
      rw [heq, hstate] at hdead
      cases hdead
    have hjoined : s.joined child = none := by
      unfold joined
      rw [hstage]
      split
      · rename_i heq
        cases heq
        exact absurd rfl hover
      · rfl
    cases elapsed with
    | false =>
      have hstep : s.step .elapse = some { s with state := .shuttingDown child true } := by
        simp only [Custody.step, elapse, hstate]
      refine ⟨.elapse, _, hstep, trivial, fun heq => ?_⟩
      have hsame := congrArg Custody.state (Option.some.inj (hstep.symm.trans heq))
      rw [hstate] at hsame
      cases hsame
    | true =>
      by_cases htold : child ∈ s.aborted
      · obtain ⟨e, actor, hgoes, hstep, hlt⟩ := Incarnations.next_of_not_over hstage hover
        have hothers := step_actor_of_goes hgoes.1 hstep
        refine ⟨.actor e, _, hothers, ⟨hgoes.1, fun i hi _ => hgoes.2 i hi ▸ htold⟩, fun heq => ?_⟩
        have hsame := congrArg Custody.actor (Option.some.inj (hothers.symm.trans heq))
        rw [show actor = s.actor from hsame] at hlt
        exact lt_irrefl _ hlt
      · refine hpoll fun heq => htold ?_
        have habort : s.poll = s.abort child := by
          unfold poll
          rw [hstate]
          simp only [hjoined, if_true]
        rw [← heq, habort]
        exact mem_aborted_abort.2 (.inl rfl)

end Stopping

end Custody
end Zestors
