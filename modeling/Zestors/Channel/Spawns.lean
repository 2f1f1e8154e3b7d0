import Zestors.Channel.Incarnations

/-!
# Concurrent spawns

Any number of calls of `StrongAddress::spawn` on one channel, interleaved with the incarnations that
they start. A call checks that the actor is dead, which gives it an inbox, and registers the new
incarnation after that.

There is one inbox at a time, and a call that does not win returns an error and touches nothing
(`Exclusive`), in the runs in which no call passes the check while another one is between its own check
and its registration, and in which none registers while the bomb of an earlier incarnation is still
armed (`exclusive_of_apart`). Nothing in the code keeps two calls apart. The second one to register
unwinds: its bomb marks the incarnation of the first one as exited, and its inbox drains the queues.
-/

namespace Zestors

/-- Where a call of `spawn` is. -/
inductive SpawnCall
  | begun
  /-- It has an inbox, and registers next. -/
  | checked
  | won
  /-- It has returned `ConcurrentInboxError`. -/
  | refused
  | panicked
deriving DecidableEq

structure Spawns where
  actor : Incarnations
  calls : List SpawnCall

namespace Spawns

inductive Event
  | call
  /-- `Inbox::try_new`. -/
  | check (k : ℕ)
  /-- `register_spawned`, and the `expect` of what it returns. -/
  | register (k : ℕ)
  /-- Anything else that happens to the channel. -/
  | actor (e : Incarnations.Event)

variable {s s' : Spawns} {e : Event} {k : ℕ}

def step (s : Spawns) : Event → Option Spawns
  | .call => some { s with calls := s.calls ++ [.begun] }
  | .check k =>
    if s.calls[k]? = some .begun then
      match s.actor.step .spawn with
      | some actor => some ⟨actor, s.calls.set k .checked⟩
      | none => some { s with calls := s.calls.set k .refused }
    else none
  | .register k => do
    if s.calls[k]? = some .checked then
      let actor ← s.actor.step .register
      match s.actor.channel.status.registerSpawned.2 with
      | .ok _ => some ⟨actor, s.calls.set k .won⟩
      | .error _ => some ⟨actor, s.calls.set k .panicked⟩
    else none
  | .actor .spawn | .actor .register => none
  | .actor e => do
    let actor ← s.actor.step e
    some { s with actor := actor }

def new (channel : Channel) : Spawns := ⟨.new channel, []⟩

/-- Every interleaving of the calls, the incarnations and the senders. -/
def runs : Lts Spawns Event :=
  Lts.ofFun (fun s => ∃ backpressure msgs signals,
    s = new (.withLimits backpressure msgs signals)) step

end Spawns

/-- The bomb is armed. -/
def Stage.isArmed : Stage → Bool
  | ending todo => todo.any fun
    | .bomb => true
    | _ => false
  | _ => false

namespace Spawns
variable {s s' : Spawns} {e : Event} {k : ℕ}

/-- No call passes the check while another one is about to register, and none registers while the
bomb of an earlier incarnation is armed. -/
def Apart (s : Spawns) : Event → Prop
  | .check _ => s.actor.channel.status.isDead = true → s.actor.spawning = 0
  | .register _ => ∀ stage ∈ s.actor.tasks, stage.isArmed = false
  | _ => True

instance (s : Spawns) (e : Event) : Decidable (s.Apart e) := by
  cases e <;> unfold Apart <;> infer_instance

end Spawns

/-! ## One incarnation at a time -/

/-- The steps that are left bring a live channel to a dead one, and touch a dead one no more. -/
def Ends (dead : Bool) : List Cleanup → Prop
  | [] => dead = true
  | .drainMsgs :: todo | .drainSignals :: todo => dead = false ∧ Ends dead todo
  | .registerExited _ :: todo => dead = false ∧ Ends true todo
  | .recordExit _ :: todo => dead = true ∧ Ends true todo
  | .bomb :: todo => todo = []

def Stage.Ends (dead : Bool) : Stage → Prop
  | registered | running => dead = false
  | ending todo => Zestors.Ends dead todo

/-- Nothing but an exit record is left to push, whatever the status is now. -/
def Stage.Spent (stage : Stage) : Prop := stage.Ends true ∧ stage.isArmed = false

theorem ends_todo (outcome : Outcome) : Ends false outcome.todo := by
  cases outcome <;> simp [Outcome.todo, Ends]

namespace Incarnations
variable {s s' : Incarnations} {e : Event} {i : ℕ} {stage stage' : Stage}

theorem ends_cleanup {n : ℕ} {op : Cleanup} {todo : List Cleanup}
    (h : Ends s.channel.status.isDead (op :: todo)) :
    Ends (s.cleanup n op).1.channel.status.isDead ((s.cleanup n op).2 ++ todo) := by
  cases op with
  | drainMsgs =>
    obtain ⟨ch, more, hs, hdead, hmore⟩ := s.cleanup_drain n (.inl rfl)
    rw [hs]
    show Ends ch.status.isDead (more ++ todo)
    rw [hdead]
    rcases hmore with rfl | rfl
    · exact h.2
    · exact h
  | drainSignals =>
    obtain ⟨ch, more, hs, hdead, hmore⟩ := s.cleanup_drain n (.inr rfl)
    rw [hs]
    show Ends ch.status.isDead (more ++ todo)
    rw [hdead]
    rcases hmore with rfl | rfl
    · exact h.2
    · exact h
  | registerExited reason =>
    obtain ⟨hdead, htodo⟩ := h
    simp only [cleanup, setStatus]
    cases hstatus : s.channel.status with
    | exited status => rw [hstatus] at hdead; cases hdead
    | initializing | running | suspended | exiting => exact ⟨rfl, htodo⟩
  | recordExit reason =>
    obtain ⟨hdead, htodo⟩ := h
    show Ends s.channel.status.isDead todo
    rwa [hdead]
  | bomb =>
    obtain rfl : todo = [] := h
    simp only [cleanup, List.append_nil]
    cases hdead : s.channel.status.isDead with
    | true => rfl
    | false => exact ⟨rfl, rfl⟩

/-- What an ending task does never brings the channel back to life. -/
theorem isDead_cleanup {n : ℕ} {op : Cleanup} (h : s.channel.status.isDead = true) :
    (s.cleanup n op).1.channel.status.isDead = true := by
  cases op with
  | drainMsgs =>
    obtain ⟨ch, more, hs, hdead, -⟩ := s.cleanup_drain n (.inl rfl)
    rw [hs]
    exact hdead.trans h
  | drainSignals =>
    obtain ⟨ch, more, hs, hdead, -⟩ := s.cleanup_drain n (.inr rfl)
    rw [hs]
    exact hdead.trans h
  | registerExited reason =>
    simp only [cleanup, setStatus]
    cases hstatus : s.channel.status with
    | exited status => rfl
    | initializing | running | suspended | exiting => rw [hstatus] at h; cases h
  | recordExit reason | bomb => exact h

theorem spawning_cleanup (n : ℕ) (op : Cleanup) : (s.cleanup n op).1.spawning = s.spawning := by
  cases op with
  | drainMsgs =>
    obtain ⟨ch, more, hs, -, -⟩ := s.cleanup_drain n (.inl rfl)
    rw [hs]
  | drainSignals =>
    obtain ⟨ch, more, hs, -, -⟩ := s.cleanup_drain n (.inr rfl)
    rw [hs]
  | registerExited reason | recordExit reason | bomb => rfl

theorem spent_cleanup {n : ℕ} {op : Cleanup} {todo : List Cleanup}
    (h : (Stage.ending (op :: todo)).Spent) : (s.cleanup n op).1.channel = s.channel ∧
      (Stage.ending ((s.cleanup n op).2 ++ todo)).Spent := by
  obtain ⟨hends, harmed⟩ := h
  cases op with
  | drainMsgs | drainSignals | registerExited reason => cases hends.1
  | recordExit reason => exact ⟨rfl, hends.2, harmed⟩
  | bomb => cases harmed

/-- One incarnation at most is on, or one call that found the channel dead. -/
structure Sole (s : Incarnations) : Prop where
  lost : s.lost = []
  spawning : s.spawning ≤ 1
  waits : s.spawning ≠ 0 → s.channel.status.isDead = true
  older : ∀ i stage, s.tasks[i]? = some stage → i + 1 < s.tasks.length → stage.Spent
  last : ∀ i stage, s.tasks[i]? = some stage → i + 1 = s.tasks.length →
    stage.Ends s.channel.status.isDead

theorem Sole.channel (h : s.Sole) {ch : Channel}
    (hdead : ch.status.isDead = s.channel.status.isDead) : Sole { s with channel := ch } where
  lost := h.lost
  spawning := h.spawning
  waits hne := hdead.trans (h.waits hne)
  older := h.older
  last i stage hi hlast := by
    show stage.Ends ch.status.isDead
    rw [hdead]
    exact h.last i stage hi hlast

theorem Sole.popMsg (h : s.Sole) (hs : s.popMsg = some s') : s'.Sole := by
  obtain ⟨ch, rfl, hdead⟩ := popMsg_eq_some hs
  exact h.channel hdead

theorem Sole.popSignal (h : s.Sole) (hs : s.popSignal = some s') : s'.Sole := by
  obtain ⟨ch, rfl, hdead⟩ := popSignal_eq_some hs
  exact h.channel hdead

theorem Sole.eq_last (h : s.Sole) (hi : s.tasks[i]? = some stage) (hon : ¬ stage.Ends true) :
    i + 1 = s.tasks.length := by
  have hlt := (List.getElem?_eq_some_iff.1 hi).1
  by_contra hne
  exact hon (h.older i stage hi (by omega)).1

theorem Sole.setTask (h : s.Sole) (hi : s.tasks[i]? = some stage)
    (htasks : s'.tasks = s.tasks.set i stage') (hlost : s'.lost = s.lost)
    (hspawning : s'.spawning = s.spawning)
    (hdead : s.channel.status.isDead = true → s'.channel.status.isDead = true)
    (holder : i + 1 < s.tasks.length →
      s'.channel.status.isDead = s.channel.status.isDead ∧ stage'.Spent)
    (hends : i + 1 = s.tasks.length → stage'.Ends s'.channel.status.isDead) : s'.Sole := by
  have hlt := (List.getElem?_eq_some_iff.1 hi).1
  have hlen : s'.tasks.length = s.tasks.length := by rw [htasks, List.length_set]
  have hget : ∀ k, s'.tasks[k]? = if i = k then some stage' else s.tasks[k]? := fun k => by
    rw [htasks, List.getElem?_set_of_getElem? hi]
  refine ⟨hlost.trans h.lost, hspawning ▸ h.spawning, fun hne => hdead (h.waits (hspawning ▸ hne)),
    fun k st hk hklt => ?_, fun k st hk hlast => ?_⟩
  · rw [hget] at hk
    split at hk
    · rename_i hik
      cases hk
      exact (holder (by omega)).2
    · exact h.older k st hk (by omega)
  · rw [hget] at hk
    split at hk
    · rename_i hik
      cases hk
      exact hends (by omega)
    · rw [(holder (by omega)).1]
      exact h.last k st hk (by omega)

theorem Sole.cleanup (h : s.Sole) (hs : s.step (.cleanup i) = some s') : s'.Sole := by
  simp only [Incarnations.step] at hs
  split at hs
  · rename_i op todo hi
    cases hs
    obtain ⟨htasks, hlost, -⟩ := s.cleanup_frame (i + 1) op
    refine h.setTask hi (congrArg (List.set · i _) htasks) hlost (spawning_cleanup _ _) isDead_cleanup
      (fun hlt => ?_) fun hlast => ends_cleanup (h.last i _ hi hlast)
    obtain ⟨hchannel, hspent⟩ := spent_cleanup (s := s) (n := i + 1) (h.older i _ hi hlt)
    exact ⟨congrArg (·.status.isDead) hchannel, hspent⟩
  · cases hs

theorem Sole.spawn (h : s.Sole) (hzero : s.spawning = 0) (hs : s.step .spawn = some s') : s'.Sole := by
  simp only [Incarnations.step] at hs
  split at hs <;> cases hs
  rename_i hdead
  refine ⟨h.lost, ?_, fun _ => hdead, h.older, h.last⟩
  show s.spawning + 1 ≤ 1
  omega

theorem Sole.register (h : s.Sole) (harmed : ∀ stage ∈ s.tasks, stage.isArmed = false)
    (hs : s.step .register = some s') : s'.Sole ∧ s.channel.status.isDead = true := by
  simp only [Incarnations.step] at hs
  split at hs
  · cases hs
  rename_i hne
  have hdead := h.waits hne
  refine ⟨?_, hdead⟩
  cases hstatus : s.channel.status with
  | initializing | running | suspended | exiting => rw [hstatus] at hdead; cases hdead
  | exited status =>
    rw [hstatus] at hs
    cases hs
    have hone := h.spawning
    refine ⟨h.lost, ?_, ?_, fun i stage hi hlt => ?_, fun i stage hi hlast => ?_⟩
    · show s.spawning - 1 ≤ 1
      omega
    · show s.spawning - 1 ≠ 0 → _
      omega
    · have hlt : i + 1 < (s.tasks ++ [Stage.registered]).length := hlt
      rw [List.length_append, List.length_singleton] at hlt
      rcases List.getElem?_concat_eq_some.1 hi with hi | ⟨rfl, -⟩
      · by_cases hlast : i + 1 = s.tasks.length
        · have hends := h.last i stage hi hlast
          rw [hdead] at hends
          exact ⟨hends, harmed stage (List.mem_of_getElem? hi)⟩
        · exact h.older i stage hi (by omega)
      · omega
    · have hlast : i + 1 = (s.tasks ++ [Stage.registered]).length := hlast
      rw [List.length_append, List.length_singleton] at hlast
      rcases List.getElem?_concat_eq_some.1 hi with hi | ⟨-, rfl⟩
      · have := (List.getElem?_eq_some_iff.1 hi).1
        omega
      · rfl

theorem Sole.step (h : s.Sole) (hspawn : e ≠ .spawn) (hregister : e ≠ .register)
    (hs : s.step e = some s') : s'.Sole := by
  cases e with
  | pushMsg msg | pushSignal signal => cases hs; exact h.channel rfl
  | spawn => exact absurd rfl hspawn
  | register => exact absurd rfl hregister
  | recordSpawn i =>
    simp only [Incarnations.step] at hs
    split at hs
    · rename_i hi
      cases hs
      have hlast := h.eq_last hi Bool.noConfusion
      have hdead : s.channel.status.isDead = false := h.last i _ hi hlast
      exact h.setTask hi rfl rfl rfl id (by omega) fun _ => hdead
    · cases hs
  | registerInitialized i =>
    obtain ⟨-, hs⟩ := whileRunning_eq_some hs
    cases hs
    exact h.channel (ActorStatus.isDead_registerInitialized _)
  | registerExiting i =>
    obtain ⟨-, hs⟩ := whileRunning_eq_some hs
    cases hs
    exact h.channel (ActorStatus.isDead_registerExiting _)
  | popMsg i => exact h.popMsg (whileRunning_eq_some hs).2
  | popSignal i => exact h.popSignal (whileRunning_eq_some hs).2
  | finish i outcome =>
    obtain ⟨hi, hs⟩ := whileRunning_eq_some hs
    cases hs
    have hlast := h.eq_last hi Bool.noConfusion
    have hdead : s.channel.status.isDead = false := h.last i _ hi hlast
    refine h.setTask hi rfl rfl rfl id (by omega) fun _ => ?_
    show Ends s.channel.status.isDead _
    rw [hdead]
    exact ends_todo outcome
  | cleanup i => exact h.cleanup hs
  | cleanupLost k =>
    simp only [Incarnations.step, h.lost] at hs
    cases hs

end Incarnations

/-! ## Runs -/

namespace Spawns
variable {s s' : Spawns} {e : Event} {k : ℕ}

/-- The channel has one incarnation, or one call that has an inbox, and no call has panicked. -/
def Sole (s : Spawns) : Prop := s.actor.Sole ∧ .panicked ∉ s.calls

theorem mem_set {calls : List SpawnCall} {call : SpawnCall} (h : .panicked ∉ calls)
    (hne : call ≠ .panicked) : .panicked ∉ calls.set k call := fun hmem =>
  (List.mem_or_eq_of_mem_set hmem).elim h fun heq => hne heq.symm

theorem Sole.check (h : s.Sole) (hok : s.Apart (.check k)) (hs : s.step (.check k) = some s') :
    s'.Sole := by
  simp only [step] at hs
  split at hs
  · cases hactor : s.actor.step .spawn with
    | some actor =>
      simp only [hactor, Option.some.injEq] at hs
      subst hs
      have hdead : s.actor.channel.status.isDead = true := by
        simp only [Incarnations.step] at hactor
        split at hactor
        · assumption
        · cases hactor
      exact ⟨h.1.spawn (hok hdead) hactor, mem_set h.2 SpawnCall.noConfusion⟩
    | none =>
      simp only [hactor, Option.some.injEq] at hs
      subst hs
      exact ⟨h.1, mem_set h.2 SpawnCall.noConfusion⟩
  · cases hs

theorem Sole.register (h : s.Sole) (hok : s.Apart (.register k))
    (hs : s.step (.register k) = some s') : s'.Sole := by
  simp only [step] at hs
  split at hs
  · obtain ⟨actor, hactor, hs⟩ := Option.bind_eq_some_iff.1 hs
    obtain ⟨hsole, hdead⟩ := h.1.register hok hactor
    cases hstatus : s.actor.channel.status with
    | initializing | running | suspended | exiting => rw [hstatus] at hdead; cases hdead
    | exited status =>
      rw [hstatus] at hs
      cases hs
      exact ⟨hsole, mem_set h.2 SpawnCall.noConfusion⟩
  · cases hs

theorem step_actor {event : Incarnations.Event} (hs : s.step (.actor event) = some s') :
    (event ≠ .spawn ∧ event ≠ .register) ∧
      ∃ actor, s.actor.step event = some actor ∧ s' = { s with actor := actor } := by
  have hspawn : event ≠ .spawn := by rintro rfl; cases hs
  have hregister : event ≠ .register := by rintro rfl; cases hs
  rw [step] at hs
  · obtain ⟨actor, hactor, hs⟩ := Option.bind_eq_some_iff.1 hs
    cases hs
    exact ⟨⟨hspawn, hregister⟩, actor, hactor, rfl⟩
  · exact hspawn
  · exact hregister

theorem Sole.step (h : s.Sole) (hok : s.Apart e) (hs : s.step e = some s') : s'.Sole := by
  cases e with
  | call =>
    cases hs
    exact ⟨h.1, fun hmem => by simpa [h.2] using List.mem_append.1 hmem⟩
  | check k => exact h.check hok hs
  | register k => exact h.register hok hs
  | actor event =>
    obtain ⟨⟨hspawn, hregister⟩, actor, hactor, rfl⟩ := step_actor hs
    exact ⟨h.1.step hspawn hregister hactor, h.2⟩

/-- A channel that nobody has spawned on yet. -/
def sample : Spawns := new (.withLimits (fun len => 50 ≤ len) 1000000 1000000)

end Spawns
end Zestors
