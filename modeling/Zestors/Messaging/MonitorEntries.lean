import Zestors.Messaging.Monitors

/-!
# Whose entry it is

An entry of the table of monitors is under the name of the node and the id that it gave the monitor. A
node that restarts gives the same ids again, so that two tasks can have one key; `begin` and `end` know
the key and not the task.

An entry belongs to the newest of the tasks with its key (`EntriesOwned`) in the runs in which a
monitor begins only when no other one with its key is between its own `begin` and `end`
(`entriesOwned_of_beginsAlone`). Where two of them overlap, the first one can be called off no more,
and its end takes out the entry of the second.
-/

namespace Zestors

/-- The operation of a monitor has begun, and has not ended its entry. -/
def OpStage.isServing : OpStage → Bool
  | waiting _ | ending => true
  | arrived | spawned _ | done => false

namespace Monitoring

/-- The monitors, and a ghost: the order in which their operations have begun. -/
structure Serving where
  monitoring : Monitoring
  begun : List ℕ

/-- What a step adds to the history. -/
def beginsBy (s : Monitoring) : Event → List ℕ
  | .run i => if (s.tasks[i]?).any OpTask.isMonitor then [i] else []
  | _ => []

namespace Serving

def step (s : Serving) (e : Event) : Option Serving := do
  let monitoring ← s.monitoring.step e
  some ⟨monitoring, s.begun ++ s.monitoring.beginsBy e⟩

def runs : Lts Serving Event := Lts.ofFun (fun s => s = ⟨.new, []⟩) step

/-- The newest of the running monitors under a key. -/
def newest (s : Serving) (key : MonitorKey) : Option ℕ :=
  s.begun.reverse.find? fun i =>
    (s.monitoring.tasks[i]?).any fun task => task.stage.isServing && decide (task.key = key)

/-- An entry is that of the newest running monitor with its key, `cancel` and `drop_node` reach every
monitor that waits and has not been cancelled, and a monitor that ends takes out no entry but its own. -/
structure EntriesOwned (s : Serving) : Prop where
  newest : ∀ key i, s.monitoring.table.get? key = some i → s.newest key = some i
  reach : ∀ i task, s.monitoring.tasks[i]? = some task → task.stage.isWaiting = true →
    s.monitoring.table.get? task.key = some i ∨ i ∈ s.monitoring.table.cancelled
  ends : ∀ i task, s.monitoring.tasks[i]? = some task → task.stage = .ending →
    ∀ j, s.monitoring.table.get? task.key = some j → j = i

/-- A monitor begins when no other one with its key is running. -/
def BeginsAlone (s : Serving) : Event → Prop
  | .run i => ∀ task ∈ s.monitoring.tasks[i]?, task.isMonitor = true →
      ∀ other ∈ s.monitoring.tasks, other.key = task.key → other.stage.isServing = false
  | _ => True

instance (s : Serving) (e : Event) : Decidable (s.BeginsAlone e) := by
  cases e <;> unfold BeginsAlone <;> infer_instance

end Serving

variable {s s' : Monitoring} {begun : List ℕ} {e : Event} {i : ℕ} {task : OpTask}

theorem isServing_of_isWaiting {stage : OpStage} (h : stage.isWaiting = true) :
    stage.isServing = true := by
  cases stage with
  | waiting channel => rfl
  | _ => cases h

/-- The running monitors have begun, no two of them have one key, and the table has no others. -/
structure Owned (begun : List ℕ) (s : Monitoring) : Prop where
  entry : ∀ key i, s.table.get? key = some i →
    ∃ task, s.tasks[i]? = some task ∧ task.key = key ∧ task.stage.isServing = true
  token : ∀ i task, s.tasks[i]? = some task → task.stage.isWaiting = true →
    s.table.get? task.key = some i ∨ i ∈ s.table.cancelled
  unique : ∀ (i j : ℕ) (task task' : OpTask), s.tasks[i]? = some task → s.tasks[j]? = some task' →
    task.stage.isServing = true → task'.stage.isServing = true → task.key = task'.key → i = j
  begun : ∀ i task, s.tasks[i]? = some task → task.stage.isServing = true → i ∈ begun

theorem owned_new : Owned [] new := ⟨nofun, nofun, nofun, nofun⟩

theorem Owned.entriesOwned (h : Owned begun s) : Serving.EntriesOwned ⟨s, begun⟩ := by
  refine ⟨fun key i hi => ?_, h.token, fun i task hi hending j hj => ?_⟩
  · obtain ⟨task, htask, rfl, hserving⟩ := h.entry key i hi
    have hp : (s.tasks[i]?).any (fun t => t.stage.isServing && decide (t.key = task.key)) = true := by
      simp [htask, hserving]
    have hmem : i ∈ begun.reverse := List.mem_reverse.2 (h.begun i task htask hserving)
    have hsome : (Serving.newest ⟨s, begun⟩ task.key).isSome = true :=
      List.find?_isSome.2 ⟨i, hmem, hp⟩
    obtain ⟨j, hj⟩ := Option.isSome_iff_exists.1 hsome
    -- whatever is found is the one monitor with the key
    have hfound := List.find?_some (show List.find? _ begun.reverse = some j from hj)
    obtain ⟨task', htask', hp'⟩ := (Option.any_eq_true _ _).1 hfound
    obtain ⟨hserving', hkey⟩ := Bool.and_eq_true_iff.1 hp'
    rw [h.unique i j task task' htask htask' hserving hserving' (of_decide_eq_true hkey).symm]
    exact hj
  · obtain ⟨task', htask', hkey, hserving⟩ := h.entry task.key j hj
    exact h.unique j i task' task htask' hi hserving (by rw [hending]; rfl) hkey

/-! ## Steps -/

theorem Owned.begun_mono (h : Owned begun s) {l : List ℕ} : Owned (begun ++ l) s :=
  ⟨h.entry, h.token, h.unique, fun i task hi hs => List.mem_append_left _ (h.begun i task hi hs)⟩

theorem Owned.congr (h : Owned begun s) (htable : s'.table = s.table) (htasks : s'.tasks = s.tasks) :
    Owned begun s' := by
  obtain ⟨table, tasks, processes, statuses, calledOff⟩ := s'
  dsimp only at htable htasks
  subst htable htasks
  exact ⟨h.entry, h.token, h.unique, h.begun⟩

theorem Owned.arrive (h : Owned begun s) {new : OpTask} (hnew : new.stage = .arrived) :
    Owned begun { s with tasks := s.tasks ++ [new] } := by
  have hserving : new.stage.isServing = false := by rw [hnew]; rfl
  have hold : ∀ {i : ℕ} {task : OpTask}, (s.tasks ++ [new])[i]? = some task → task.stage.isServing = true →
      s.tasks[i]? = some task := by
    intro i task hi hs
    rcases List.getElem?_concat_eq_some.1 hi with hi | ⟨-, rfl⟩
    · exact hi
    · rw [hserving] at hs
      cases hs
  refine ⟨fun key i hi => ?_, fun i task hi hw => ?_, fun i j task task' hi hj hs hs' hkey => ?_,
    fun i task hi hs => h.begun i task (hold hi hs) hs⟩
  · obtain ⟨task, ht, hrest⟩ := h.entry key i hi
    exact ⟨task, List.getElem?_concat_eq_some.2 (.inl ht), hrest⟩
  · rcases List.getElem?_concat_eq_some.1 hi with hi | ⟨-, rfl⟩
    · exact h.token i task hi hw
    · rw [hnew] at hw
      cases hw
  · exact h.unique i j task task' (hold hi hs) (hold hj hs') hs hs' hkey

theorem Owned.cancel (h : Owned begun s) {table : Monitors}
    (hget : ∀ key i, table.get? key = some i → s.table.get? key = some i)
    (hcancelled : ∀ i ∈ s.table.cancelled, i ∈ table.cancelled)
    (hgone : ∀ key i, s.table.get? key = some i → table.get? key = some i ∨ i ∈ table.cancelled) :
    Owned begun { s with table := table } := by
  refine ⟨fun key i hi => h.entry key i (hget key i hi), fun i task hi hw => ?_, h.unique, h.begun⟩
  rcases h.token i task hi hw with hkey | hc
  · exact hgone task.key i hkey
  · exact .inr (hcancelled i hc)

/-- A task goes on without becoming a running monitor, and stays one as long as it has an entry. -/
theorem Owned.setStage (h : Owned begun s) (hi : s.tasks[i]? = some task) {stage : OpStage}
    (hwaiting : stage.isWaiting = false)
    (hserving : stage.isServing = true → task.stage.isServing = true)
    (hentry : task.stage.isServing = true → stage.isServing = false →
      ∀ key, s.table.get? key ≠ some i) : Owned begun (s.setStage i task stage) := by
  have hset : ∀ j, (s.tasks.set i { task with stage := stage })[j]? =
      if i = j then some { task with stage := stage } else s.tasks[j]? := fun _ =>
    List.getElem?_set_of_getElem? hi
  -- a running monitor was one before, under the same key
  have hback : ∀ {j : ℕ} {t : OpTask}, (s.tasks.set i { task with stage := stage })[j]? = some t →
      t.stage.isServing = true →
      ∃ u : OpTask, s.tasks[j]? = some u ∧ u.stage.isServing = true ∧ u.key = t.key := by
    intro j t hj hs
    rw [hset] at hj
    split at hj
    · cases hj
      subst j
      exact ⟨task, hi, hserving hs, rfl⟩
    · exact ⟨t, hj, hs, rfl⟩
  refine ⟨fun key j hj => ?_, fun j t hj hw => ?_, fun j k t t' hj hk hs hs' hkey => ?_,
    fun j t hj hs => ?_⟩
  · obtain ⟨t, ht, hkey, hs⟩ := h.entry key j hj
    show ∃ t, (s.tasks.set i { task with stage := stage })[j]? = some t ∧ _
    rw [hset]
    by_cases hij : i = j
    · subst hij
      rw [hi] at ht
      cases ht
      refine ⟨_, if_pos rfl, hkey, ?_⟩
      by_contra hstage
      exact hentry hs (Bool.eq_false_iff.2 hstage) key hj
    · exact ⟨t, (if_neg hij).trans ht, hkey, hs⟩
  · have hj : (s.tasks.set i { task with stage := stage })[j]? = some t := hj
    rw [hset] at hj
    split at hj
    · cases hj
      rw [hwaiting] at hw
      cases hw
    · exact h.token j t hj hw
  · obtain ⟨u, hu, hus, hukey⟩ := hback hj hs
    obtain ⟨u', hu', hus', hukey'⟩ := hback hk hs'
    exact h.unique j k u u' hu hu' hus hus' (hukey.trans (hkey.trans hukey'.symm))
  · obtain ⟨u, hu, hus, -⟩ := hback hj hs
    exact h.begun j u hu hus

theorem Owned.begin (h : Owned begun s) (hi : s.tasks[i]? = some task)
    (hstage : task.stage.isServing = false)
    (halone : ∀ other ∈ s.tasks, other.key = task.key → other.stage.isServing = false) (channel : ℕ) :
    Owned (begun ++ [i])
      ({ s with table := s.table.begin task.key i }.setStage i task (.waiting channel)) := by
  have hset : ∀ j, (s.tasks.set i { task with stage := .waiting channel })[j]? =
      if i = j then some { task with stage := .waiting channel } else s.tasks[j]? := fun _ =>
    List.getElem?_set_of_getElem? hi
  have hother : ∀ {j : ℕ} {t : OpTask}, s.tasks[j]? = some t → t.stage.isServing = true →
      t.key ≠ task.key := by
    intro j t hj hs hkey
    rw [halone t (List.mem_of_getElem? hj) hkey] at hs
    cases hs
  refine ⟨fun key j hj => ?_, fun j t hj hw => ?_, fun j k t t' hj hk hs hs' hkey => ?_,
    fun j t hj hs => ?_⟩
  · have hj : (s.table.begin task.key i).get? key = some j := hj
    show ∃ t, (s.tasks.set i { task with stage := .waiting channel })[j]? = some t ∧ _
    rw [Monitors.get?_begin] at hj
    rw [hset]
    split at hj
    · cases hj
      exact ⟨_, if_pos rfl, Eq.symm ‹_›, rfl⟩
    · obtain ⟨t, ht, hkey, hs⟩ := h.entry key j hj
      have hij : i ≠ j := by
        rintro rfl
        rw [hi] at ht
        cases ht
        rw [hstage] at hs
        cases hs
      exact ⟨t, (if_neg hij).trans ht, hkey, hs⟩
  · show (s.table.begin task.key i).get? t.key = some j ∨ j ∈ s.table.cancelled
    have hj : (s.tasks.set i { task with stage := .waiting channel })[j]? = some t := hj
    rw [hset] at hj
    rw [Monitors.get?_begin]
    split at hj
    · cases hj
      subst j
      exact .inl (if_pos rfl)
    · have hs := isServing_of_isWaiting hw
      rw [if_neg (hother hj hs)]
      exact h.token j t hj hw
  · have hj : (s.tasks.set i { task with stage := .waiting channel })[j]? = some t := hj
    have hk : (s.tasks.set i { task with stage := .waiting channel })[k]? = some t' := hk
    rw [hset] at hj hk
    split at hj <;> split at hk
    · exact (‹i = j›).symm.trans ‹i = k›
    · cases hj
      exact absurd hkey.symm (hother hk hs')
    · cases hk
      exact absurd hkey (hother hj hs)
    · exact h.unique j k t t' hj hk hs hs' hkey
  · have hj : (s.tasks.set i { task with stage := .waiting channel })[j]? = some t := hj
    rw [hset] at hj
    split at hj
    · exact List.mem_append_right _ (List.mem_singleton.2 (Eq.symm ‹_›))
    · exact List.mem_append_left _ (h.begun j t hj hs)

theorem Owned.endFor (h : Owned begun s) (hi : s.tasks[i]? = some task) (hstage : task.stage = .ending) :
    Owned begun ({ s with table := s.table.endFor task.key }.setStage i task .done) := by
  have hserving : task.stage.isServing = true := by rw [hstage]; rfl
  have hend : Owned begun { s with table := s.table.endFor task.key } := by
    refine ⟨fun key j hj => h.entry key j (Monitors.get?_of_endFor hj), fun j t hj hw => ?_, h.unique,
      h.begun⟩
    refine (h.token j t hj hw).imp (fun hget => ?_) id
    rw [Monitors.get?_endFor]
    split
    · rename_i hkey
      -- one that waits under the key would be the one that ends
      have hs := isServing_of_isWaiting hw
      obtain rfl := h.unique j i t task hj hi hs hserving hkey
      rw [hi] at hj
      cases hj
      rw [hstage] at hw
      cases hw
    · exact hget
  refine hend.setStage hi rfl (fun hs => ?_) fun _ _ key hkey => ?_
  · cases hs
  · rw [Monitors.get?_endFor] at hkey
    split at hkey
    · cases hkey
    · obtain ⟨t, ht, hkey', -⟩ := h.entry key i hkey
      rw [hi] at ht
      cases ht
      exact absurd hkey'.symm ‹_›

theorem Owned.deliver (h : Owned begun s) (hi : s.tasks[i]? = some task) (hstage : task.stage = .arrived) :
    Owned begun (s.deliver i task) := by
  have hgo : ∀ stage : OpStage, stage.isWaiting = false → stage.isServing = false →
      Owned begun (s.setStage i task stage) := by
    intro stage hw hs
    refine h.setStage hi hw (fun hs' => ?_) fun hs' => ?_
    · rw [hs] at hs'
      cases hs'
    · rw [hstage] at hs'
      cases hs'
  unfold Monitoring.deliver
  split
  · exact hgo _ rfl rfl
  · split
    · exact hgo _ rfl rfl
    · exact (hgo .done rfl rfl).congr rfl rfl

theorem Owned.run (h : Owned begun s) (hi : s.tasks[i]? = some task) {channel : ℕ}
    (hstage : task.stage = .spawned channel) (hok : Serving.BeginsAlone ⟨s, begun⟩ (.run i)) :
    Owned (begun ++ s.beginsBy (.run i)) (s.run i task channel) := by
  have hserving : task.stage.isServing = false := by rw [hstage]; rfl
  cases hop : task.op with
  | monitor kinds =>
    have hmonitor : task.isMonitor = true := by rw [OpTask.isMonitor, hop]
    have hbegins : s.beginsBy (.run i) = [i] := by
      rw [beginsBy, hi, Option.any_some, if_pos hmonitor]
    rw [hbegins, Monitoring.run, hop]
    exact h.begin hi hserving (hok task hi hmonitor) channel
  | demonitor =>
    rw [Monitoring.run, hop]
    have hcancel : Owned begun { s with table := s.table.cancel task.key } := by
      refine h.cancel (fun _ _ => Monitors.get?_of_cancel) (fun j hj => ?_) fun key j hj => ?_
      · exact Monitors.mem_cancelled_cancel.2 (.inr hj)
      · rw [Monitors.get?_cancel]
        by_cases hkey : key = task.key
        · exact .inr (Monitors.mem_cancelled_cancel.2 (.inl (hkey ▸ hj)))
        · exact .inl ((if_neg hkey).trans hj)
    have hdone : Owned begun ({ s with table := s.table.cancel task.key }.setStage i task .done) := by
      refine hcancel.setStage hi rfl (fun hs => ?_) fun hs => ?_
      · cases hs
      · rw [hserving] at hs
        cases hs
    refine Owned.begun_mono ?_
    exact hdone.congr rfl rfl

theorem Owned.dropNode (h : Owned begun s) (node : NodeName) :
    Owned begun { s with table := s.table.dropNode node } := by
  refine h.cancel (fun key j hj => (Monitors.get?_dropNode.1 hj).1) (fun j hj => ?_) fun key j hj => ?_
  · exact Monitors.mem_cancelled_dropNode.2 (.inr hj)
  · by_cases hnode : key.1 = node
    · exact .inr (Monitors.mem_cancelled_dropNode.2 (.inl ⟨key, hj, hnode⟩))
    · exact .inl (Monitors.get?_dropNode.2 ⟨hj, hnode⟩)

theorem Owned.step (h : Owned begun s) (hok : Serving.BeginsAlone ⟨s, begun⟩ e)
    (hs : s.step e = some s') : Owned (begun ++ s.beginsBy e) s' := by
  cases e with
  | arrive key target op =>
    cases hs
    exact (h.arrive rfl).begun_mono
  | register name channel | status channel status =>
    cases hs
    refine Owned.begun_mono ?_
    exact h.congr rfl rfl
  | deliver i =>
    obtain ⟨task, hi, hs⟩ := Option.bind_eq_some_iff.1 hs
    split_ifs at hs with hstage
    cases hs
    exact (h.deliver hi hstage).begun_mono
  | run i =>
    obtain ⟨task, hi, hs⟩ := Option.bind_eq_some_iff.1 hs
    split at hs
    · cases hs
      exact h.run hi ‹_› hok
    · cases hs
  | reached i | cancelled i =>
    obtain ⟨task, hi, hs⟩ := Option.bind_eq_some_iff.1 hs
    split at hs
    · split_ifs at hs
      cases hs
      refine (h.setStage hi rfl (fun _ => ?_) fun _ hfalse => ?_).begun_mono
      · rw [‹task.stage = _›]
        rfl
      · cases hfalse
    · cases hs
  | finish i =>
    obtain ⟨task, hi, hs⟩ := Option.bind_eq_some_iff.1 hs
    split_ifs at hs with hstage
    cases hs
    exact (h.endFor hi hstage).begun_mono
  | dropNode node =>
    cases hs
    refine Owned.begun_mono ?_
    exact (h.dropNode node).congr rfl rfl

end Monitoring

open Monitoring

/-- Over every run in which a monitor begins only when no other one with its key is running, an entry is
that of the newest running monitor with its key, every one that waits can be called off, and none takes
out the entry of another. -/
theorem entriesOwned_of_beginsAlone {s : Serving}
    (h : (Serving.runs.guard Serving.BeginsAlone).Reachable s) : s.EntriesOwned := by
  have hinv : Owned s.begun s.monitoring := by
    refine h.guard_invariant (I := fun s => Owned s.begun s.monitoring) ?_ ?_
    · rintro s rfl
      exact owned_new
    · rintro s e s' hs hok hstep
      obtain ⟨monitoring, hmonitoring, hstep⟩ := Option.bind_eq_some_iff.1 hstep
      cases hstep
      exact hs.step hok hmonitoring
  exact hinv.entriesOwned

/-- The node is lost and comes back, and uses its id again when the first monitor is over. -/
theorem entriesOwned_of_beginsAlone_reused : ∃ s, (Serving.runs.guard Serving.BeginsAlone).Reachable s ∧
    (s.begun = [0, 1] ∧ s.monitoring.tasks.map (·.stage) = [.done, .waiting 0]) ∧ s.EntriesOwned := by
  obtain ⟨s, hs, h⟩ : ∃ s, (Serving.runs.guard Serving.BeginsAlone).Reachable s ∧ _ :=
    Lts.exists_guard_reachable_of_exec (f := Serving.step)
      (p := fun s => s.begun = [0, 1] ∧ s.monitoring.tasks.map (·.stage) = [.done, .waiting 0])
      (s := ⟨.new, []⟩) rfl
      [.register ⟨"a"⟩ (some 0), .status 0 .running, .arrive ("n", 0) ⟨"a"⟩ (.monitor [.exited]),
        .deliver 0, .run 0, .dropNode "n", .cancelled 0, .finish 0,
        .arrive ("n", 0) ⟨"a"⟩ (.monitor [.exited]), .deliver 1, .run 1]
      (by decide +kernel)
  exact ⟨s, hs, h, entriesOwned_of_beginsAlone hs⟩

/-- The second monitor under a key begins while the first one waits, which then is out of reach. Where
the first one had been cancelled, its end takes out the entry of the second. -/
theorem not_entriesOwned : (∃ s, Serving.runs.Reachable s ∧ s.begun = [0, 1] ∧
      s.monitoring.tasks.map (·.stage) = [.waiting 0, .waiting 0] ∧
      s.monitoring.table.get? ("n", 0) = some 1 ∧ s.monitoring.table.cancelled = []) ∧
    (∃ s, Serving.runs.Reachable s ∧ s.monitoring.tasks.map (·.stage) = [.done, .waiting 0] ∧
      s.monitoring.tasks.map (·.key) = [("n", 0), ("n", 0)] ∧
      s.monitoring.table.get? ("n", 0) = none ∧ s.monitoring.table.cancelled = [0]) ∧
    ¬ ∀ s, Serving.runs.Reachable s → s.EntriesOwned := by
  have hsecond : ∃ s, Serving.runs.Reachable s ∧
      s.monitoring.tasks.map (·.stage) = [.done, .waiting 0] ∧
      s.monitoring.tasks.map (·.key) = [("n", 0), ("n", 0)] ∧
      s.monitoring.table.get? ("n", 0) = none ∧ s.monitoring.table.cancelled = [0] :=
    Lts.exists_reachable_of_exec (s := ⟨.new, []⟩) rfl
      [.register ⟨"a"⟩ (some 0), .status 0 .running, .arrive ("n", 0) ⟨"a"⟩ (.monitor [.exited]),
        .deliver 0, .run 0, .dropNode "n", .arrive ("n", 0) ⟨"a"⟩ (.monitor [.exited]), .deliver 1,
        .run 1, .cancelled 0, .finish 0]
      (by decide +kernel)
  refine ⟨?_, hsecond, fun hall => ?_⟩
  · exact Lts.exists_reachable_of_exec (s := ⟨.new, []⟩) rfl
      [.register ⟨"a"⟩ (some 0), .status 0 .running, .arrive ("n", 0) ⟨"a"⟩ (.monitor [.exited]),
        .deliver 0, .run 0, .arrive ("n", 0) ⟨"a"⟩ (.monitor [.exited]), .deliver 1, .run 1]
      (by decide +kernel)
  · obtain ⟨s, hs, hstages, hkeys, hget, hcancelled⟩ := hsecond
    obtain ⟨first, second, htasks⟩ := List.length_eq_two.1 ((List.length_map _).symm.trans
      (congrArg List.length hstages))
    rw [htasks] at hstages hkeys
    simp only [List.map_cons, List.map_nil, List.cons.injEq, and_true] at hstages hkeys
    have hreach := (hall s hs).reach 1 second (by rw [htasks]; rfl) (by rw [hstages.2]; rfl)
    rw [hkeys.2, hget, hcancelled] at hreach
    simp at hreach

end Zestors
