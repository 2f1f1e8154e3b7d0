import Mathlib.Logic.Function.Basic
import Zestors.ActorStatus
import Zestors.Lib.ListOrder
import Zestors.Lib.Lts
import Zestors.Messaging.Pending
import Zestors.Supervisor.Supervisee

/-!
# The monitors of other nodes

The frames that ask a node for monitors and call them off, the tasks that serve them, each frame a
task of its own, and the table of monitors. A monitor gets into the table when its operation first
runs; until then, nothing that calls it off can find it.

A monitor that was called off, or whose node was lost, is let go of (`LetGo`) in the runs in which
that happens after it has begun, and the actor is found when it is called off
(`letGo_of_calledOffInTime`).
-/

namespace Zestors

inductive ActorStatusKind
  | exited
  | initializing
  | running
  | suspended
  | exiting
deriving DecidableEq

def ActorStatus.kind : ActorStatus → ActorStatusKind
  | exited _ => .exited
  | initializing => .initializing
  | running => .running
  | suspended => .suspended
  | exiting => .exiting

/-- Who asked for a monitor, and under which id. -/
abbrev MonitorKey := NodeName × UInt64

/-- The table of monitors. A `CancellationToken` is known by the number of the task that waits on it;
`cancelled` has those that were cancelled. -/
structure Monitors where
  live : AList fun _ : MonitorKey => ℕ
  cancelled : List ℕ

namespace Monitors
variable {m : Monitors} {key key' : MonitorKey} {token : ℕ}

def empty : Monitors := ⟨∅, []⟩

def get? (m : Monitors) (key : MonitorKey) : Option ℕ := m.live.lookup key

/-- A token that was there under the key is forgotten, and not cancelled. -/
def begin (m : Monitors) (key : MonitorKey) (token : ℕ) : Monitors :=
  { m with live := m.live.insert key token }

/-- `Monitors::end`. -/
def endFor (m : Monitors) (key : MonitorKey) : Monitors := { m with live := m.live.erase key }

def cancel (m : Monitors) (key : MonitorKey) : Monitors :=
  match m.get? key with
  | none => m
  | some token => ⟨m.live.erase key, token :: m.cancelled⟩

def dropNode (m : Monitors) (node : NodeName) : Monitors :=
  ⟨⟨m.live.entries.filter fun e => e.1.1 ≠ node, m.live.nodupKeys.sublist List.filter_sublist⟩,
    (m.live.entries.filter fun e => e.1.1 = node).map (·.2) ++ m.cancelled⟩

theorem get?_eq_some : m.get? key = some token ↔ ⟨key, token⟩ ∈ m.live.entries := AList.mem_lookup_iff

theorem get?_begin (m : Monitors) (key key' : MonitorKey) (token : ℕ) :
    (m.begin key token).get? key' = if key' = key then some token else m.get? key' := by
  by_cases h : key' = key
  · subst h
    simp [begin, get?]
  · simp [begin, get?, h, AList.lookup_insert_ne h]

theorem get?_endFor (m : Monitors) (key key' : MonitorKey) :
    (m.endFor key).get? key' = if key' = key then none else m.get? key' := by
  by_cases h : key' = key
  · subst h
    simp [endFor, get?]
  · simp [endFor, get?, h, AList.lookup_erase_ne h]

theorem get?_of_endFor (h : (m.endFor key').get? key = some token) : m.get? key = some token := by
  rw [get?_endFor] at h
  split at h
  · cases h
  · exact h

theorem get?_cancel (m : Monitors) (key key' : MonitorKey) :
    (m.cancel key).get? key' = if key' = key then none else m.get? key' := by
  cases hget : m.get? key with
  | none =>
    simp only [cancel, hget]
    split
    · rename_i h
      rw [h, hget]
    · rfl
  | some token =>
    simp only [cancel, hget]
    exact m.get?_endFor key key'

theorem get?_of_cancel (h : (m.cancel key').get? key = some token) : m.get? key = some token := by
  rw [get?_cancel] at h
  split at h
  · cases h
  · exact h

theorem mem_cancelled_cancel : token ∈ (m.cancel key).cancelled ↔
    m.get? key = some token ∨ token ∈ m.cancelled := by
  unfold cancel
  cases hget : m.get? key with
  | none => simp
  | some other => simp [eq_comm]

theorem get?_dropNode {node : NodeName} :
    (m.dropNode node).get? key = some token ↔ m.get? key = some token ∧ key.1 ≠ node := by
  rw [get?_eq_some, get?_eq_some, dropNode, List.mem_filter]
  simp

theorem mem_cancelled_dropNode {node : NodeName} : token ∈ (m.dropNode node).cancelled ↔
    (∃ key : MonitorKey, m.get? key = some token ∧ key.1 = node) ∨ token ∈ m.cancelled := by
  simp only [dropNode, List.mem_append, List.mem_map, List.mem_filter, decide_eq_true_eq, get?_eq_some]
  refine or_congr ⟨?_, ?_⟩ Iff.rfl
  · rintro ⟨⟨key, token⟩, ⟨hmem, hnode⟩, rfl⟩
    exact ⟨key, hmem, hnode⟩
  · rintro ⟨key, hmem, hnode⟩
    exact ⟨⟨key, token⟩, ⟨hmem, hnode⟩, rfl⟩

end Monitors

/-- The operations on monitors. -/
inductive MonitorOp
  | monitor (kinds : List ActorStatusKind)
  | demonitor
deriving DecidableEq

/-- Where an operation is. `arrived` is before its task looks the actor up; `spawned` is before the
operation itself first runs, in a second task; a monitor that is `ending` has its answer. -/
inductive OpStage
  | arrived
  | spawned (channel : ℕ)
  | waiting (channel : ℕ)
  | ending
  | done
deriving DecidableEq

/-- The operation has not done anything yet. -/
def OpStage.isEarly : OpStage → Bool
  | arrived | spawned _ => true
  | waiting _ | ending | done => false

def OpStage.isWaiting : OpStage → Bool
  | waiting _ => true
  | arrived | spawned _ | ending | done => false

/-- A frame with an operation, and what has become of it. -/
structure OpTask where
  key : MonitorKey
  target : Name
  op : MonitorOp
  stage : OpStage
deriving DecidableEq

def OpTask.isMonitor (task : OpTask) : Bool :=
  match task.op with
  | .monitor _ => true
  | .demonitor => false

/-- The status is one of those that the monitor asked about. -/
def OpTask.asksFor (task : OpTask) (status : ActorStatus) : Bool :=
  match task.op with
  | .monitor kinds => decide (status.kind ∈ kinds)
  | .demonitor => false

/-- The tasks are numbered in the order of their frames. `calledOff` is a ghost: the monitors that
were called off since their frames arrived, or whose node was lost. -/
structure Monitoring where
  table : Monitors
  tasks : List OpTask
  processes : Name → Option ℕ
  statuses : ℕ → ActorStatus
  calledOff : List ℕ

namespace Monitoring

def new : Monitoring := ⟨.empty, [], fun _ => none, fun _ => .exited .normal, []⟩

inductive Event
  /-- A frame arrives from the node in `key`. -/
  | arrive (key : MonitorKey) (target : Name) (op : MonitorOp)
  /-- The registry has changed. -/
  | register (name : Name) (channel : Option ℕ)
  | status (channel : ℕ) (status : ActorStatus)
  | deliver (i : ℕ)
  | run (i : ℕ)
  /-- The actor is seen in a status that the monitor asked about. -/
  | reached (i : ℕ)
  | cancelled (i : ℕ)
  | finish (i : ℕ)
  | dropNode (node : NodeName)
deriving DecidableEq

variable {s s' : Monitoring} {e : Event} {i : ℕ} {task task' : OpTask}

def setStage (s : Monitoring) (i : ℕ) (task : OpTask) (stage : OpStage) : Monitoring :=
  { s with tasks := s.tasks.set i { task with stage := stage } }

/-- The monitors among the first `i` frames that fit. -/
def monitorsBefore (s : Monitoring) (i : ℕ) (p : MonitorKey → Bool) : List ℕ :=
  (List.range i).filter fun j => (s.tasks[j]?).any fun task => task.isMonitor && p task.key

def callOff (s : Monitoring) (l : List ℕ) : Monitoring := { s with calledOff := s.calledOff ++ l }

/-- `Session::deliver`, up to the operation. -/
def deliver (s : Monitoring) (i : ℕ) (task : OpTask) : Monitoring :=
  match s.processes task.target with
  | some channel => s.setStage i task (.spawned channel)
  -- the frame is answered with `NoSuchActor`
  | none =>
    match task.op with
    | .monitor _ => s.setStage i task .done
    | .demonitor => (s.setStage i task .done).callOff (s.monitorsBefore i (· = task.key))

/-- `Operation::run`, up to the first wait. -/
def run (s : Monitoring) (i : ℕ) (task : OpTask) (channel : ℕ) : Monitoring :=
  match task.op with
  | .monitor _ => { s with table := s.table.begin task.key i }.setStage i task (.waiting channel)
  | .demonitor => ({ s with table := s.table.cancel task.key }.setStage i task .done).callOff
      (s.monitorsBefore i (· = task.key))

def step (s : Monitoring) : Event → Option Monitoring
  | .arrive key target op => some { s with tasks := s.tasks ++ [⟨key, target, op, .arrived⟩] }
  | .register name channel => some { s with processes := Function.update s.processes name channel }
  | .status channel status => some { s with statuses := Function.update s.statuses channel status }
  | .deliver i => do
    let task ← s.tasks[i]?
    if task.stage = .arrived then some (s.deliver i task) else none
  | .run i => do
    let task ← s.tasks[i]?
    match task.stage with
    | .spawned channel => some (s.run i task channel)
    | _ => none
  | .reached i => do
    let task ← s.tasks[i]?
    match task.stage with
    | .waiting channel =>
      if task.asksFor (s.statuses channel) then some (s.setStage i task .ending) else none
    | _ => none
  | .cancelled i => do
    let task ← s.tasks[i]?
    match task.stage with
    | .waiting _ => if i ∈ s.table.cancelled then some (s.setStage i task .ending) else none
    | _ => none
  | .finish i => do
    let task ← s.tasks[i]?
    if task.stage = .ending then
      some ({ s with table := s.table.endFor task.key }.setStage i task .done)
    else none
  | .dropNode node =>
    some ({ s with table := s.table.dropNode node }.callOff
      (s.monitorsBefore s.tasks.length (·.1 = node)))

/-- Every interleaving of the frames, their tasks, the actors and the loss of nodes. -/
def runs : Lts Monitoring Event := Lts.ofFun (fun s => s = new) step

/-- The steps of the task `i`. -/
def moves (i : ℕ) : List Event := [.deliver i, .run i, .reached i, .cancelled i, .finish i]

/-- None of the tasks can take another step. -/
def Quiescent (s : Monitoring) : Prop := ∀ i, ∀ e ∈ moves i, s.step e = none

/-- When no task can take another step, a monitor that was called off is over, and is not in the
table. -/
def LetGo (s : Monitoring) : Prop :=
  s.Quiescent → ∀ i ∈ s.calledOff, (∀ task ∈ s.tasks[i]?, task.stage = .done) ∧
    ∀ key, s.table.get? key ≠ some i

/-- The monitors of the first `i` frames that fit have begun. -/
def BegunBefore (s : Monitoring) (i : ℕ) (p : MonitorKey → Bool) : Prop :=
  ∀ j ∈ s.monitorsBefore i p, ∀ task ∈ s.tasks[j]?, task.stage.isEarly = false

instance (s : Monitoring) (i : ℕ) (p : MonitorKey → Bool) : Decidable (s.BegunBefore i p) := by
  unfold BegunBefore; infer_instance

/-- None of them waits, unless it has been cancelled. -/
def NoneWaitsBefore (s : Monitoring) (i : ℕ) (p : MonitorKey → Bool) : Prop :=
  ∀ j ∈ s.monitorsBefore i p, ∀ task ∈ s.tasks[j]?, task.stage.isWaiting = true →
    j ∈ s.table.cancelled

instance (s : Monitoring) (i : ℕ) (p : MonitorKey → Bool) : Decidable (s.NoneWaitsBefore i p) := by
  unfold NoneWaitsBefore; infer_instance

/-- A monitor is asked for when no earlier one under its key is there, and it has begun when it is
called off or its node is lost; if the actor is gone by then, the monitor is over. -/
def CalledOffInTime (s : Monitoring) : Event → Prop
  | .arrive key _ (.monitor _) => ∀ task ∈ s.tasks, task.isMonitor = true → task.key = key →
      task.stage = .done
  | .deliver i => ∀ task ∈ s.tasks[i]?, task.op = .demonitor → s.processes task.target = none →
      s.BegunBefore i (· = task.key) ∧ s.NoneWaitsBefore i (· = task.key)
  | .run i => ∀ task ∈ s.tasks[i]?, task.op = .demonitor → s.BegunBefore i (· = task.key)
  | .dropNode node => s.BegunBefore s.tasks.length (·.1 = node)
  | _ => True

instance (s : Monitoring) (e : Event) : Decidable (s.CalledOffInTime e) := by
  unfold CalledOffInTime
  exact match e with
  | .arrive _ _ (.monitor _) => inferInstance
  | .arrive _ _ .demonitor => inferInstance
  | .register _ _ => inferInstance
  | .status _ _ => inferInstance
  | .deliver _ => inferInstance
  | .run _ => inferInstance
  | .reached _ => inferInstance
  | .cancelled _ => inferInstance
  | .finish _ => inferInstance
  | .dropNode _ => inferInstance

/-- Where every monitor stands: the table has those that wait and those that end, under their keys,
and a monitor that was called off has begun and does not wait. -/
structure Tracked (s : Monitoring) : Prop where
  entry : ∀ key i, s.table.get? key = some i → ∃ task, s.tasks[i]? = some task ∧
    task.isMonitor = true ∧ task.key = key ∧ task.stage.isEarly = false ∧ task.stage ≠ .done
  token : ∀ i task, s.tasks[i]? = some task → task.stage.isWaiting = true →
    s.table.get? task.key = some i ∨ i ∈ s.table.cancelled
  unique : ∀ (i j : ℕ) (task task' : OpTask), s.tasks[i]? = some task → s.tasks[j]? = some task' →
    task.isMonitor = true → task'.isMonitor = true → task.key = task'.key → task.stage ≠ .done →
    task'.stage ≠ .done → i = j
  called : ∀ i ∈ s.calledOff, ∃ task, s.tasks[i]? = some task ∧ task.stage.isEarly = false ∧
    (task.stage.isWaiting = true → i ∈ s.table.cancelled)
  monitors : ∀ (i : ℕ) (task : OpTask), s.tasks[i]? = some task → task.stage.isEarly = false →
    task.stage ≠ .done → task.isMonitor = true

theorem tracked_new : new.Tracked := ⟨nofun, nofun, nofun, nofun, nofun⟩

theorem Tracked.letGo (h : s.Tracked) : s.LetGo := by
  intro hq i hi
  obtain ⟨task, ht, hearly, hwaiting⟩ := h.called i hi
  have hcancelled := hq i (.cancelled i) (by simp [moves])
  have hfinish := hq i (.finish i) (by simp [moves])
  have hdone : task.stage = .done := by
    cases hstage : task.stage with
    | arrived | spawned channel => rw [hstage] at hearly; cases hearly
    | waiting channel =>
      rw [hstage] at hwaiting
      simp only [step, ht, Option.bind_eq_bind, Option.bind_some, hstage, if_pos (hwaiting rfl)]
        at hcancelled
      cases hcancelled
    | ending =>
      simp only [step, ht, Option.bind_eq_bind, Option.bind_some, hstage] at hfinish
      cases hfinish
    | done => rfl
  refine ⟨fun task' ht' => ?_, fun key hkey => ?_⟩
  · rw [ht] at ht'
    cases ht'
    exact hdone
  · obtain ⟨task', ht', -, -, -, hne⟩ := h.entry key i hkey
    rw [ht] at ht'
    cases ht'
    exact hne hdone

/-! ## Steps -/

theorem mem_monitorsBefore {p : MonitorKey → Bool} {j : ℕ} : j ∈ s.monitorsBefore i p ↔
    j < i ∧ ∃ task, s.tasks[j]? = some task ∧ task.isMonitor = true ∧ p task.key = true := by
  simp [monitorsBefore, List.mem_filter, Option.any_eq_true]

theorem Tracked.environment (h : s.Tracked) (processes : Name → Option ℕ)
    (statuses : ℕ → ActorStatus) :
    Tracked { s with processes := processes, statuses := statuses } :=
  ⟨h.entry, h.token, h.unique, h.called, h.monitors⟩

theorem Tracked.arrive (h : s.Tracked) {key : MonitorKey} {target : Name} {op : MonitorOp}
    (hok : s.CalledOffInTime (.arrive key target op)) :
    Tracked { s with tasks := s.tasks ++ [⟨key, target, op, .arrived⟩] } := by
  have hold : ∀ {i task}, s.tasks[i]? = some task →
      (s.tasks ++ [⟨key, target, op, .arrived⟩])[i]? = some task := fun hi =>
    List.getElem?_concat_eq_some.2 (.inl hi)
  have hdone : ∀ {i : ℕ} {task : OpTask}, s.tasks[i]? = some task → task.isMonitor = true → task.key = key →
      OpTask.isMonitor ⟨key, target, op, .arrived⟩ = true → task.stage = .done := by
    intro i task hi hm hkey hnew
    cases op with
    | monitor kinds => exact hok task (List.mem_of_getElem? hi) hm hkey
    | demonitor => cases hnew
  refine ⟨fun key' i hi => ?_, fun i task hi hw => ?_, fun i j task task' hi hj hm hm' hkey hne hne' => ?_,
    fun i hi => ?_, fun i task hi he hne => ?_⟩
  · obtain ⟨task, ht, hrest⟩ := h.entry key' i hi
    exact ⟨task, hold ht, hrest⟩
  · rcases List.getElem?_concat_eq_some.1 hi with hi | ⟨-, rfl⟩
    · exact h.token i task hi hw
    · cases hw
  · rcases List.getElem?_concat_eq_some.1 hi with hi | ⟨rfl, rfl⟩ <;>
      rcases List.getElem?_concat_eq_some.1 hj with hj | ⟨rfl, rfl⟩
    · exact h.unique i j task task' hi hj hm hm' hkey hne hne'
    · exact absurd (hdone hi hm hkey hm') hne
    · exact absurd (hdone hj hm' hkey.symm hm) hne'
    · rfl
  · obtain ⟨task, ht, hrest⟩ := h.called i hi
    exact ⟨task, hold ht, hrest⟩
  · rcases List.getElem?_concat_eq_some.1 hi with hi | ⟨-, rfl⟩
    · exact h.monitors i task hi he hne
    · cases he

theorem Tracked.setStage (h : s.Tracked) (hi : s.tasks[i]? = some task) (hlive : task.stage ≠ .done)
    {table : Monitors} {stage : OpStage} (hcancelled : table.cancelled = s.table.cancelled)
    (hold : ∀ key j, j ≠ i → table.get? key = some j → s.table.get? key = some j)
    (hkeep : ∀ key j, j ≠ i → s.table.get? key = some j →
      (task.isMonitor = true ∧ key = task.key) ∨ table.get? key = some j)
    (hown : ∀ key, table.get? key = some i → key = task.key ∧ task.isMonitor = true ∧
      stage.isEarly = false ∧ stage ≠ .done)
    (hwaiting : stage.isWaiting = true → task.stage.isEarly = true ∧ table.get? task.key = some i)
    (hearly : stage.isEarly = true → task.stage.isEarly = true)
    (hmonitor : stage.isEarly = false → stage ≠ .done → task.isMonitor = true) :
    Tracked ({ s with table := table }.setStage i task stage) := by
  have hset : ∀ j, (s.tasks.set i { task with stage := stage })[j]? =
      if i = j then some { task with stage := stage } else s.tasks[j]? := fun _ =>
    List.getElem?_set_of_getElem? hi
  refine ⟨fun key j hj => ?_, fun j t hj hw => ?_, fun j k t t' hj hk hm hm' hkey hne hne' => ?_,
    fun j hj => ?_, fun j t hj he hne => ?_⟩
  · show ∃ t, (s.tasks.set i { task with stage := stage })[j]? = some t ∧ _
    rw [hset]
    by_cases hij : i = j
    · subst hij
      obtain ⟨rfl, hm, he, hne⟩ := hown key hj
      exact ⟨_, if_pos rfl, hm, rfl, he, hne⟩
    · obtain ⟨t, ht, hrest⟩ := h.entry key j (hold key j (Ne.symm hij) hj)
      exact ⟨t, (if_neg hij).trans ht, hrest⟩
  · show table.get? t.key = some j ∨ j ∈ table.cancelled
    have hj : (s.tasks.set i { task with stage := stage })[j]? = some t := hj
    rw [hset] at hj
    split at hj
    · cases hj
      subst j
      exact .inl (hwaiting hw).2
    · rename_i hij
      rw [hcancelled]
      refine (h.token j t hj hw).imp (fun hget => ?_) id
      rcases hkeep t.key j (Ne.symm hij) hget with ⟨hm, hkey⟩ | hget'
      · obtain ⟨t', ht', hm', -, -, hne'⟩ := h.entry t.key j hget
        rw [hj] at ht'
        cases ht'
        exact absurd (h.unique i j task t hi hj hm hm' hkey.symm hlive hne') hij
      · exact hget'
  · have hj : (s.tasks.set i { task with stage := stage })[j]? = some t := hj
    have hk : (s.tasks.set i { task with stage := stage })[k]? = some t' := hk
    rw [hset] at hj hk
    split at hj <;> split at hk
    · exact (‹i = j›).symm.trans ‹i = k›
    · cases hj
      subst j
      exact h.unique i k task t' hi hk hm hm' hkey hlive hne'
    · cases hk
      subst k
      exact h.unique j i t task hj hi hm hm' hkey hne hlive
    · exact h.unique j k t t' hj hk hm hm' hkey hne hne'
  · show ∃ t, (s.tasks.set i { task with stage := stage })[j]? = some t ∧ _ ∧
      (_ → j ∈ table.cancelled)
    rw [hset, hcancelled]
    obtain ⟨t, ht, he, hw⟩ := h.called j hj
    by_cases hij : i = j
    · subst hij
      rw [hi] at ht
      cases ht
      refine ⟨_, if_pos rfl, ?_, fun hw' => ?_⟩
      · by_contra hstage
        rw [hearly (Bool.of_not_eq_false hstage)] at he
        cases he
      · rw [(hwaiting hw').1] at he
        cases he
    · exact ⟨t, (if_neg hij).trans ht, he, hw⟩
  · have hj : (s.tasks.set i { task with stage := stage })[j]? = some t := hj
    rw [hset] at hj
    split at hj
    · cases hj
      exact hmonitor he hne
    · exact h.monitors j t hj he hne

theorem Tracked.goOn (h : s.Tracked) (hi : s.tasks[i]? = some task) (hlive : task.stage ≠ .done)
    {stage : OpStage} (hwaiting : stage.isWaiting = false)
    (hstage : task.stage.isEarly = true ∧ (stage.isEarly = true ∨ stage = .done) ∨
      task.stage.isEarly = false ∧ stage.isEarly = false ∧ stage ≠ .done) :
    (s.setStage i task stage).Tracked := by
  refine h.setStage hi hlive rfl (fun _ _ _ => id) (fun _ _ _ => .inr) (fun key hkey => ?_)
    (fun hw => ?_) (fun he => ?_) fun he hne => ?_
  · obtain ⟨t, ht, hm, hkey', he, -⟩ := h.entry key i hkey
    rw [hi] at ht
    cases ht
    rcases hstage with ⟨he', -⟩ | ⟨-, hrest⟩
    · rw [he] at he'
      cases he'
    · exact ⟨hkey'.symm, hm, hrest⟩
  · rw [hwaiting] at hw
    cases hw
  · rcases hstage with ⟨he', -⟩ | ⟨-, he', -⟩
    · exact he'
    · rw [he] at he'
      cases he'
  · rcases hstage with ⟨-, he' | hdone⟩ | ⟨he', -⟩
    · rw [he] at he'
      cases he'
    · exact absurd hdone hne
    · exact h.monitors i task hi he' hlive

theorem Tracked.begin (h : s.Tracked) (hi : s.tasks[i]? = some task) (hm : task.isMonitor = true)
    (hearly : task.stage.isEarly = true) (channel : ℕ) :
    Tracked ({ s with table := s.table.begin task.key i }.setStage i task (.waiting channel)) := by
  have hlive : task.stage ≠ .done := fun hdone => by
    rw [hdone] at hearly
    cases hearly
  refine h.setStage hi hlive rfl (fun key j hji hj => ?_) (fun key j _ hj => ?_) (fun key hkey => ?_)
    (fun _ => ⟨hearly, ?_⟩) nofun fun _ _ => hm
  · rw [Monitors.get?_begin] at hj
    split at hj
    · exact absurd (Option.some.inj hj).symm hji
    · exact hj
  · rw [Monitors.get?_begin]
    by_cases hkey : key = task.key
    · exact .inl ⟨hm, hkey⟩
    · exact .inr ((if_neg hkey).trans hj)
  · rw [Monitors.get?_begin] at hkey
    split at hkey
    · exact ⟨‹_›, hm, rfl, nofun⟩
    · obtain ⟨t, ht, -, -, he, -⟩ := h.entry key i hkey
      rw [hi] at ht
      cases ht
      rw [hearly] at he
      cases he
  · rw [Monitors.get?_begin, if_pos rfl]

theorem Tracked.endFor (h : s.Tracked) (hi : s.tasks[i]? = some task) (hstage : task.stage = .ending) :
    Tracked ({ s with table := s.table.endFor task.key }.setStage i task .done) := by
  have hm : task.isMonitor = true := h.monitors i task hi (by rw [hstage]; rfl) (by rw [hstage]; nofun)
  refine h.setStage hi (by rw [hstage]; nofun) rfl (fun _ _ _ => Monitors.get?_of_endFor)
    (fun key j _ hj => ?_) (fun key hkey => ?_) nofun nofun fun _ hne => absurd rfl hne
  · rw [Monitors.get?_endFor]
    by_cases hkey : key = task.key
    · exact .inl ⟨hm, hkey⟩
    · exact .inr ((if_neg hkey).trans hj)
  · rw [Monitors.get?_endFor] at hkey
    split at hkey
    · cases hkey
    · rename_i hne
      obtain ⟨t, ht, -, hkey', -⟩ := h.entry key i hkey
      rw [hi] at ht
      cases ht
      exact absurd hkey'.symm hne

theorem Tracked.cancel (h : s.Tracked) {table : Monitors}
    (hget : ∀ key i, table.get? key = some i → s.table.get? key = some i)
    (hcancelled : ∀ i ∈ s.table.cancelled, i ∈ table.cancelled)
    (hgone : ∀ key i, s.table.get? key = some i → table.get? key = some i ∨ i ∈ table.cancelled) :
    Tracked { s with table := table } := by
  refine ⟨fun key i hi => h.entry key i (hget key i hi), fun i task hi hw => ?_, h.unique,
    fun i hi => ?_, h.monitors⟩
  · rcases h.token i task hi hw with hkey | hc
    · exact hgone task.key i hkey
    · exact .inr (hcancelled i hc)
  · obtain ⟨task, ht, he, hw⟩ := h.called i hi
    exact ⟨task, ht, he, fun hwaiting => hcancelled i (hw hwaiting)⟩

theorem Tracked.callOff (h : s.Tracked) {l : List ℕ} (hl : ∀ i ∈ l, ∃ task, s.tasks[i]? = some task ∧
      task.stage.isEarly = false ∧ (task.stage.isWaiting = true → i ∈ s.table.cancelled)) :
    (s.callOff l).Tracked :=
  ⟨h.entry, h.token, h.unique, fun i hi => (List.mem_append.1 hi).elim (h.called i) (hl i), h.monitors⟩

theorem Tracked.deliver (h : s.Tracked) (hi : s.tasks[i]? = some task) (hstage : task.stage = .arrived)
    (hok : s.CalledOffInTime (.deliver i)) : (s.deliver i task).Tracked := by
  have hlive : task.stage ≠ .done := by rw [hstage]; nofun
  have hdone : (s.setStage i task .done).Tracked :=
    h.goOn hi hlive rfl (.inl ⟨by rw [hstage]; rfl, .inr rfl⟩)
  unfold Monitoring.deliver
  split
  · exact h.goOn hi hlive rfl (.inl ⟨by rw [hstage]; rfl, .inl rfl⟩)
  · rename_i hgone
    split
    · exact hdone
    · rename_i hop
      obtain ⟨hbegun, hnone⟩ := hok task hi hop hgone
      refine hdone.callOff fun j hj => ?_
      obtain ⟨hlt, t, ht, -⟩ := mem_monitorsBefore.1 hj
      refine ⟨t, (List.getElem?_set_ne (by omega)).trans ht, hbegun j hj t ht, fun hw => ?_⟩
      exact hnone j hj t ht hw

theorem Tracked.run (h : s.Tracked) (hi : s.tasks[i]? = some task) {channel : ℕ}
    (hstage : task.stage = .spawned channel) (hok : s.CalledOffInTime (.run i)) :
    (s.run i task channel).Tracked := by
  have hearly : task.stage.isEarly = true := by rw [hstage]; rfl
  unfold Monitoring.run
  split
  · rename_i kinds hop
    exact h.begin hi (by rw [OpTask.isMonitor, hop]) hearly channel
  · rename_i hop
    have hbegun := hok task hi hop
    have hcancel : Tracked { s with table := s.table.cancel task.key } :=
      h.cancel (fun _ _ => Monitors.get?_of_cancel) (fun j hj => ?_) fun key j hj => ?_
    · have hdone : ({ s with table := s.table.cancel task.key }.setStage i task .done).Tracked :=
        hcancel.goOn hi (by rw [hstage]; nofun) rfl (.inl ⟨hearly, .inr rfl⟩)
      refine hdone.callOff fun j hj => ?_
      obtain ⟨hlt, t, ht, -, hkey⟩ := mem_monitorsBefore.1 hj
      refine ⟨t, (List.getElem?_set_ne (by omega)).trans ht, hbegun j hj t ht, fun hw => ?_⟩
      exact Monitors.mem_cancelled_cancel.2 (of_decide_eq_true hkey ▸ h.token j t ht hw)
    · exact Monitors.mem_cancelled_cancel.2 (.inr hj)
    · rw [Monitors.get?_cancel]
      by_cases hkey : key = task.key
      · exact .inr (Monitors.mem_cancelled_cancel.2 (.inl (hkey ▸ hj)))
      · exact .inl ((if_neg hkey).trans hj)

theorem Tracked.dropNode (h : s.Tracked) {node : NodeName} (hok : s.CalledOffInTime (.dropNode node)) :
    ({ s with table := s.table.dropNode node }.callOff
      (s.monitorsBefore s.tasks.length (·.1 = node))).Tracked := by
  have hdrop : Tracked { s with table := s.table.dropNode node } :=
    h.cancel (fun key j hj => ?_) (fun j hj => ?_) fun key j hj => ?_
  · refine hdrop.callOff fun j hj => ?_
    obtain ⟨-, t, ht, -, hnode⟩ := mem_monitorsBefore.1 hj
    refine ⟨t, ht, hok j hj t ht, fun hw => Monitors.mem_cancelled_dropNode.2 ?_⟩
    exact (h.token j t ht hw).imp (fun hget => ⟨t.key, hget, of_decide_eq_true hnode⟩) id
  · exact (Monitors.get?_dropNode.1 hj).1
  · exact Monitors.mem_cancelled_dropNode.2 (.inr hj)
  · by_cases hnode : key.1 = node
    · exact .inr (Monitors.mem_cancelled_dropNode.2 (.inl ⟨key, hj, hnode⟩))
    · exact .inl (Monitors.get?_dropNode.2 ⟨hj, hnode⟩)

theorem Tracked.step (h : s.Tracked) (hok : s.CalledOffInTime e) (hs : s.step e = some s') :
    s'.Tracked := by
  cases e with
  | arrive key target op =>
    cases hs
    exact h.arrive hok
  | register name channel =>
    cases hs
    exact h.environment _ s.statuses
  | status channel status =>
    cases hs
    exact h.environment s.processes _
  | deliver i =>
    obtain ⟨task, hi, hs⟩ := Option.bind_eq_some_iff.1 hs
    split at hs
    · cases hs
      exact h.deliver hi (by assumption) hok
    · cases hs
  | run i =>
    obtain ⟨task, hi, hs⟩ := Option.bind_eq_some_iff.1 hs
    split at hs
    · cases hs
      exact h.run hi (by assumption) hok
    · cases hs
  | reached i | cancelled i =>
    obtain ⟨task, hi, hs⟩ := Option.bind_eq_some_iff.1 hs
    split at hs
    · rename_i channel hstage
      split at hs
      · cases hs
        exact h.goOn hi (by rw [hstage]; nofun) rfl (.inr ⟨by rw [hstage]; rfl, rfl, nofun⟩)
      · cases hs
    · cases hs
  | finish i =>
    obtain ⟨task, hi, hs⟩ := Option.bind_eq_some_iff.1 hs
    split at hs
    · cases hs
      exact h.endFor hi (by assumption)
    · cases hs
  | dropNode node =>
    cases hs
    exact h.dropNode hok

/-! ## Runs -/

/-- Monitors are let go of in the runs in which they are called off in time. -/
theorem letGo_of_calledOffInTime (h : (runs.guard CalledOffInTime).Reachable s) : s.LetGo := by
  refine (h.guard_invariant (I := Tracked) ?_ fun s e s' hi hok hs => hi.step hok hs).letGo
  rintro _ rfl
  exact tracked_new

/-- One monitor is called off by its node, and another one ends when the node is lost. -/
theorem letGo_of_calledOffInTime_both : ∃ s, (runs.guard CalledOffInTime).Reachable s ∧
    (s.calledOff = [0, 0, 1] ∧ s.tasks.map (·.stage) = [.done, .done, .done]) ∧ s.LetGo := by
  obtain ⟨s, hs, h⟩ : ∃ s, (runs.guard CalledOffInTime).Reachable s ∧ _ :=
    Lts.exists_guard_reachable_of_exec (f := step)
      (p := fun s => s.calledOff = [0, 0, 1] ∧ s.tasks.map (·.stage) = [.done, .done, .done])
      (s := new) rfl
      [.register ⟨"a"⟩ (some 0), .status 0 .running, .arrive ("n", 0) ⟨"a"⟩ (.monitor [.exited]),
        .arrive ("n", 1) ⟨"a"⟩ (.monitor [.exited]), .deliver 0, .run 0, .deliver 1, .run 1,
        .arrive ("n", 0) ⟨"a"⟩ .demonitor, .deliver 2, .run 2, .cancelled 0, .dropNode "n",
        .cancelled 1, .finish 0, .finish 1]
      (by decide +kernel)
  exact ⟨s, hs, h, letGo_of_calledOffInTime hs⟩

/-- A task that there is not takes no step. -/
theorem quiescent_iff : s.Quiescent ↔ ∀ i < s.tasks.length, ∀ e ∈ moves i, s.step e = none := by
  refine ⟨fun h i _ => h i, fun h i => ?_⟩
  by_cases hi : i < s.tasks.length
  · exact h i hi
  · have hnone : s.tasks[i]? = none := List.getElem?_eq_none_iff.2 (by omega)
    intro e he
    simp only [moves, List.mem_cons, List.not_mem_nil, or_false] at he
    rcases he with rfl | rfl | rfl | rfl | rfl <;>
      simp only [step, hnone, Option.bind_eq_bind, Option.bind_none]

instance (s : Monitoring) : Decidable s.Quiescent := decidable_of_iff _ quiescent_iff.symm

/-- The node is lost, or the monitor is called off, before the monitor has begun: it waits for good. -/
theorem not_letGo : (∃ s, runs.Reachable s ∧ s.Quiescent ∧ s.calledOff = [0] ∧
      s.tasks.map (·.stage) = [.waiting 0, .done] ∧ s.table.get? ("n", 0) = some 0) ∧
    (∃ s, runs.Reachable s ∧ s.Quiescent ∧ s.calledOff = [0] ∧
      s.tasks.map (·.stage) = [.waiting 0] ∧ s.table.get? ("n", 0) = some 0) ∧
    ¬ ∀ s, runs.Reachable s → s.LetGo := by
  obtain ⟨s, hs, hq, hoff, hstages, hget⟩ : ∃ s, runs.Reachable s ∧ s.Quiescent ∧
      s.calledOff = [0] ∧ s.tasks.map (·.stage) = [.waiting 0, .done] ∧
      s.table.get? ("n", 0) = some 0 :=
    Lts.exists_reachable_of_exec (s := new) rfl
      [.register ⟨"a"⟩ (some 0), .status 0 .running, .arrive ("n", 0) ⟨"a"⟩ (.monitor [.exited]),
        .arrive ("n", 0) ⟨"a"⟩ .demonitor, .deliver 0, .deliver 1, .run 1, .run 0]
      (by decide +kernel)
  refine ⟨⟨s, hs, hq, hoff, hstages, hget⟩, ?_, fun hall => ?_⟩
  · exact Lts.exists_reachable_of_exec (s := new) rfl
      [.register ⟨"a"⟩ (some 0), .status 0 .running, .arrive ("n", 0) ⟨"a"⟩ (.monitor [.exited]),
        .deliver 0, .dropNode "n", .run 0]
      (by decide +kernel)
  · exact (hall s hs hq 0 (by rw [hoff]; exact List.mem_singleton_self 0)).2 ("n", 0) hget

end Monitoring

end Zestors
