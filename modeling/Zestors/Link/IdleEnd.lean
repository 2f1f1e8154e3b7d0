import Zestors.Link.Health
import Zestors.Link.Lane

/-!
# The end of an idle lane

The lanes to one actor with what becomes of every message that they accept: its size, whether a live
connection was registered when the channel took it, and its fate. A lane that has been idle for too
long leaves its loop and finishes its stream; its channel takes messages until it has returned, and
they go down with it.

Every message that was accepted under a live connection is written, or its write fails (`NoneLost`),
in the runs in which no such message goes to a lane that has left its loop, and no lane that holds one
is backing off or fails to connect (`noneLost_of_pushesBeforeEnd`).
-/

namespace Zestors

/-- The largest message that a lane sends. -/
def maxMessageSize : ℕ := 4 * 1024 * 1024

/-- Why a lane does not write a message that it has taken. -/
inductive Drop
  | tooLarge
  | backingOff
  /-- There is no connection, and dialing fails. -/
  | unconnected (backoff : ℕ)
deriving DecidableEq

/-- What becomes of an accepted message. A message is discarded with the channel of its lane. -/
inductive Fate
  | written
  | failed
  | dropped (why : Drop)
  | discarded
deriving DecidableEq

/-- The lanes and the history of their messages, which are numbered as they are accepted: `lens` has
their sizes, and `owed` those of a legal size that were accepted under a live connection. -/
structure LaneFates where
  lanes : Lanes
  now : ℕ
  health : Health
  lens : List ℕ
  owed : List ℕ
  fates : List (ℕ × Fate)

namespace LaneFates

def new : LaneFates := ⟨.new, 0, .default, [], [], []⟩

inductive Event
  | wait (time : ℕ)
  /-- Another lane to the peer has connected, or failed to. -/
  | health (health : Health)
  /-- The `k`-th sender sends a message of `len` bytes. -/
  | send (k len : ℕ)
  | drop (j : ℕ) (why : Drop)
  /-- The task `j` has a connection: there is one, or it dials. -/
  | connect (j : ℕ) (dial : Bool)
  /-- Anything else that happens to the lanes. -/
  | lanes (event : Lanes.Event)

variable {s s' : LaneFates} {e : Event} {j : ℕ} {task task' : LaneTask}

/-- The message that the task `j` has taken, while it has not got a connection for it. -/
def taken (s : LaneFates) (j : ℕ) : Option ℕ :=
  match (s.lanes.tasks[j]?).map LaneTask.stage with
  | some (.sending msg) => some msg
  | _ => none

def isLegal (s : LaneFates) (msg : ℕ) : Bool := (s.lens[msg]?).any (· ≤ maxMessageSize)

/-- What the messages end as in a step of the lanes. -/
def fatesOf (lanes : Lanes) : Lanes.Event → List (ℕ × Fate)
  | .write j ok =>
    match (lanes.tasks[j]?).map LaneTask.stage with
    | some (.writing msg _) => [(msg, if ok then .written else .failed)]
    | _ => []
  | .fail j =>
    match (lanes.tasks[j]?).map LaneTask.stage with
    | some (.writing msg _) => [(msg, .failed)]
    | _ => []
  | .finish j => ((lanes.tasks[j]?).toList.flatMap LaneTask.queue).map (·, .discarded)
  | _ => []

def send (s : LaneFates) (k len : ℕ) : Option LaneFates := do
  let lanes ← s.lanes.step (.send k)
  if lanes.accepted = s.lanes.accepted then some { s with lanes := lanes }
  else some { s with
    lanes := lanes
    lens := s.lens ++ [len]
    owed := if s.lanes.conn.isSome ∧ len ≤ maxMessageSize then s.owed ++ [s.lanes.accepted]
      else s.owed }

/-- The reason for which a message of `len` bytes is dropped, in the order of the checks. -/
def Drops (s : LaneFates) (msg : ℕ) : Drop → Prop
  | .tooLarge => s.isLegal msg = false
  | .backingOff => s.isLegal msg = true ∧ s.health.backingOff s.now = true
  | .unconnected _ => s.isLegal msg = true

instance (s : LaneFates) (msg : ℕ) (why : Drop) : Decidable (s.Drops msg why) := by
  cases why <;> unfold Drops <;> infer_instance

def drop (s : LaneFates) (j : ℕ) (why : Drop) : Option LaneFates := do
  let msg ← s.taken j
  let lanes ← s.lanes.step (.skip j)
  if s.Drops msg why then
    some { s with
      lanes := lanes
      health := match why with
        | .unconnected backoff => (s.health.failed s.now backoff).1
        | .tooLarge | .backingOff => s.health
      fates := s.fates ++ [(msg, .dropped why)] }
  else none

def connect (s : LaneFates) (j : ℕ) (dial : Bool) : Option LaneFates := do
  let msg ← s.taken j
  let lanes ← s.lanes.step (if dial then .dialed j else .connected j)
  if s.isLegal msg then some { s with lanes := lanes, health := s.health.succeeded.1 } else none

def step (s : LaneFates) : Event → Option LaneFates
  | .wait time => some { s with now := s.now + time }
  | .health health => some { s with health := health }
  | .send k len => s.send k len
  | .drop j why => s.drop j why
  | .connect j dial => s.connect j dial
  | .lanes (.send _) | .lanes (.skip _) | .lanes (.connected _) | .lanes (.dialed _) => none
  | .lanes event => do
    let lanes ← s.lanes.step event
    some { s with lanes := lanes, fates := s.fates ++ fatesOf s.lanes event }

/-- Every interleaving of the callers, the lanes, the connections and the peer. -/
def runs : Lts LaneFates Event := Lts.ofFun (fun s => s = new) step

/-- The message has been written, or its write failed. -/
def Settled (s : LaneFates) (msg : ℕ) : Prop := (msg, .written) ∈ s.fates ∨ (msg, .failed) ∈ s.fates

/-- A message that was accepted under a live connection is with a lane that will take it, or has been
written, or its write failed. -/
def NoneLost (s : LaneFates) : Prop :=
  ∀ msg ∈ s.owed, s.Settled msg ∨ ∃ task ∈ s.lanes.tasks, task.stage ≠ .ending ∧ msg ∈ task.held

/-- A message that counts is not pushed to a lane that has left its loop, and no lane that has taken
one drops it. -/
def PushesBeforeEnd (s : LaneFates) : Event → Prop
  | .send k len => s.lanes.conn.isSome = true → len ≤ maxMessageSize →
      ∀ j ∈ s.lanes.senders[k]?, ∀ task ∈ s.lanes.tasks[j]?, task.stage ≠ .ending
  | .drop j .backingOff | .drop j (.unconnected _) => ∀ msg ∈ s.taken j, msg ∉ s.owed
  | _ => True

instance (s : LaneFates) (e : Event) : Decidable (s.PushesBeforeEnd e) := by
  unfold PushesBeforeEnd
  exact match e with
  | .send k len => inferInstance
  | .drop j .backingOff => inferInstance
  | .drop j (.unconnected _) => inferInstance
  | .drop j .tooLarge => inferInstance
  | .wait _ => inferInstance
  | .health _ => inferInstance
  | .connect _ _ => inferInstance
  | .lanes _ => inferInstance

/-! ## Steps -/

/-- Why no message is lost: a lane that has left its loop holds none that counts. -/
structure Accounted (s : LaneFates) : Prop where
  owed : s.NoneLost
  ending : ∀ task ∈ s.lanes.tasks, task.stage = .ending → ∀ msg ∈ task.queue, msg ∉ s.owed
  lt : ∀ task ∈ s.lanes.tasks, ∀ msg ∈ task.held, msg < s.lanes.accepted
  legal : ∀ msg ∈ s.owed, s.isLegal msg = true
  lens : s.lens.length = s.lanes.accepted

theorem accounted_new : new.Accounted := ⟨nofun, nofun, nofun, nofun, rfl⟩

theorem Accounted.mono (h : s.Accounted) {lanes : Lanes} {fates : List (ℕ × Fate)}
    (hsub : ∀ task ∈ s.lanes.tasks, task ∈ lanes.tasks)
    (hnew : ∀ task ∈ lanes.tasks, task ∈ s.lanes.tasks ∨ task.held = [])
    (hacc : lanes.accepted = s.lanes.accepted) :
    Accounted { s with lanes := lanes, fates := s.fates ++ fates } := by
  refine ⟨fun msg hmsg => ?_, fun task ht hend msg hm => ?_, fun task ht msg hm => ?_, h.legal,
    h.lens.trans hacc.symm⟩
  · refine (h.owed msg hmsg).imp (fun hset => ?_) fun ⟨task, ht, hrest⟩ => ⟨task, hsub task ht, hrest⟩
    exact hset.imp (List.mem_append_left _) (List.mem_append_left _)
  · rcases hnew task ht with ht | hnil
    · exact h.ending task ht hend msg hm
    · rw [(List.append_eq_nil_iff.1 hnil).2] at hm
      cases hm
  · show msg < lanes.accepted
    rw [hacc]
    rcases hnew task ht with ht | hnil
    · exact h.lt task ht msg hm
    · rw [hnil] at hm
      cases hm

/-- One task takes a step: a message that it lets go of does not count, or is settled. -/
theorem Accounted.set (h : s.Accounted) (hj : s.lanes.tasks[j]? = some task) {lanes : Lanes}
    {health : Health} {fates : List (ℕ × Fate)} (htasks : lanes.tasks = s.lanes.tasks.set j task')
    (hacc : lanes.accepted = s.lanes.accepted) (hsub : ∀ msg ∈ task'.held, msg ∈ task.held)
    (hkeep : task.stage ≠ .ending → ∀ msg ∈ task.held, msg ∈ s.owed →
      (task'.stage ≠ .ending ∧ msg ∈ task'.held) ∨ (msg, .written) ∈ fates ∨ (msg, .failed) ∈ fates)
    (hending : task'.stage = .ending → task'.queue = []) :
    Accounted { s with lanes := lanes, health := health, fates := s.fates ++ fates } := by
  have hget : ∀ k, lanes.tasks[k]? = if j = k then some task' else s.lanes.tasks[k]? := fun k => by
    rw [htasks, List.getElem?_set_of_getElem? hj]
  have hmem : ∀ t ∈ lanes.tasks, t ∈ s.lanes.tasks ∨ t = task' := fun t ht =>
    List.mem_or_eq_of_mem_set (htasks ▸ ht)
  refine ⟨fun msg hmsg => ?_, fun t ht hend msg hm => ?_, fun t ht msg hm => ?_, h.legal,
    h.lens.trans hacc.symm⟩
  · rcases h.owed msg hmsg with hset | ⟨t, ht, hstage, hheld⟩
    · exact .inl (hset.imp (List.mem_append_left _) (List.mem_append_left _))
    · obtain ⟨k, hk⟩ := List.mem_iff_getElem?.1 ht
      by_cases hjk : j = k
      · subst hjk
        rw [hj] at hk
        cases hk
        rcases hkeep hstage msg hheld hmsg with ⟨hstage', hheld'⟩ | hset
        · exact .inr ⟨task', List.mem_of_getElem? ((hget j).trans (if_pos rfl)), hstage', hheld'⟩
        · exact .inl (hset.imp (List.mem_append_right _) (List.mem_append_right _))
      · exact .inr ⟨t, List.mem_of_getElem? ((hget k).trans ((if_neg hjk).trans hk)), hstage, hheld⟩
  · rcases hmem t ht with ht | rfl
    · exact h.ending t ht hend msg hm
    · rw [hending hend] at hm
      cases hm
  · show msg < lanes.accepted
    rw [hacc]
    rcases hmem t ht with ht | rfl
    · exact h.lt t ht msg hm
    · exact h.lt task (List.mem_of_getElem? hj) msg (hsub msg hm)

theorem move_eq_some {lanes lanes' : Lanes} {f : LaneTask → Option LaneTask}
    (hs : lanes.move j f = some lanes') : ∃ task task', lanes.tasks[j]? = some task ∧
      f task = some task' ∧ lanes' = { lanes with tasks := lanes.tasks.set j task' } := by
  obtain ⟨task, hj, hs⟩ := Option.bind_eq_some_iff.1 hs
  obtain ⟨task', hf, hs⟩ := Option.bind_eq_some_iff.1 hs
  cases hs
  exact ⟨task, task', hj, hf, rfl⟩

theorem taken_eq_some {msg : ℕ} (h : s.taken j = some msg) :
    ∃ task, s.lanes.tasks[j]? = some task ∧ task.stage = .sending msg := by
  unfold taken at h
  split at h
  · rename_i m hstage
    cases h
    exact Option.map_eq_some_iff.1 hstage
  · cases h

theorem Accounted.keep (h : s.Accounted) (hj : s.lanes.tasks[j]? = some task) {lanes : Lanes}
    {health : Health} {fates : List (ℕ × Fate)} (htasks : lanes.tasks = s.lanes.tasks.set j task')
    (hacc : lanes.accepted = s.lanes.accepted) (hheld : task'.held = task.held)
    (hstage : task'.stage ≠ .ending) :
    Accounted { s with lanes := lanes, health := health, fates := s.fates ++ fates } :=
  h.set hj htasks hacc (fun _ hm => hheld ▸ hm) (fun _ _ hm _ => .inl ⟨hstage, hheld ▸ hm⟩)
    fun hend => absurd hend hstage

theorem Accounted.owed_lt (h : s.Accounted) {msg : ℕ} (hmsg : msg ∈ s.owed) :
    msg < s.lanes.accepted := by
  have hlegal := h.legal msg hmsg
  rw [isLegal, Option.any_eq_true] at hlegal
  obtain ⟨len, hlen, -⟩ := hlegal
  rw [← h.lens]
  exact (List.getElem?_eq_some_iff.1 hlen).1

/-- A channel takes a message. If the message counts, the lane is in its loop. -/
theorem Accounted.push (h : s.Accounted) (hj : s.lanes.tasks[j]? = some task) {lanes : Lanes}
    {len : ℕ} {owes : Prop} [Decidable owes] (hlegal : owes → len ≤ maxMessageSize)
    (htasks : lanes.tasks = s.lanes.tasks.set j { task with queue := task.queue ++ [s.lanes.accepted] })
    (hacc : lanes.accepted = s.lanes.accepted + 1) (hstage : owes → task.stage ≠ .ending) :
    Accounted { s with
      lanes := lanes
      lens := s.lens ++ [len]
      owed := if owes then s.owed ++ [s.lanes.accepted] else s.owed } := by
  have hget : ∀ k, lanes.tasks[k]? = if j = k then
      some { task with queue := task.queue ++ [s.lanes.accepted] } else s.lanes.tasks[k]? := fun k => by
    rw [htasks, List.getElem?_set_of_getElem? hj]
  have hself : { task with queue := task.queue ++ [s.lanes.accepted] } ∈ lanes.tasks :=
    List.mem_of_getElem? ((hget j).trans (if_pos rfl))
  have hmem : ∀ t ∈ lanes.tasks, t ∈ s.lanes.tasks ∨
      t = { task with queue := task.queue ++ [s.lanes.accepted] } := fun t ht =>
    List.mem_or_eq_of_mem_set (htasks ▸ ht)
  have hheld : LaneTask.held { task with queue := task.queue ++ [s.lanes.accepted] } =
      task.held ++ [s.lanes.accepted] := (List.append_assoc _ _ _).symm
  have howed : ∀ msg, msg ∈ (if owes then s.owed ++ [s.lanes.accepted] else s.owed) ↔
      msg ∈ s.owed ∨ (owes ∧ msg = s.lanes.accepted) := by
    intro msg
    split <;> simp_all
  refine ⟨fun msg hmsg => ?_, fun t ht hend msg hm hmsg => ?_, fun t ht msg hm => ?_,
    fun msg hmsg => ?_, ?_⟩
  · rcases (howed msg).1 hmsg with hmsg | ⟨ho, rfl⟩
    · refine (h.owed msg hmsg).imp id ?_
      rintro ⟨t, ht, hstage', hm⟩
      obtain ⟨k, hk⟩ := List.mem_iff_getElem?.1 ht
      by_cases hjk : j = k
      · subst hjk
        rw [hj] at hk
        cases hk
        exact ⟨_, hself, hstage', hheld ▸ List.mem_append_left _ hm⟩
      · exact ⟨t, List.mem_of_getElem? ((hget k).trans ((if_neg hjk).trans hk)), hstage', hm⟩
    · exact .inr ⟨_, hself, hstage ho, hheld ▸ List.mem_append_right _ (List.mem_singleton_self _)⟩
  · have hold : ∀ t ∈ s.lanes.tasks, t.stage = .ending → msg ∈ t.queue → False := by
      intro t ht hend hm
      rcases (howed msg).1 hmsg with hmsg | ⟨-, rfl⟩
      · exact h.ending t ht hend msg hm hmsg
      · exact Nat.lt_irrefl _ (h.lt t ht _ (List.mem_append_right _ hm))
    rcases hmem t ht with ht | rfl
    · exact hold t ht hend hm
    · rcases List.mem_append.1 hm with hm | hm
      · exact hold task (List.mem_of_getElem? hj) hend hm
      · rw [List.mem_singleton.1 hm] at hmsg
        rcases (howed _).1 hmsg with hmsg | ⟨ho, -⟩
        · exact Nat.lt_irrefl _ (h.owed_lt hmsg)
        · exact hstage ho hend
  · show msg < lanes.accepted
    rw [hacc]
    rcases hmem t ht with ht | rfl
    · exact Nat.lt_succ_of_lt (h.lt t ht msg hm)
    · rw [hheld] at hm
      rcases List.mem_append.1 hm with hm | hm
      · exact Nat.lt_succ_of_lt (h.lt task (List.mem_of_getElem? hj) msg hm)
      · rw [List.mem_singleton.1 hm]
        exact Nat.lt_succ_self _
  · show ((s.lens ++ [len])[msg]?).any (· ≤ maxMessageSize) = true
    rcases (howed msg).1 hmsg with hmsg | ⟨ho, rfl⟩
    · rw [List.getElem?_append_left (h.lens ▸ h.owed_lt hmsg)]
      exact h.legal msg hmsg
    · rw [← h.lens, List.getElem?_concat_length]
      simpa using hlegal ho
  · show (s.lens ++ [len]).length = lanes.accepted
    rw [hacc, List.length_append, h.lens]
    rfl

theorem Accounted.send (h : s.Accounted) {k len : ℕ} (hok : s.PushesBeforeEnd (.send k len))
    (hs : s.send k len = some s') : s'.Accounted := by
  obtain ⟨lanes, hlanes, hs⟩ := Option.bind_eq_some_iff.1 hs
  obtain ⟨j, hk, hlanes⟩ := Option.bind_eq_some_iff.1 hlanes
  obtain ⟨task, hj, hlanes⟩ := Option.bind_eq_some_iff.1 hlanes
  dsimp only at hlanes
  split at hlanes
  · cases hlanes
    rw [if_pos rfl] at hs
    cases hs
    have hmono : Accounted { s with
        lanes := { s.lanes with senders := s.lanes.senders.eraseIdx k }, fates := s.fates ++ [] } :=
      h.mono (fun _ ht => ht) (fun _ ht => .inl ht) rfl
    rwa [List.append_nil] at hmono
  · split at hlanes
    · cases hlanes
      rw [if_neg (Nat.succ_ne_self _)] at hs
      cases hs
      exact h.push hj (fun ho => ho.2) rfl rfl fun ho => hok ho.1 ho.2 j hk task hj
    · cases hlanes

theorem Accounted.drop (h : s.Accounted) {why : Drop} (hok : s.PushesBeforeEnd (.drop j why))
    (hs : s.drop j why = some s') : s'.Accounted := by
  obtain ⟨msg, hmsg, hs⟩ := Option.bind_eq_some_iff.1 hs
  obtain ⟨lanes, hlanes, hs⟩ := Option.bind_eq_some_iff.1 hs
  obtain ⟨task, hj, hstage⟩ := taken_eq_some hmsg
  obtain ⟨task', task'', hj', hf, rfl⟩ := move_eq_some hlanes
  rw [hj] at hj'
  cases hj'
  rw [hstage] at hf
  cases hf
  split at hs
  · rename_i hdrops
    cases hs
    have hheld : task.held = msg :: task.queue := by rw [LaneTask.held, hstage]; rfl
    have hnot : msg ∉ s.owed := by
      intro howed
      cases why with
      | tooLarge =>
        have hillegal : s.isLegal msg = false := hdrops
        rw [h.legal msg howed] at hillegal
        cases hillegal
      | backingOff | unconnected backoff => exact hok msg hmsg howed
    refine h.set hj rfl rfl (fun m hm => ?_) (fun _ m hm howed => .inl ⟨by simp, ?_⟩) (by simp)
    · rw [hheld]
      exact List.mem_cons_of_mem _ hm
    · rw [hheld] at hm
      rcases List.mem_cons.1 hm with rfl | hm
      · exact absurd howed hnot
      · exact hm
  · cases hs

theorem Accounted.connect (h : s.Accounted) {dial : Bool} (hs : s.connect j dial = some s') :
    s'.Accounted := by
  obtain ⟨msg, hmsg, hs⟩ := Option.bind_eq_some_iff.1 hs
  obtain ⟨lanes, hlanes, hs⟩ := Option.bind_eq_some_iff.1 hs
  obtain ⟨task, hj, hstage⟩ := taken_eq_some hmsg
  split at hs
  · cases hs
    have hgoal : ∀ (lanes : Lanes) (conn : ℕ), lanes.accepted = s.lanes.accepted →
        lanes.tasks = s.lanes.tasks.set j { task with stage := .writing msg conn } →
        Accounted { s with lanes := lanes, health := s.health.succeeded.1 } := by
      intro lanes conn hacc htasks
      have hheld : LaneTask.held { task with stage := .writing msg conn } = task.held := by
        rw [LaneTask.held, LaneTask.held, hstage]
        rfl
      have hkeep : Accounted { s with
          lanes := lanes, health := s.health.succeeded.1, fates := s.fates ++ [] } :=
        h.keep hj htasks hacc hheld (by simp)
      rwa [List.append_nil] at hkeep
    cases dial with
    | true =>
      obtain ⟨task', task'', hj', hf, rfl⟩ := move_eq_some hlanes
      have hj' : s.lanes.tasks[j]? = some task' := hj'
      rw [hj] at hj'
      cases hj'
      rw [hstage] at hf
      cases hf
      exact hgoal _ _ rfl rfl
    | false =>
      obtain ⟨task', task'', hj', hf, rfl⟩ := move_eq_some hlanes
      rw [hj] at hj'
      cases hj'
      rw [hstage] at hf
      split at hf
      · rename_i conn heq hconn
        cases heq
        cases hf
        exact hgoal _ _ rfl rfl
      · cases hf
  · cases hs

theorem Accounted.settle (h : s.Accounted) {msg conn : ℕ} (hj : s.lanes.tasks[j]? = some task)
    (hstage : task.stage = .writing msg conn) {lanes : Lanes} {stream : Option ℕ} {fate : Fate}
    (hfate : fate = .written ∨ fate = .failed)
    (htasks : lanes.tasks = s.lanes.tasks.set j ⟨task.queue, .waiting, stream⟩)
    (hacc : lanes.accepted = s.lanes.accepted) :
    Accounted { s with lanes := lanes, fates := s.fates ++ [(msg, fate)] } := by
  have hheld : task.held = msg :: task.queue := by rw [LaneTask.held, hstage]; rfl
  refine h.set hj htasks hacc (fun m hm => ?_) (fun _ m hm _ => ?_) (by simp)
  · rw [hheld]
    exact List.mem_cons_of_mem _ hm
  · rw [hheld] at hm
    rcases List.mem_cons.1 hm with rfl | hm
    · rcases hfate with rfl | rfl
      · exact .inr (.inl (List.mem_singleton_self _))
      · exact .inr (.inr (List.mem_singleton_self _))
    · exact .inl ⟨by simp, hm⟩

theorem Accounted.write (h : s.Accounted) {ok : Bool} {lanes : Lanes}
    (hs : s.lanes.write j ok = some lanes) :
    Accounted { s with lanes := lanes, fates := s.fates ++ fatesOf s.lanes (.write j ok) } := by
  obtain ⟨task, hj, hs⟩ := Option.bind_eq_some_iff.1 hs
  split at hs
  · rename_i msg conn hstage
    obtain ⟨i, -, hs⟩ := Option.bind_eq_some_iff.1 hs
    obtain ⟨stream, -, hs⟩ := Option.bind_eq_some_iff.1 hs
    have hfates : fatesOf s.lanes (.write j ok) = [(msg, if ok then .written else .failed)] := by
      simp only [fatesOf, hj, Option.map_some, hstage]
    rw [hfates]
    dsimp only at hs
    split at hs
    · cases hs
    · split at hs
      · rename_i hok
        cases hs
        exact h.settle hj hstage (.inl (if_pos hok)) rfl rfl
      · rename_i hok
        cases hs
        exact h.settle hj hstage (.inr (if_neg hok)) rfl rfl
  · cases hs

theorem Accounted.failWrite (h : s.Accounted) {lanes : Lanes} (hs : s.lanes.failWrite j = some lanes) :
    Accounted { s with lanes := lanes, fates := s.fates ++ fatesOf s.lanes (.fail j) } := by
  obtain ⟨task, hj, hs⟩ := Option.bind_eq_some_iff.1 hs
  split at hs
  · rename_i msg conn hstage
    cases hs
    have hfates : fatesOf s.lanes (.fail j) = [(msg, .failed)] := by
      simp only [fatesOf, hj, Option.map_some, hstage]
    rw [hfates]
    exact h.settle hj hstage (.inr rfl) rfl rfl
  · cases hs

theorem Accounted.openStream (h : s.Accounted) {lanes : Lanes} {fates : List (ℕ × Fate)}
    (hs : s.lanes.openStream j = some lanes) :
    Accounted { s with lanes := lanes, fates := s.fates ++ fates } := by
  obtain ⟨task, hj, hs⟩ := Option.bind_eq_some_iff.1 hs
  split at hs
  · rename_i msg conn hstage
    split at hs
    · cases hs
    · cases hs
      refine h.keep hj rfl rfl rfl ?_
      show task.stage ≠ .ending
      rw [hstage]
      nofun
  · cases hs

theorem Accounted.move (h : s.Accounted) {lanes : Lanes} {fates : List (ℕ × Fate)}
    {f : LaneTask → Option LaneTask} (hs : s.lanes.move j f = some lanes)
    (hf : ∀ task task', f task = some task' → task.stage ≠ .ending → task'.held = task.held)
    (hsub : ∀ task task', f task = some task' → ∀ msg ∈ task'.held, msg ∈ task.held)
    (hending : ∀ task task', f task = some task' → task'.stage = .ending →
      task.held = [] ∧ task'.queue = []) :
    Accounted { s with lanes := lanes, fates := s.fates ++ fates } := by
  obtain ⟨task, task', hj, hft, rfl⟩ := move_eq_some hs
  refine h.set hj rfl rfl (hsub task task' hft) (fun hstage msg hm _ => .inl ⟨fun hend => ?_, ?_⟩)
    fun hend => (hending task task' hft hend).2
  · rw [(hending task task' hft hend).1] at hm
    cases hm
  · rw [hf task task' hft hstage]
    exact hm

theorem Accounted.startLane (h : s.Accounted) {fates : List (ℕ × Fate)} (addr : NodeAddr) :
    Accounted { s with lanes := s.lanes.startLane addr, fates := s.fates ++ fates } := by
  refine h.mono (fun _ => List.mem_append_left _) (fun task ht => ?_) rfl
  refine (List.mem_append.1 ht).imp id fun ht => ?_
  rw [List.mem_singleton.1 ht]
  rfl

theorem Accounted.recv (h : s.Accounted) {lanes : Lanes} {fates : List (ℕ × Fate)}
    (hs : s.lanes.step (.recv j) = some lanes) :
    Accounted { s with lanes := lanes, fates := s.fates ++ fates } := by
  obtain ⟨task, task', hj, hf, rfl⟩ := move_eq_some hs
  split at hf
  · rename_i msg rest hstage hqueue
    cases hf
    refine h.keep hj rfl rfl ?_ (by simp)
    rw [LaneTask.held, LaneTask.held, hstage, hqueue]
    rfl
  · cases hf

theorem Accounted.leave (h : s.Accounted) {lanes : Lanes} {fates : List (ℕ × Fate)}
    (hs : s.lanes.step (.leave j) = some lanes) :
    Accounted { s with lanes := lanes, fates := s.fates ++ fates } := by
  have hmove : ∀ task task' : LaneTask,
      (if task.stage = .waiting ∧ task.queue = [] then some { task with stage := .ending } else none) =
        some task' → task.held = [] ∧ task'.held = [] ∧ task'.queue = [] := by
    intro task task' hf
    split at hf
    · rename_i hidle
      cases hf
      refine ⟨?_, hidle.2, hidle.2⟩
      rw [LaneTask.held, hidle.1, hidle.2]
      rfl
    · cases hf
  exact h.move hs
    (fun task task' hf _ => (hmove task task' hf).2.1.trans (hmove task task' hf).1.symm)
    (fun task task' hf msg hm => by rw [(hmove task task' hf).2.1] at hm; cases hm)
    fun task task' hf _ => ⟨(hmove task task' hf).1, (hmove task task' hf).2.2⟩

theorem Accounted.finish (h : s.Accounted) {lanes : Lanes} {fates : List (ℕ × Fate)}
    (hs : s.lanes.step (.finish j) = some lanes) :
    Accounted { s with lanes := lanes, fates := s.fates ++ fates } := by
  have hmove : ∀ task task' : LaneTask,
      (if task.stage = .ending then some ⟨[], .ended, none⟩ else none) = some task' →
        task.stage = .ending ∧ task'.held = [] ∧ task'.stage ≠ .ending := by
    intro task task' hf
    split at hf
    · cases hf
      exact ⟨by assumption, rfl, nofun⟩
    · cases hf
  exact h.move hs (fun task task' hf hne => absurd (hmove task task' hf).1 hne)
    (fun task task' hf msg hm => by rw [(hmove task task' hf).2.1] at hm; cases hm)
    fun task task' hf hend => absurd hend (hmove task task' hf).2.2

theorem Accounted.lanes (h : s.Accounted) {event : Lanes.Event} (hs : s.step (.lanes event) = some s') :
    s'.Accounted := by
  cases event with
  | send k | skip j | connected j | dialed j => cases hs
  | sender addr =>
    cases hs
    show Accounted { s with lanes := s.lanes.sender addr, fates := _ }
    unfold Lanes.sender
    split
    · exact h.startLane addr
    · split
      · exact h.startLane addr
      · exact h.mono (fun _ ht => ht) (fun _ ht => .inl ht) rfl
  | dropSender k | forget | incoming | disconnect =>
    cases hs
    exact h.mono (fun _ ht => ht) (fun _ ht => .inl ht) rfl
  | recv j =>
    obtain ⟨lanes, hlanes, hs⟩ := Option.bind_eq_some_iff.1 hs
    cases hs
    exact h.recv hlanes
  | openStream j =>
    obtain ⟨lanes, hlanes, hs⟩ := Option.bind_eq_some_iff.1 hs
    cases hs
    exact h.openStream hlanes
  | write j ok =>
    obtain ⟨lanes, hlanes, hs⟩ := Option.bind_eq_some_iff.1 hs
    cases hs
    exact h.write hlanes
  | fail j =>
    obtain ⟨lanes, hlanes, hs⟩ := Option.bind_eq_some_iff.1 hs
    cases hs
    exact h.failWrite hlanes
  | leave j =>
    obtain ⟨lanes, hlanes, hs⟩ := Option.bind_eq_some_iff.1 hs
    cases hs
    exact h.leave hlanes
  | finish j =>
    obtain ⟨lanes, hlanes, hs⟩ := Option.bind_eq_some_iff.1 hs
    cases hs
    exact h.finish hlanes
  | read i =>
    obtain ⟨lanes, hlanes, hs⟩ := Option.bind_eq_some_iff.1 hs
    cases hs
    obtain ⟨stream, -, hlanes⟩ := Option.bind_eq_some_iff.1 hlanes
    split at hlanes
    · cases hlanes
    · cases hlanes
      exact h.mono (fun _ ht => ht) (fun _ ht => .inl ht) rfl
  | cut i n =>
    obtain ⟨lanes, hlanes, hs⟩ := Option.bind_eq_some_iff.1 hs
    cases hs
    obtain ⟨stream, -, rfl⟩ := Option.map_eq_some_iff.1 hlanes
    exact h.mono (fun _ ht => ht) (fun _ ht => .inl ht) rfl

theorem Accounted.step (h : s.Accounted) (hok : s.PushesBeforeEnd e) (hs : s.step e = some s') :
    s'.Accounted := by
  cases e with
  | wait time | health health =>
    cases hs
    exact ⟨h.owed, h.ending, h.lt, h.legal, h.lens⟩
  | send k len => exact h.send hok hs
  | drop j why => exact h.drop hok hs
  | connect j dial => exact h.connect hs
  | lanes event => exact h.lanes hs

/-! ## Runs -/

/-- No message is lost in the runs in which lanes get messages before their end. -/
theorem noneLost_of_pushesBeforeEnd (h : (runs.guard PushesBeforeEnd).Reachable s) : s.NoneLost := by
  refine (h.guard_invariant (I := Accounted) ?_ fun s e s' hi hok hs => hi.step hok hs).owed
  rintro _ rfl
  exact accounted_new

/-- A message is written, the lane ends when it has been idle, and the next message goes to a new
lane. -/
theorem noneLost_of_pushesBeforeEnd_idle : ∃ s, (runs.guard PushesBeforeEnd).Reachable s ∧
    (s.owed = [0, 1] ∧ s.fates = [(0, .written), (1, .failed)] ∧ s.lanes.tasks.length = 2) ∧
      s.NoneLost := by
  obtain ⟨s, hs, h⟩ : ∃ s, (runs.guard PushesBeforeEnd).Reachable s ∧ _ :=
    Lts.exists_guard_reachable_of_exec (f := step)
      (p := fun s => s.owed = [0, 1] ∧ s.fates = [(0, .written), (1, .failed)] ∧
        s.lanes.tasks.length = 2) (s := new) rfl
      [.lanes .incoming, .lanes (.sender "a"), .send 0 100, .lanes (.recv 0), .connect 0 false,
        .lanes (.openStream 0), .lanes (.write 0 true), .lanes (.leave 0), .lanes (.finish 0),
        .lanes (.sender "a"), .send 0 100, .lanes (.recv 1), .connect 1 false, .lanes (.fail 1)]
      (by decide +kernel)
  exact ⟨s, hs, h, noneLost_of_pushesBeforeEnd hs⟩

/-- A message that is sent while an idle lane finishes its stream is accepted, under a live
connection, and goes down with the lane. -/
theorem not_noneLost : (∃ s, runs.Reachable s ∧ s.lanes.conn = some 0 ∧ s.owed = [0, 1] ∧
      s.fates = [(0, .written), (1, .discarded)]) ∧ ¬ ∀ s, runs.Reachable s → s.NoneLost := by
  obtain ⟨s, hs, hconn, howed, hfates, hheld⟩ : ∃ s, runs.Reachable s ∧ s.lanes.conn = some 0 ∧
      s.owed = [0, 1] ∧ s.fates = [(0, .written), (1, .discarded)] ∧
      s.lanes.tasks.map LaneTask.held = [[]] :=
    Lts.exists_reachable_of_exec (s := new) rfl
      [.lanes .incoming, .lanes (.sender "a"), .send 0 100, .lanes (.recv 0), .connect 0 false,
        .lanes (.openStream 0), .lanes (.write 0 true), .lanes (.leave 0), .lanes (.sender "a"),
        .send 0 100, .lanes (.finish 0)]
      (by decide +kernel)
  refine ⟨⟨s, hs, hconn, howed, hfates⟩, fun hall => ?_⟩
  rcases hall s hs 1 (by simp [howed]) with hset | ⟨task, ht, -, hm⟩
  · simp [Settled, hfates] at hset
  · have hmem := List.mem_map_of_mem (f := LaneTask.held) ht
    rw [hheld, List.mem_singleton] at hmem
    rw [hmem] at hm
    cases hm

end LaneFates

end Zestors
