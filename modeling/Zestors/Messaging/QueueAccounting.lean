import Mathlib.Algebra.Order.Group.Nat
import Mathlib.Algebra.Order.BigOperators.Group.List
import Zestors.Messaging.Router

/-!
# What waits for an actor

The two counters of one actor's queue, one atomic operation at a time. The router loads both, and adds
to both if it admits the message; the task of the actor takes a message from the queue and subtracts
from both, whatever the router is doing. Where the queue turns out to be closed the router subtracts
what it has added.

Only the router adds, so what it has loaded is no less than what waits when it adds to it, however many
releases come in between (`AdmitStage.Covers`). The counters are what waits and what is half done
(`Counted`), and so they are never below zero. With nothing in between, the steps of the router are
`Queued::admit` and those of the task `Queued::release` (`exec_admitSteps`, `exec_releaseSteps`).
-/

namespace Zestors

/-- Where the router is with a message of `len` bytes. -/
inductive AdmitStage
  | idle
  | loadMessages (len : ℕ)
  | loadBytes (len : ℕ) (messages : ℤ)
  | check (len : ℕ) (messages bytes : ℤ)
  | addMessages (len : ℕ)
  | addBytes (len : ℕ)
  | send (len : ℕ)
  | subMessages (len : ℕ)
  | subBytes (len : ℕ)
  /-- The queue is closed. The router has another one for the actor. -/
  | gone
deriving DecidableEq

/-- Where the task of the actor is. -/
inductive ReleaseStage
  | recv
  | subMessages (len : ℕ)
  | subBytes (len : ℕ)
  | process
  | ended
deriving DecidableEq

/-- An actor's queue and its counters. A message is known by the length of its payload. A counter that
underflows is negative here; the code's would wrap around. -/
structure QueueAccounting where
  messages : ℤ
  bytes : ℤ
  waiting : List ℕ
  closed : Bool
  router : AdmitStage
  task : ReleaseStage
deriving DecidableEq

namespace QueueAccounting

inductive Event
  /-- A message for the actor comes to the router. -/
  | route (len : ℕ)
  /-- The next step of the router. -/
  | router
  /-- The next step of the task. -/
  | task
  /-- The task has had nothing to do for a while, and closes its queue. -/
  | idle

variable {s s' : QueueAccounting} {e : Event}

/-- The router's next step, in `Router::route`, `Queued::admit` and `Queued::release`. -/
def stepRouter (s : QueueAccounting) : Option QueueAccounting :=
  match s.router with
  | .idle | .gone => none
  | .loadMessages len => some { s with router := .loadBytes len s.messages }
  | .loadBytes len messages => some { s with router := .check len messages s.bytes }
  | .check len messages bytes =>
    if messages > 0 ∧
        (messages ≥ Router.actorQueueMessages ∨ bytes + len > Router.actorQueueBytes) then
      -- refused
      some { s with router := .idle }
    else some { s with router := .addMessages len }
  | .addMessages len => some { s with messages := s.messages + 1, router := .addBytes len }
  | .addBytes len => some { s with bytes := s.bytes + len, router := .send len }
  | .send len =>
    if s.closed then some { s with router := .subMessages len }
    else some { s with waiting := s.waiting ++ [len], router := .idle }
  | .subMessages len => some { s with messages := s.messages - 1, router := .subBytes len }
  | .subBytes len => some { s with bytes := s.bytes - len, router := .gone }

/-- The next step of `actor_task`. -/
def stepTask (s : QueueAccounting) : Option QueueAccounting :=
  match s.task, s.waiting with
  | .recv, len :: waiting => some { s with waiting := waiting, task := .subMessages len }
  | .recv, [] => if s.closed then some { s with task := .ended } else none
  | .subMessages len, _ => some { s with messages := s.messages - 1, task := .subBytes len }
  | .subBytes len, _ => some { s with bytes := s.bytes - len, task := .process }
  | .process, _ => some { s with task := .recv }
  | .ended, _ => none

def step (s : QueueAccounting) : Event → Option QueueAccounting
  | .route len => if s.router = .idle then some { s with router := .loadMessages len } else none
  | .router => s.stepRouter
  | .task => s.stepTask
  | .idle => if s.task = .recv then some { s with closed := true } else none

/-- A new queue: its first message is admitted and sent before its task is spawned. -/
def new (len : ℕ) : QueueAccounting := ⟨1, len, [len], false, .idle, .recv⟩

/-- Every interleaving of the router and the task. -/
def runs : Lts QueueAccounting Event := Lts.ofFun (fun s => ∃ len, s = new len) step

/-- No step of the counters is half done. -/
def Settled (s : QueueAccounting) : Prop :=
  (s.router = .idle ∨ s.router = .gone) ∧ (s.task = .recv ∨ s.task = .process ∨ s.task = .ended)

/-- The counters never underflow, and say what waits when nothing is half done. Too many bytes wait only
where a single message does, and never too many messages. -/
structure Bounded (s : QueueAccounting) : Prop where
  messages_nonneg : 0 ≤ s.messages
  bytes_nonneg : 0 ≤ s.bytes
  counted : s.Settled → s.messages = s.waiting.length ∧ s.bytes = s.waiting.sum
  bytes_le : Router.actorQueueBytes < s.waiting.sum → s.waiting.length = 1
  messages_le : s.waiting.length ≤ Router.actorQueueMessages

end QueueAccounting

/-! ## The counters -/

/-- What the router has added for a message that does not wait. -/
def AdmitStage.added : AdmitStage → ℤ × ℤ
  | .addBytes _ => (1, 0)
  | .send len | .subMessages len => (1, len)
  | .subBytes len => (0, len)
  | _ => (0, 0)

/-- What the task has still to subtract for the message that it has taken. -/
def ReleaseStage.held : ReleaseStage → ℤ × ℤ
  | .subMessages len => (1, len)
  | .subBytes len => (0, len)
  | _ => (0, 0)

/-- The message that the router is about to put in the queue. -/
def AdmitStage.admitted : AdmitStage → List ℕ
  | .addMessages len | .addBytes len | .send len => [len]
  | _ => []

/-- What the router has loaded is no less than what waits. -/
def AdmitStage.Covers (waiting : List ℕ) : AdmitStage → Prop
  | .loadBytes _ messages => waiting.length ≤ messages
  | .check _ messages bytes => waiting.length ≤ messages ∧ waiting.sum ≤ bytes
  | _ => True

namespace QueueAccounting
variable {s s' : QueueAccounting} {e : Event}

/-- These messages may wait at one time. -/
def Admissible (messages : List ℕ) : Prop :=
  messages.length ≤ Router.actorQueueMessages ∧
  (Router.actorQueueBytes < messages.sum → messages.length = 1)

/-- The counters are what waits and what is half done. -/
structure Counted (s : QueueAccounting) : Prop where
  messages : s.messages = s.waiting.length + s.router.added.1 + s.task.held.1
  bytes : s.bytes = s.waiting.sum + s.router.added.2 + s.task.held.2
  covers : s.router.Covers s.waiting
  admissible : Admissible (s.waiting ++ s.router.admitted)

theorem admissible_of_check {waiting : List ℕ} {len : ℕ} {messages bytes : ℤ}
    (hmessages : (waiting.length : ℤ) ≤ messages) (hbytes : (waiting.sum : ℤ) ≤ bytes)
    (hcheck : ¬ (messages > 0 ∧
      (messages ≥ Router.actorQueueMessages ∨ bytes + len > Router.actorQueueBytes))) :
    Admissible (waiting ++ [len]) := by
  have hroom : 1 ≤ Router.actorQueueMessages := by decide
  refine ⟨?_, fun hlarge => ?_⟩
  · rw [List.length_append, List.length_singleton]
    omega
  · rw [List.sum_append, List.sum_singleton] at hlarge
    rw [List.length_append, List.length_singleton]
    omega

theorem Admissible.sublist {l l' : List ℕ} (h : Admissible l) (hsub : l'.Sublist l) : Admissible l' := by
  have hlength := hsub.length_le
  have hsum : l'.sum ≤ l.sum := hsub.sum_le_sum fun _ _ => Nat.zero_le _
  refine ⟨Nat.le_trans hlength h.1, fun hlarge => ?_⟩
  have hone := h.2 (Nat.lt_of_lt_of_le hlarge hsum)
  have hne : l'.length ≠ 0 := by
    intro hnil
    rw [List.length_eq_zero_iff.1 hnil] at hlarge
    exact absurd hlarge (Nat.not_lt_zero _)
  omega

theorem Counted.stepRouter (h : s.Counted) (hs : s.stepRouter = some s') : s'.Counted := by
  obtain ⟨messages, bytes, waiting, closed, router, task⟩ := s
  obtain ⟨hmessages, hbytes, hcovers, hadmissible⟩ := h
  dsimp only at hmessages hbytes hcovers hadmissible
  have hheld : 0 ≤ task.held.1 ∧ 0 ≤ task.held.2 := by
    cases task <;> simp [ReleaseStage.held]
  cases router with
  | idle | gone => cases hs
  | loadMessages len =>
    cases hs
    refine ⟨hmessages, hbytes, ?_, hadmissible⟩
    simp only [AdmitStage.Covers, AdmitStage.added] at hmessages ⊢
    omega
  | loadBytes len loaded =>
    cases hs
    refine ⟨hmessages, hbytes, ⟨hcovers, ?_⟩, hadmissible⟩
    simp only [AdmitStage.added] at hbytes ⊢
    omega
  | check len loaded loadedBytes =>
    simp only [QueueAccounting.stepRouter] at hs
    split_ifs at hs with hcheck
    · cases hs
      exact ⟨hmessages, hbytes, trivial, hadmissible⟩
    · cases hs
      exact ⟨hmessages, hbytes, trivial, admissible_of_check hcovers.1 hcovers.2 hcheck⟩
  | addMessages len | addBytes len | subMessages len | subBytes len =>
    cases hs
    refine ⟨?_, ?_, trivial, hadmissible⟩
    · simp only [AdmitStage.added] at hmessages ⊢
      omega
    · simp only [AdmitStage.added] at hbytes ⊢
      omega
  | send len =>
    simp only [QueueAccounting.stepRouter] at hs
    split_ifs at hs with hclosed
    · cases hs
      refine ⟨hmessages, hbytes, trivial, hadmissible.sublist ?_⟩
      simp only [AdmitStage.admitted, List.append_nil]
      exact List.sublist_append_left waiting [len]
    · cases hs
      simp only [AdmitStage.added] at hmessages hbytes
      refine ⟨?_, ?_, trivial, ?_⟩
      · simp only [List.length_append, List.length_singleton, AdmitStage.added]
        omega
      · simp only [List.sum_append, List.sum_singleton, AdmitStage.added]
        omega
      · simpa only [AdmitStage.admitted, List.append_nil] using hadmissible

/-- A message less in the queue leaves what the router has loaded enough. -/
theorem covers_tail {router : AdmitStage} {waiting : List ℕ} {len : ℕ}
    (h : router.Covers (len :: waiting)) : router.Covers waiting := by
  cases router with
  | loadBytes _ messages =>
    simp only [AdmitStage.Covers, List.length_cons] at h ⊢
    omega
  | check _ messages bytes =>
    simp only [AdmitStage.Covers, List.length_cons, List.sum_cons] at h ⊢
    omega
  | _ => trivial

theorem Counted.stepTask (h : s.Counted) (hs : s.stepTask = some s') : s'.Counted := by
  obtain ⟨messages, bytes, waiting, closed, router, task⟩ := s
  obtain ⟨hmessages, hbytes, hcovers, hadmissible⟩ := h
  dsimp only at hmessages hbytes hcovers hadmissible
  cases task with
  | recv =>
    cases waiting with
    | nil =>
      simp only [QueueAccounting.stepTask] at hs
      split_ifs at hs
      cases hs
      exact ⟨hmessages, hbytes, hcovers, hadmissible⟩
    | cons len waiting =>
      cases hs
      refine ⟨?_, ?_, covers_tail hcovers, hadmissible.sublist (List.sublist_cons_self len _)⟩
      · simp only [ReleaseStage.held, List.length_cons] at hmessages ⊢
        omega
      · simp only [ReleaseStage.held, List.sum_cons] at hbytes ⊢
        omega
  | subMessages len | subBytes len | process =>
    cases hs
    refine ⟨?_, ?_, hcovers, hadmissible⟩
    · simp only [ReleaseStage.held] at hmessages ⊢
      omega
    · simp only [ReleaseStage.held] at hbytes ⊢
      omega
  | ended => cases hs

theorem Counted.step (h : s.Counted) (hs : s.step e = some s') : s'.Counted := by
  cases e with
  | route len =>
    simp only [QueueAccounting.step] at hs
    split_ifs at hs with hidle
    cases hs
    have hadded : s.router.added = (0, 0) := by rw [hidle]; rfl
    refine ⟨?_, ?_, trivial, h.admissible.sublist ?_⟩
    · have := h.messages
      rw [hadded] at this
      exact this
    · have := h.bytes
      rw [hadded] at this
      exact this
    · rw [hidle]
      exact List.Sublist.refl _
  | router => exact h.stepRouter hs
  | task => exact h.stepTask hs
  | idle =>
    simp only [QueueAccounting.step] at hs
    split_ifs at hs
    cases hs
    exact ⟨h.messages, h.bytes, h.covers, h.admissible⟩

theorem Counted.bounded (h : s.Counted) : s.Bounded := by
  have hadded : 0 ≤ s.router.added.1 ∧ 0 ≤ s.router.added.2 := by
    cases s.router <;> simp [AdmitStage.added]
  have hheld : 0 ≤ s.task.held.1 ∧ 0 ≤ s.task.held.2 := by
    cases s.task <;> simp [ReleaseStage.held]
  have hadmissible := h.admissible.sublist (List.sublist_append_left s.waiting _)
  refine ⟨?_, ?_, fun hsettled => ?_, hadmissible.2, hadmissible.1⟩
  · have := h.messages
    omega
  · have := h.bytes
    omega
  · have hrouter : s.router.added = (0, 0) := by
      rcases hsettled.1 with h | h <;> rw [h] <;> rfl
    have htask : s.task.held = (0, 0) := by
      rcases hsettled.2 with h | h | h <;> rw [h] <;> rfl
    have hmessages := h.messages
    have hbytes := h.bytes
    rw [hrouter, htask] at hmessages hbytes
    exact ⟨by simpa using hmessages, by simpa using hbytes⟩

/-! ## The operations as a whole -/

/-- With nothing in between, the router's steps up to the hand-over are `Queued::admit`. -/
theorem exec_admitSteps {queued : Router.Queued} (hmessages : s.messages = queued.messages)
    (hbytes : s.bytes = queued.bytes) (hidle : s.router = .idle) (len : ℕ) :
    match Router.Queued.admit queued len with
    | none => Lts.exec step s [.route len, .router, .router, .router] = some s
    | some queued' => Lts.exec step s [.route len, .router, .router, .router, .router, .router] =
        some { s with messages := queued'.messages, bytes := queued'.bytes, router := .send len } := by
  obtain ⟨messages, bytes, waiting, closed, router, task⟩ := s
  dsimp only at hmessages hbytes hidle
  subst hmessages hbytes hidle
  unfold Router.Queued.admit
  by_cases hfull : queued.messages > 0 ∧
      (queued.messages ≥ Router.actorQueueMessages ∨ queued.bytes + len > Router.actorQueueBytes)
  · have hfull' : (queued.messages : ℤ) > 0 ∧ ((queued.messages : ℤ) ≥ Router.actorQueueMessages ∨
        (queued.bytes : ℤ) + len > Router.actorQueueBytes) := by omega
    rw [if_pos hfull]
    simp only [Lts.exec, step, stepRouter, ↓reduceIte, Option.bind_some, if_pos hfull']
  · have hfull' : ¬ ((queued.messages : ℤ) > 0 ∧ ((queued.messages : ℤ) ≥ Router.actorQueueMessages ∨
        (queued.bytes : ℤ) + len > Router.actorQueueBytes)) := by omega
    rw [if_neg hfull]
    simp only [Lts.exec, step, stepRouter, ↓reduceIte, Option.bind_some, if_neg hfull', Int.natCast_add,
      Int.natCast_one]

/-- With nothing in between, the task's steps after it has taken a message are `Queued::release`. -/
theorem exec_releaseSteps {queued : Router.Queued} {len : ℕ} (hmessages : s.messages = queued.messages)
    (hbytes : s.bytes = queued.bytes) (htask : s.task = .subMessages len) (hone : 1 ≤ queued.messages)
    (hlen : len ≤ queued.bytes) :
    Lts.exec step s [.task, .task] =
      some { s with
        messages := (queued.release len).messages
        bytes := (queued.release len).bytes
        task := .process } := by
  obtain ⟨messages, bytes, waiting, closed, router, task⟩ := s
  dsimp only at hmessages hbytes htask
  subst hmessages hbytes htask
  simp only [Lts.exec, step, stepTask, Option.bind_some, Router.Queued.release, Int.ofNat_sub hone,
    Int.ofNat_sub hlen, Int.natCast_one]

end QueueAccounting

end Zestors
