import Zestors.Lib.ListOrder
import Zestors.Lib.Lts

/-!
# The lanes to one actor

Every message from this node to one actor of a peer has the same lane key. `Inner::sender` hands out
the lane under that key and starts one where there is none, or where the one there is stale; a lane
task takes the messages from its queue one by one and writes them to a stream of its own. Several
tasks may be at work for the key at once: one that was forgotten or replaced first finishes its queue,
on its own stream.

The messages arrive in the order in which the lanes accepted them (`ReadInOrder`) in the runs in which
nothing earlier is still queued elsewhere, or unread on another stream, when a message is written
(`readInOrder_of_writesInOrder`).
-/

namespace Zestors

/-- An address of a node, which its peers dial. -/
abbrev NodeAddr := String

/-- Where a lane task is: it waits for a message, looks for a connection to send the message on,
writes to the connection `conn`, finishes its stream, or has returned. -/
inductive LaneStage
  | waiting
  | sending (msg : ℕ)
  | writing (msg conn : ℕ)
  | ending
  | ended
deriving DecidableEq

def LaneStage.held : LaneStage → List ℕ
  | waiting | ending | ended => []
  | sending msg | writing msg _ => [msg]

/-- The task behind a lane: what its channel holds, and its stream as an index of `Lanes.streams`. -/
structure LaneTask where
  queue : List ℕ
  stage : LaneStage
  stream : Option ℕ
deriving DecidableEq

/-- The messages that the task accepted and has not written. -/
def LaneTask.held (task : LaneTask) : List ℕ := task.stage.held ++ task.queue

/-- An ordered stream, with the messages on it that the peer has not read. A broken stream keeps what
has arrived and delivers nothing more. -/
structure Stream where
  conn : ℕ
  unread : List ℕ
  isOpen : Bool
deriving DecidableEq

def Stream.push (stream : Stream) (msg : ℕ) : Stream :=
  if stream.isOpen then { stream with unread := stream.unread ++ [msg] } else stream

/-- `Lane`: what the table of lanes has under the key. `task` is where its sender leads. -/
structure Lane where
  task : ℕ
  addr : NodeAddr
deriving DecidableEq

/-- How many messages may be queued in one lane. -/
def laneQueue : ℕ := 128

/-- The part of `Inner` that has to do with one lane key: the lane, its tasks past and present, the
senders that callers hold, and the connection to the peer. Messages are numbered as they are accepted,
and `read` is what the peer has read so far. -/
structure Lanes where
  lane : Option Lane
  tasks : List LaneTask
  senders : List ℕ
  conn : Option ℕ
  nextConn : ℕ
  streams : List Stream
  accepted : ℕ
  read : List ℕ

namespace Lanes

/-- Before anything is sent to the actor. -/
def new : Lanes := ⟨none, [], [], none, 0, [], 0, []⟩

inductive Event
  /-- A caller asks for the lane to the actor, whose node has the address `addr`. -/
  | sender (addr : NodeAddr)
  /-- The `k`-th of the callers' senders sends its message. -/
  | send (k : ℕ)
  | dropSender (k : ℕ)
  | forget
  /-- A connection that the peer dialed is registered. -/
  | incoming
  /-- The connection to the peer is closed or unregistered. -/
  | disconnect
  | recv (j : ℕ)
  /-- The lane gives up on the message: it is too large, or there is no connection. -/
  | skip (j : ℕ)
  | connected (j : ℕ)
  | dialed (j : ℕ)
  | openStream (j : ℕ)
  /-- The message is written; `ok` is what the lane is told. -/
  | write (j : ℕ) (ok : Bool)
  /-- Opening the stream or writing fails. -/
  | fail (j : ℕ)
  /-- The lane was idle for too long, or all its senders are gone. -/
  | leave (j : ℕ)
  | finish (j : ℕ)
  /-- The peer reads the next message on the `i`-th stream. -/
  | read (i : ℕ)
  /-- The stream breaks, and only the first `n` unread messages arrive. -/
  | cut (i n : ℕ)

variable {s s' : Lanes} {e : Event} {j : ℕ} {task : LaneTask}

/-- `Sender::is_closed`: the task behind it has returned. -/
def isClosed (s : Lanes) (lane : Lane) : Bool :=
  (s.tasks[lane.task]?).all fun task => task.stage = .ended

/-- `Inner::start_lane`, and the sender for the caller. -/
def startLane (s : Lanes) (addr : NodeAddr) : Lanes :=
  { s with
    lane := some ⟨s.tasks.length, addr⟩
    tasks := s.tasks ++ [⟨[], .waiting, none⟩]
    senders := s.senders ++ [s.tasks.length] }

/-- `Inner::sender`. -/
def sender (s : Lanes) (addr : NodeAddr) : Lanes :=
  match s.lane with
  | none => s.startLane addr
  | some lane =>
    if lane.addr ≠ addr || s.isClosed lane then s.startLane addr
    else { s with senders := s.senders ++ [lane.task] }

/-- A caller's `send`: the channel takes the message if it has room, and refuses it if the task has
returned. -/
def send (s : Lanes) (k : ℕ) : Option Lanes := do
  let j ← s.senders[k]?
  let task ← s.tasks[j]?
  let s := { s with senders := s.senders.eraseIdx k }
  if task.stage = .ended then some s
  else if task.queue.length < laneQueue then
    some { s with
      tasks := s.tasks.set j { task with queue := task.queue ++ [s.accepted] }
      accepted := s.accepted + 1 }
  else none

/-- The task `j` goes on to another stage, with the message it is at. -/
def move (s : Lanes) (j : ℕ) (f : LaneTask → Option LaneTask) : Option Lanes := do
  let task ← s.tasks[j]?
  let task ← f task
  some { s with tasks := s.tasks.set j task }

/-- The write of the task `j` failed: it lets go of its stream and unregisters the connection. -/
def failed (s : Lanes) (j : ℕ) (task : LaneTask) (conn : ℕ) : Lanes :=
  { s with
    tasks := s.tasks.set j { task with stage := .waiting, stream := none }
    conn := if s.conn = some conn then none else s.conn }

/-- `write_frame`, on the stream of the task. -/
def write (s : Lanes) (j : ℕ) (ok : Bool) : Option Lanes := do
  let task ← s.tasks[j]?
  match task.stage with
  | .writing msg conn =>
    let i ← task.stream
    let stream ← s.streams[i]?
    let s := { s with streams := s.streams.set i (stream.push msg) }
    if stream.conn ≠ conn then none
    else if ok then some { s with tasks := s.tasks.set j { task with stage := .waiting } }
    else some (s.failed j task conn)
  | _ => none

/-- The stream of the task is on the connection, so that `send_ordered` need not open one. -/
def hasStream (s : Lanes) (task : LaneTask) (conn : ℕ) : Bool :=
  ((task.stream.bind (s.streams[·]?)).map Stream.conn) = some conn

def openStream (s : Lanes) (j : ℕ) : Option Lanes := do
  let task ← s.tasks[j]?
  match task.stage with
  | .writing _ conn =>
    if s.hasStream task conn then none
    else some { s with
      tasks := s.tasks.set j { task with stream := some s.streams.length }
      streams := s.streams ++ [⟨conn, [], true⟩] }
  | _ => none

def failWrite (s : Lanes) (j : ℕ) : Option Lanes := do
  let task ← s.tasks[j]?
  match task.stage with
  | .writing _ conn => some (s.failed j task conn)
  | _ => none

/-- `read_frame`, on the `i`-th stream. -/
def readFrame (s : Lanes) (i : ℕ) : Option Lanes := do
  let stream ← s.streams[i]?
  match stream.unread with
  | [] => none
  | msg :: rest => some { s with
      streams := s.streams.set i { stream with unread := rest }
      read := s.read ++ [msg] }

def step (s : Lanes) : Event → Option Lanes
  | .sender addr => some (s.sender addr)
  | .send k => s.send k
  | .dropSender k => some { s with senders := s.senders.eraseIdx k }
  | .forget => some { s with lane := none }
  | .incoming => some { s with conn := some s.nextConn, nextConn := s.nextConn + 1 }
  | .disconnect => some { s with conn := none }
  | .recv j => s.move j fun task =>
      match task.stage, task.queue with
      | .waiting, msg :: rest => some { task with queue := rest, stage := .sending msg }
      | _, _ => none
  | .skip j => s.move j fun task =>
      match task.stage with
      | .sending _ => some { task with stage := .waiting }
      | _ => none
  | .connected j => s.move j fun task =>
      match task.stage, s.conn with
      | .sending msg, some conn => some { task with stage := .writing msg conn }
      | _, _ => none
  | .dialed j =>
    { s with conn := some s.nextConn, nextConn := s.nextConn + 1 }.move j fun task =>
      match task.stage with
      | .sending msg => some { task with stage := .writing msg s.nextConn }
      | _ => none
  | .openStream j => s.openStream j
  | .write j ok => s.write j ok
  | .fail j => s.failWrite j
  | .leave j => s.move j fun task =>
      if task.stage = .waiting ∧ task.queue = [] then some { task with stage := .ending } else none
  -- the channel goes down with the task, and what it holds with the channel
  | .finish j => s.move j fun task =>
      if task.stage = .ending then some ⟨[], .ended, none⟩ else none
  | .read i => s.readFrame i
  | .cut i n => (s.streams[i]?).map fun stream => { s with
      streams := s.streams.set i { stream with unread := stream.unread.take n, isOpen := false } }

/-- Every interleaving of the callers, the lanes, the connection and the peer. -/
def runs : Lts Lanes Event := Lts.ofFun (· = new) step

/-- The peer reads the messages in the order in which they were accepted, each at most once. -/
def ReadInOrder (s : Lanes) : Prop := s.read.Sublist (List.range s.accepted)

instance (s : Lanes) : Decidable s.ReadInOrder := by unfold ReadInOrder; infer_instance

/-- Whenever a message is written, no other task holds an earlier one, and the other streams have been
read to their ends. -/
def WritesInOrder (s : Lanes) : Event → Prop
  | .write j _ => ∀ task ∈ s.tasks[j]?,
      (∀ msg ∈ task.stage.held, ∀ other ∈ s.tasks.eraseIdx j, ∀ later ∈ other.held, msg < later) ∧
      ∀ i ∈ task.stream, ∀ other ∈ s.streams.eraseIdx i, other.unread = []
  | _ => True

instance (s : Lanes) (e : Event) : Decidable (s.WritesInOrder e) := by
  cases e <;> unfold WritesInOrder <;> infer_instance

/-- Everything that was written, and not lost with a stream: what was read and what will be. -/
def written (s : Lanes) : List ℕ := s.read ++ s.streams.flatMap Stream.unread

/-- Why the peer reads in order: one stream at most has anything on it, and whatever is still held by
a task is later than what was written. -/
structure Increasing (s : Lanes) : Prop where
  written : s.written.Pairwise (· < ·)
  single : ∀ i stream, s.streams[i]? = some stream → stream.unread ≠ [] →
    ∀ other ∈ s.streams.eraseIdx i, other.unread = []
  held : ∀ task ∈ s.tasks, task.held.Pairwise (· < ·)
  later : ∀ task ∈ s.tasks, ∀ msg ∈ task.held, ∀ old ∈ s.written, old < msg
  heldLt : ∀ task ∈ s.tasks, ∀ msg ∈ task.held, msg < s.accepted
  writtenLt : ∀ msg ∈ s.written, msg < s.accepted

theorem Increasing.readInOrder (h : s.Increasing) : s.ReadInOrder :=
  List.sublist_range ((List.pairwise_append.1 h.written).1)
    fun msg hmsg => h.writtenLt msg (List.mem_append_left _ hmsg)

theorem increasing_new : new.Increasing := by
  constructor <;> simp [new, Lanes.written]

theorem Increasing.tasks (h : s.Increasing) (hstreams : s'.streams = s.streams)
    (hread : s'.read = s.read) (haccepted : s'.accepted = s.accepted)
    (htasks : ∀ task' ∈ s'.tasks, task'.held = [] ∨
      ∃ task ∈ s.tasks, task'.held.Sublist task.held) : s'.Increasing := by
  have hwritten : s'.written = s.written := by unfold Lanes.written; rw [hread, hstreams]
  refine ⟨hwritten ▸ h.written, by rw [hstreams]; exact h.single, ?_, ?_, ?_,
    by rw [hwritten, haccepted]; exact h.writtenLt⟩
  · intro task' htask'
    rcases htasks task' htask' with hnil | ⟨task, htask, hsub⟩
    · rw [hnil]; exact List.Pairwise.nil
    · exact (h.held task htask).sublist hsub
  · rw [hwritten]
    intro task' htask' msg hmsg
    rcases htasks task' htask' with hnil | ⟨task, htask, hsub⟩
    · rw [hnil] at hmsg; cases hmsg
    · exact h.later task htask msg (hsub.subset hmsg)
  · rw [haccepted]
    intro task' htask' msg hmsg
    rcases htasks task' htask' with hnil | ⟨task, htask, hsub⟩
    · rw [hnil] at hmsg; cases hmsg
    · exact h.heldLt task htask msg (hsub.subset hmsg)

theorem Increasing.set (h : s.Increasing) {task' : LaneTask} (hj : s.tasks[j]? = some task)
    (hsub : task'.held.Sublist task.held) (hstreams : s'.streams = s.streams)
    (hread : s'.read = s.read) (haccepted : s'.accepted = s.accepted)
    (htasks : s'.tasks = s.tasks.set j task') : s'.Increasing := by
  refine h.tasks hstreams hread haccepted fun other hother => .inr ?_
  rw [htasks] at hother
  rcases List.mem_or_eq_of_mem_set hother with hother | rfl
  · exact ⟨other, hother, List.Sublist.refl _⟩
  · exact ⟨task, List.mem_of_getElem? hj, hsub⟩

theorem Increasing.startLane (h : s.Increasing) (addr : NodeAddr) : (s.startLane addr).Increasing := by
  refine h.tasks rfl rfl rfl fun task htask => ?_
  rcases List.mem_append.1 htask with htask | htask
  · exact .inr ⟨task, htask, List.Sublist.refl _⟩
  · rw [List.mem_singleton.1 htask]; exact .inl rfl

theorem Increasing.sender (h : s.Increasing) (addr : NodeAddr) : (s.sender addr).Increasing := by
  unfold Lanes.sender
  split
  · exact h.startLane addr
  · split
    · exact h.startLane addr
    · exact h.tasks rfl rfl rfl fun task htask => .inr ⟨task, htask, List.Sublist.refl _⟩

theorem Increasing.send (h : s.Increasing) {k : ℕ} (hs : s.send k = some s') : s'.Increasing := by
  unfold Lanes.send at hs
  obtain ⟨j, -, hs⟩ := Option.bind_eq_some_iff.1 hs
  obtain ⟨task, hj, hs⟩ := Option.bind_eq_some_iff.1 hs
  have hmem := List.mem_of_getElem? hj
  split at hs
  · cases hs
    exact h.tasks rfl rfl rfl fun task htask => .inr ⟨task, htask, List.Sublist.refl _⟩
  split at hs
  · cases hs
    have hheld : LaneTask.held { task with queue := task.queue ++ [s.accepted] } =
        task.held ++ [s.accepted] := by simp [LaneTask.held]
    refine ⟨h.written, h.single, ?_, ?_, ?_, fun msg hmsg => Nat.lt_succ_of_lt (h.writtenLt msg hmsg)⟩
    · intro other hother
      rcases List.mem_or_eq_of_mem_set hother with hother | rfl
      · exact h.held other hother
      · rw [hheld]
        refine List.pairwise_append.2 ⟨h.held task hmem, List.pairwise_singleton _ _, ?_⟩
        intro msg hmsg new hnew
        rw [List.mem_singleton.1 hnew]
        exact h.heldLt task hmem msg hmsg
    · intro other hother msg hmsg old hold
      rcases List.mem_or_eq_of_mem_set hother with hother | rfl
      · exact h.later other hother msg hmsg old hold
      · rw [hheld] at hmsg
        rcases List.mem_append.1 hmsg with hmsg | hmsg
        · exact h.later task hmem msg hmsg old hold
        · rw [List.mem_singleton.1 hmsg]; exact h.writtenLt old hold
    · intro other hother msg hmsg
      rcases List.mem_or_eq_of_mem_set hother with hother | rfl
      · exact Nat.lt_succ_of_lt (h.heldLt other hother msg hmsg)
      · rw [hheld] at hmsg
        rcases List.mem_append.1 hmsg with hmsg | hmsg
        · exact Nat.lt_succ_of_lt (h.heldLt task hmem msg hmsg)
        · rw [List.mem_singleton.1 hmsg]; exact Nat.lt_succ_self _
  · cases hs

theorem written_eq {i : ℕ} {stream : Stream} (hi : s.streams[i]? = some stream)
    (hnil : ∀ other ∈ s.streams.eraseIdx i, other.unread = []) :
    s.written = s.read ++ stream.unread := by
  unfold written
  rw [List.flatMap_eq_of_eraseIdx hi hnil]

theorem single_set {i : ℕ} {stream : Stream} {streams : List Stream}
    (hnil : ∀ other ∈ streams.eraseIdx i, other.unread = []) :
    ∀ k st, (streams.set i stream)[k]? = some st → st.unread ≠ [] →
      ∀ other ∈ (streams.set i stream).eraseIdx k, other.unread = [] := by
  intro k st hk hne other hother
  by_cases hki : k = i
  · subst hki
    rw [List.eraseIdx_set_eq] at hother
    exact hnil other hother
  · rw [List.getElem?_set_ne (Ne.symm hki)] at hk
    exact absurd (hnil st (List.mem_eraseIdx_iff_getElem?.2 ⟨k, hki, hk⟩)) hne

/-- A message that is later than what was written and earlier than what is held goes onto the only
stream with anything unread. -/
theorem Increasing.push (h : s.Increasing) {i msg : ℕ} {stream : Stream} {task' : LaneTask}
    (hj : s.tasks[j]? = some task) (hheld : task.held = msg :: task'.held)
    (hi : s.streams[i]? = some stream) (hnil : ∀ other ∈ s.streams.eraseIdx i, other.unread = [])
    (hothers : ∀ other ∈ s.tasks.eraseIdx j, ∀ later ∈ other.held, msg < later)
    (conn : Option ℕ) :
    Increasing { s with
      streams := s.streams.set i (stream.push msg), tasks := s.tasks.set j task', conn := conn } := by
  have hmem := List.mem_of_getElem? hj
  have hsorted : (msg :: task'.held).Pairwise (· < ·) := hheld ▸ h.held task hmem
  have hmsg : msg ∈ task.held := hheld ▸ List.mem_cons_self
  set s' : Lanes := { s with
    streams := s.streams.set i (stream.push msg), tasks := s.tasks.set j task', conn := conn } with hs'
  have hi' : s'.streams[i]? = some (stream.push msg) :=
    List.getElem?_set_self (List.getElem?_eq_some_iff.1 hi).1
  -- On a broken stream the message is lost.
  have hwritten : s'.written = s.written ++ [msg] ∨ s'.written = s.written := by
    rw [written_eq hi hnil, written_eq hi' (by rw [hs', List.eraseIdx_set_eq]; exact hnil)]
    unfold Stream.push
    split
    · exact .inl (List.append_assoc _ _ _).symm
    · exact .inr rfl
  have hold : ∀ w ∈ s'.written, w ∈ s.written ∨ w = msg := fun w hw => by
    rcases hwritten with heq | heq <;> rw [heq] at hw
    · simpa using hw
    · exact .inl hw
  have htasks : ∀ other ∈ s'.tasks, other.held = task'.held ∨ other ∈ s.tasks.eraseIdx j :=
    fun other hother => (List.eq_or_mem_eraseIdx_of_mem_set hother).imp (congrArg _) id
  refine ⟨?_, single_set hnil, fun other hother => ?_, fun other hother m hm w hw => ?_,
    fun other hother m hm => ?_, fun w hw => ?_⟩
  · rcases hwritten with heq | heq <;> rw [heq]
    · refine List.pairwise_append.2 ⟨h.written, List.pairwise_singleton _ _, fun w hw m hm => ?_⟩
      rw [List.mem_singleton.1 hm]
      exact h.later task hmem msg hmsg w hw
    · exact h.written
  · rcases htasks other hother with heq | hother
    · rw [heq]; exact (List.pairwise_cons.1 hsorted).2
    · exact h.held other (List.mem_of_mem_eraseIdx hother)
  · rcases htasks other hother with heq | hother
    · rw [heq] at hm
      rcases hold w hw with hw | hw
      · exact h.later task hmem m (hheld ▸ List.mem_cons_of_mem _ hm) w hw
      · rw [hw]; exact (List.pairwise_cons.1 hsorted).1 m hm
    · rcases hold w hw with hw | hw
      · exact h.later other (List.mem_of_mem_eraseIdx hother) m hm w hw
      · rw [hw]; exact hothers other hother m hm
  · rcases htasks other hother with heq | hother
    · exact h.heldLt task hmem m (hheld ▸ List.mem_cons_of_mem _ (heq ▸ hm))
    · exact h.heldLt other (List.mem_of_mem_eraseIdx hother) m hm
  · rcases hold w hw with hw | hw
    · exact h.writtenLt w hw
    · rw [hw]; exact h.heldLt task hmem msg hmsg

theorem Increasing.write (h : s.Increasing) {ok : Bool} (hok : s.WritesInOrder (.write j ok))
    (hs : s.write j ok = some s') : s'.Increasing := by
  unfold Lanes.write at hs
  obtain ⟨task, hj, hs⟩ := Option.bind_eq_some_iff.1 hs
  obtain ⟨hothers, hnil⟩ := hok task hj
  split at hs
  · rename_i msg conn hstage
    obtain ⟨i, hstream, hs⟩ := Option.bind_eq_some_iff.1 hs
    obtain ⟨stream, hi, hs⟩ := Option.bind_eq_some_iff.1 hs
    have hheld : task.held = msg :: task.queue := by rw [LaneTask.held, hstage]; rfl
    have hothers := hothers msg (by rw [hstage]; exact List.mem_singleton_self _)
    split at hs
    · cases hs
    split at hs
    · cases hs
      have hheld : task.held = msg :: LaneTask.held { task with stage := .waiting } := hheld
      exact h.push hj hheld hi (hnil i hstream) hothers _
    · cases hs
      have hheld : task.held = msg :: LaneTask.held { task with stage := .waiting, stream := none } :=
        hheld
      exact h.push hj hheld hi (hnil i hstream) hothers _
  · cases hs

theorem Increasing.failWrite (h : s.Increasing) (hs : s.failWrite j = some s') : s'.Increasing := by
  unfold Lanes.failWrite at hs
  obtain ⟨task, hj, hs⟩ := Option.bind_eq_some_iff.1 hs
  split at hs
  · cases hs
    exact h.set hj (List.sublist_append_right _ _) rfl rfl rfl rfl
  · cases hs

theorem Increasing.openStream (h : s.Increasing) (hs : s.openStream j = some s') : s'.Increasing := by
  unfold Lanes.openStream at hs
  obtain ⟨task, hj, hs⟩ := Option.bind_eq_some_iff.1 hs
  split at hs
  · rename_i msg conn hstage
    split at hs
    · cases hs
    · cases hs
      have hheld : LaneTask.held { task with stream := some s.streams.length } = task.held := rfl
      have h' : Increasing { s with
          tasks := s.tasks.set j { task with stream := some s.streams.length } } :=
        h.set hj (hheld ▸ List.Sublist.refl _) rfl rfl rfl rfl
      have hwritten : Lanes.written { s with
          tasks := s.tasks.set j { task with stream := some s.streams.length }
          streams := s.streams ++ [⟨conn, [], true⟩] } = s.written := by
        simp [Lanes.written]
      refine ⟨hwritten ▸ h.written, fun i stream hi hne other hother => ?_, h'.held,
        hwritten ▸ h'.later, h'.heldLt, hwritten ▸ h.writtenLt⟩
      obtain ⟨k, hki, hk⟩ := List.mem_eraseIdx_iff_getElem?.1 hother
      simp only [List.getElem?_append] at hi hk
      split at hk
      · split at hi
        · exact h.single i stream hi hne other (List.mem_eraseIdx_iff_getElem?.2 ⟨k, hki, hk⟩)
        · obtain rfl := List.mem_singleton.1 (List.mem_of_getElem? hi)
          exact absurd rfl hne
      · rw [List.mem_singleton.1 (List.mem_of_getElem? hk)]
  · cases hs

theorem Increasing.readFrame (h : s.Increasing) {i : ℕ} (hs : s.readFrame i = some s') :
    s'.Increasing := by
  unfold Lanes.readFrame at hs
  obtain ⟨stream, hi, hs⟩ := Option.bind_eq_some_iff.1 hs
  split at hs
  · cases hs
  · rename_i msg rest hunread
    cases hs
    have hnil := h.single i stream hi (by rw [hunread]; exact List.cons_ne_nil _ _)
    have hwritten : Lanes.written { s with
        streams := s.streams.set i { stream with unread := rest }, read := s.read ++ [msg] } =
        s.written := by
      rw [written_eq hi hnil, written_eq (List.getElem?_set_self (List.getElem?_eq_some_iff.1 hi).1)
        (by rw [List.eraseIdx_set_eq]; exact hnil), hunread]
      simp
    exact ⟨hwritten ▸ h.written, single_set hnil, h.held, hwritten ▸ h.later, h.heldLt,
      hwritten ▸ h.writtenLt⟩

theorem Increasing.cut (h : s.Increasing) {i n : ℕ} {stream : Stream}
    (hi : s.streams[i]? = some stream) : Increasing { s with
      streams := s.streams.set i { stream with unread := stream.unread.take n, isOpen := false } } := by
  have hsub : (Lanes.written { s with
      streams := s.streams.set i { stream with unread := stream.unread.take n, isOpen := false } }).Sublist
      s.written :=
    (List.Sublist.refl _).append (List.flatMap_set_sublist hi (List.take_sublist _ _))
  have hback : ∀ (k : ℕ) (st : Stream), (s.streams.set i { stream with
      unread := stream.unread.take n, isOpen := false })[k]? = some st →
      ∃ before, s.streams[k]? = some before ∧ st.unread.Sublist before.unread := by
    intro k st hk
    by_cases hki : k = i
    · subst hki
      rw [List.getElem?_set_self (List.getElem?_eq_some_iff.1 hi).1] at hk
      cases hk
      exact ⟨stream, hi, List.take_sublist _ _⟩
    · rw [List.getElem?_set_ne (Ne.symm hki)] at hk
      exact ⟨st, hk, List.Sublist.refl _⟩
  refine ⟨h.written.sublist hsub, fun k st hk hne other hother => ?_, h.held,
    fun task htask msg hmsg old hold => h.later task htask msg hmsg old (hsub.subset hold), h.heldLt,
    fun msg hmsg => h.writtenLt msg (hsub.subset hmsg)⟩
  obtain ⟨m, hmk, hm⟩ := List.mem_eraseIdx_iff_getElem?.1 hother
  obtain ⟨st₀, hk₀, hst₀⟩ := hback k st hk
  obtain ⟨other₀, hm₀, hother₀⟩ := hback m other hm
  have hnil := h.single k st₀ hk₀ (fun hst => hne (List.sublist_nil.1 (hst ▸ hst₀))) other₀
    (List.mem_eraseIdx_iff_getElem?.2 ⟨m, hmk, hm₀⟩)
  exact List.sublist_nil.1 (hnil ▸ hother₀)

/-- The steps of a task from one message to the next, apart from the writing. -/
def Event.isMove : Event → Bool
  | .recv _ | .skip _ | .connected _ | .dialed _ | .leave _ | .finish _ => true
  | _ => false

/-- A task that moves holds no more than before, and nothing else changes for the messages. -/
theorem set_of_isMove (he : e.isMove = true) (hs : s.step e = some s') : ∃ j task task',
    s.tasks[j]? = some task ∧ s'.tasks = s.tasks.set j task' ∧ task'.held.Sublist task.held ∧
      s'.streams = s.streams ∧ s'.read = s.read ∧ s'.accepted = s.accepted := by
  have hmove : ∀ {conn : Option ℕ} {nextConn j : ℕ} {f : LaneTask → Option LaneTask},
      move { s with conn := conn, nextConn := nextConn } j f = some s' →
      (∀ task task', f task = some task' → task'.held.Sublist task.held) → ∃ j task task',
        s.tasks[j]? = some task ∧ s'.tasks = s.tasks.set j task' ∧ task'.held.Sublist task.held ∧
          s'.streams = s.streams ∧ s'.read = s.read ∧ s'.accepted = s.accepted := by
    intro conn nextConn j f hs hf
    obtain ⟨task, hj, hs⟩ := Option.bind_eq_some_iff.1 hs
    obtain ⟨task', hft, hs⟩ := Option.bind_eq_some_iff.1 hs
    cases hs
    exact ⟨j, task, task', hj, rfl, hf task task' hft, rfl, rfl, rfl⟩
  cases e with
  | recv j =>
    refine hmove hs fun task task' hf => ?_
    split at hf
    · rename_i msg rest hstage hqueue
      cases hf
      rw [LaneTask.held, LaneTask.held, hstage, hqueue]
      exact List.Sublist.refl _
    · cases hf
  | skip j =>
    refine hmove hs fun task task' hf => ?_
    split at hf
    · cases hf
      exact List.sublist_append_right _ _
    · cases hf
  | connected j =>
    refine hmove hs fun task task' hf => ?_
    split at hf
    · rename_i msg conn hstage hconn
      cases hf
      rw [LaneTask.held, LaneTask.held, hstage]
      exact List.Sublist.refl _
    · cases hf
  | dialed j =>
    refine hmove hs fun task task' hf => ?_
    split at hf
    · rename_i msg hstage
      cases hf
      rw [LaneTask.held, LaneTask.held, hstage]
      exact List.Sublist.refl _
    · cases hf
  | leave j =>
    refine hmove hs fun task task' hf => ?_
    split at hf
    · cases hf
      exact List.sublist_append_right _ _
    · cases hf
  | finish j =>
    refine hmove hs fun task task' hf => ?_
    split at hf
    · cases hf
      exact List.nil_sublist _
    · cases hf
  | _ => cases he

theorem Increasing.step (h : s.Increasing) (hok : s.WritesInOrder e) (hs : s.step e = some s') :
    s'.Increasing := by
  cases e with
  | sender addr => cases hs; exact h.sender addr
  | send k => exact h.send hs
  | dropSender k | forget | incoming | disconnect =>
    cases hs
    exact h.tasks rfl rfl rfl fun task htask => .inr ⟨task, htask, List.Sublist.refl _⟩
  | recv j | skip j | connected j | dialed j | leave j | finish j =>
    obtain ⟨k, task, task', hk, htasks, hsub, hstreams, hread, haccepted⟩ := set_of_isMove rfl hs
    exact h.set hk hsub hstreams hread haccepted htasks
  | openStream j => exact h.openStream hs
  | write j ok => exact h.write hok hs
  | fail j => exact h.failWrite hs
  | read i => exact h.readFrame hs
  | cut i n =>
    obtain ⟨stream, hi, rfl⟩ := Option.map_eq_some_iff.1 hs
    exact h.cut hi

/-- The peer reads in order in the runs whose lanes write in order. -/
theorem readInOrder_of_writesInOrder (h : (runs.guard WritesInOrder).Reachable s) :
    s.ReadInOrder := by
  refine (h.guard_invariant (I := Increasing) ?_ fun s e s' hi hok hs => hi.step hok hs).readInOrder
  rintro _ rfl
  exact increasing_new

/-- The lane is forgotten between two messages, and the second one is written after the first one has
been read. -/
theorem readInOrder_of_writesInOrder_forgotten : ∃ s, (runs.guard WritesInOrder).Reachable s ∧
    (s.tasks.length = 2 ∧ s.streams.length = 2 ∧ s.read = [0, 1]) ∧ s.ReadInOrder := by
  obtain ⟨s, hs, h⟩ : ∃ s, (runs.guard WritesInOrder).Reachable s ∧ _ :=
    Lts.exists_guard_reachable_of_exec (f := step)
      (p := fun s => s.tasks.length = 2 ∧ s.streams.length = 2 ∧ s.read = [0, 1])
    (s := new) rfl
    [.sender "node-b:7000", .send 0, .forget, .sender "node-b:7000", .send 0, .recv 0, .dialed 0,
      .openStream 0, .write 0 true, .read 0, .recv 1, .connected 1, .openStream 1, .write 1 true,
      .read 1]
    (by decide +kernel)
  exact ⟨s, hs, h, readInOrder_of_writesInOrder hs⟩

/-- The lane is forgotten with a message in its queue. The new lane writes the next message first. -/
theorem not_readInOrder : ¬ ∀ s, runs.Reachable s → s.ReadInOrder :=
  Lts.not_invariant_of_exec (s := new) rfl
    [.sender "node-b:7000", .send 0, .forget, .sender "node-b:7000", .send 0, .recv 1, .dialed 1,
      .openStream 1, .write 1 true, .read 0, .recv 0, .connected 0, .openStream 0, .write 0 true,
      .read 1]
    (by decide +kernel)

end Lanes

end Zestors
