import Zestors.Link.IdleEnd
import Zestors.Messaging.Pending

/-!
# The requests of monitors

The monitors that a node asks another one for, together with the lanes that their frames go through.
A request has an entry in the table of pending calls and no deadline: it ends with its answer, with a
report that the node or the connection to it was lost, or when nobody waits for it any more.

A request whose frame the lane dropped has been failed by the time that everything has come to rest
(`NoneStranded`) in the runs in which a frame is dropped only while such a report is still to be handled
(`noneStranded_of_dropsReported`).
-/

namespace Zestors

/-! ## The messages of the lanes -/

namespace Lanes
variable {s s' : Lanes} {e : Event} {j : ℕ} {task task' : LaneTask}

/-- A step accepts messages, and the tasks hold no others than before and those. -/
structure Grows (s s' : Lanes) : Prop where
  accepted : s.accepted ≤ s'.accepted
  held : ∀ task ∈ s'.tasks, ∀ msg ∈ task.held,
    (∃ task ∈ s.tasks, msg ∈ task.held) ∨ msg < s'.accepted

theorem grows_of_tasks (hacc : s.accepted ≤ s'.accepted)
    (htasks : ∀ task ∈ s'.tasks, task ∈ s.tasks ∨ task.held = []) : s.Grows s' := by
  refine ⟨hacc, fun task ht msg hm => ?_⟩
  rcases htasks task ht with ht | hnil
  · exact .inl ⟨task, ht, hm⟩
  · rw [hnil] at hm
    cases hm

theorem grows_of_set (hj : s.tasks[j]? = some task) (hacc : s.accepted ≤ s'.accepted)
    (htasks : s'.tasks = s.tasks.set j task')
    (hheld : ∀ msg ∈ task'.held, msg ∈ task.held ∨ msg < s'.accepted) : s.Grows s' := by
  refine ⟨hacc, fun t ht msg hm => ?_⟩
  rw [htasks] at ht
  rcases List.mem_or_eq_of_mem_set ht with ht | rfl
  · exact .inl ⟨t, ht, hm⟩
  · exact (hheld msg hm).imp_left fun hm => ⟨task, List.mem_of_getElem? hj, hm⟩

theorem grows_of_step (hs : s.step e = some s') : s.Grows s' := by
  have hstart : ∀ addr, s.Grows (s.startLane addr) := fun addr =>
    grows_of_tasks le_rfl fun task ht => (List.mem_append.1 ht).imp_right fun ht => by
      rw [List.mem_singleton.1 ht]
      rfl
  cases e with
  | sender addr =>
    cases hs
    unfold sender
    split
    · exact hstart addr
    · split
      · exact hstart addr
      · exact grows_of_tasks le_rfl fun _ => .inl
  | send k =>
    obtain ⟨j, -, hs⟩ := Option.bind_eq_some_iff.1 hs
    obtain ⟨task, hj, hs⟩ := Option.bind_eq_some_iff.1 hs
    dsimp only at hs
    split at hs
    · cases hs
      exact grows_of_tasks le_rfl fun _ => .inl
    · split at hs
      · cases hs
        refine grows_of_set hj (Nat.le_succ _) rfl fun msg hm => ?_
        rw [LaneTask.held, ← List.append_assoc] at hm
        refine (List.mem_append.1 hm).imp_right fun hm => ?_
        rw [List.mem_singleton.1 hm]
        exact Nat.lt_succ_self _
      · cases hs
  | dropSender k | forget | incoming | disconnect =>
    cases hs
    exact grows_of_tasks le_rfl fun _ => .inl
  | recv j | skip j | connected j | dialed j | leave j | finish j =>
    obtain ⟨k, task, task', hk, htasks, hsub, -, -, haccepted⟩ := set_of_isMove rfl hs
    exact grows_of_set hk haccepted.ge htasks fun msg hm => .inl (hsub.subset hm)
  | openStream j =>
    obtain ⟨task, hj, hs⟩ := Option.bind_eq_some_iff.1 hs
    split at hs
    · split at hs
      · cases hs
      · cases hs
        exact grows_of_set hj le_rfl rfl fun _ => .inl
    · cases hs
  | write j ok =>
    obtain ⟨task, hj, hs⟩ := Option.bind_eq_some_iff.1 hs
    split at hs
    · obtain ⟨i, -, hs⟩ := Option.bind_eq_some_iff.1 hs
      obtain ⟨stream, -, hs⟩ := Option.bind_eq_some_iff.1 hs
      dsimp only at hs
      split at hs
      · cases hs
      · split at hs <;> cases hs <;>
          exact grows_of_set hj le_rfl rfl fun msg hm => .inl (List.mem_append_right _ hm)
    · cases hs
  | fail j =>
    obtain ⟨task, hj, hs⟩ := Option.bind_eq_some_iff.1 hs
    split at hs
    · cases hs
      exact grows_of_set hj le_rfl rfl fun msg hm => .inl (List.mem_append_right _ hm)
    · cases hs
  | read i =>
    obtain ⟨stream, -, hs⟩ := Option.bind_eq_some_iff.1 hs
    split at hs
    · cases hs
    · cases hs
      exact grows_of_tasks le_rfl fun _ => .inl
  | cut i n =>
    obtain ⟨stream, -, rfl⟩ := Option.map_eq_some_iff.1 hs
    exact grows_of_tasks le_rfl fun _ => .inl

/-- The tasks hold what was accepted. -/
def HeldLt (s : Lanes) : Prop := ∀ task ∈ s.tasks, ∀ msg ∈ task.held, msg < s.accepted

theorem HeldLt.step (h : s.HeldLt) (hs : s.step e = some s') : s'.HeldLt := by
  have hgrows := grows_of_step hs
  intro task ht msg hm
  rcases hgrows.held task ht msg hm with ⟨task, ht, hm⟩ | hlt
  · exact Nat.lt_of_lt_of_le (h task ht msg hm) hgrows.accepted
  · exact hlt

end Lanes

/-- The message was never written to a connection. -/
def Fate.isDrop : Fate → Bool
  | .dropped _ | .discarded => true
  | .written | .failed => false

namespace LaneFates
variable {s s' : LaneFates} {e : Event}

/-- The messages that a step drops. -/
def drops (s : LaneFates) : Event → List ℕ
  | .drop j _ => (s.taken j).toList
  | .lanes (.finish j) => (s.lanes.tasks[j]?).toList.flatMap LaneTask.queue
  | _ => []

theorem lanes_of_step {event : Lanes.Event} (hs : s.step (.lanes event) = some s') :
    ∃ lanes, s.lanes.step event = some lanes ∧
      s' = { s with lanes := lanes, fates := s.fates ++ fatesOf s.lanes event } := by
  have hbind : (s.lanes.step event).bind (fun lanes =>
      some { s with lanes := lanes, fates := s.fates ++ fatesOf s.lanes event }) = some s' := by
    cases event with
    | send k | skip j | connected j | dialed j => cases hs
    | _ => exact hs
  obtain ⟨lanes, hlanes, hs⟩ := Option.bind_eq_some_iff.1 hbind
  cases hs
  exact ⟨lanes, hlanes, rfl⟩

theorem mem_fatesOf {lanes : Lanes} {event : Lanes.Event} {f : ℕ × Fate}
    (hf : f ∈ fatesOf lanes event) : (∃ task ∈ lanes.tasks, f.1 ∈ task.held) ∧
      (f.2.isDrop = true → ∃ j, event = .finish j ∧ ∃ task ∈ lanes.tasks[j]?, f.1 ∈ task.queue) := by
  have hwriting : ∀ (j msg conn : ℕ) (fate : Fate),
      (lanes.tasks[j]?).map LaneTask.stage = some (.writing msg conn) →
      fate.isDrop = false → f = (msg, fate) → (∃ task ∈ lanes.tasks, f.1 ∈ task.held) ∧
        f.2.isDrop = false := by
    rintro j msg conn fate hstage hfate rfl
    obtain ⟨task, hj, hstage⟩ := Option.map_eq_some_iff.1 hstage
    refine ⟨⟨task, List.mem_of_getElem? hj, ?_⟩, hfate⟩
    rw [LaneTask.held, hstage]
    exact List.mem_cons_self
  have hnot : ∀ {p q : Prop}, p ∧ f.2.isDrop = false → p ∧ (f.2.isDrop = true → q) := fun h =>
    ⟨h.1, fun hdrop => by rw [h.2] at hdrop; cases hdrop⟩
  unfold fatesOf at hf
  split at hf
  · rename_i j ok
    split at hf
    · rename_i msg conn hstage
      exact hnot (hwriting j msg conn _ hstage (by cases ok <;> rfl) (List.mem_singleton.1 hf))
    · cases hf
  · rename_i j
    split at hf
    · rename_i msg conn hstage
      exact hnot (hwriting j msg conn _ hstage rfl (List.mem_singleton.1 hf))
    · cases hf
  · rename_i j
    obtain ⟨msg, hmsg, rfl⟩ := List.mem_map.1 hf
    obtain ⟨task, hj, hqueue⟩ := List.mem_flatMap.1 hmsg
    have hj : lanes.tasks[j]? = some task := Option.mem_toList.1 hj
    exact ⟨⟨task, List.mem_of_getElem? hj, List.mem_append_right _ hqueue⟩,
      fun _ => ⟨j, rfl, task, hj, hqueue⟩⟩
  · cases hf

/-- A step adds fates of messages that the lanes held, and says which ones it drops. -/
theorem fates_of_step (hs : s.step e = some s') : ∃ fates, s'.fates = s.fates ++ fates ∧
    (∀ f ∈ fates, ∃ task ∈ s.lanes.tasks, f.1 ∈ task.held) ∧
    ∀ f ∈ fates, f.2.isDrop = true → f.1 ∈ s.drops e := by
  have hnil : s'.fates = s.fates → ∃ fates, s'.fates = s.fates ++ fates ∧
      (∀ f ∈ fates, ∃ task ∈ s.lanes.tasks, f.1 ∈ task.held) ∧
      ∀ f ∈ fates, f.2.isDrop = true → f.1 ∈ s.drops e := fun hsame =>
    ⟨[], by rw [hsame, List.append_nil], nofun, nofun⟩
  cases e with
  | wait time | health health =>
    cases hs
    exact hnil rfl
  | send k len =>
    obtain ⟨lanes, -, hs⟩ := Option.bind_eq_some_iff.1 hs
    split at hs <;> cases hs <;> exact hnil rfl
  | drop j why =>
    obtain ⟨msg, hmsg, hs⟩ := Option.bind_eq_some_iff.1 hs
    obtain ⟨lanes, -, hs⟩ := Option.bind_eq_some_iff.1 hs
    obtain ⟨task, hj, hstage⟩ := taken_eq_some hmsg
    split at hs
    · cases hs
      refine ⟨_, rfl, fun f hf => ⟨task, List.mem_of_getElem? hj, ?_⟩, fun f hf _ => ?_⟩
      · rw [List.mem_singleton.1 hf, LaneTask.held, hstage]
        exact List.mem_cons_self
      · rw [List.mem_singleton.1 hf, drops, hmsg]
        exact List.mem_singleton_self _
    · cases hs
  | connect j dial =>
    obtain ⟨msg, -, hs⟩ := Option.bind_eq_some_iff.1 hs
    obtain ⟨lanes, -, hs⟩ := Option.bind_eq_some_iff.1 hs
    split at hs
    · cases hs
      exact hnil rfl
    · cases hs
  | lanes event =>
    obtain ⟨lanes, -, rfl⟩ := lanes_of_step hs
    refine ⟨fatesOf s.lanes event, rfl, fun f hf => (mem_fatesOf hf).1, fun f hf hdrop => ?_⟩
    obtain ⟨j, rfl, task, hj, hqueue⟩ := (mem_fatesOf hf).2 hdrop
    exact List.mem_flatMap.2 ⟨task, Option.mem_toList.2 hj, hqueue⟩

/-- Every fate is that of an accepted message. -/
structure Numbered (s : LaneFates) : Prop where
  held : s.lanes.HeldLt
  fates : ∀ f ∈ s.fates, f.1 < s.lanes.accepted

theorem numbered_new : new.Numbered := ⟨nofun, nofun⟩

/-- What a step does to the lanes: some of their own steps, and nothing else. -/
theorem lanes_step_of_step (hs : s.step e = some s') :
    s'.lanes = s.lanes ∨ ∃ event, s.lanes.step event = some s'.lanes := by
  cases e with
  | wait time | health health =>
    cases hs
    exact .inl rfl
  | send k len =>
    obtain ⟨lanes, hlanes, hs⟩ := Option.bind_eq_some_iff.1 hs
    split at hs <;> cases hs <;> exact .inr ⟨_, hlanes⟩
  | drop j why =>
    obtain ⟨msg, -, hs⟩ := Option.bind_eq_some_iff.1 hs
    obtain ⟨lanes, hlanes, hs⟩ := Option.bind_eq_some_iff.1 hs
    split at hs
    · cases hs
      exact .inr ⟨_, hlanes⟩
    · cases hs
  | connect j dial =>
    obtain ⟨msg, -, hs⟩ := Option.bind_eq_some_iff.1 hs
    obtain ⟨lanes, hlanes, hs⟩ := Option.bind_eq_some_iff.1 hs
    split at hs
    · cases hs
      exact .inr ⟨_, hlanes⟩
    · cases hs
  | lanes event =>
    obtain ⟨lanes, hlanes, rfl⟩ := lanes_of_step hs
    exact .inr ⟨event, hlanes⟩

theorem Numbered.step (h : s.Numbered) (hs : s.step e = some s') : s'.Numbered := by
  have hheld : s'.lanes.HeldLt ∧ s.lanes.accepted ≤ s'.lanes.accepted := by
    rcases lanes_step_of_step hs with heq | ⟨event, hlanes⟩
    · rw [heq]
      exact ⟨h.held, le_rfl⟩
    · exact ⟨h.held.step hlanes, (Lanes.grows_of_step hlanes).accepted⟩
  obtain ⟨fates, hfates, hof, -⟩ := fates_of_step hs
  refine ⟨hheld.1, fun f hf => ?_⟩
  rw [hfates] at hf
  refine Nat.lt_of_lt_of_le ?_ hheld.2
  rcases List.mem_append.1 hf with hf | hf
  · exact h.fates f hf
  · obtain ⟨task, ht, hm⟩ := hof f hf
    exact h.held task ht f.1 hm

end LaneFates

/-! ## The requests -/

/-- A monitor that somebody waits for. `reply` is the number that was drawn for its call, and `msg` its
frame, once the lane has accepted it. -/
structure MonitorRequest where
  reply : ℕ
  msg : Option ℕ
deriving DecidableEq

/-- The monitors that this node asks `node` for, the lanes to it that they go through, and the reports
about `node` that `serve` has not handled. -/
structure RemoteMonitors where
  node : NodeName
  links : LaneFates
  reports : ℕ
  pending : Pending
  drawn : ℕ
  requests : List MonitorRequest

namespace RemoteMonitors

def new (node : NodeName) : RemoteMonitors := ⟨node, .new, 0, .empty, 0, []⟩

inductive Event
  /-- A number is drawn: for a monitor, or for a message that is not sent after all. -/
  | draw
  /-- `prepare` puts the call of a monitor in the table. -/
  | expect
  /-- The frame of the `i`-th request goes through the `k`-th sender. -/
  | send (i k len : ℕ)
  /-- Nobody waits for the `i`-th request any more. -/
  | giveUp (i : ℕ)
  /-- Another call, or a request in a message, gets its entry. -/
  | call (node : NodeName)
  | remove (id : UInt64)
  | reply (node : NodeName) (id : UInt64) (result : Except RemoteError Bytes)
  | links (event : LaneFates.Event)
  /-- The connection to the node is lost or replaced, or the node leaves or fails. -/
  | report
  | handle
  /-- A report is dropped from the channel, as `serve` has fallen behind. -/
  | lag

variable {s s' : RemoteMonitors} {e : Event} {i r : ℕ} {req : MonitorRequest}

/-- The number that is drawn next gets an entry. -/
def insert (s : RemoteMonitors) (node : NodeName) : RemoteMonitors :=
  { s with pending := s.pending.insert (UInt64.ofNat s.drawn) node s.drawn, drawn := s.drawn + 1 }

/-- The `ClusterReply` of the `i`-th request is dropped. -/
def dropRequest (s : RemoteMonitors) (i : ℕ) (req : MonitorRequest) : RemoteMonitors :=
  { s with
    pending := s.pending.remove (UInt64.ofNat req.reply)
    requests := s.requests.eraseIdx i }

/-- A write to the connection that is registered fails: `unregister` reports it. -/
def writeFails (lanes : Lanes) : LaneFates.Event → Bool
  | .lanes (.write j false) | .lanes (.fail j) =>
    match (lanes.tasks[j]?).map LaneTask.stage with
    | some (.writing _ conn) => lanes.conn = some conn
    | _ => false
  | _ => false

def send (s : RemoteMonitors) (i k len : ℕ) : Option RemoteMonitors := do
  let req ← s.requests[i]?
  let links ← s.links.step (.send k len)
  -- `prepare` refuses a frame that is too large
  if req.msg = none ∧ len ≤ maxMessageSize then
    if links.lanes.accepted = s.links.lanes.accepted then
      some ({ s with links := links }.dropRequest i req)
    else some { s with
      links := links
      requests := s.requests.set i { req with msg := some s.links.lanes.accepted } }
  else none

def step (s : RemoteMonitors) : Event → Option RemoteMonitors
  | .draw => some { s with drawn := s.drawn + 1 }
  | .expect => some { s.insert s.node with requests := s.requests ++ [⟨s.drawn, none⟩] }
  | .send i k len => s.send i k len
  | .giveUp i => (s.requests[i]?).map (s.dropRequest i)
  | .call node => some (s.insert node)
  | .remove id => some { s with pending := s.pending.remove id }
  | .reply node id result => some { s with pending := (s.pending.complete node id result).1 }
  | .links event => do
    let links ← s.links.step event
    some { s with
      links := links
      reports := if writeFails s.links.lanes event then s.reports + 1 else s.reports }
  | .report => some { s with reports := s.reports + 1 }
  | .handle =>
    match s.reports with
    | 0 => none
    | n + 1 => some { s with reports := n, pending := (s.pending.failNode s.node).1 }
  | .lag =>
    match s.reports with
    | 0 => none
    | n + 1 => some { s with reports := n }

/-- Every interleaving of the requests, the lanes, the connections and `serve`. -/
def runs (node : NodeName) : Lts RemoteMonitors Event := Lts.ofFun (fun s => s = new node) step

/-- The entry of the request is in the table. -/
def isPending (s : RemoteMonitors) (req : MonitorRequest) : Bool :=
  (s.pending.get? (UInt64.ofNat req.reply)).any fun call => decide (call.reply = req.reply)

/-- The frame of the request was dropped, and never written to a connection. -/
def isDropped (s : RemoteMonitors) (req : MonitorRequest) : Bool :=
  s.links.fates.any fun f => f.2.isDrop && decide (req.msg = some f.1)

/-- The lanes have nothing to write, and `serve` has no report to handle. -/
def AtRest (s : RemoteMonitors) : Prop :=
  s.reports = 0 ∧ ∀ task ∈ s.links.lanes.tasks, task.held = []

/-- At rest, nobody waits for the answer to a request that was dropped. -/
def NoneStranded (s : RemoteMonitors) : Prop :=
  s.AtRest → ∀ req ∈ s.requests, s.isDropped req = true → s.isPending req = false

/-- The lanes drop the frame of a request that is waited for, or a report is dropped after that, only
while a report about the node is still to be handled. -/
def DropsReported (s : RemoteMonitors) : Event → Prop
  | .links event => s.reports = 0 → ∀ req ∈ s.requests, ∀ msg ∈ req.msg, msg ∈ s.links.drops event →
      s.isPending req = false
  | .lag => s.reports ≤ 1 → ∀ req ∈ s.requests, s.isDropped req = true → s.isPending req = false
  | _ => True

instance (s : RemoteMonitors) (e : Event) : Decidable (s.DropsReported e) := by
  cases e <;> unfold DropsReported <;> infer_instance

/-- Why nobody is stranded: if the frame of a request was dropped and its entry is there, a report is
still to be handled. -/
structure Reported (s : RemoteMonitors) : Prop where
  dropped : ∀ req ∈ s.requests, s.isDropped req = true → s.isPending req = true → 0 < s.reports
  node : ∀ req ∈ s.requests, ∀ call, s.pending.get? (UInt64.ofNat req.reply) = some call →
    call.reply = req.reply → call.node = s.node
  lt : ∀ req ∈ s.requests, req.reply < s.drawn
  numbered : s.links.Numbered

theorem reported_new {node : NodeName} : (new node).Reported :=
  ⟨nofun, nofun, nofun, LaneFates.numbered_new⟩

theorem Reported.noneStranded (h : s.Reported) : s.NoneStranded := by
  intro hrest req hreq hdropped
  refine Bool.eq_false_iff.2 fun hpending => ?_
  exact Nat.lt_irrefl 0 (hrest.1 ▸ h.dropped req hreq hdropped hpending)

/-! ## Steps -/

theorem isPending_iff : s.isPending req = true ↔
    ∃ call, s.pending.get? (UInt64.ofNat req.reply) = some call ∧ call.reply = req.reply := by
  simp [isPending, Option.any_eq_true]

theorem Reported.mono (h : s.Reported) (hnode : s'.node = s.node) (hlinks : s'.links = s.links)
    (hdrawn : s.drawn ≤ s'.drawn) (hreq : ∀ req ∈ s'.requests, req ∈ s.requests)
    (hpending : ∀ req ∈ s'.requests, ∀ call, s'.pending.get? (UInt64.ofNat req.reply) = some call →
      call.reply = req.reply → s.pending.get? (UInt64.ofNat req.reply) = some call)
    (hreports : ∀ req ∈ s'.requests, s'.isDropped req = true → s'.isPending req = true →
      0 < s.reports → 0 < s'.reports) : s'.Reported := by
  refine ⟨fun req hr hdropped hpend => ?_, fun req hr call hcall heq => ?_, fun req hr => ?_,
    hlinks ▸ h.numbered⟩
  · obtain ⟨call, hcall, heq⟩ := isPending_iff.1 hpend
    refine hreports req hr hdropped hpend (h.dropped req (hreq req hr) ?_ ?_)
    · rw [isDropped, hlinks] at hdropped
      exact hdropped
    · exact isPending_iff.2 ⟨call, hpending req hr call hcall heq, heq⟩
  · rw [hnode]
    exact h.node req (hreq req hr) call (hpending req hr call hcall heq) heq
  · exact Nat.lt_of_lt_of_le (h.lt req (hreq req hr)) hdrawn

theorem Reported.pending (h : s.Reported) {pending : Pending}
    (hpending : ∀ id call, pending.get? id = some call → s.pending.get? id = some call) :
    Reported { s with pending := pending } :=
  h.mono rfl rfl le_rfl (fun _ hr => hr) (fun _ _ call hcall _ => hpending _ call hcall)
    fun _ _ _ _ hr => hr

theorem Reported.dropRequest (h : s.Reported) (i : ℕ) (req : MonitorRequest) :
    (s.dropRequest i req).Reported :=
  h.mono rfl rfl le_rfl (fun _ => List.mem_of_mem_eraseIdx) (fun _ _ _ hcall _ => Pending.get?_of_remove hcall)
    fun _ _ _ _ hr => hr

theorem Reported.insert (h : s.Reported) (node : NodeName) : (s.insert node).Reported := by
  refine h.mono rfl rfl (Nat.le_succ _) (fun _ hr => hr) (fun req hr call hcall heq => ?_)
    fun _ _ _ _ hr => hr
  have hget : (s.pending.insert (UInt64.ofNat s.drawn) node s.drawn).get? (UInt64.ofNat req.reply) =
      some call := hcall
  rw [Pending.get?_insert] at hget
  split at hget
  · cases hget
    exact absurd heq.symm (Nat.ne_of_lt (h.lt req hr))
  · exact hget

theorem Reported.links (h : s.Reported) {event : LaneFates.Event} {links : LaneFates} {reports : ℕ}
    (hs : s.links.step event = some links) (hreports : s.reports ≤ reports)
    (hok : s.reports = 0 → ∀ req ∈ s.requests, ∀ msg ∈ req.msg, msg ∈ s.links.drops event →
      s.isPending req = false) : Reported { s with links := links, reports := reports } := by
  obtain ⟨fates, hfates, -, hdrops⟩ := LaneFates.fates_of_step hs
  refine ⟨fun req hr hdropped hpend => ?_, h.node, h.lt, h.numbered.step hs⟩
  refine Nat.lt_of_lt_of_le (Nat.pos_of_ne_zero fun hzero => ?_) hreports
  have hdropped : (links.fates.any fun f => f.2.isDrop && decide (req.msg = some f.1)) = true := hdropped
  rw [hfates, List.any_append, Bool.or_eq_true] at hdropped
  rcases hdropped with hold | hnew
  · exact Nat.lt_irrefl 0 (hzero ▸ h.dropped req hr hold hpend)
  · obtain ⟨f, hf, hfate⟩ := List.any_eq_true.1 hnew
    obtain ⟨hdrop, hmsg⟩ := Bool.and_eq_true_iff.1 hfate
    have hnone := hok hzero req hr f.1 (of_decide_eq_true hmsg) (hdrops f hf hdrop)
    have hpend : s.isPending req = true := hpend
    rw [hnone] at hpend
    cases hpend

/-- A lane accepts the frame of a request: no lane can have dropped it before. -/
theorem Reported.accepted (h : s.Reported) {links : LaneFates} {k len : ℕ} (hi : s.requests[i]? = some req)
    (hs : s.links.step (.send k len) = some links) : Reported { s with
      links := links
      requests := s.requests.set i { req with msg := some s.links.lanes.accepted } } := by
  obtain ⟨fates, hfates, -, hdrops⟩ := LaneFates.fates_of_step hs
  have hlinks : Reported { s with links := links } := h.links hs le_rfl fun _ _ _ _ _ hm => nomatch hm
  have hreq : req ∈ s.requests := List.mem_of_getElem? hi
  refine ⟨fun req' hr hdropped hpend => ?_, fun req' hr call hcall heq => ?_, fun req' hr => ?_,
    hlinks.numbered⟩
  · rcases List.mem_or_eq_of_mem_set hr with hr | rfl
    · exact hlinks.dropped req' hr hdropped hpend
    · obtain ⟨f, hf, hfate⟩ := List.any_eq_true.1 hdropped
      obtain ⟨hdrop, hmsg⟩ := Bool.and_eq_true_iff.1 hfate
      have hf : f ∈ s.links.fates ++ fates := hfates ▸ hf
      rcases List.mem_append.1 hf with hf | hf
      · have hlt := h.numbered.fates f hf
        rw [← Option.some.inj (of_decide_eq_true hmsg)] at hlt
        exact absurd hlt (Nat.lt_irrefl _)
      · exact nomatch hdrops f hf hdrop
  · rcases List.mem_or_eq_of_mem_set hr with hr | rfl
    · exact h.node req' hr call hcall heq
    · exact h.node req hreq call hcall heq
  · rcases List.mem_or_eq_of_mem_set hr with hr | rfl
    · exact h.lt req' hr
    · exact h.lt req hreq

theorem Reported.expect (h : s.Reported) :
    Reported { s.insert s.node with requests := s.requests ++ [⟨s.drawn, none⟩] } := by
  have hinsert := h.insert s.node
  refine ⟨fun req hr hdropped hpend => ?_, fun req hr call hcall heq => ?_, fun req hr => ?_,
    h.numbered⟩
  · rcases List.mem_append.1 hr with hr | hr
    · exact hinsert.dropped req hr hdropped hpend
    · rw [List.mem_singleton.1 hr] at hdropped
      simp [isDropped] at hdropped
  · rcases List.mem_append.1 hr with hr | hr
    · exact hinsert.node req hr call hcall heq
    · have hget : (s.pending.insert (UInt64.ofNat s.drawn) s.node s.drawn).get?
          (UInt64.ofNat req.reply) = some call := hcall
      rw [List.mem_singleton.1 hr, Pending.get?_insert, if_pos rfl] at hget
      cases hget
      rfl
  · rcases List.mem_append.1 hr with hr | hr
    · exact hinsert.lt req hr
    · rw [List.mem_singleton.1 hr]
      exact Nat.lt_succ_self _

theorem Reported.handle (h : s.Reported) (reports : ℕ) :
    Reported { s with reports := reports, pending := (s.pending.failNode s.node).1 } := by
  refine h.mono rfl rfl le_rfl (fun _ hr => hr)
    (fun _ _ call hcall _ => (Pending.get?_failNode hcall).1) fun req hr _ hpend _ => ?_
  obtain ⟨call, hcall, heq⟩ := isPending_iff.1 hpend
  obtain ⟨hold, hne⟩ := Pending.get?_failNode hcall
  exact absurd (h.node req hr call hold heq) hne

theorem Reported.step (h : s.Reported) (hok : s.DropsReported e) (hs : s.step e = some s') :
    s'.Reported := by
  cases e with
  | draw =>
    cases hs
    exact h.mono rfl rfl (Nat.le_succ _) (fun _ hr => hr) (fun _ _ _ hcall _ => hcall)
      fun _ _ _ _ hr => hr
  | expect =>
    cases hs
    exact h.expect
  | send i k len =>
    obtain ⟨req, hi, hs⟩ := Option.bind_eq_some_iff.1 hs
    obtain ⟨links, hlinks, hs⟩ := Option.bind_eq_some_iff.1 hs
    split at hs
    · split at hs
      · cases hs
        have hsent : Reported { s with links := links } :=
          h.links hlinks le_rfl fun _ _ _ _ _ hm => nomatch hm
        exact hsent.dropRequest i req
      · cases hs
        exact h.accepted hi hlinks
    · cases hs
  | giveUp i =>
    obtain ⟨req, -, rfl⟩ := Option.map_eq_some_iff.1 hs
    exact h.dropRequest i req
  | call node =>
    cases hs
    exact h.insert node
  | remove id =>
    cases hs
    exact h.pending fun _ _ => Pending.get?_of_remove
  | reply node id result =>
    cases hs
    exact h.pending fun _ _ => Pending.get?_complete
  | links event =>
    obtain ⟨links, hlinks, hs⟩ := Option.bind_eq_some_iff.1 hs
    cases hs
    refine h.links hlinks ?_ hok
    split
    · exact Nat.le_succ _
    · exact le_rfl
  | report =>
    cases hs
    exact h.mono rfl rfl le_rfl (fun _ hr => hr) (fun _ _ _ hcall _ => hcall)
      fun _ _ _ _ _ => Nat.succ_pos _
  | handle =>
    simp only [RemoteMonitors.step] at hs
    split at hs
    · cases hs
    · cases hs
      exact h.handle _
  | lag =>
    simp only [RemoteMonitors.step] at hs
    split at hs
    · cases hs
    · rename_i n hreports
      cases hs
      refine h.mono rfl rfl le_rfl (fun _ hr => hr) (fun _ _ _ hcall _ => hcall)
        fun req hr hdropped hpend _ => Nat.pos_of_ne_zero fun hzero => ?_
      have hn : n = 0 := hzero
      have hnone := hok (by omega) req hr hdropped
      have hpend : s.isPending req = true := hpend
      rw [hnone] at hpend
      cases hpend

/-! ## Runs -/

/-- Nobody is stranded in the runs in which frames are dropped only while a report is to be handled. -/
theorem noneStranded_of_dropsReported {node : NodeName}
    (h : ((runs node).guard DropsReported).Reachable s) : s.NoneStranded := by
  refine (h.guard_invariant (I := Reported) ?_ fun s e s' hi hok hs => hi.step hok hs).noneStranded
  rintro _ rfl
  exact reported_new

/-- Dialing fails for the frame of a request, and the node fails before that is known: the request ends
with the report. -/
theorem noneStranded_of_dropsReported_failed : ∃ s, ((runs "n").guard DropsReported).Reachable s ∧
    ((s.AtRest ∧ s.requests = [⟨0, some 0⟩]) ∧ s.links.fates = [(0, .dropped (.unconnected 100))]) ∧
      s.NoneStranded := by
  obtain ⟨s, hs, hreports, hheld, hrequests, hfates⟩ : ∃ s,
      ((runs "n").guard DropsReported).Reachable s ∧ s.reports = 0 ∧
        (∀ task ∈ s.links.lanes.tasks, task.held = []) ∧ s.requests = [⟨0, some 0⟩] ∧
        s.links.fates = [(0, .dropped (.unconnected 100))] :=
    Lts.exists_guard_reachable_of_exec (f := step) (s := new "n") rfl
      [.expect, .links (.lanes (.sender "a")), .send 0 0 100, .links (.lanes (.recv 0)), .report,
        .links (.drop 0 (.unconnected 100)), .handle]
      (by decide +kernel)
  exact ⟨s, hs, ⟨⟨⟨hreports, hheld⟩, hrequests⟩, hfates⟩, noneStranded_of_dropsReported hs⟩

/-- The lane cannot connect, backs off, or ends, and drops the frame: nothing ends the request. -/
theorem not_noneStranded : (∃ s, (runs "n").Reachable s ∧ s.AtRest ∧ s.requests = [⟨0, some 0⟩] ∧
      s.links.fates = [(0, .dropped (.unconnected 100))] ∧ s.pending.get? 0 = some ⟨"n", 0⟩) ∧
    (∃ s, (runs "n").Reachable s ∧ s.AtRest ∧ s.requests = [⟨0, some 1⟩] ∧
      s.links.fates = [(0, .dropped (.unconnected 100)), (1, .dropped .backingOff)] ∧
      s.pending.get? 0 = some ⟨"n", 0⟩) ∧
    (∃ s, (runs "n").Reachable s ∧ s.AtRest ∧ s.requests = [⟨0, some 0⟩] ∧
      s.links.fates = [(0, .discarded)] ∧ s.pending.get? 0 = some ⟨"n", 0⟩) ∧
    ¬ ∀ s, (runs "n").Reachable s → s.NoneStranded := by
  have hrest : ∀ s : RemoteMonitors, s.AtRest ↔
      s.reports = 0 ∧ ∀ task ∈ s.links.lanes.tasks, task.held = [] := fun _ => Iff.rfl
  obtain ⟨s, hs, hreports, hheld, hrequests, hfates, hget⟩ : ∃ s, (runs "n").Reachable s ∧
      s.reports = 0 ∧ (∀ task ∈ s.links.lanes.tasks, task.held = []) ∧ s.requests = [⟨0, some 0⟩] ∧
      s.links.fates = [(0, .dropped (.unconnected 100))] ∧ s.pending.get? 0 = some ⟨"n", 0⟩ :=
    Lts.exists_reachable_of_exec (s := new "n") rfl
      [.expect, .links (.lanes (.sender "a")), .send 0 0 100, .links (.lanes (.recv 0)),
        .links (.drop 0 (.unconnected 100))]
      (by decide +kernel)
  refine ⟨⟨s, hs, ⟨hreports, hheld⟩, hrequests, hfates, hget⟩, ?_, ?_, fun hall => ?_⟩
  · simp only [hrest, and_assoc]
    exact Lts.exists_reachable_of_exec (s := new "n") rfl
      [.links (.lanes (.sender "a")), .links (.send 0 100), .links (.lanes (.recv 0)),
        .links (.drop 0 (.unconnected 100)), .expect, .links (.lanes (.sender "a")), .send 0 0 100,
        .links (.lanes (.recv 0)), .links (.drop 0 .backingOff)]
      (by decide +kernel)
  · simp only [hrest, and_assoc]
    exact Lts.exists_reachable_of_exec (s := new "n") rfl
      [.links (.lanes (.sender "a")), .links (.lanes (.dropSender 0)), .links (.lanes (.leave 0)),
        .expect, .links (.lanes (.sender "a")), .send 0 0 100, .links (.lanes (.finish 0))]
      (by decide +kernel)
  · have hnone := hall s hs ⟨hreports, hheld⟩ ⟨0, some 0⟩ (by simp [hrequests])
      (by simp [isDropped, hfates, Fate.isDrop])
    have hsome : s.isPending ⟨0, some 0⟩ = true := isPending_iff.2 ⟨_, hget, rfl⟩
    rw [hnone] at hsome
    cases hsome

end RemoteMonitors

end Zestors
