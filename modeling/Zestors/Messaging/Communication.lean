import Mathlib.Logic.Function.Basic
import Zestors.Lib.Lts
import Zestors.Messaging.Pending

/-!
# The calls of a node, and what ends them

The messages that a node sends to others, next to the losses of nodes and the end of messaging. A send
checks that messaging runs and that the node is a member, and puts its requests and its call in the
table of pending calls later; `serve` fails the calls to a node when it handles the report of its
loss, and dropping `Serving` fails all of them.
-/

namespace Zestors

namespace Pending
variable {p : Pending} {id : UInt64} {call : PendingCall} {ids : List UInt64}

/-- The ids of the calls that fit. -/
def idsOf (p : Pending) (f : PendingCall → Bool) : List UInt64 :=
  (p.calls.entries.filter fun e => f e.2).map (·.1)

def removeAll (p : Pending) (ids : List UInt64) : Pending := ids.foldl remove p

/-- `DashMap::remove_if`. -/
def removeIf (p : Pending) (id : UInt64) (f : PendingCall → Bool) : Pending × Option PendingCall :=
  match p.get? id with
  | some call => if f call then (p.remove id, some call) else (p, none)
  | none => (p, none)

theorem mem_idsOf {f : PendingCall → Bool} (h : p.get? id = some call) (hf : f call = true) :
    id ∈ p.idsOf f :=
  List.mem_map.2 ⟨⟨id, call⟩, List.mem_filter.2 ⟨get?_eq_some.1 h, hf⟩, rfl⟩

theorem get?_removeAll (p : Pending) (ids : List UInt64) (id : UInt64) :
    (p.removeAll ids).get? id = if id ∈ ids then none else p.get? id := by
  induction ids generalizing p with
  | nil => simp [removeAll]
  | cons id' ids ih =>
    have hstep : p.removeAll (id' :: ids) = (p.remove id').removeAll ids := rfl
    rw [hstep, ih, get?_remove]
    by_cases h : id = id' <;> simp [h]

theorem get?_removeIf {f : PendingCall → Bool} {id' : UInt64} :
    (p.removeIf id f).1.get? id' = some call ↔
      p.get? id' = some call ∧ ¬ (id' = id ∧ f call = true) := by
  unfold removeIf
  by_cases hid : id' = id
  · subst hid
    cases hget : p.get? id' with
    | none => simp [hget]
    | some other =>
      cases hf : f other with
      | true =>
        simp only [hf, if_true, get?_remove, reduceCtorEq, Option.some.injEq, true_and, false_iff]
        rintro ⟨rfl, hnot⟩
        exact hnot hf
      | false =>
        simp only [hf, Bool.false_eq_true, if_false, hget, Option.some.injEq, true_and]
        refine ⟨fun h => ⟨h, fun hcall => ?_⟩, And.left⟩
        rw [← h, hf] at hcall
        cases hcall
  · cases p.get? id with
    | none => simp [hid]
    | some other =>
      dsimp only
      split <;> simp [hid, get?_remove]

theorem removeIf_gone {f : PendingCall → Bool} {id' : UInt64} (h : p.get? id' = some call) :
    (p.removeIf id f).1.get? id' = some call ∨ (p.removeIf id f).2 = some call := by
  by_cases hid : id' = id ∧ f call = true
  · obtain ⟨rfl, hf⟩ := hid
    exact .inr (by simp only [removeIf, h, hf, if_true])
  · exact .inl (get?_removeIf.2 ⟨h, hid⟩)

theorem complete_gone {node : NodeName} {id' : UInt64} {result : Except RemoteError Bytes}
    (h : p.get? id' = some call) : (p.complete node id result).1.get? id' = some call ∨
      ∃ answer, (p.complete node id result).2 = some (call.reply, answer) := by
  unfold complete
  cases hget : p.get? id with
  | none => exact .inl h
  | some other =>
    by_cases hnode : other.node = node
    · by_cases hid : id' = id
      · rw [hid, hget] at h
        cases h
        exact .inr ⟨_, congrArg Prod.snd (if_pos hnode)⟩
      · refine .inl ?_
        simp only [if_pos hnode, get?_remove, if_neg hid]
        exact h
    · refine .inl ?_
      simp only [if_neg hnode]
      exact h

end Pending

/-- How far a message has come: the check that `ClusterAddress::prepare` makes next, the message is being
encoded, or it is going into the lane. Requests and calls are known by the numbers that were drawn for
them; `drawn` has not been used yet. -/
inductive PrepareStage
  | checkRunning
  | checkMember
  | checkReachable
  | encode (drawn : Option ℕ) (exports : List ℕ)
  | lane (exports : List ℕ) (call : Option ℕ)
deriving DecidableEq

/-- A message that is being sent. -/
structure Sending where
  node : NodeName
  replies : Bool
  stage : PrepareStage
deriving DecidableEq

/-- Whoever waits for an answer once the message is sent: a `ClusterReply`, or the task of a request
that was handed to the node. -/
structure Waiter where
  reply : ℕ
  isExport : Bool

/-- `fail_node` or `fail_all` under way: it iterates over the table, and has found some ids; then it
removes them. -/
structure Sweep where
  iterating : Bool
  ids : List UInt64
deriving DecidableEq

/-- A sweep begins: it will meet all that fits and is in the table by now. -/
def Sweep.of (p : Pending) (f : PendingCall → Bool) : Sweep := ⟨true, p.idsOf f⟩

/-- The sweep meets an entry that was inserted since. -/
def Sweep.find (sweep : Sweep) (p : Pending) (id : UInt64) (f : PendingCall → Bool) : Option Sweep :=
  if sweep.iterating && (p.get? id).any f then some { sweep with ids := id :: sweep.ids } else none

theorem Sweep.mem_of_find {sweep sweep' : Sweep} {p : Pending} {f : PendingCall → Bool} {id id' : UInt64}
    (hs : sweep.find p id f = some sweep') (h : id' ∈ sweep.ids) : id' ∈ sweep'.ids := by
  unfold Sweep.find at hs
  split at hs
  · cases hs
    exact List.mem_cons_of_mem _ h
  · cases hs

/-- Where the end of messaging is. -/
inductive Messaging
  | running
  /-- `running` was taken, and `fail_all` is next. -/
  | taken
  | failing (sweep : Sweep)
  | stopped
deriving DecidableEq

/-- A node and its calls. The reports of lost members wait in a channel; `missed` are those that it
dropped, as `serve` fell behind, and `lost` is the loss that `serve` is handling. `inserted`, `answers`
and `letGo` are histories: of the entries in the table, those that were answered or failed, and those
that were taken out by whoever made them. -/
structure Communication where
  messaging : Messaging
  members : NodeName → Bool
  unreachable : NodeName → Bool
  reports : List NodeName
  missed : List NodeName
  lost : Option (NodeName × Sweep)
  pending : Pending
  drawn : ℕ
  sends : List Sending
  waiting : List Waiter
  inserted : List ℕ
  answers : List (ℕ × Answer)
  letGo : List ℕ

namespace Sending

def drawn (x : Sending) : Option ℕ :=
  match x.stage with
  | .encode drawn _ => drawn
  | .checkRunning | .checkMember | .checkReachable | .lane _ _ => none

def call (x : Sending) : Option ℕ :=
  match x.stage with
  | .lane _ call => call
  | .checkRunning | .checkMember | .checkReachable | .encode _ _ => none

/-- The entries that go if the message is not sent. -/
def held (x : Sending) : List ℕ :=
  match x.stage with
  | .encode _ exports => exports
  | .lane exports call => exports ++ call.toList
  | .checkRunning | .checkMember | .checkReachable => []

theorem mem_held_of_call {x : Sending} {r : ℕ} (h : x.call = some r) : r ∈ x.held := by
  unfold call at h
  unfold held
  split at h
  · rename_i hstage
    rw [hstage, h]
    simp
  all_goals cases h

end Sending

namespace Communication

/-- The id that goes with a number: `next_call` wraps around. -/
abbrev callId (r : ℕ) : UInt64 := UInt64.ofNat r

/-- Messaging has just started. -/
def new : Communication :=
  ⟨.running, fun _ => false, fun _ => false, [], [], none, .empty, 0, [], [], [], [], []⟩

inductive Event
  | up (node : NodeName)
  /-- The member left or failed. -/
  | lose (node : NodeName)
  /-- A new incarnation takes the place of the member, whose loss is reported. -/
  | renamed (node : NodeName)
  | unreachable (node : NodeName) (unreachable : Bool)
  | send (node : NodeName) (replies : Bool)
  | checkRunning (k : ℕ)
  | checkMember (k : ℕ)
  | checkReachable (k : ℕ)
  | draw (k : ℕ)
  | drawMonitor
  /-- A request in the message is handed to the node. -/
  | exportRequest (k : ℕ)
  /-- The message is encoded, and a call gets its entry. -/
  | expect (k : ℕ)
  /-- The frame is in the lane. -/
  | handOver (k : ℕ)
  /-- The message is not sent after all. -/
  | abandon (k : ℕ)
  /-- Whoever waited does so no more: the reply is dropped, or the request has had its time. -/
  | giveUp (i : ℕ)
  | reply (node : NodeName) (id : UInt64) (result : Except RemoteError Bytes)
  /-- `serve` takes the next report. -/
  | handle
  /-- The next report is dropped from the channel. -/
  | lag
  /-- `serve` takes a report that the connection to the node is gone. -/
  | disconnected (node : NodeName)
  /-- `fail_node` finds an entry that was inserted while it was iterating. -/
  | find (id : UInt64)
  | fail
  | handled
  /-- `Serving` is dropped. -/
  | take
  | failAll
  | findAny (id : UInt64)
  | failAny
  | stop

variable {s s' : Communication} {e : Event} {k i r : ℕ} {x : Sending} {node : NodeName} {id : UInt64}
  {call : PendingCall}

def setStage (s : Communication) (k : ℕ) (x : Sending) (stage : PrepareStage) : Communication :=
  { s with sends := s.sends.set k { x with stage := stage } }

def endSend (s : Communication) (k : ℕ) : Communication := { s with sends := s.sends.eraseIdx k }

/-- A check of the send `k`, which ends it or lets it go on. -/
def check (s : Communication) (k : ℕ) (stage next : PrepareStage) (ok : Sending → Bool) :
    Option Communication := do
  let x ← s.sends[k]?
  if x.stage = stage then
    some (if ok x then s.setStage k x next else s.endSend k)
  else none

def isRunning (s : Communication) : Bool :=
  match s.messaging with
  | .running => true
  | .taken | .failing _ | .stopped => false

/-- The number `r`, drawn by the send `k`, gets its entry. -/
def insert (s : Communication) (k : ℕ) (x : Sending) (r : ℕ) (stage : PrepareStage)
    (waiting : List Waiter) : Communication :=
  { s with
    pending := s.pending.insert (callId r) x.node r
    sends := s.sends.set k { x with stage := stage }
    waiting := s.waiting ++ waiting
    inserted := s.inserted ++ [r] }

/-- `Pending::remove`, by whoever inserted the entries. -/
def release (s : Communication) (rs : List ℕ) : Communication :=
  { s with
    pending := s.pending.removeAll (rs.map callId)
    letGo := s.letGo ++ rs }

/-- The entry of the number `r` is in the table. -/
def isPending (s : Communication) (r : ℕ) : Bool :=
  (s.pending.get? (callId r)).any fun call => decide (call.reply = r)

/-- The sweep removes the entry, if it still fits. -/
def failIf (s : Communication) (id : UInt64) (f : PendingCall → Bool) : Communication :=
  { s with
    pending := (s.pending.removeIf id f).1
    answers := s.answers ++
      ((s.pending.removeIf id f).2.map fun call => (call.reply, .error .disconnected)).toList }

def step (s : Communication) : Event → Option Communication
  | .up node => some { s with
      members := Function.update s.members node true
      unreachable := Function.update s.unreachable node false }
  | .lose node =>
    if s.members node then
      some { s with
        members := Function.update s.members node false
        unreachable := Function.update s.unreachable node false
        reports := s.reports ++ [node] }
    else none
  | .renamed node =>
    if s.members node then
      some { s with
        unreachable := Function.update s.unreachable node false
        reports := s.reports ++ [node] }
    else none
  | .unreachable node unreachable =>
    if s.members node then
      some { s with unreachable := Function.update s.unreachable node unreachable }
    else none
  | .send node replies => some { s with sends := s.sends ++ [⟨node, replies, .checkRunning⟩] }
  | .checkRunning k => s.check k .checkRunning .checkMember fun _ => s.isRunning
  | .checkMember k => s.check k .checkMember .checkReachable fun x => s.members x.node
  | .checkReachable k => s.check k .checkReachable (.encode none []) fun x =>
      s.members x.node && !s.unreachable x.node
  | .draw k => do
    let x ← s.sends[k]?
    match x.stage with
    | .encode none exports =>
      some { s.setStage k x (.encode (some s.drawn) exports) with drawn := s.drawn + 1 }
    | _ => none
  | .drawMonitor => some { s with drawn := s.drawn + 1 }
  | .exportRequest k => do
    let x ← s.sends[k]?
    match x.stage with
    | .encode (some r) exports => some (s.insert k x r (.encode none (exports ++ [r])) [⟨r, true⟩])
    | _ => none
  | .expect k => do
    let x ← s.sends[k]?
    match x.replies, x.stage with
    | true, .encode (some r) exports => some (s.insert k x r (.lane exports (some r)) [])
    | false, .encode none exports => some (s.setStage k x (.lane exports none))
    | _, _ => none
  | .handOver k => do
    let x ← s.sends[k]?
    match x.stage with
    | .lane _ call => some { s.endSend k with waiting := s.waiting ++ call.toList.map (⟨·, false⟩) }
    | _ => none
  | .abandon k => do
    let x ← s.sends[k]?
    match x.stage with
    | .encode _ _ | .lane _ _ => some ((s.release x.held).endSend k)
    | _ => none
  | .giveUp i => do
    let w ← s.waiting[i]?
    -- the task of a request that was answered, or taken out before, only ends
    if w.isExport && !s.isPending w.reply then
      some { s with waiting := s.waiting.eraseIdx i }
    else some { s.release [w.reply] with waiting := s.waiting.eraseIdx i }
  | .reply node id result =>
    match s.lost with
    | some _ => none
    | none => some { s with
        pending := (s.pending.complete node id result).1
        answers := s.answers ++ (s.pending.complete node id result).2.toList }
  | .handle =>
    match s.lost, s.reports with
    | none, node :: reports => some { s with
        reports := reports
        missed := s.missed.filter (· ≠ node)
        lost := some (node, .of s.pending (·.node = node)) }
    | _, _ => none
  | .lag =>
    match s.reports with
    | node :: reports => some { s with reports := reports, missed := node :: s.missed }
    | [] => none
  | .disconnected node =>
    match s.lost with
    | none => some { s with lost := some (node, .of s.pending (·.node = node)) }
    | some _ => none
  | .find id => do
    let (node, sweep) ← s.lost
    let sweep ← sweep.find s.pending id (·.node = node)
    some { s with lost := some (node, sweep) }
  | .fail =>
    match s.lost with
    | some (node, ⟨_, id :: ids⟩) =>
      some { s.failIf id (·.node = node) with lost := some (node, ⟨false, ids⟩) }
    | _ => none
  | .handled =>
    match s.lost with
    | some (_, ⟨_, []⟩) => some { s with lost := none }
    | _ => none
  | .take =>
    match s.messaging with
    | .running => some { s with messaging := .taken }
    | _ => none
  | .failAll =>
    match s.messaging with
    | .taken => some { s with messaging := .failing (.of s.pending fun _ => true) }
    | _ => none
  | .findAny id =>
    match s.messaging with
    | .failing sweep => do
      let sweep ← sweep.find s.pending id fun _ => true
      some { s with messaging := .failing sweep }
    | _ => none
  | .failAny =>
    match s.messaging with
    | .failing ⟨_, id :: ids⟩ =>
      some { s.failIf id (fun _ => true) with messaging := .failing ⟨false, ids⟩ }
    | _ => none
  | .stop =>
    match s.messaging with
    | .failing ⟨_, []⟩ => some { s with messaging := .stopped }
    | _ => none

/-- Every interleaving of the sends, the reports and the end of messaging. -/
def runs : Lts Communication Event := Lts.ofFun (fun s => s = new) step

end Communication

end Zestors
