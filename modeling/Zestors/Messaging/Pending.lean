import Mathlib.Data.List.AList
import Mathlib.Tactic.Common

/-!
# The calls a node is waiting for

`Pending` holds, for each call id, the node that the call went to and the channel its caller waits on.
Ids are 64 bits wide and wrap around; an insertion under an id that is taken replaces the call there.
-/

namespace Zestors

/-- The name of a node in the cluster. -/
abbrev NodeName := String

abbrev Bytes := List UInt8

/-- Why a node could not answer a message. -/
inductive RemoteError
  | unknownMessage
  | noSuchActor
  | notAccepted
  | closed
  | overloaded
  | noReply
  | decode (text : String)
  | encode (text : String)
  | tooLarge
  | unknown
deriving DecidableEq

/-- The errors that `Pending` answers a call with. -/
inductive ClusterReplyError
  | remote (error : RemoteError)
  | disconnected
deriving DecidableEq

/-- What the caller of a remote call waits for. -/
abbrev Answer := Except ClusterReplyError Bytes

/-- `PendingCall`. `reply` names the oneshot channel that the answer goes to. -/
structure PendingCall where
  node : NodeName
  reply : ℕ
deriving DecidableEq

structure Pending where
  calls : AList fun _ : UInt64 => PendingCall

namespace Pending
variable {p : Pending} {id id' : UInt64} {call : PendingCall} {node : NodeName}

def empty : Pending := ⟨∅⟩

def get? (p : Pending) (id : UInt64) : Option PendingCall := p.calls.lookup id

def insert (p : Pending) (id : UInt64) (node : NodeName) (reply : ℕ) : Pending :=
  ⟨p.calls.insert id ⟨node, reply⟩⟩

def remove (p : Pending) (id : UInt64) : Pending := ⟨p.calls.erase id⟩

/-- `node` answered the call `id`: the table without it, and what goes to which channel. -/
def complete (p : Pending) (node : NodeName) (id : UInt64) (result : Except RemoteError Bytes) :
    Pending × Option (ℕ × Answer) :=
  match p.get? id with
  | some call =>
    if call.node = node then (p.remove id, some (call.reply, result.mapError .remote)) else (p, none)
  | none => (p, none)

/-- The node is gone: the calls that went to it fail. -/
def failNode (p : Pending) (node : NodeName) : Pending × List (ℕ × Answer) :=
  (⟨⟨p.calls.entries.filter fun e => e.2.node ≠ node,
      p.calls.nodupKeys.sublist List.filter_sublist⟩⟩,
    (p.calls.entries.filter fun e => e.2.node = node).map fun e => (e.2.reply, .error .disconnected))

@[simp] theorem get?_empty : empty.get? id = none := rfl

theorem get?_eq_some : p.get? id = some call ↔ ⟨id, call⟩ ∈ p.calls.entries := AList.mem_lookup_iff

theorem get?_insert (p : Pending) (id id' : UInt64) (node : NodeName) (reply : ℕ) :
    (p.insert id node reply).get? id' = if id' = id then some ⟨node, reply⟩ else p.get? id' := by
  by_cases h : id' = id
  · subst h; simp [insert, get?]
  · simp [insert, get?, h, AList.lookup_insert_ne h]

theorem get?_remove (p : Pending) (id id' : UInt64) :
    (p.remove id).get? id' = if id' = id then none else p.get? id' := by
  by_cases h : id' = id
  · subst h; simp [remove, get?]
  · simp [remove, get?, h, AList.lookup_erase_ne h]

theorem get?_of_remove (h : (p.remove id').get? id = some call) : p.get? id = some call := by
  rw [get?_remove] at h
  split at h
  · cases h
  · exact h

theorem get?_failNode (h : (p.failNode node).1.get? id = some call) :
    p.get? id = some call ∧ call.node ≠ node := by
  obtain ⟨hmem, hnode⟩ := List.mem_filter.1 (get?_eq_some.1 h)
  exact ⟨get?_eq_some.2 hmem, of_decide_eq_true hnode⟩

theorem complete_eq_some {result : Except RemoteError Bytes} {reply : ℕ} {answer : Answer}
    (h : (p.complete node id result).2 = some (reply, answer)) : p.get? id = some ⟨node, reply⟩ := by
  unfold complete at h
  split at h
  · rename_i call hcall
    split at h
    · rename_i hnode; cases h; rw [hcall, ← hnode]
    · cases h
  · cases h

theorem get?_complete {result : Except RemoteError Bytes}
    (h : (p.complete node id' result).1.get? id = some call) : p.get? id = some call := by
  unfold complete at h
  split at h
  · split at h
    · exact get?_of_remove h
    · exact h
  · exact h

end Pending

end Zestors
