import Mathlib.Data.Finset.Basic
import Mathlib.Data.List.AList
import Zestors.Link.Lane
import Zestors.Messaging.Pending

/-!
# The members of a cluster

What a node knows about the others, and the mutators that keep it. Each mutator changes the list and
publishes events under the write lock: here it is a function to the new list, the events in their
order, and what it returns.

`ClusterView` is what a subscriber makes of the events. The events of every mutator take the view of
the list before to the view of the list after it (`view_mutate`).
-/

namespace Zestors

/-- A node, as the membership protocol knows it. -/
structure Member where
  name : NodeName
  addr : NodeAddr
  generation : UInt64
deriving DecidableEq

/-- `Identity::renew`, where nothing checks for an overflow. -/
def Member.renew (member : Member) : Member :=
  { member with generation := member.generation + 1 }

inductive ClusterEvent
  | up (member : Member)
  | left (member : Member)
  | failed (member : Member)
  | unreachable (member : Member)
  | reachable (member : Member)
deriving DecidableEq

/-- `MemberList`, less the node itself. Every member is listed under its own name. -/
structure MemberList where
  members : AList fun _ : NodeName => Member
  unreachable : Finset NodeName
  named : ∀ name, ∀ member ∈ members.lookup name, member.name = name

namespace MemberList
variable {l : MemberList} {node : NodeName} {member before after : Member}

def empty : MemberList := ⟨∅, ∅, nofun⟩

def get? (l : MemberList) (node : NodeName) : Option Member := l.members.lookup node

def insert (l : MemberList) (member : Member) : MemberList :=
  { l with
    members := l.members.insert member.name member
    named := fun name m hm => by
      by_cases h : name = member.name
      · subst h
        rw [AList.lookup_insert] at hm
        cases hm
        rfl
      · rw [AList.lookup_insert_ne h] at hm
        exact l.named name m hm }

def remove (l : MemberList) (node : NodeName) : MemberList :=
  { l with
    members := l.members.erase node
    named := fun name m hm => by
      by_cases h : name = node
      · subst h
        rw [AList.lookup_erase] at hm
        cases hm
      · rw [AList.lookup_erase_ne h] at hm
        exact l.named name m hm }

/-- Takes the mark away that the node cannot be connected to. -/
def clear (l : MemberList) (node : NodeName) : MemberList :=
  { l with unreachable := l.unreachable.erase node }

def mark (l : MemberList) (node : NodeName) : MemberList :=
  { l with unreachable := Insert.insert node l.unreachable }

/-! ## The mutators -/

def memberUp (l : MemberList) (member : Member) : MemberList × List ClusterEvent :=
  let l' := l.insert member
  if l.get? member.name ≠ some member then (l'.clear member.name, [.up member]) else (l', [])

/-- Also returns the member if that is news. -/
def memberUnreachable (l : MemberList) (node : NodeName) :
    MemberList × List ClusterEvent × Option Member :=
  match l.get? node with
  | none => (l, [], none)
  | some member =>
    if node ∉ l.unreachable then (l.mark node, [.unreachable member], some member)
    else (l.mark node, [], none)

def memberReachable (l : MemberList) (node : NodeName) :
    MemberList × List ClusterEvent × Option Member :=
  match l.get? node with
  | none => (l, [], none)
  | some member =>
    if node ∈ l.unreachable then (l.clear node, [.reachable member], some member)
    else (l.clear node, [], none)

/-- The node said goodbye. Also returns it, if it was known in that generation. -/
def memberLeft (l : MemberList) (node : NodeName) (generation : UInt64) :
    MemberList × List ClusterEvent × Option Member :=
  match l.get? node with
  | none => (l, [], none)
  | some member =>
    if member.generation ≠ generation then (l, [], none)
    else ((l.remove node).clear node, [.left member], some member)

def memberFailed (l : MemberList) (member : Member) : MemberList × List ClusterEvent :=
  if l.get? member.name = some member then
    ((l.remove member.name).clear member.name, [.failed member])
  else (l, [])

/-- A restarted node replaced its previous incarnation. -/
def memberRenamed (l : MemberList) (before after : Member) : MemberList × List ClusterEvent :=
  if l.get? before.name = some before then
    ((l.insert after).clear after.name, [.failed before, .up after])
  else (l, [])

inductive Mutation
  | up (member : Member)
  | unreachable (node : NodeName)
  | reachable (node : NodeName)
  | left (node : NodeName) (generation : UInt64)
  | failed (member : Member)
  | renamed (before after : Member)

/-- A node keeps its name when it is replaced. -/
def Mutation.KeepsName : Mutation → Prop
  | .renamed before after => after.name = before.name
  | .up _ | .unreachable _ | .reachable _ | .left _ _ | .failed _ => True

instance : DecidablePred Mutation.KeepsName := fun op => by
  cases op <;> unfold Mutation.KeepsName <;> infer_instance

def mutate (l : MemberList) : Mutation → MemberList × List ClusterEvent
  | .up member => l.memberUp member
  | .unreachable node => ((l.memberUnreachable node).1, (l.memberUnreachable node).2.1)
  | .reachable node => ((l.memberReachable node).1, (l.memberReachable node).2.1)
  | .left node generation => ((l.memberLeft node generation).1, (l.memberLeft node generation).2.1)
  | .failed member => l.memberFailed member
  | .renamed before after => l.memberRenamed before after

@[simp] theorem get?_insert : (l.insert member).get? node =
    if node = member.name then some member else l.get? node := by
  by_cases h : node = member.name
  · subst h
    simp [get?, insert]
  · simp [get?, insert, h, AList.lookup_insert_ne h]

@[simp] theorem get?_remove {name : NodeName} : (l.remove name).get? node =
    if node = name then none else l.get? node := by
  by_cases h : node = name
  · subst h
    simp [get?, remove]
  · simp [get?, remove, h, AList.lookup_erase_ne h]

@[simp] theorem get?_clear {name : NodeName} : (l.clear name).get? node = l.get? node := rfl

@[simp] theorem get?_mark {name : NodeName} : (l.mark name).get? node = l.get? node := rfl

theorem name_of_get? (h : l.get? node = some member) : member.name = node := l.named node member h

end MemberList

/-! ## What the events say -/

/-- The members and the marks, as somebody sees them who has a snapshot and the events since. -/
@[ext] structure ClusterView where
  members : Set Member
  unreachable : Set NodeName

namespace ClusterView

/-- A member that comes up takes the place of its name, and nothing is said against it. -/
def apply (v : ClusterView) : ClusterEvent → ClusterView
  | .up member => ⟨{m | m = member ∨ m ∈ v.members ∧ m.name ≠ member.name},
      v.unreachable \ {member.name}⟩
  | .left member | .failed member => ⟨{m | m ∈ v.members ∧ m.name ≠ member.name},
      v.unreachable \ {member.name}⟩
  | .unreachable member => { v with unreachable := {n | n = member.name ∨ n ∈ v.unreachable} }
  | .reachable member => { v with unreachable := v.unreachable \ {member.name} }

def replay (v : ClusterView) (events : List ClusterEvent) : ClusterView := events.foldl apply v

theorem replay_append (v : ClusterView) (events events' : List ClusterEvent) :
    v.replay (events ++ events') = (v.replay events).replay events' := List.foldl_append

end ClusterView

namespace MemberList
variable {l : MemberList} {node : NodeName} {member before after : Member}

def view (l : MemberList) : ClusterView := ⟨{m | l.get? m.name = some m}, l.unreachable⟩

theorem view_insert : ((l.insert member).clear member.name).view = l.view.apply (.up member) := by
  ext m
  · simp only [view, ClusterView.apply, get?_clear, get?_insert, Set.mem_ofPred_eq]
    split
    · rename_i hname
      simp [hname, eq_comm]
    · rename_i hname
      have hne : m ≠ member := fun h => hname (congrArg Member.name h)
      simp [hname, hne]
  · simp [view, ClusterView.apply, clear, insert, and_comm]

/-- Whoever goes is listed, so that nobody else of that name is. -/
theorem view_remove : ((l.remove member.name).clear member.name).view =
    ⟨{m | m ∈ l.view.members ∧ m.name ≠ member.name}, l.view.unreachable \ {member.name}⟩ := by
  ext m
  · simp only [view, get?_clear, get?_remove, Set.mem_ofPred_eq]
    split
    · rename_i hname
      simp [hname]
    · rename_i hname
      simp [hname]
  · simp [view, clear, remove, and_comm]

theorem view_memberUp : l.view.replay (l.memberUp member).2 = (l.memberUp member).1.view := by
  unfold memberUp
  split
  · exact view_insert.symm
  · rename_i hsame
    have hget : l.get? member.name = some member := not_not.1 hsame
    show l.view = (l.insert member).view
    ext m
    · simp only [view, get?_insert, Set.mem_ofPred_eq]
      split
      · rename_i hname
        rw [hname, hget]
      · rfl
    · rfl

theorem view_memberUnreachable :
    l.view.replay (l.memberUnreachable node).2.1 = (l.memberUnreachable node).1.view := by
  unfold memberUnreachable
  cases hget : l.get? node with
  | none => rfl
  | some member =>
    have hname := name_of_get? hget
    by_cases hmark : node ∈ l.unreachable
    · have hmarked : l.mark node = l := by simp [mark, Finset.insert_eq_of_mem hmark]
      simp only [hmark, not_true_eq_false, if_false, hmarked]
      rfl
    · simp only [hmark, not_false_eq_true, if_true]
      ext m
      · rfl
      · simp [view, ClusterView.replay, ClusterView.apply, mark, hname]

theorem view_memberReachable :
    l.view.replay (l.memberReachable node).2.1 = (l.memberReachable node).1.view := by
  unfold memberReachable
  cases hget : l.get? node with
  | none => rfl
  | some member =>
    have hname := name_of_get? hget
    by_cases hmark : node ∈ l.unreachable
    · simp only [hmark, if_true]
      ext m
      · rfl
      · simp [view, ClusterView.replay, ClusterView.apply, clear, hname, and_comm]
    · have hcleared : l.clear node = l := by simp [clear, Finset.erase_eq_of_notMem hmark]
      simp only [hmark, if_false, hcleared]
      rfl

theorem view_memberLeft {generation : UInt64} : l.view.replay (l.memberLeft node generation).2.1 =
    (l.memberLeft node generation).1.view := by
  unfold memberLeft
  cases hget : l.get? node with
  | none => rfl
  | some member =>
    obtain rfl := name_of_get? hget
    dsimp only
    split
    · rfl
    · exact view_remove.symm

theorem view_memberFailed : l.view.replay (l.memberFailed member).2 = (l.memberFailed member).1.view := by
  unfold memberFailed
  split
  · exact view_remove.symm
  · rfl

theorem view_memberRenamed (hname : after.name = before.name) :
    l.view.replay (l.memberRenamed before after).2 = (l.memberRenamed before after).1.view := by
  unfold memberRenamed
  split
  · rw [view_insert]
    show (l.view.apply (.failed before)).apply (.up after) = _
    simp only [ClusterView.apply, hname, Set.mem_ofPred_eq, Set.sdiff_sdiff, Set.union_self]
    ext m
    · simp
    · simp
  · rfl

theorem view_mutate {op : Mutation} (hop : op.KeepsName) :
    l.view.replay (l.mutate op).2 = (l.mutate op).1.view := by
  cases op with
  | up member => exact view_memberUp
  | unreachable node => exact view_memberUnreachable
  | reachable node => exact view_memberReachable
  | left node generation => exact view_memberLeft
  | failed member => exact view_memberFailed
  | renamed before after => exact view_memberRenamed hop

/-- Only members are marked. -/
def MarksMembers (l : MemberList) : Prop := ∀ node ∈ l.unreachable, l.get? node ≠ none

namespace MarksMembers

theorem insert (h : l.MarksMembers) : (l.insert member).MarksMembers := fun n hn => by
  rw [get?_insert]
  split
  · simp
  · exact h n hn

theorem clear (h : l.MarksMembers) : (l.clear node).MarksMembers := fun n hn =>
  h n (Finset.mem_of_mem_erase hn)

theorem mark (h : l.MarksMembers) (hget : l.get? node = some member) : (l.mark node).MarksMembers := by
  intro n hn
  rcases Finset.mem_insert.1 hn with rfl | hn
  · simp [hget]
  · exact h n hn

theorem remove (h : l.MarksMembers) : ((l.remove node).clear node).MarksMembers := by
  intro n hn
  obtain ⟨hne, hn⟩ := Finset.mem_erase.1 hn
  rw [get?_clear, get?_remove, if_neg hne]
  exact h n hn

theorem mutate (h : l.MarksMembers) (op : Mutation) : (l.mutate op).1.MarksMembers := by
  cases op with
  | up member =>
    simp only [MemberList.mutate, memberUp]
    split
    · exact h.insert.clear
    · exact h.insert
  | unreachable node =>
    simp only [MemberList.mutate, memberUnreachable]
    cases hget : l.get? node with
    | none => exact h
    | some member =>
      dsimp only
      split <;> exact h.mark hget
  | reachable node =>
    simp only [MemberList.mutate, memberReachable]
    cases l.get? node with
    | none => exact h
    | some member =>
      dsimp only
      split <;> exact h.clear
  | left node generation =>
    simp only [MemberList.mutate, memberLeft]
    cases l.get? node with
    | none => exact h
    | some member =>
      dsimp only
      split
      · exact h
      · exact h.remove
  | failed member =>
    simp only [MemberList.mutate, memberFailed]
    split
    · exact h.remove
    · exact h
  | renamed before after =>
    simp only [MemberList.mutate, memberRenamed]
    split
    · exact h.insert.clear
    · exact h

end MarksMembers

end MemberList

end Zestors
