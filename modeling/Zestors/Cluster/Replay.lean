import Zestors.Cluster.MemberList
import Zestors.Lib.Lts

/-!
# Snapshots and events

The members of a cluster under their lock, the broadcast channel of the events, and the subscribers
that began with a snapshot. A mutator holds the write lock until its last event is published, and
`subscribe_with_snapshot` holds the read lock while it subscribes and takes the snapshot; whoever
receives an event needs no lock.

A snapshot and the events after it make up the current members, and only members are marked as
unreachable (`replays`).
-/

namespace Zestors

/-- How many events the channel keeps for a receiver. -/
def eventCapacity : ℕ := 256

structure ClusterSnapshot where
  members : List Member
  unreachable : Finset NodeName

def ClusterSnapshot.view (snapshot : ClusterSnapshot) : ClusterView :=
  ⟨{m | m ∈ snapshot.members}, snapshot.unreachable⟩

/-- The snapshot and the receiver that `subscribe_with_snapshot` returned: `position` is where in the
log its next event is. -/
structure Subscriber where
  snapshot : ClusterSnapshot
  position : ℕ
  received : List ClusterEvent
  lagged : Bool

/-- `writing` has the events that are still to be published while a mutator holds the write lock;
`reading` has the calls of `subscribe_with_snapshot` that hold the read lock, and where each has
subscribed. -/
structure Cluster where
  list : MemberList
  log : List ClusterEvent
  writing : Option (List ClusterEvent)
  reading : List (Option ℕ)
  subscribers : List Subscriber

namespace MemberList
variable {l : MemberList}

def snapshot (l : MemberList) : ClusterSnapshot := ⟨l.members.entries.map (·.2), l.unreachable⟩

theorem view_snapshot : l.snapshot.view = l.view := by
  ext m
  · simp only [ClusterSnapshot.view, snapshot, view, Set.mem_ofPred_eq, List.mem_map]
    constructor
    · rintro ⟨e, he, rfl⟩
      have hget : l.get? e.1 = some e.2 := AList.mem_lookup_iff.2 he
      rw [name_of_get? hget]
      exact hget
    · intro hget
      exact ⟨⟨m.name, m⟩, AList.mem_lookup_iff.1 hget, rfl⟩
  · rfl

end MemberList

namespace Cluster

def new : Cluster := ⟨.empty, [], none, [], []⟩

inductive Event
  /-- A mutator takes the write lock and changes the list. -/
  | mutate (op : MemberList.Mutation)
  | publish
  | unlock
  /-- `subscribe_with_snapshot` takes the read lock. -/
  | read
  | subscribe (k : ℕ)
  | snapshot (k : ℕ)
  | recv (i : ℕ)

variable {s s' : Cluster} {e : Event} {sub : Subscriber}

/-- `Receiver::recv`, when there is an event: a receiver that fell behind goes on with the oldest
event that there is. -/
def recv (s : Cluster) (sub : Subscriber) : Option Subscriber :=
  if sub.position + eventCapacity < s.log.length then
    some { sub with position := s.log.length - eventCapacity, lagged := true }
  else
    (s.log[sub.position]?).map fun event =>
      { sub with position := sub.position + 1, received := sub.received ++ [event] }

def step (s : Cluster) : Event → Option Cluster
  | .mutate op =>
    if s.writing = none ∧ s.reading = [] ∧ op.KeepsName then
      some { s with list := (s.list.mutate op).1, writing := some (s.list.mutate op).2 }
    else none
  | .publish =>
    match s.writing with
    | some (event :: events) => some { s with log := s.log ++ [event], writing := some events }
    | _ => none
  | .unlock =>
    match s.writing with
    | some [] => some { s with writing := none }
    | _ => none
  | .read => if s.writing = none then some { s with reading := s.reading ++ [none] } else none
  | .subscribe k =>
    match s.reading[k]? with
    | some none => some { s with reading := s.reading.set k (some s.log.length) }
    | _ => none
  | .snapshot k =>
    match s.reading[k]? with
    | some (some position) => some { s with
        reading := s.reading.eraseIdx k
        subscribers := s.subscribers ++ [⟨s.list.snapshot, position, [], false⟩] }
    | _ => none
  | .recv i => do
    let sub ← s.subscribers[i]?
    let sub ← s.recv sub
    some { s with subscribers := s.subscribers.set i sub }

/-- Every interleaving of the mutators and the subscribers. -/
def runs : Lts Cluster Event := Lts.ofFun (fun s => s = new) step

/-- When no mutator is at work, the snapshot of a subscriber and the events after it, those that it
has received and those that wait for it, are the current members and marks. -/
def Replays (s : Cluster) : Prop :=
  s.writing = none → ∀ sub ∈ s.subscribers, sub.lagged = false →
    sub.snapshot.view.replay (sub.received ++ s.log.drop sub.position) = s.list.view

/-! ## Steps -/

/-- The events that are still to be published come after those in the log. -/
structure Synced (s : Cluster) : Prop where
  marks : s.list.MarksMembers
  locked : s.reading ≠ [] → s.writing = none
  reading : ∀ position, some position ∈ s.reading → position = s.log.length
  subscribers : ∀ sub ∈ s.subscribers, sub.position ≤ s.log.length ∧ (sub.lagged = false →
    sub.snapshot.view.replay (sub.received ++ (s.log.drop sub.position ++ s.writing.getD [])) =
      s.list.view)

theorem synced_new : new.Synced := ⟨nofun, nofun, nofun, nofun⟩

theorem Synced.agree (h : s.Synced) : s.Replays := by
  intro hw sub hsub hlag
  have := (h.subscribers sub hsub).2 hlag
  rwa [hw, Option.getD_none, List.append_nil] at this

theorem Synced.mutate (h : s.Synced) {op : MemberList.Mutation} (hw : s.writing = none)
    (hr : s.reading = []) (hop : op.KeepsName) :
    Synced { s with list := (s.list.mutate op).1, writing := some (s.list.mutate op).2 } := by
  refine ⟨h.marks.mutate op, fun hne => absurd hr hne, h.reading, fun sub hsub => ?_⟩
  refine ⟨(h.subscribers sub hsub).1, fun hlag => ?_⟩
  have hsame := h.agree hw sub hsub hlag
  rw [Option.getD_some, ← List.append_assoc, ClusterView.replay_append, hsame]
  exact MemberList.view_mutate hop

theorem Synced.publish (h : s.Synced) {event : ClusterEvent} {events : List ClusterEvent}
    (hw : s.writing = some (event :: events)) :
    Synced { s with log := s.log ++ [event], writing := some events } := by
  have hr : s.reading = [] := by
    by_contra hne
    rw [h.locked hne] at hw
    cases hw
  refine ⟨h.marks, fun hne => absurd hr hne, fun position hmem => ?_, fun sub hsub => ?_⟩
  · rw [hr] at hmem
    cases hmem
  · obtain ⟨hle, hsame⟩ := h.subscribers sub hsub
    refine ⟨hle.trans (by simp), fun hlag => ?_⟩
    rw [List.drop_append_of_le_length hle, Option.getD_some, List.append_assoc]
    have := hsame hlag
    rwa [hw] at this

theorem Synced.snapshot (h : s.Synced) {k position : ℕ} (hk : s.reading[k]? = some (some position)) :
    Synced { s with
      reading := s.reading.eraseIdx k
      subscribers := s.subscribers ++ [⟨s.list.snapshot, position, [], false⟩] } := by
  have hmem : some position ∈ s.reading := List.mem_of_getElem? hk
  have hw : s.writing = none := h.locked (List.ne_nil_of_mem hmem)
  obtain rfl := h.reading position hmem
  refine ⟨h.marks, fun _ => hw, fun p hp => h.reading p (List.mem_of_mem_eraseIdx hp), fun sub hsub => ?_⟩
  rcases List.mem_append.1 hsub with hsub | hsub
  · exact h.subscribers sub hsub
  · rw [List.mem_singleton.1 hsub]
    refine ⟨le_rfl, fun _ => ?_⟩
    show s.list.snapshot.view.replay ([] ++ (s.log.drop s.log.length ++ s.writing.getD [])) = _
    rw [hw, List.drop_length]
    exact MemberList.view_snapshot

theorem Synced.recv (h : s.Synced) {i : ℕ} {sub' : Subscriber} (hi : s.subscribers[i]? = some sub)
    (hs : s.recv sub = some sub') : Synced { s with subscribers := s.subscribers.set i sub' } := by
  obtain ⟨hle, hsame⟩ := h.subscribers sub (List.mem_of_getElem? hi)
  refine ⟨h.marks, h.locked, h.reading, fun t ht => ?_⟩
  rcases List.mem_or_eq_of_mem_set ht with ht | rfl
  · exact h.subscribers t ht
  unfold Cluster.recv at hs
  split at hs
  · cases hs
    exact ⟨Nat.sub_le _ _, nofun⟩
  · obtain ⟨event, hevent, rfl⟩ := Option.map_eq_some_iff.1 hs
    obtain ⟨hlt, rfl⟩ := List.getElem?_eq_some_iff.1 hevent
    refine ⟨hlt, fun hlag => ?_⟩
    have := hsame hlag
    rw [List.drop_eq_getElem_cons hlt] at this
    show sub.snapshot.view.replay ((sub.received ++ [s.log[sub.position]]) ++
      (s.log.drop (sub.position + 1) ++ s.writing.getD [])) = s.list.view
    rw [List.append_assoc]
    exact this

theorem Synced.step (h : s.Synced) (hs : s.step e = some s') : s'.Synced := by
  cases e with
  | mutate op =>
    simp only [Cluster.step] at hs
    split at hs
    · rename_i hfree
      cases hs
      exact h.mutate hfree.1 hfree.2.1 hfree.2.2
    · cases hs
  | publish =>
    simp only [Cluster.step] at hs
    split at hs
    · cases hs
      exact h.publish ‹_›
    · cases hs
  | unlock =>
    simp only [Cluster.step] at hs
    split at hs
    · rename_i hw
      cases hs
      refine ⟨h.marks, fun _ => rfl, h.reading, fun sub hsub => ?_⟩
      have := h.subscribers sub hsub
      rwa [hw] at this
    · cases hs
  | read =>
    simp only [Cluster.step] at hs
    split at hs
    · rename_i hw
      cases hs
      exact ⟨h.marks, fun _ => hw, by simpa using h.reading, h.subscribers⟩
    · cases hs
  | subscribe k =>
    simp only [Cluster.step] at hs
    split at hs
    · rename_i hk
      cases hs
      have hw := h.locked (List.ne_nil_of_mem (List.mem_of_getElem? hk))
      refine ⟨h.marks, fun _ => hw, fun position hmem => ?_, h.subscribers⟩
      rcases List.mem_or_eq_of_mem_set hmem with hmem | heq
      · exact h.reading position hmem
      · exact Option.some.inj heq
    · cases hs
  | snapshot k =>
    simp only [Cluster.step] at hs
    split at hs
    · cases hs
      exact h.snapshot ‹_›
    · cases hs
  | recv i =>
    obtain ⟨sub, hi, hs⟩ := Option.bind_eq_some_iff.1 hs
    obtain ⟨sub', hrecv, hs⟩ := Option.bind_eq_some_iff.1 hs
    cases hs
    exact h.recv hi hrecv

/-! ## Runs -/

/-- In every run, a snapshot and the events after it are the current members, and only members are
marked. -/
theorem replays (h : runs.Reachable s) : s.Replays ∧ s.list.MarksMembers := by
  have hsynced : s.Synced := h.invariant (by rintro _ rfl; exact synced_new)
    fun s e s' hi hs => hi.step hs
  exact ⟨hsynced.agree, hsynced.marks⟩

/-- A node that has a snapshot of one member hears that it cannot be reached, and that it has been
replaced. -/
theorem replays_renamed : ∃ s, runs.Reachable s ∧
    (s.subscribers.map Subscriber.received =
      [[.unreachable ⟨"b", "b:1", 1⟩, .failed ⟨"b", "b:1", 1⟩, .up ⟨"b", "b:2", 2⟩]] ∧
      s.list.snapshot.members = [⟨"b", "b:2", 2⟩] ∧ s.list.unreachable = ∅) ∧
    s.Replays ∧ s.list.MarksMembers := by
  obtain ⟨s, hs, h⟩ : ∃ s, runs.Reachable s ∧ _ :=
    Lts.exists_reachable_of_exec (f := step)
      (p := fun s => s.subscribers.map Subscriber.received =
          [[.unreachable ⟨"b", "b:1", 1⟩, .failed ⟨"b", "b:1", 1⟩, .up ⟨"b", "b:2", 2⟩]] ∧
        s.list.snapshot.members = [⟨"b", "b:2", 2⟩] ∧ s.list.unreachable = ∅)
      (s := new) rfl
      [.mutate (.up ⟨"b", "b:1", 1⟩), .publish, .unlock, .read, .subscribe 0, .snapshot 0,
        .mutate (.unreachable "b"), .publish, .recv 0, .unlock,
        .mutate (.renamed ⟨"b", "b:1", 1⟩ ⟨"b", "b:2", 2⟩), .publish, .publish, .unlock, .recv 0,
        .recv 0]
      (by decide +kernel)
  exact ⟨s, hs, h, replays hs⟩

end Cluster

end Zestors
