import Zestors.Lib.Lts
import Zestors.Supervisor.Strategy

/-!
# The in-memory source

A source of child specs that any number of callers change under its lock, and the supervisor that
loads it and waits for its events. Every change is queued as an event while the lock is held, so
that what a load returned, with the events since then applied to it, is what the source has now
(`replayed_of_reachable`).
-/

namespace Zestors

/-- What an event does to the children of somebody who follows the source; an event for a child that
was there already, or that was not there, cannot be applied. -/
def SupervisorSourceEvent.apply (children : List ChildSpec) :
    SupervisorSourceEvent → Option (List ChildSpec)
  | .added spec =>
    if spec.name ∈ children.map ChildSpec.name then none else some (children ++ [spec])
  | .removed name =>
    if name ∈ children.map ChildSpec.name then some (children.filter fun spec => spec.name ≠ name)
    else none

def replayEvents (children : List ChildSpec) (events : List SupervisorSourceEvent) :
    Option (List ChildSpec) :=
  events.foldlM SupervisorSourceEvent.apply children

theorem replayEvents_append {children children' : List ChildSpec}
    {events : List SupervisorSourceEvent} (h : replayEvents children events = some children')
    (ev : SupervisorSourceEvent) : replayEvents children (events ++ [ev]) = ev.apply children' := by
  have h : events.foldlM SupervisorSourceEvent.apply children = some children' := h
  rw [replayEvents, List.foldlM_append, h, Option.bind_eq_bind, Option.bind_some, List.foldlM_cons]
  exact bind_pure _

/-- What the lock of a source holds: every child is kept under its own name. -/
structure LocalSupervisorChildren where
  children : IndexMap Name ChildSpec
  events : List SupervisorSourceEvent
  named : ∀ e ∈ children.entries, e.2.name = e.1

namespace LocalSupervisorChildren
variable {inner : LocalSupervisorChildren} {spec : ChildSpec} {name : Name}

def empty : LocalSupervisorChildren := ⟨.empty, [], by simp [IndexMap.empty]⟩

theorem named_insert (inner : LocalSupervisorChildren) (spec : ChildSpec) :
    ∀ e ∈ (inner.children.insert spec.name spec).entries, e.2.name = e.1 := by
  rintro ⟨k, v⟩ he
  rw [IndexMap.mem_entries, IndexMap.get?_insert] at he
  split_ifs at he with hk
  · obtain rfl : spec = v := by simpa using he
    exact hk.symm
  · exact inner.named _ (IndexMap.mem_entries.2 he)

theorem named_shiftRemove (inner : LocalSupervisorChildren) (name : Name) :
    ∀ e ∈ (inner.children.shiftRemove name).entries, e.2.name = e.1 := fun e he =>
  inner.named e (List.mem_filter.1 he).1

/-- `InMemorySupervisorSource::add`, under the lock. -/
def add (inner : LocalSupervisorChildren) (spec : ChildSpec) :
    LocalSupervisorChildren × Except DuplicateNameError Unit :=
  if spec.name ∈ inner.children.keys then (inner, .error ⟨spec.name⟩)
  else (⟨inner.children.insert spec.name spec, inner.events ++ [.added spec],
    inner.named_insert spec⟩, .ok ())

/-- `InMemorySupervisorSource::remove`, under the lock. -/
def remove (inner : LocalSupervisorChildren) (name : Name) :
    LocalSupervisorChildren × Option ChildSpec :=
  match inner.children.get? name with
  | some spec => (⟨inner.children.shiftRemove name, inner.events ++ [.removed name],
      inner.named_shiftRemove name⟩, some spec)
  | none => (inner, none)

/-- `InMemorySupervisorSource::load_all`. -/
def loadAll (inner : LocalSupervisorChildren) : LocalSupervisorChildren × List ChildSpec :=
  ({ inner with events := [] }, inner.children.values)

theorem map_name_values (inner : LocalSupervisorChildren) :
    inner.children.values.map ChildSpec.name = inner.children.keys := by
  rw [IndexMap.values, List.map_map, IndexMap.keys]
  exact List.map_congr_left inner.named

theorem values_shiftRemove (inner : LocalSupervisorChildren) (name : Name) :
    (inner.children.shiftRemove name).values =
      inner.children.values.filter fun spec => spec.name ≠ name := by
  rw [IndexMap.values, IndexMap.shiftRemove, IndexMap.values, List.filter_map]
  congr 1
  refine List.filter_congr fun e he => ?_
  simp [inner.named e he]

/-- What a change publishes does to whoever follows the source what the change did to the source. -/
theorem add_cases (inner : LocalSupervisorChildren) (spec : ChildSpec) :
    inner.add spec = (inner, .error ⟨spec.name⟩) ∧ spec.name ∈ inner.children.keys ∨
      spec.name ∉ inner.children.keys ∧ (inner.add spec).2 = .ok () ∧
      (inner.add spec).1.events = inner.events ++ [.added spec] ∧
      SupervisorSourceEvent.apply inner.children.values (.added spec) =
        some (inner.add spec).1.children.values := by
  unfold add
  split_ifs with h
  · exact .inl ⟨rfl, h⟩
  · refine .inr ⟨h, rfl, rfl, ?_⟩
    rw [SupervisorSourceEvent.apply, map_name_values, if_neg h,
      IndexMap.values_insert_of_notMem spec h]

theorem remove_cases (inner : LocalSupervisorChildren) (name : Name) :
    inner.remove name = (inner, none) ∧ name ∉ inner.children.keys ∨
      (∃ spec, (inner.remove name).2 = some spec ∧ inner.children.get? name = some spec) ∧
      (inner.remove name).1.events = inner.events ++ [.removed name] ∧
      SupervisorSourceEvent.apply inner.children.values (.removed name) =
        some (inner.remove name).1.children.values := by
  have hmem : name ∈ inner.children.keys ↔ (inner.children.get? name).isSome := IndexMap.mem_keys
  unfold remove
  cases hget : inner.children.get? name with
  | none => exact .inl ⟨rfl, by simp [hmem, hget]⟩
  | some spec =>
    have hin : name ∈ inner.children.keys := by simp [hmem, hget]
    refine .inr ⟨⟨spec, rfl, rfl⟩, rfl, ?_⟩
    rw [SupervisorSourceEvent.apply, map_name_values, if_pos hin]
    exact congrArg some (inner.values_shiftRemove name).symm

end LocalSupervisorChildren

/-- Where a call of `next` is: before it takes the lock, with an empty queue seen and the lock
released again, waiting to be notified, or notified and not polled yet. -/
inductive NextCall
  | ready
  | seenEmpty
  | waiting
  | notified
deriving DecidableEq

/-- The source, its `Notify` (whether it holds a permit, and the one call of `next` that may wait
for it), and for the run: what the last load returned, what was published since then, and which of
it `next` has returned. -/
structure FollowedSource where
  inner : LocalSupervisorChildren
  permit : Bool
  call : NextCall
  loaded : List ChildSpec
  published : List SupervisorSourceEvent
  returned : List SupervisorSourceEvent

namespace FollowedSource

def new : FollowedSource := ⟨.empty, false, .ready, [], [], []⟩

/-- `Notify::notify_one`: the waiting call is notified; if there is none, the permit is kept for the
next. -/
def notifyOne (s : FollowedSource) : FollowedSource :=
  match s.call with
  | .waiting => { s with call := .notified }
  | .ready => { s with permit := true }
  | .seenEmpty => { s with permit := true }
  | .notified => { s with permit := true }

inductive Event
  | add (spec : ChildSpec)
  | remove (name : Name)
  | loadAll
  /-- `next` takes the lock and pops an event. -/
  | pop
  | await
  /-- The future of `next` is dropped where it awaits. -/
  | cancel

def step (s : FollowedSource) : Event → Option FollowedSource
  | .add spec =>
    match s.inner.add spec with
    | (inner, .ok ()) =>
      some (notifyOne { s with inner, published := s.published ++ [.added spec] })
    | (_, .error _) => some s
  | .remove name =>
    match s.inner.remove name with
    | (inner, some _) =>
      some (notifyOne { s with inner, published := s.published ++ [.removed name] })
    | (_, none) => some s
  | .loadAll =>
    some { s with
      inner := s.inner.loadAll.1, loaded := s.inner.loadAll.2, published := [], returned := [] }
  | .pop =>
    if s.call = .ready ∨ s.call = .notified then
      match s.inner.events with
      | ev :: events => some { s with
          inner := { s.inner with events }, call := .ready, returned := s.returned ++ [ev] }
      | [] => some { s with call := .seenEmpty }
    else none
  | .await =>
    if s.call = .seenEmpty then
      if s.permit then some { s with permit := false, call := .ready }
      else some { s with call := .waiting }
    else none
  | .cancel =>
    match s.call with
    | .waiting => some { s with call := .ready }
    -- the notification that nobody has received goes back
    | .notified => some { s with call := .ready, permit := true }
    | .ready => none
    | .seenEmpty => none

/-- Every interleaving of the callers of a new source with the supervisor that follows it. -/
def runs : Lts FollowedSource Event := .ofFun (· = new) step

variable {s s' : FollowedSource}

/-- What was loaded, with everything published since then applied to it, is what there is now; what
was published is what `next` has returned and what is queued; and `next` waits for an empty queue
only. -/
structure Replayed (s : FollowedSource) : Prop where
  current : replayEvents s.loaded s.published = some s.inner.children.values
  once : s.published = s.returned ++ s.inner.events
  awake : s.call = .waiting → s.inner.events = [] ∧ s.permit = false
  seen : s.call = .seenEmpty → s.permit = false → s.inner.events = []

theorem replayed_new : Replayed new where
  current := rfl
  once := rfl
  awake := by simp [new]
  seen := by simp [new]

theorem Replayed.publish {inner : LocalSupervisorChildren} {ev : SupervisorSourceEvent}
    (h : Replayed s) (hev : inner.events = s.inner.events ++ [ev])
    (hc : ev.apply s.inner.children.values = some inner.children.values) :
    Replayed (notifyOne { s with inner, published := s.published ++ [ev] }) := by
  have hcur : replayEvents s.loaded (s.published ++ [ev]) = some inner.children.values := by
    rw [replayEvents_append h.current, hc]
  have honce : s.published ++ [ev] = s.returned ++ inner.events := by
    rw [hev, h.once, List.append_assoc]
  unfold notifyOne
  cases s.call <;> exact ⟨hcur, honce, by simp, by simp⟩

theorem replayed_step {e : Event} (h : Replayed s) (hs : s.step e = some s') : Replayed s' := by
  cases e with
  | add spec =>
    simp only [step] at hs
    rcases s.inner.add_cases spec with ⟨hadd, -⟩ | ⟨-, hok, hev, hc⟩
    · rw [hadd] at hs
      cases hs
      exact h
    · rw [show s.inner.add spec = ((s.inner.add spec).1, .ok ()) from Prod.ext rfl hok] at hs
      cases hs
      exact h.publish hev hc
  | remove name =>
    simp only [step] at hs
    rcases s.inner.remove_cases name with ⟨hremove, -⟩ | ⟨⟨spec, hspec, -⟩, hev, hc⟩
    · rw [hremove] at hs
      cases hs
      exact h
    · rw [show s.inner.remove name = ((s.inner.remove name).1, some spec) from
        Prod.ext rfl hspec] at hs
      cases hs
      exact h.publish hev hc
  | loadAll =>
    cases hs
    exact ⟨rfl, rfl, fun hc => ⟨rfl, (h.awake hc).2⟩, fun _ _ => rfl⟩
  | pop =>
    simp only [step] at hs
    split_ifs at hs with hc
    split at hs
    · rename_i ev events hev
      cases hs
      refine ⟨h.current, ?_, by simp, by simp⟩
      rw [h.once, hev, List.append_assoc, List.singleton_append]
    · rename_i hev
      cases hs
      exact ⟨h.current, h.once, by simp, fun _ _ => hev⟩
  | await =>
    simp only [step] at hs
    split_ifs at hs with hc hp
    · cases hs
      exact ⟨h.current, h.once, by simp, by simp⟩
    · cases hs
      have hp : s.permit = false := by simpa using hp
      exact ⟨h.current, h.once, fun _ => ⟨h.seen hc hp, hp⟩, by simp⟩
  | cancel =>
    simp only [step] at hs
    split at hs <;> cases hs <;> exact ⟨h.current, h.once, by simp, by simp⟩

/-- A refused `add`, and a `remove` of a name that is not there, change nothing and publish nothing. -/
def RefusesSilently (s : FollowedSource) : Prop :=
  (∀ spec, spec.name ∈ s.inner.children.keys →
    s.inner.add spec = (s.inner, .error ⟨spec.name⟩) ∧ s.step (.add spec) = some s) ∧
  ∀ name, name ∉ s.inner.children.keys →
    s.inner.remove name = (s.inner, none) ∧ s.step (.remove name) = some s

theorem refusesSilently (s : FollowedSource) : s.RefusesSilently := by
  constructor
  · intro spec hmem
    rcases s.inner.add_cases spec with ⟨hadd, -⟩ | ⟨hnot, -⟩
    · exact ⟨hadd, by simp only [step, hadd]⟩
    · exact absurd hmem hnot
  · intro name hnot
    rcases s.inner.remove_cases name with ⟨hremove, -⟩ | ⟨⟨spec, -, hget⟩, -⟩
    · exact ⟨hremove, by simp only [step, hremove]⟩
    · exact absurd (IndexMap.mem_keys.2 (by simp [hget])) hnot

/-- In every interleaving: what the last load returned, with the events that `next` has returned
since then and those still queued applied to it, is what the source has now, in its order; these
events are what was published since then, each once; refusals publish nothing; and `next` does not
sleep over a queued event. -/
theorem replayed_of_reachable (s : FollowedSource) (h : runs.Reachable s) :
    replayEvents s.loaded (s.returned ++ s.inner.events) = some s.inner.children.values ∧
    s.published = s.returned ++ s.inner.events ∧ s.RefusesSilently ∧
    (s.call = .waiting → s.inner.events = []) := by
  have hr : Replayed s := by
    refine h.invariant ?_ fun _ _ _ => replayed_step
    rintro _ rfl
    exact replayed_new
  exact ⟨hr.once ▸ hr.current, hr.once, refusesSilently s, fun hc => (hr.awake hc).1⟩

/-- Changes before a load and after it, of which the supervisor has seen one. -/
def loadsBetween : List Event :=
  [.add (childSpec "a" .always none), .add (childSpec "b" .always none), .loadAll,
    .remove ⟨"a"⟩, .add (childSpec "a" .always none), .pop]

theorem replayed_of_reachable_between : ∃ s, runs.Reachable s ∧
    (s.returned.length = 1 ∧ s.inner.children.keys = [⟨"b"⟩, ⟨"a"⟩]) ∧
    replayEvents s.loaded (s.returned ++ s.inner.events) = some s.inner.children.values := by
  have hrun : ∃ s, runs.Reachable s ∧
      s.returned.length = 1 ∧ s.inner.children.keys = [⟨"b"⟩, ⟨"a"⟩] :=
    Lts.exists_reachable_of_exec (s := new) rfl loadsBetween (by decide +kernel)
  obtain ⟨s, h, hp⟩ := hrun
  exact ⟨s, h, hp, (replayed_of_reachable s h).1⟩

end FollowedSource

end Zestors
