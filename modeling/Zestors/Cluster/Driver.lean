import Mathlib.Logic.Function.Basic
import Zestors.Cluster.MemberList
import Zestors.Lib.Lts

/-!
# The membership driver

What the driver does with the notifications of the failure detector, of which nothing is assumed, with
departures, with the ends of grace periods and with the reports of the links. The messages it sends,
the timers of the detector and what the links are told are left out.

The events are grammatical (each incarnation that comes up is closed before the next one of its name
does, and nothing is closed that is not up) in the runs in which a node comes up only when no other
incarnation of it is listed (`grammatical_of_comesUpClosed`). A node that was down and comes back
within the grace period as another incarnation takes the place of the old one, which nothing closes.
-/

namespace Zestors

/-- `OwnedNotification`. -/
inductive Notification
  | memberUp (member : Member)
  | memberDown (member : Member)
  | rename (before after : Member)
  | rejoin (identity : Member)
  | active
  | idle
  | defunct

inductive PeerEvent
  | unreachable (node : NodeName)
  | reachable (node : NodeName)
  | disconnected (node : NodeName) (generation : UInt64)

inductive NodeStatus
  | starting
  | up
  | leaving
  | defunct
deriving DecidableEq

/-- The driver and the cluster that it keeps. `pendingDown` has the nodes whose grace period runs,
each under its key in the queue, and `published` all events so far. -/
structure Driver where
  localMember : Member
  status : NodeStatus
  list : MemberList
  leaving : Bool
  pendingDown : List (ℕ × Member)
  pendingKeys : AList fun _ : NodeName => ℕ
  nextKey : ℕ
  published : List ClusterEvent

namespace Driver

/-- `Membership::start`: the node is up, and knows of no other. -/
def new (localMember : Member) : Driver := ⟨localMember, .up, .empty, false, [], ∅, 0, []⟩

inductive Event
  | notify (notification : Notification)
  /-- A `Departure` arrives from `node`, over a connection of that generation. -/
  | departure (node : NodeName) (generation : UInt64)
  /-- A grace period is over. -/
  | expire (key : ℕ)
  | peer (event : PeerEvent)
  | leave

variable {s s' : Driver} {e : Event} {node : NodeName} {member before after : Member}

/-- `Cluster::set_status`: nothing follows `defunct`, and `up` does not follow `leaving`. -/
def setStatus (s : Driver) (next : NodeStatus) : Driver :=
  match s.status, next with
  | .defunct, _ | .leaving, .up => s
  | _, _ => { s with status := next }

/-- A mutator of the cluster has run. -/
def change (s : Driver) (r : MemberList × List ClusterEvent) : Driver :=
  { s with list := r.1, published := s.published ++ r.2 }

/-- Forgets a node's pending failure report. -/
def cancelPending (s : Driver) (node : NodeName) : Driver :=
  match s.pendingKeys.lookup node with
  | some key => { s with
      pendingKeys := s.pendingKeys.erase node
      pendingDown := s.pendingDown.filter (·.1 ≠ key) }
  | none => s

/-- The node is reported as failed when the grace period is over. -/
def delayDown (s : Driver) (member : Member) : Driver :=
  { s with
    nextKey := s.nextKey + 1
    pendingKeys := s.pendingKeys.insert member.name s.nextKey
    pendingDown := (s.pendingDown.filter fun p => s.pendingKeys.lookup member.name ≠ some p.1) ++
      [(s.nextKey, member)] }

def notify (s : Driver) : Notification → Driver
  | .memberUp member => (s.cancelPending member.name).change (s.list.memberUp member)
  | .memberDown member => if s.list.get? member.name = some member then s.delayDown member else s
  | .rename before after => (s.cancelPending before.name).change (s.list.memberRenamed before after)
  | .rejoin identity => { s with localMember := identity }
  | .active | .idle => s
  | .defunct => if s.leaving then s else s.setStatus .defunct

def onDeparture (s : Driver) (node : NodeName) (generation : UInt64) : Driver :=
  let r := s.list.memberLeft node generation
  match r.2.2 with
  | some member => (s.change (r.1, r.2.1)).cancelPending member.name
  | none => s.change (r.1, r.2.1)

def onExpired (s : Driver) (key : ℕ) : Option Driver := do
  let (_, member) ← s.pendingDown.find? (·.1 = key)
  some ({ s with
    pendingDown := s.pendingDown.filter (·.1 ≠ key)
    pendingKeys := s.pendingKeys.erase member.name }.change (s.list.memberFailed member))

def onPeerEvent (s : Driver) : PeerEvent → Driver
  | .unreachable node => s.change ((s.list.memberUnreachable node).1, (s.list.memberUnreachable node).2.1)
  | .reachable node => s.change ((s.list.memberReachable node).1, (s.list.memberReachable node).2.1)
  | .disconnected _ _ => s

/-- A driver that leaves only handles the notifications that it has asked for by that. -/
def step (s : Driver) : Event → Option Driver
  | .notify notification => some (s.notify notification)
  | .departure node generation => if s.leaving then none else some (s.onDeparture node generation)
  | .expire key => if s.leaving then none else s.onExpired key
  | .peer event => if s.leaving then none else some (s.onPeerEvent event)
  | .leave => if s.leaving then none else some ({ s with leaving := true }.setStatus .leaving)

/-- Every sequence of inputs. -/
def runs : Lts Driver Event := Lts.ofFun (fun s => ∃ localMember, s = new localMember) step

end Driver

/-! ## The grammar of the events -/

namespace ClusterEvent
variable {up : NodeName → Option Member} {events events' : List ClusterEvent}

/-- Which incarnation of each node is up after the event. -/
def upAfter (up : NodeName → Option Member) : ClusterEvent → NodeName → Option Member
  | .up member => Function.update up member.name (some member)
  | .left member | .failed member => Function.update up member.name none
  | .unreachable _ | .reachable _ => up

/-- An incarnation comes up when no other one of its name is up, and is closed when it is up. -/
def Fits (up : NodeName → Option Member) : ClusterEvent → Prop
  | .up member => ∀ other ∈ up member.name, other = member
  | .left member | .failed member => up member.name = some member
  | .unreachable _ | .reachable _ => True

instance (up : NodeName → Option Member) (event : ClusterEvent) : Decidable (Fits up event) := by
  cases event <;> unfold Fits <;> infer_instance

def Grammatical (up : NodeName → Option Member) : List ClusterEvent → Prop
  | [] => True
  | event :: events => Fits up event ∧ Grammatical (upAfter up event) events

theorem grammatical_append : Grammatical up (events ++ events') ↔
    Grammatical up events ∧ Grammatical (events.foldl upAfter up) events' := by
  induction events generalizing up with
  | nil => simp [Grammatical]
  | cons event events ih => simp [Grammatical, ih, and_assoc]

end ClusterEvent

namespace MemberList
open ClusterEvent
variable {l l' : MemberList} {events : List ClusterEvent} {node : NodeName}
  {member before after : Member}

/-- The events tell of the change from `l` to `l'`, as far as the members go. -/
def Tells (l l' : MemberList) (events : List ClusterEvent) : Prop :=
  Grammatical l.get? events ∧ events.foldl upAfter l.get? = l'.get?

theorem tells_nil (h : l'.get? = l.get?) : Tells l l' [] := ⟨trivial, h.symm⟩

theorem update_get?_insert : Function.update l.get? member.name (some member) = (l.insert member).get? := by
  funext name
  rw [Function.update_apply, get?_insert]

theorem update_get?_remove : Function.update l.get? node none = (l.remove node).get? := by
  funext name
  rw [Function.update_apply, get?_remove]

theorem tells_memberUp (hclosed : ∀ other ∈ l.get? member.name, other = member) :
    Tells l (l.memberUp member).1 (l.memberUp member).2 := by
  unfold memberUp
  split
  · exact ⟨⟨hclosed, trivial⟩, update_get?_insert⟩
  · rename_i hsame
    refine tells_nil (funext fun name => ?_)
    rw [get?_insert]
    split
    · rename_i hname
      rw [hname, not_not.1 hsame]
    · rfl

theorem tells_memberUnreachable :
    Tells l (l.memberUnreachable node).1 (l.memberUnreachable node).2.1 := by
  unfold memberUnreachable
  cases l.get? node with
  | none => exact tells_nil rfl
  | some member =>
    dsimp only
    split
    · exact ⟨⟨trivial, trivial⟩, rfl⟩
    · exact tells_nil rfl

theorem tells_memberReachable : Tells l (l.memberReachable node).1 (l.memberReachable node).2.1 := by
  unfold memberReachable
  cases l.get? node with
  | none => exact tells_nil rfl
  | some member =>
    dsimp only
    split
    · exact ⟨⟨trivial, trivial⟩, rfl⟩
    · exact tells_nil rfl

theorem tells_memberLeft {generation : UInt64} :
    Tells l (l.memberLeft node generation).1 (l.memberLeft node generation).2.1 := by
  unfold memberLeft
  cases hget : l.get? node with
  | none => exact tells_nil rfl
  | some member =>
    obtain rfl := name_of_get? hget
    dsimp only
    split
    · exact tells_nil rfl
    · exact ⟨⟨hget, trivial⟩, update_get?_remove⟩

theorem tells_memberFailed : Tells l (l.memberFailed member).1 (l.memberFailed member).2 := by
  unfold memberFailed
  split
  · rename_i hget
    exact ⟨⟨hget, trivial⟩, update_get?_remove⟩
  · exact tells_nil rfl

theorem tells_memberRenamed
    (hname : l.get? before.name = some before → after.name = before.name) :
    Tells l (l.memberRenamed before after).1 (l.memberRenamed before after).2 := by
  unfold memberRenamed
  split
  · rename_i hget
    have hsame := hname hget
    refine ⟨⟨hget, ?_, trivial⟩, ?_⟩
    · simp [Fits, upAfter, hsame]
    · show Function.update (Function.update l.get? before.name none) after.name (some after) = _
      rw [hsame, Function.update_idem, ← hsame]
      exact update_get?_insert
  · exact tells_nil rfl

end MemberList

/-! ## Steps -/

namespace Driver
open ClusterEvent
variable {s s' : Driver} {e : Event} {node : NodeName} {member : Member}

/-- The events that the cluster has published are grammatical. -/
def Told (s : Driver) : Prop := Grammatical (fun _ => none) s.published

instance (up : NodeName → Option Member) (events : List ClusterEvent) :
    Decidable (Grammatical up events) := by
  induction events generalizing up with
  | nil => exact isTrue trivial
  | cons event events ih => exact instDecidableAnd

/-- A node comes up when no other incarnation of it is listed, and keeps its name when it is replaced. -/
def ComesUpClosed (s : Driver) : Event → Prop
  | .notify (.memberUp member) => ∀ other ∈ s.list.get? member.name, other = member
  | .notify (.rename before after) =>
    s.list.get? before.name = some before → after.name = before.name
  | _ => True

instance (s : Driver) (e : Event) : Decidable (s.ComesUpClosed e) := by
  unfold ComesUpClosed
  split <;> infer_instance

/-- The members are those that the events leave up. -/
def Tracks (s : Driver) : Prop := s.Told ∧ s.published.foldl upAfter (fun _ => none) = s.list.get?

theorem tracks_new (localMember : Member) : (new localMember).Tracks := ⟨trivial, rfl⟩

theorem Tracks.change (h : s.Tracks) {r : MemberList × List ClusterEvent}
    (hr : MemberList.Tells s.list r.1 r.2) : (s.change r).Tracks := by
  obtain ⟨htold, hup⟩ := h
  refine ⟨?_, ?_⟩
  · show Grammatical _ (s.published ++ r.2)
    rw [grammatical_append, hup]
    exact ⟨htold, hr.1⟩
  · show (s.published ++ r.2).foldl upAfter _ = r.1.get?
    rw [List.foldl_append, hup]
    exact hr.2

theorem Tracks.of_eq (h : s.Tracks) (hlist : s'.list = s.list) (hpub : s'.published = s.published) :
    s'.Tracks := by
  unfold Tracks Told
  rw [hlist, hpub]
  exact h

@[simp] theorem list_cancelPending : (s.cancelPending node).list = s.list := by
  unfold cancelPending
  split <;> rfl

@[simp] theorem published_cancelPending : (s.cancelPending node).published = s.published := by
  unfold cancelPending
  split <;> rfl

theorem Tracks.cancelPending (h : s.Tracks) : (s.cancelPending node).Tracks :=
  h.of_eq list_cancelPending published_cancelPending

theorem Tracks.setStatus (h : s.Tracks) {next : NodeStatus} : (s.setStatus next).Tracks := by
  unfold Driver.setStatus
  split
  · exact h
  · exact h
  · exact h.of_eq rfl rfl

theorem Tracks.notify (h : s.Tracks) {notification : Notification}
    (hok : s.ComesUpClosed (.notify notification)) : (s.notify notification).Tracks := by
  cases notification with
  | memberUp member =>
    refine h.cancelPending.change ?_
    rw [list_cancelPending]
    exact MemberList.tells_memberUp hok
  | memberDown member =>
    simp only [Driver.notify]
    split
    · exact h.of_eq rfl rfl
    · exact h
  | rename before after =>
    refine h.cancelPending.change ?_
    rw [list_cancelPending]
    exact MemberList.tells_memberRenamed hok
  | rejoin identity => exact h.of_eq rfl rfl
  | active | idle => exact h
  | defunct =>
    simp only [Driver.notify]
    split
    · exact h
    · exact h.setStatus

theorem Tracks.onDeparture (h : s.Tracks) {generation : UInt64} :
    (s.onDeparture node generation).Tracks := by
  unfold Driver.onDeparture
  have hleft := h.change (r := ((s.list.memberLeft node generation).1,
    (s.list.memberLeft node generation).2.1)) MemberList.tells_memberLeft
  dsimp only
  split
  · exact hleft.cancelPending
  · exact hleft

theorem Tracks.onExpired (h : s.Tracks) {key : ℕ} (hs : s.onExpired key = some s') : s'.Tracks := by
  unfold Driver.onExpired at hs
  cases hfind : s.pendingDown.find? (·.1 = key) with
  | none => simp [hfind] at hs
  | some p =>
    simp only [hfind, Option.bind_eq_bind, Option.bind_some, Option.some.injEq] at hs
    subst hs
    have hsame : Tracks { s with
        pendingDown := s.pendingDown.filter (·.1 ≠ key)
        pendingKeys := s.pendingKeys.erase p.2.name } := h.of_eq rfl rfl
    exact hsame.change MemberList.tells_memberFailed

theorem Tracks.step (h : s.Tracks) (hok : s.ComesUpClosed e) (hs : s.step e = some s') :
    s'.Tracks := by
  cases e with
  | notify notification =>
    cases hs
    exact h.notify hok
  | departure node generation =>
    simp only [Driver.step] at hs
    split at hs
    · cases hs
    · cases hs
      exact h.onDeparture
  | expire key =>
    simp only [Driver.step] at hs
    split at hs
    · cases hs
    · exact h.onExpired hs
  | peer event =>
    simp only [Driver.step] at hs
    split at hs
    · cases hs
    · cases hs
      cases event with
      | unreachable node => exact h.change MemberList.tells_memberUnreachable
      | reachable node => exact h.change MemberList.tells_memberReachable
      | disconnected node generation => exact h
  | leave =>
    simp only [Driver.step] at hs
    split at hs
    · cases hs
    · cases hs
      have hsame : Tracks { s with leaving := true } := h.of_eq rfl rfl
      exact hsame.setStatus

/-! ## Runs -/

/-- The events are grammatical in the runs in which nodes come up when no other incarnation of them is
listed. -/
theorem grammatical_of_comesUpClosed (h : (runs.guard ComesUpClosed).Reachable s) : s.Told := by
  refine (h.guard_invariant (I := Tracks) ?_ fun s e s' hi hok hs => hi.step hok hs).1
  rintro _ ⟨localMember, rfl⟩
  exact tracks_new localMember

/-- The node of the runs below. -/
def sample : Driver := new ⟨"a", "a:7000", 1⟩

/-- A node goes down and is reported as failed, comes back, is replaced by its next incarnation, and
says goodbye while it is held to be down. -/
theorem grammatical_of_comesUpClosed_goodbye : ∃ s, (runs.guard ComesUpClosed).Reachable s ∧
    (s.published = [.up ⟨"b", "b:7000", 1⟩, .failed ⟨"b", "b:7000", 1⟩, .up ⟨"b", "b:7000", 1⟩,
      .failed ⟨"b", "b:7000", 1⟩, .up ⟨"b", "b:7000", 2⟩, .left ⟨"b", "b:7000", 2⟩] ∧
      s.pendingDown = []) ∧ s.Told := by
  obtain ⟨s, hs, h⟩ : ∃ s, (runs.guard ComesUpClosed).Reachable s ∧ _ :=
    Lts.exists_guard_reachable_of_exec (f := step)
      (p := fun s => s.published = [.up ⟨"b", "b:7000", 1⟩, .failed ⟨"b", "b:7000", 1⟩,
          .up ⟨"b", "b:7000", 1⟩, .failed ⟨"b", "b:7000", 1⟩, .up ⟨"b", "b:7000", 2⟩,
          .left ⟨"b", "b:7000", 2⟩] ∧ s.pendingDown = [])
      (s := sample) ⟨_, rfl⟩
      [.notify (.memberUp ⟨"b", "b:7000", 1⟩), .notify (.memberDown ⟨"b", "b:7000", 1⟩), .expire 0,
        .notify (.memberUp ⟨"b", "b:7000", 1⟩),
        .notify (.rename ⟨"b", "b:7000", 1⟩ ⟨"b", "b:7000", 2⟩),
        .notify (.memberDown ⟨"b", "b:7000", 2⟩), .departure "b" 2]
      (by decide +kernel)
  exact ⟨s, hs, h, grammatical_of_comesUpClosed hs⟩

/-- A node that is down comes back within its grace period as the next incarnation: the old one is
never closed. -/
theorem not_grammatical : (∃ s, runs.Reachable s ∧ s.pendingDown = [] ∧
      s.published = [.up ⟨"b", "b:7000", 1⟩, .up ⟨"b", "b:7000", 2⟩]) ∧
    ¬ ∀ s, runs.Reachable s → s.Told := by
  obtain ⟨s, hs, hpending, hpub⟩ : ∃ s, runs.Reachable s ∧ s.pendingDown = [] ∧
      s.published = [.up ⟨"b", "b:7000", 1⟩, .up ⟨"b", "b:7000", 2⟩] :=
    Lts.exists_reachable_of_exec (s := sample) ⟨_, rfl⟩
      [.notify (.memberUp ⟨"b", "b:7000", 1⟩), .notify (.memberDown ⟨"b", "b:7000", 1⟩),
        .notify (.memberUp ⟨"b", "b:7000", 2⟩)]
      (by decide +kernel)
  refine ⟨⟨s, hs, hpending, hpub⟩, fun hall => ?_⟩
  have htold := hall s hs
  rw [Told, hpub] at htold
  revert htold
  decide +kernel

end Driver

end Zestors
