import Zestors.Link.Connections
import Zestors.Link.IdleEnd

/-!
# Messages that are dropped before they are written

The lanes to one peer, from a message to the connection that it is written to, and the connections
that the peer dials meanwhile. A lane looks at the health before it looks for a connection.

A message is dropped only while there is no live connection and dialing has failed (`DropsCutOff`) in
the runs in which an incoming connection is registered, a dial fails and a connection that was dialed is
registered only when no lane is misled by that (`dropsCutOff_of_inTime`).
-/

namespace Zestors

/-- Where a lane is: between messages, before each check of a message, in `connection`, or with what it
returned. From `locked` to `refused` it holds the lock of the dials. -/
inductive WorkStage
  | idle
  | checking
  | looking
  | waiting
  | locked
  | dialing
  /-- `register` has kept the other connection. -/
  | refused
  | connected (conn : ℕ)
  | failed
  | writing (conn : ℕ)
  | ended
deriving DecidableEq

namespace WorkStage

def holdsLock : WorkStage → Bool
  | locked | dialing | refused => true
  | _ => false

/-- A connection was returned, and the health does not know yet. -/
def isConnected : WorkStage → Bool
  | connected _ => true
  | _ => false

def isFailed : WorkStage → Bool
  | failed => true
  | _ => false

end WorkStage

/-- A message that was dropped, with the connection that was live then, and the failures since the last
success. -/
structure Discard where
  live : Option ℕ
  failures : ℕ
deriving DecidableEq

/-- A node's lanes to a peer. `closed` are the connections that are closed, and `discards` the history of
the messages of a legal size that were dropped. -/
structure LaneWork where
  name : NodeName
  peer : NodeName
  now : ℕ
  health : Health
  conns : ℕ
  registered : Option Registered
  closed : List ℕ
  lanes : List WorkStage
  discards : List Discard

namespace LaneWork

def new (name peer : NodeName) : LaneWork := ⟨name, peer, 0, .default, 0, none, [], [], []⟩

inductive Event
  | wait (time : ℕ)
  | startLane
  /-- The `i`-th lane takes a message of `len` bytes. -/
  | recv (i len : ℕ)
  | check (i : ℕ)
  | look (i : ℕ)
  | lock (i : ℕ)
  | lookAgain (i : ℕ)
  | dialFails (i : ℕ)
  /-- A dial has come to the peer in that generation, and the connection is still open or not. -/
  | registerDialed (i generation : ℕ) (isOpen : Bool)
  | lookRefused (i : ℕ)
  | succeeded (i : ℕ)
  | failed (i backoff : ℕ)
  | write (i : ℕ) (ok : Bool)
  | leave (i : ℕ)
  | registerAccepted (generation : ℕ) (isOpen : Bool)
  | close (c : ℕ)
  /-- The task that receives on the connection finds it closed. -/
  | received (c : ℕ)

variable {s s' : LaneWork} {e : Event} {i c : ℕ} {stage : WorkStage}

/-- `Inner::live`. -/
def live (s : LaneWork) : Option ℕ :=
  (s.registered.map Registered.conn).filter fun c => decide (c ∉ s.closed)

/-- `Inner::register` for the next connection, and whether it was kept. One that is not is closed. -/
def register (s : LaneWork) (generation : ℕ) (dialer : NodeName) (isOpen : Bool) : LaneWork × Bool :=
  let closed := if isOpen then s.closed else s.closed ++ [s.conns]
  let kept : LaneWork := { s with
    conns := s.conns + 1
    closed := closed
    registered := some ⟨s.conns, generation, dialer⟩ }
  match s.registered with
  | none => (kept, true)
  | some existing =>
    if existing.conn ∈ s.closed then (kept, true)
    else if existing.keepNew s.name s.peer generation dialer then
      ({ kept with closed := closed ++ [existing.conn] }, true)
    else ({ s with conns := s.conns + 1, closed := closed ++ [s.conns] }, false)

/-- `Inner::unregister`. -/
def unregister (s : LaneWork) (c : ℕ) : LaneWork :=
  if s.registered.map Registered.conn = some c then { s with registered := none } else s

def setLane (s : LaneWork) (i : ℕ) (stage : WorkStage) : LaneWork :=
  { s with lanes := s.lanes.set i stage }

/-- The lane at `i` does `f`, if it is at `stage`. -/
def whileAt (s : LaneWork) (i : ℕ) (stage : WorkStage) (f : Option LaneWork) : Option LaneWork :=
  if s.lanes[i]? = some stage then f else none

/-- The lane goes on to its next message. -/
def discard (s : LaneWork) (i : ℕ) : LaneWork :=
  { s.setLane i .idle with discards := s.discards ++ [⟨s.live, s.health.failures⟩] }

/-- The lane has a connection if there is a live one, and is at `stage` otherwise. -/
def find (s : LaneWork) (i : ℕ) (stage : WorkStage) : LaneWork :=
  s.setLane i ((s.live).elim stage .connected)

def step (s : LaneWork) : Event → Option LaneWork
  | .wait time => some { s with now := s.now + time }
  | .startLane => some { s with lanes := s.lanes ++ [.idle] }
  | .recv i len => s.whileAt i .idle
      (if maxMessageSize < len then some s else some (s.setLane i .checking))
  | .check i => s.whileAt i .checking
      (if s.health.backingOff s.now then some (s.discard i) else some (s.setLane i .looking))
  | .look i => s.whileAt i .looking (some (s.find i .waiting))
  | .lock i => s.whileAt i .waiting
      (if s.lanes.any WorkStage.holdsLock then none else some (s.setLane i .locked))
  | .lookAgain i => s.whileAt i .locked (some (s.find i .dialing))
  | .dialFails i => s.whileAt i .dialing (some (s.setLane i .failed))
  | .registerDialed i generation isOpen => s.whileAt i .dialing
      (let registered := s.register generation s.name isOpen
      some (registered.1.setLane i (if registered.2 then .connected s.conns else .refused)))
  | .lookRefused i => s.whileAt i .refused (some (s.find i .failed))
  | .succeeded i =>
    match s.lanes[i]? with
    | some (.connected c) => some { s.setLane i (.writing c) with health := s.health.succeeded.1 }
    | _ => none
  | .failed i backoff => s.whileAt i .failed
      (some (discard { s with health := (s.health.failed s.now backoff).1 } i))
  | .write i ok =>
    match s.lanes[i]? with
    | some (.writing c) => some ((if ok then s else s.unregister c).setLane i .idle)
    | _ => none
  | .leave i => s.whileAt i .idle (some (s.setLane i .ended))
  | .registerAccepted generation isOpen => some (s.register generation s.peer isOpen).1
  | .close c => some { s with closed := s.closed ++ [c] }
  | .received c => if c ∈ s.closed then some (s.unregister c) else none

/-- Every interleaving of the lanes, their dials and the connections that come in. -/
def runs : Lts LaneWork Event := Lts.ofFun (fun s => ∃ name peer, s = new name peer) step

/-- Messages are dropped only without a connection and after a dial that failed; and once it is recorded
that a lane got one, a live connection ends the back-off. -/
structure DropsCutOff (s : LaneWork) : Prop where
  cutOff : ∀ d ∈ s.discards, d.live = none ∧ 0 < d.failures
  ends : s.live ≠ none → (∀ lane ∈ s.lanes, lane.isConnected = false) →
    s.health.backingOff s.now = false

def NoneFailed (s : LaneWork) : Prop := ∀ lane ∈ s.lanes, lane.isFailed = false

instance (s : LaneWork) : Decidable s.NoneFailed := by unfold NoneFailed; infer_instance

/-- No lane looks at a health that is backing off while another one has a connection to record, no dial
fails while there is a live connection, and none is registered while a lane has a failure to record;
nor is the first one that comes in registered while the lanes are backing off. -/
def InTime (s : LaneWork) : Event → Prop
  | .check _ => s.health.backingOff s.now = true → ∀ lane ∈ s.lanes, lane.isConnected = false
  | .dialFails _ => s.live = none
  | .registerDialed _ _ isOpen => isOpen = true → s.NoneFailed
  | .registerAccepted _ isOpen => isOpen = true →
    s.NoneFailed ∧ (s.live = none → s.health.backingOff s.now = false)
  | _ => True

instance (s : LaneWork) (e : Event) : Decidable (s.InTime e) := by
  cases e <;> unfold InTime <;> infer_instance

/-! ## Live connections -/

/-- The invariant. -/
structure Sound (s : LaneWork) : Prop where
  cutOff : ∀ d ∈ s.discards, d.live = none ∧ 0 < d.failures
  retry : s.health.retryAt ≠ none → 0 < s.health.failures
  failed : ∀ lane ∈ s.lanes, lane.isFailed = true → s.live = none
  recorded : s.live ≠ none → s.health.backingOff s.now = true →
    ∃ lane ∈ s.lanes, lane.isConnected = true

theorem sound_new (name peer : NodeName) : (new name peer).Sound where
  cutOff d hd := by cases hd
  retry hretry := absurd rfl hretry
  failed lane hlane := by cases hlane
  recorded hlive := absurd rfl hlive

theorem Sound.dropsCutOff (h : s.Sound) : s.DropsCutOff where
  cutOff := h.cutOff
  ends hlive hnone := by
    rw [← Bool.not_eq_true]
    intro hback
    obtain ⟨lane, hlane, hconnected⟩ := h.recorded hlive hback
    rw [hnone lane hlane] at hconnected
    cases hconnected

theorem Sound.lose (h : s.Sound) (hdiscards : s'.discards = s.discards) (hhealth : s'.health = s.health)
    (hnow : s'.now = s.now) (hlanes : s'.lanes = s.lanes) (hlive : s'.live ≠ none → s.live ≠ none) :
    s'.Sound where
  cutOff := hdiscards ▸ h.cutOff
  retry := hhealth ▸ h.retry
  failed lane hlane hfailed := by
    by_contra hne
    exact hlive hne (h.failed lane (hlanes ▸ hlane) hfailed)
  recorded hne hback := by
    rw [hhealth, hnow] at hback
    rw [hlanes]
    exact h.recorded (hlive hne) hback

theorem live_eq_some : s.live = some c ↔ s.registered.map Registered.conn = some c ∧ c ∉ s.closed := by
  rw [live, Option.filter_eq_some_iff, decide_eq_true_eq]

theorem live_of_closed {closed : List ℕ} (hsub : ∀ c ∈ s.closed, c ∈ closed)
    (hlive : live { s with closed := closed } ≠ none) : s.live ≠ none := by
  obtain ⟨c, hc⟩ := Option.ne_none_iff_exists'.1 hlive
  obtain ⟨hreg, hopen⟩ := live_eq_some.1 hc
  have hbefore : s.live = some c := live_eq_some.2 ⟨hreg, fun hmem => hopen (hsub c hmem)⟩
  rw [hbefore]
  exact Option.some_ne_none c

theorem Sound.close (h : s.Sound) (c : ℕ) : Sound { s with closed := s.closed ++ [c] } :=
  h.lose rfl rfl rfl rfl (live_of_closed fun _ hmem => List.mem_append_left _ hmem)

theorem Sound.unregister (h : s.Sound) (c : ℕ) : (s.unregister c).Sound := by
  unfold LaneWork.unregister
  split
  · refine h.lose rfl rfl rfl rfl fun hlive => ?_
    exact absurd rfl hlive
  · exact h

/-- The registered connection is closed. -/
theorem live_eq_none {registered : Registered} (hreg : s.registered = some registered)
    (hclosed : registered.conn ∈ s.closed) : s.live = none := by
  cases hlive : s.live with
  | none => rfl
  | some c =>
    obtain ⟨hconn, hopen⟩ := live_eq_some.1 hlive
    rw [hreg] at hconn
    cases hconn
    exact absurd hclosed hopen

/-- What `register` leaves as it was. Without a connection that is open and kept there is none that was
not there before. -/
theorem register_spec (s : LaneWork) (generation : ℕ) (dialer : NodeName) (isOpen : Bool) :
    (s.register generation dialer isOpen).1.discards = s.discards ∧
    (s.register generation dialer isOpen).1.health = s.health ∧
    (s.register generation dialer isOpen).1.now = s.now ∧
    (s.register generation dialer isOpen).1.lanes = s.lanes ∧
    (isOpen = false ∨ (s.register generation dialer isOpen).2 = false →
      (s.register generation dialer isOpen).1.live ≠ none → s.live ≠ none) := by
  have hown : isOpen = false ∨ true = false →
      s.conns ∈ (if isOpen then s.closed else s.closed ++ [s.conns]) := by
    rintro (rfl | hkept)
    · exact List.mem_append_right _ (List.mem_singleton_self _)
    · cases hkept
  unfold register
  dsimp only
  split
  · refine ⟨rfl, rfl, rfl, rfl, fun hnot hlive => ?_⟩
    exact absurd (live_eq_none rfl (hown hnot)) hlive
  · split
    · refine ⟨rfl, rfl, rfl, rfl, fun hnot hlive => ?_⟩
      exact absurd (live_eq_none rfl (hown hnot)) hlive
    · split
      · refine ⟨rfl, rfl, rfl, rfl, fun hnot hlive => ?_⟩
        exact absurd (live_eq_none rfl (List.mem_append_left _ (hown hnot))) hlive
      · refine ⟨rfl, rfl, rfl, rfl, fun _ hlive => ?_⟩
        refine live_of_closed (fun c hc => List.mem_append_left _ ?_) hlive
        split
        · exact hc
        · exact List.mem_append_left _ hc

/-! ## Steps -/

theorem whileAt_eq_some {f : Option LaneWork} (hs : s.whileAt i stage f = some s') :
    s.lanes[i]? = some stage ∧ f = some s' := by
  unfold whileAt at hs
  split at hs
  · exact ⟨by assumption, hs⟩
  · cases hs

theorem Sound.setLane (h : s.Sound) (hi : s.lanes[i]? = some stage) (hstage : stage.isConnected = false)
    {stage' : WorkStage} (hfailed : stage'.isFailed = true → s.live = none) :
    (s.setLane i stage').Sound where
  cutOff := h.cutOff
  retry := h.retry
  failed lane hlane hisFailed := by
    rcases List.mem_or_eq_of_mem_set hlane with hlane | rfl
    · exact h.failed lane hlane hisFailed
    · exact hfailed hisFailed
  recorded hlive hback := by
    obtain ⟨lane, hlane, hconnected⟩ := h.recorded hlive hback
    obtain ⟨j, hj, hget⟩ := List.mem_iff_getElem.1 hlane
    have hne : i ≠ j := by
      rintro rfl
      rw [List.getElem?_eq_getElem hj, hget] at hi
      cases hi
      rw [hstage] at hconnected
      cases hconnected
    refine ⟨lane, List.mem_iff_getElem?.2 ⟨j, ?_⟩, hconnected⟩
    show (s.lanes.set i stage')[j]? = some lane
    rw [List.getElem?_set_ne hne, List.getElem?_eq_getElem hj, hget]

theorem Sound.discard (h : s.Sound) (hi : s.lanes[i]? = some stage) (hstage : stage.isConnected = false)
    (hlive : s.live = none) (hfailures : 0 < s.health.failures) : (s.discard i).Sound := by
  have hidle : (s.setLane i .idle).Sound := h.setLane hi hstage Bool.noConfusion
  refine ⟨fun d hd => ?_, hidle.retry, hidle.failed, hidle.recorded⟩
  rcases List.mem_append.1 hd with hd | hd
  · exact h.cutOff d hd
  · obtain rfl := List.mem_singleton.1 hd
    exact ⟨hlive, hfailures⟩

theorem Sound.find (h : s.Sound) (hi : s.lanes[i]? = some stage) (hstage : stage.isConnected = false)
    (stage' : WorkStage) : (s.find i stage').Sound := by
  unfold LaneWork.find
  cases hlive : s.live with
  | none => exact h.setLane hi hstage fun _ => hlive
  | some c => exact h.setLane hi hstage Bool.noConfusion

theorem retryAt_of_backingOff {health : Health} {now : ℕ} (h : health.backingOff now = true) :
    health.retryAt ≠ none := by
  intro hnone
  unfold Health.backingOff at h
  rw [hnone] at h
  cases h

theorem Sound.check (h : s.Sound) (hok : s.InTime (.check i)) (hs : s.step (.check i) = some s') :
    s'.Sound := by
  obtain ⟨hi, hs⟩ := whileAt_eq_some hs
  split at hs
  · rename_i hback
    cases hs
    refine h.discard hi rfl ?_ (h.retry (retryAt_of_backingOff hback))
    by_contra hne
    obtain ⟨lane, hlane, hconnected⟩ := h.recorded hne hback
    rw [hok hback lane hlane] at hconnected
    cases hconnected
  · cases hs
    exact h.setLane hi rfl Bool.noConfusion

theorem Sound.registerDialed (h : s.Sound) {generation : ℕ} {isOpen : Bool}
    (hok : s.InTime (.registerDialed i generation isOpen))
    (hs : s.step (.registerDialed i generation isOpen) = some s') : s'.Sound := by
  obtain ⟨hi, hs⟩ := whileAt_eq_some hs
  obtain ⟨hdiscards, hhealth, hnow, hlanes, hlive⟩ := register_spec s generation s.name isOpen
  cases hs
  cases hkept : (s.register generation s.name isOpen).2 with
  | false =>
    have hlose := h.lose hdiscards hhealth hnow hlanes (hlive (.inr hkept))
    exact hlose.setLane (hlanes ▸ hi) rfl Bool.noConfusion
  | true =>
    refine ⟨hdiscards ▸ h.cutOff, hhealth ▸ h.retry, fun lane hlane hfailed => ?_, fun _ _ => ?_⟩
    · have hbefore : lane ∈ s.lanes := by
        rcases List.mem_or_eq_of_mem_set hlane with hlane | rfl
        · exact hlanes ▸ hlane
        · cases hfailed
      by_contra hne
      cases isOpen with
      | true =>
        rw [hok rfl lane hbefore] at hfailed
        cases hfailed
      | false => exact hlive (.inl rfl) hne (h.failed lane hbefore hfailed)
    · refine ⟨.connected s.conns, ?_, rfl⟩
      have hlt := (List.getElem?_eq_some_iff.1 hi).1
      exact List.mem_set (hlanes ▸ hlt) _

theorem Sound.registerAccepted (h : s.Sound) {generation : ℕ} {isOpen : Bool}
    (hok : s.InTime (.registerAccepted generation isOpen)) :
    (s.register generation s.peer isOpen).1.Sound := by
  obtain ⟨hdiscards, hhealth, hnow, hlanes, hlive⟩ := register_spec s generation s.peer isOpen
  cases isOpen with
  | false => exact h.lose hdiscards hhealth hnow hlanes (hlive (.inl rfl))
  | true =>
    obtain ⟨hnone, hback⟩ := hok rfl
    refine ⟨hdiscards ▸ h.cutOff, hhealth ▸ h.retry, fun lane hlane hfailed => ?_, fun _ hoff => ?_⟩
    · rw [hnone lane (hlanes ▸ hlane)] at hfailed
      cases hfailed
    · rw [hhealth, hnow] at hoff
      rw [hlanes]
      refine h.recorded (fun hnolive => ?_) hoff
      rw [hback hnolive] at hoff
      cases hoff

theorem Sound.succeeded (h : s.Sound) (hs : s.step (.succeeded i) = some s') : s'.Sound := by
  simp only [LaneWork.step] at hs
  split at hs
  · rename_i c hi
    cases hs
    refine ⟨h.cutOff, fun hretry => absurd rfl hretry, fun lane hlane hfailed => ?_, fun _ hback => ?_⟩
    · rcases List.mem_or_eq_of_mem_set hlane with hlane | rfl
      · exact h.failed lane hlane hfailed
      · cases hfailed
    · cases hback
  · cases hs

theorem Sound.fail (h : s.Sound) {backoff : ℕ} (hs : s.step (.failed i backoff) = some s') :
    s'.Sound := by
  obtain ⟨hi, hs⟩ := whileAt_eq_some hs
  cases hs
  have hlive : s.live = none := h.failed _ (List.mem_of_getElem? hi) rfl
  have hfailures : 0 < (s.health.failed s.now backoff).1.failures := by
    show 0 < min (s.health.failures + 1) _
    omega
  have hsound : Sound { s with health := (s.health.failed s.now backoff).1 } :=
    ⟨h.cutOff, fun _ => hfailures, h.failed, fun hne => absurd hlive hne⟩
  exact hsound.discard hi rfl hlive hfailures

theorem Sound.write (h : s.Sound) {ok : Bool} (hs : s.step (.write i ok) = some s') : s'.Sound := by
  simp only [LaneWork.step] at hs
  split at hs
  · rename_i c hi
    cases hs
    cases ok with
    | true => exact h.setLane hi rfl Bool.noConfusion
    | false =>
      have hlanes : (s.unregister c).lanes = s.lanes := by
        unfold LaneWork.unregister
        split <;> rfl
      exact (h.unregister c).setLane (hlanes ▸ hi) rfl Bool.noConfusion
  · cases hs

theorem Sound.step (h : s.Sound) (hok : s.InTime e) (hs : s.step e = some s') : s'.Sound := by
  cases e with
  | wait time =>
    cases hs
    refine ⟨h.cutOff, h.retry, h.failed, fun hlive hback => h.recorded hlive ?_⟩
    obtain ⟨retryAt, hretry, hlt⟩ := (Option.any_eq_true _ _).1 hback
    refine (Option.any_eq_true _ _).2 ⟨retryAt, hretry, ?_⟩
    have hlt : s.now + time < retryAt := of_decide_eq_true hlt
    exact decide_eq_true (by omega)
  | startLane =>
    cases hs
    refine ⟨h.cutOff, h.retry, fun lane hlane hfailed => ?_, fun hlive hback => ?_⟩
    · rcases List.mem_append.1 hlane with hlane | hlane
      · exact h.failed lane hlane hfailed
      · obtain rfl := List.mem_singleton.1 hlane
        cases hfailed
    · obtain ⟨lane, hlane, hconnected⟩ := h.recorded hlive hback
      exact ⟨lane, List.mem_append_left _ hlane, hconnected⟩
  | recv i len =>
    obtain ⟨hi, hs⟩ := whileAt_eq_some hs
    split at hs
    · cases hs
      exact h
    · cases hs
      exact h.setLane hi rfl Bool.noConfusion
  | check i => exact h.check hok hs
  | look i | lookAgain i | lookRefused i =>
    obtain ⟨hi, hs⟩ := whileAt_eq_some hs
    cases hs
    exact h.find hi rfl _
  | lock i =>
    obtain ⟨hi, hs⟩ := whileAt_eq_some hs
    split at hs
    · cases hs
    · cases hs
      exact h.setLane hi rfl Bool.noConfusion
  | dialFails i =>
    obtain ⟨hi, hs⟩ := whileAt_eq_some hs
    cases hs
    exact h.setLane hi rfl fun _ => hok
  | registerDialed i generation isOpen => exact h.registerDialed hok hs
  | succeeded i => exact h.succeeded hs
  | failed i backoff => exact h.fail hs
  | write i ok => exact h.write hs
  | leave i =>
    obtain ⟨hi, hs⟩ := whileAt_eq_some hs
    cases hs
    exact h.setLane hi rfl Bool.noConfusion
  | registerAccepted generation isOpen =>
    cases hs
    exact h.registerAccepted hok
  | close c =>
    cases hs
    exact h.close c
  | received c =>
    simp only [LaneWork.step] at hs
    split at hs
    · cases hs
      exact h.unregister c
    · cases hs

/-! ## Runs -/

theorem dropsCutOff_of_inTime (h : (runs.guard InTime).Reachable s) : s.DropsCutOff := by
  refine (h.guard_invariant (I := Sound) ?_ fun s e s' hi hok hs => hi.step hok hs).dropsCutOff
  rintro _ ⟨name, peer, rfl⟩
  exact sound_new name peer

/-- Two lanes drop a message each while there is no connection; the next dial works, and ends the back-off
for both. -/
theorem dropsCutOff_of_inTime_twice : ∃ s, (runs.guard InTime).Reachable s ∧
    (s.discards = [⟨none, 1⟩, ⟨none, 1⟩] ∧ s.live = some 0 ∧ s.lanes = [.writing 0, .writing 0]) ∧
      s.DropsCutOff := by
  obtain ⟨s, hs, h⟩ : ∃ s, (runs.guard InTime).Reachable s ∧
      s.discards = [⟨none, 1⟩, ⟨none, 1⟩] ∧ s.live = some 0 ∧
        s.lanes = [.writing 0, .writing 0] :=
    Lts.exists_guard_reachable_of_exec (s := new "a" "b") ⟨"a", "b", rfl⟩
      [.startLane, .startLane, .recv 0 8, .check 0, .look 0, .lock 0, .lookAgain 0, .dialFails 0,
        .failed 0 5, .recv 1 8, .check 1, .wait 5, .recv 0 8, .recv 1 8, .check 0, .check 1, .look 0,
        .look 1, .lock 1, .lookAgain 1, .registerDialed 1 0 true, .lock 0, .lookAgain 0, .succeeded 1,
        .succeeded 0]
      (by decide +kernel)
  exact ⟨s, hs, h, dropsCutOff_of_inTime hs⟩

/-- A message is dropped with a connection there: one that has come in during the back-off, one that has
come in while the lane was dialing, and one that another lane has dialed before the failure of the first
one is recorded. -/
theorem not_dropsCutOff :
    (∃ s, runs.Reachable s ∧ s.health.failures = 1 ∧ s.discards = [⟨none, 1⟩, ⟨some 0, 1⟩]) ∧
    (∃ s, runs.Reachable s ∧ s.lanes.length = 1 ∧ s.discards = [⟨some 0, 1⟩]) ∧
    (∃ s, runs.Reachable s ∧ s.lanes = [.idle, .idle] ∧ s.discards = [⟨some 0, 1⟩, ⟨some 0, 1⟩]) ∧
    ¬ ∀ s, runs.Reachable s → s.DropsCutOff := by
  have hincoming : ∃ s, runs.Reachable s ∧ s.health.failures = 1 ∧
      s.discards = [⟨none, 1⟩, ⟨some 0, 1⟩] :=
    Lts.exists_reachable_of_exec (s := new "a" "b") ⟨"a", "b", rfl⟩
      [.startLane, .recv 0 8, .check 0, .look 0, .lock 0, .lookAgain 0, .dialFails 0, .failed 0 5,
        .registerAccepted 0 true, .recv 0 8, .check 0]
      (by decide +kernel)
  refine ⟨hincoming, ?_, ?_, fun hall => ?_⟩
  · exact Lts.exists_reachable_of_exec (s := new "a" "b") ⟨"a", "b", rfl⟩
      [.startLane, .recv 0 8, .check 0, .look 0, .lock 0, .lookAgain 0, .registerAccepted 0 true,
        .dialFails 0, .failed 0 5]
      (by decide +kernel)
  · exact Lts.exists_reachable_of_exec (s := new "a" "b") ⟨"a", "b", rfl⟩
      [.startLane, .startLane, .recv 0 8, .recv 1 8, .check 0, .check 1, .look 0, .look 1, .lock 0,
        .lookAgain 0, .dialFails 0, .lock 1, .lookAgain 1, .registerDialed 1 0 true, .succeeded 1,
        .write 1 true, .failed 0 5, .recv 1 8, .check 1]
      (by decide +kernel)
  · obtain ⟨s, hs, -, hdiscards⟩ := hincoming
    have hnone := ((hall s hs).cutOff ⟨some 0, 1⟩ (by rw [hdiscards]; simp)).1
    cases hnone

end LaneWork
end Zestors
