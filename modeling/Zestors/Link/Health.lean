import Mathlib.Algebra.Group.Nat.Defs
import Mathlib.Data.List.Chain
import Zestors.Lib.ListOrder
import Zestors.Lib.Lts

/-!
# Reports of reachability

The lanes to one peer, the `Health` that they share, the broadcast channel that their reports go
through, and the driver that marks the peer as unreachable. A lane updates the health under its lock
and sends its report in a later step.

The reports alternate and the mark agrees with the health (`Agrees`) in the runs in which a report is
decided on only when the last one has been sent, and no report is pushed out of the channel
(`agrees_of_reportsInTurn`). Two lanes can report in the wrong order, which leaves a peer that can be
reached marked unreachable.
-/

namespace Zestors

/-- How many attempts in a row must fail before a peer is reported unreachable. -/
def unreachableAfter : ℕ := 3

/-- How reaching one peer is going. -/
structure Health where
  failures : ℕ
  retryAt : Option ℕ
  reportedUnreachable : Bool
deriving DecidableEq

namespace Health

def default : Health := ⟨0, none, false⟩

def backingOff (health : Health) (now : ℕ) : Bool := health.retryAt.any (now < ·)

/-- Connecting worked. Also says whether the peer had been reported unreachable. -/
def succeeded (health : Health) : Health × Bool := (default, health.reportedUnreachable)

/-- Connecting failed. Also says whether this is what makes the peer unreachable. `backoff` is the
time that `backoff` draws. -/
def failed (health : Health) (now backoff : ℕ) : Health × Bool :=
  let failures := min (health.failures + 1) (2 ^ 32 - 1)
  let newlyUnreachable := decide (failures ≥ unreachableAfter) && !health.reportedUnreachable
  (⟨failures, some (now + backoff), health.reportedUnreachable || newlyUnreachable⟩, newlyUnreachable)

end Health

/-- The reports about the peer among the `PeerEvent`s. -/
inductive Report
  | unreachable
  | reachable
deriving DecidableEq

/-- Where a lane is. `streak` is a ghost: how many attempts in a row had failed when the report was
decided on. -/
inductive Reporting
  | idle
  | connecting
  | reporting (report : Report) (streak : ℕ)
  | ended
deriving DecidableEq

def Reporting.unsent : Reporting → List Report
  | reporting report _ => [report]
  | idle | connecting | ended => []

/-- The capacity of the channel of `PeerEvent`s. -/
def peerEvents : ℕ := 256

/-- The reports go on as they come: one about the peer, or `none` for another event. `attempts` has
the attempts to connect, the last one first, and `sent` and `handled` the reports in their order. -/
structure Reachability where
  now : ℕ
  health : Health
  lanes : List Reporting
  channel : List (Option Report)
  unreachable : Bool
  attempts : List Bool
  sent : List (Report × ℕ)
  handled : List Report

namespace Reachability

def new : Reachability := ⟨0, .default, [], [], false, [], [], []⟩

inductive Event
  | wait (time : ℕ)
  | startLane
  /-- The `i`-th lane has a message, and begins to connect. -/
  | connect (i : ℕ)
  | succeeded (i : ℕ)
  | failed (i : ℕ) (backoff : ℕ)
  /-- The lane sends the report that it has decided on. -/
  | report (i : ℕ)
  /-- An event about a connection or another peer is sent. -/
  | other
  | idle (i : ℕ)
  | closed (i : ℕ)
  /-- The driver takes the next event. -/
  | handle

variable {s s' : Reachability} {e : Event} {i : ℕ} {lane lane' : Reporting}

/-- How many of the last attempts have failed in a row. -/
def streak (attempts : List Bool) : ℕ := (attempts.takeWhile (· = false)).length

/-- `broadcast::Sender::send`: the oldest event makes room. -/
def push (channel : List (Option Report)) (event : Option Report) : List (Option Report) :=
  (if channel.length ≥ peerEvents then channel.tail else channel) ++ [event]

/-- `member_unreachable` and `member_reachable`, for a peer that is a member. -/
def handle (s : Reachability) : Option Reachability :=
  match s.channel with
  | [] => none
  | none :: rest => some { s with channel := rest }
  | some report :: rest => some { s with
      channel := rest
      unreachable := decide (report = .unreachable)
      handled := s.handled ++ [report] }

/-- What a lane that is at `lane` does next. -/
def whileAt (s : Reachability) (i : ℕ) (lane : Reporting) (f : Option Reachability) :
    Option Reachability :=
  if s.lanes[i]? = some lane then f else none

def setLane (s : Reachability) (i : ℕ) (lane : Reporting) : Reachability :=
  { s with lanes := s.lanes.set i lane }

def step (s : Reachability) : Event → Option Reachability
  | .wait time => some { s with now := s.now + time }
  | .startLane => some { s with lanes := s.lanes ++ [.idle] }
  | .connect i => s.whileAt i .idle
      (if s.health.backingOff s.now then some s else some (s.setLane i .connecting))
  | .succeeded i => s.whileAt i .connecting (some { s with
      health := s.health.succeeded.1
      lanes := s.lanes.set i (if s.health.succeeded.2 then .reporting .reachable 0 else .idle)
      attempts := true :: s.attempts })
  | .failed i backoff => s.whileAt i .connecting (some { s with
      health := (s.health.failed s.now backoff).1
      lanes := s.lanes.set i (if (s.health.failed s.now backoff).2 then
        .reporting .unreachable (streak (false :: s.attempts)) else .idle)
      attempts := false :: s.attempts })
  | .report i =>
    match s.lanes[i]? with
    | some (.reporting report streak) => some { s with
        lanes := s.lanes.set i .idle
        channel := push s.channel (some report)
        sent := s.sent ++ [(report, streak)] }
    | _ => none
  | .other => some { s with channel := push s.channel none }
  -- a lane to a peer that is reported unreachable keeps going
  | .idle i => s.whileAt i .idle
      (if s.health.reportedUnreachable then some s else some (s.setLane i .ended))
  | .closed i => s.whileAt i .idle (some (s.setLane i .ended))
  | .handle => s.handle

/-- Every interleaving of the lanes and the driver, for a peer that stays a member. -/
def runs : Lts Reachability Event := Lts.ofFun (fun s => s = new) step

/-- The reports take turns, beginning with `unreachable`. -/
structure Alternating (reports : List Report) : Prop where
  turns : reports.IsChain (· ≠ ·)
  first : ∀ report ∈ reports.head?, report = .unreachable

/-- The reports that the driver has still to take. -/
def waiting (s : Reachability) : List Report := s.channel.filterMap id

/-- The reports that the lanes have still to send. -/
def unsent (s : Reachability) : List Report := s.lanes.flatMap Reporting.unsent

/-- The reports take turns, and `unreachable` comes after enough failures; and when no report is on
its way, the last one, the health and the mark of the peer say the same. -/
def Agrees (s : Reachability) : Prop :=
  Alternating (s.sent.map Prod.fst) ∧
  (∀ report ∈ s.sent, report.1 = .unreachable → unreachableAfter ≤ report.2) ∧
  (s.unsent = [] → s.waiting = [] →
    (s.handled.getLast? = some .unreachable ↔ s.health.reportedUnreachable = true) ∧
      s.unreachable = s.health.reportedUnreachable)

/-- The channel has room, or it is not a report about the peer that makes room. -/
def RoomFor (s : Reachability) : Prop :=
  s.channel.length ≥ peerEvents → ∀ event ∈ s.channel.head?, event = none

instance (s : Reachability) : Decidable s.RoomFor := by
  unfold RoomFor; infer_instance

/-- A lane decides to report something only when no other report is still to be sent, and no report
is pushed out of the channel. -/
def ReportsInTurn (s : Reachability) : Event → Prop
  | .succeeded _ => s.health.succeeded.2 = true → s.unsent = []
  | .failed _ backoff => (s.health.failed s.now backoff).2 = true → s.unsent = []
  | .report _ | .other => s.RoomFor
  | _ => True

instance (s : Reachability) (e : Event) : Decidable (s.ReportsInTurn e) := by
  cases e <;> unfold ReportsInTurn <;> infer_instance

/-! ## Alternating reports -/

theorem alternating_nil : Alternating [] := ⟨.nil, nofun⟩

theorem Alternating.left {l l' : List Report} (h : Alternating (l ++ l')) : Alternating l := by
  refine ⟨(List.isChain_append.1 h.turns).1, fun report hr => h.first report ?_⟩
  cases l with
  | nil => cases hr
  | cons a l => exact hr

theorem Alternating.concat {l : List Report} (h : Alternating l) {report : Report}
    (hne : report = .unreachable ↔ l.getLast? ≠ some .unreachable) :
    Alternating (l ++ [report]) := by
  refine ⟨List.isChain_append.2 ⟨h.turns, .singleton report, fun last hlast next hnext => ?_⟩,
    fun first hfirst => ?_⟩
  · cases hnext
    rintro rfl
    rw [hlast] at hne
    cases last <;> simp at hne
  · cases l with
    | nil =>
      cases hfirst
      exact hne.2 nofun
    | cons a l => exact h.first first hfirst

/-! ## Steps -/

/-- The reports that were decided on, in the order in which they will have been sent. -/
def decided (s : Reachability) : List Report := s.sent.map Prod.fst ++ s.unsent

/-- The last report that was decided on says what the health says, and no two are on their way to the
channel at once. -/
structure InTurn (s : Reachability) : Prop where
  turns : Alternating s.decided
  last : s.decided.getLast? = some .unreachable ↔ s.health.reportedUnreachable = true
  one : s.unsent.length ≤ 1
  sent : s.sent.map Prod.fst = s.handled ++ s.waiting
  mark : s.unreachable = decide (s.handled.getLast? = some .unreachable)
  failures : s.health.failures ≤ streak s.attempts
  sentStreak : ∀ report ∈ s.sent, report.1 = .unreachable → unreachableAfter ≤ report.2
  streaks : ∀ lane ∈ s.lanes, ∀ n, lane = .reporting .unreachable n → unreachableAfter ≤ n

theorem inTurn_new : new.InTurn :=
  ⟨alternating_nil, by decide, by decide, rfl, rfl, by decide, nofun, nofun⟩

theorem InTurn.agrees (h : s.InTurn) : s.Agrees := by
  refine ⟨h.turns.left, h.sentStreak, fun hunsent hwaiting => ?_⟩
  have hlast := h.last
  rw [decided, hunsent, h.sent, hwaiting, List.append_nil, List.append_nil] at hlast
  refine ⟨hlast, ?_⟩
  rw [h.mark]
  cases hflag : s.health.reportedUnreachable <;> simp_all

theorem whileAt_eq_some {f : Option Reachability} (hs : s.whileAt i lane f = some s') :
    s.lanes[i]? = some lane ∧ f = some s' := by
  unfold whileAt at hs
  split at hs
  · exact ⟨by assumption, hs⟩
  · cases hs

theorem InTurn.setLane (h : s.InTurn) (hi : s.lanes[i]? = some lane)
    (hunsent : lane.unsent = []) (hunsent' : lane'.unsent = []) : (s.setLane i lane').InTurn := by
  have hset : (s.setLane i lane').unsent = s.unsent :=
    List.flatMap_set_of_eq hi (hunsent'.trans hunsent.symm)
  have hdecided : (s.setLane i lane').decided = s.decided := congrArg (_ ++ ·) hset
  refine ⟨hdecided ▸ h.turns, hdecided ▸ h.last, hset ▸ h.one, h.sent, h.mark, h.failures, h.sentStreak,
    fun l hl n hn => ?_⟩
  rcases List.mem_or_eq_of_mem_set hl with hl | rfl
  · exact h.streaks l hl n hn
  · rw [hn] at hunsent'
    cases hunsent'

theorem InTurn.newReport (h : s.InTurn) (hi : s.lanes[i]? = some .connecting) (hunsent : s.unsent = [])
    {health : Health} {attempts : List Bool} {report : Report} {n : ℕ}
    (hflag : health.reportedUnreachable = !s.health.reportedUnreachable)
    (hreport : report = .unreachable ↔ health.reportedUnreachable = true)
    (hfailures : health.failures ≤ streak attempts)
    (hn : report = .unreachable → unreachableAfter ≤ n) :
    InTurn { s with
      health := health, lanes := s.lanes.set i (.reporting report n), attempts := attempts } := by
  have hset : unsent { s with
      health := health, lanes := s.lanes.set i (.reporting report n), attempts := attempts } =
      [report] := by
    show (s.lanes.set i (.reporting report n)).flatMap Reporting.unsent = [report]
    have hnil := (List.flatMap_eq_of_getElem? hi).symm.trans hunsent
    obtain ⟨hleft, hright⟩ := List.append_eq_nil_iff.1 hnil
    obtain ⟨-, hright⟩ := List.append_eq_nil_iff.1 hright
    rw [List.flatMap_set hi, hleft, hright]
    rfl
  have hsent : s.decided = s.sent.map Prod.fst := by rw [decided, hunsent, List.append_nil]
  have hdecided : decided { s with
      health := health, lanes := s.lanes.set i (.reporting report n), attempts := attempts } =
      s.sent.map Prod.fst ++ [report] := congrArg (_ ++ ·) hset
  have hlast := h.last
  rw [hsent] at hlast
  refine ⟨?_, ?_, ?_, h.sent, h.mark, hfailures, h.sentStreak, fun l hl k hk => ?_⟩
  · rw [hdecided]
    refine (hsent ▸ h.turns).concat ?_
    rw [hreport, Ne, hlast, hflag]
    simp
  · rw [hdecided, List.getLast?_concat, Option.some.injEq]
    exact hreport
  · rw [hset]
    exact Nat.le_refl 1
  · rcases List.mem_or_eq_of_mem_set hl with hl | rfl
    · exact h.streaks l hl k hk
    · cases hk
      exact hn rfl

theorem InTurn.attempt (h : s.InTurn) {health : Health} {attempts : List Bool}
    (hflag : health.reportedUnreachable = s.health.reportedUnreachable)
    (hfailures : health.failures ≤ streak attempts) :
    InTurn { s with health := health, attempts := attempts } :=
  ⟨h.turns, hflag ▸ h.last, h.one, h.sent, h.mark, hfailures, h.sentStreak, h.streaks⟩

theorem InTurn.succeeded (h : s.InTurn) (hok : s.ReportsInTurn (.succeeded i))
    (hs : s.step (.succeeded i) = some s') : s'.InTurn := by
  obtain ⟨hi, hs⟩ := whileAt_eq_some hs
  cases hs
  cases hflag : s.health.succeeded.2 with
  | true =>
    have hflag' : s.health.reportedUnreachable = true := hflag
    refine h.newReport hi (hok hflag) ?_ ?_ (Nat.zero_le _) nofun
    · rw [hflag']
      rfl
    · exact ⟨nofun, nofun⟩
  | false =>
    have hset : (s.setLane i .idle).InTurn := h.setLane hi rfl rfl
    exact hset.attempt hflag.symm (Nat.zero_le _)

theorem InTurn.failed (h : s.InTurn) {backoff : ℕ} (hok : s.ReportsInTurn (.failed i backoff))
    (hs : s.step (.failed i backoff) = some s') : s'.InTurn := by
  obtain ⟨hi, hs⟩ := whileAt_eq_some hs
  cases hs
  have hfailures : (s.health.failed s.now backoff).1.failures ≤ streak (false :: s.attempts) := by
    have := h.failures
    show min (s.health.failures + 1) _ ≤ (streak s.attempts) + 1
    omega
  cases hflag : (s.health.failed s.now backoff).2 with
  | true =>
    have hboth := Bool.and_eq_true_iff.1 hflag
    have hflag' : s.health.reportedUnreachable = false := by simpa using hboth.2
    have hmany := of_decide_eq_true hboth.1
    have hnow : (s.health.failed s.now backoff).1.reportedUnreachable = true :=
      (congrArg (s.health.reportedUnreachable || ·) hflag).trans (Bool.or_true _)
    refine h.newReport hi (hok hflag) ?_ ?_ hfailures fun _ => le_trans hmany hfailures
    · rw [hnow, hflag']
      rfl
    · rw [hnow]
      exact ⟨fun _ => rfl, fun _ => rfl⟩
  | false =>
    have hset : (s.setLane i .idle).InTurn := h.setLane hi rfl rfl
    refine hset.attempt ?_ hfailures
    exact (congrArg (s.health.reportedUnreachable || ·) hflag).trans (Bool.or_false _)

theorem RoomFor.filterMap_push (h : s.RoomFor) (event : Option Report) :
    (push s.channel event).filterMap id = s.waiting ++ event.toList := by
  have hkeep : (if s.channel.length ≥ peerEvents then s.channel.tail else s.channel).filterMap id =
      s.waiting := by
    split
    · rename_i hfull
      cases hch : s.channel with
      | nil => rw [waiting, hch]; rfl
      | cons first rest =>
        have hfirst := h hfull first (by rw [hch]; rfl)
        rw [waiting, hch, hfirst]
        rfl
    · rfl
  rw [push, List.filterMap_append, hkeep]
  cases event <;> rfl

theorem InTurn.report (h : s.InTurn) (hok : s.ReportsInTurn (.report i))
    (hs : s.step (.report i) = some s') : s'.InTurn := by
  simp only [Reachability.step] at hs
  split at hs
  · rename_i report n hi
    cases hs
    have hunsent : s.unsent = _ := List.flatMap_eq_of_getElem? hi
    have hone := h.one
    rw [hunsent] at hone
    simp only [Reporting.unsent, List.length_append, List.length_cons, List.length_nil] at hone
    have hleft : (s.lanes.take i).flatMap Reporting.unsent = [] := List.length_eq_zero_iff.1 (by omega)
    have hright : (s.lanes.drop (i + 1)).flatMap Reporting.unsent = [] :=
      List.length_eq_zero_iff.1 (by omega)
    have hset : (s.lanes.set i .idle).flatMap Reporting.unsent = [] := by
      rw [List.flatMap_set hi, hleft, hright]
      rfl
    rw [hleft, hright] at hunsent
    have hdecided : decided { s with
        lanes := s.lanes.set i .idle
        channel := push s.channel (some report)
        sent := s.sent ++ [(report, n)] } = s.decided := by
      show (s.sent ++ [(report, n)]).map Prod.fst ++
        (s.lanes.set i .idle).flatMap Reporting.unsent = s.decided
      rw [hset, List.append_nil, List.map_append, decided, hunsent]
      rfl
    refine ⟨hdecided ▸ h.turns, hdecided ▸ h.last, ?_, ?_, h.mark, h.failures, ?_, ?_⟩
    · show ((s.lanes.set i .idle).flatMap Reporting.unsent).length ≤ 1
      rw [hset]
      exact Nat.zero_le 1
    · show (s.sent ++ [(report, n)]).map Prod.fst =
        s.handled ++ (push s.channel (some report)).filterMap id
      rw [RoomFor.filterMap_push hok, List.map_append, h.sent, List.append_assoc]
      rfl
    · intro r hr hunreachable
      rcases List.mem_append.1 hr with hr | hr
      · exact h.sentStreak r hr hunreachable
      · rw [List.mem_singleton.1 hr] at hunreachable ⊢
        subst hunreachable
        exact h.streaks _ (List.mem_of_getElem? hi) n rfl
    · intro l hl k hk
      rcases List.mem_or_eq_of_mem_set hl with hl | rfl
      · exact h.streaks l hl k hk
      · cases hk
  · cases hs

theorem InTurn.handle (h : s.InTurn) (hs : s.handle = some s') : s'.InTurn := by
  unfold Reachability.handle at hs
  split at hs
  · cases hs
  · rename_i rest hch
    cases hs
    refine { h with sent := h.sent.trans ?_ }
    rw [waiting, hch]
    rfl
  · rename_i report rest hch
    cases hs
    refine { h with sent := h.sent.trans ?_, mark := ?_ }
    · rw [waiting, hch]
      show s.handled ++ report :: rest.filterMap id = s.handled ++ [report] ++ rest.filterMap id
      rw [List.append_assoc]
      rfl
    · show _ = decide ((s.handled ++ [report]).getLast? = some .unreachable)
      rw [List.getLast?_concat]
      cases report <;> rfl

theorem InTurn.step (h : s.InTurn) (hok : s.ReportsInTurn e) (hs : s.step e = some s') :
    s'.InTurn := by
  cases e with
  | wait time =>
    cases hs
    exact { h with }
  | startLane =>
    cases hs
    have hunsent : (s.lanes ++ [Reporting.idle]).flatMap Reporting.unsent = s.unsent := by
      rw [List.flatMap_append]
      exact List.append_nil _
    have hdecided : decided { s with lanes := s.lanes ++ [.idle] } = s.decided :=
      congrArg (_ ++ ·) hunsent
    refine ⟨hdecided ▸ h.turns, hdecided ▸ h.last, ?_, h.sent, h.mark, h.failures, h.sentStreak,
      fun l hl n hn => ?_⟩
    · show ((s.lanes ++ [Reporting.idle]).flatMap Reporting.unsent).length ≤ 1
      exact hunsent ▸ h.one
    · rcases List.mem_append.1 hl with hl | hl
      · exact h.streaks l hl n hn
      · rw [List.mem_singleton.1 hl] at hn
        cases hn
  | connect i =>
    obtain ⟨hi, hs⟩ := whileAt_eq_some hs
    split at hs
    · cases hs
      exact h
    · cases hs
      exact h.setLane hi rfl rfl
  | succeeded i => exact h.succeeded hok hs
  | failed i backoff => exact h.failed hok hs
  | report i => exact h.report hok hs
  | other =>
    cases hs
    refine { h with sent := h.sent.trans ?_ }
    show s.handled ++ s.waiting = s.handled ++ (push s.channel none).filterMap id
    rw [RoomFor.filterMap_push hok]
    exact congrArg (_ ++ ·) (List.append_nil _).symm
  | idle i =>
    obtain ⟨hi, hs⟩ := whileAt_eq_some hs
    split at hs
    · cases hs
      exact h
    · cases hs
      exact h.setLane hi rfl rfl
  | closed i =>
    obtain ⟨hi, hs⟩ := whileAt_eq_some hs
    cases hs
    exact h.setLane hi rfl rfl
  | handle => exact h.handle hs

/-! ## Runs -/

/-- The reports agree with the health in the runs in which they are sent in turn. -/
theorem agrees_of_reportsInTurn (h : (runs.guard ReportsInTurn).Reachable s) : s.Agrees := by
  refine (h.guard_invariant (I := InTurn) ?_ fun s e s' hi hok hs => hi.step hok hs).agrees
  rintro _ rfl
  exact inTurn_new

/-- Three failures of two lanes, and a success: the peer is marked and the mark is taken away. -/
theorem agrees_of_reportsInTurn_again : ∃ s, (runs.guard ReportsInTurn).Reachable s ∧
    (s.sent = [(.unreachable, 3), (.reachable, 0)] ∧ s.handled.length = 2) ∧ s.Agrees := by
  obtain ⟨s, hs, h⟩ : ∃ s, (runs.guard ReportsInTurn).Reachable s ∧ _ :=
    Lts.exists_guard_reachable_of_exec (f := step)
      (p := fun s => s.sent = [(.unreachable, 3), (.reachable, 0)] ∧ s.handled.length = 2)
      (s := new) rfl
      [.startLane, .startLane, .connect 0, .connect 1, .failed 0 5, .failed 1 5, .wait 5, .connect 0,
        .failed 0 5, .report 0, .other, .handle, .wait 5, .idle 1, .connect 1, .succeeded 1, .handle,
        .report 1, .handle]
      (by decide +kernel)
  exact ⟨s, hs, h, agrees_of_reportsInTurn hs⟩

/-- One lane makes the peer unreachable and another one connects before that is reported: the reports
come in the wrong order, and the peer stays marked. -/
theorem not_agrees_reportsCross : (∃ s, runs.Reachable s ∧ s.sent.map Prod.fst = [.reachable, .unreachable] ∧
      s.unsent = [] ∧ s.waiting = [] ∧ s.health.reportedUnreachable = false ∧ s.unreachable = true) ∧
    ¬ ∀ s, runs.Reachable s → s.Agrees := by
  obtain ⟨s, hs, hsent, hunsent, hwaiting, hflag, hmark⟩ : ∃ s, runs.Reachable s ∧
      s.sent.map Prod.fst = [.reachable, .unreachable] ∧ s.unsent = [] ∧ s.waiting = [] ∧
      s.health.reportedUnreachable = false ∧ s.unreachable = true :=
    Lts.exists_reachable_of_exec (s := new) rfl
      [.startLane, .startLane, .connect 0, .failed 0 5, .wait 5, .connect 0, .failed 0 5, .wait 5,
        .connect 0, .connect 1, .failed 0 5, .succeeded 1, .report 1, .report 0, .handle, .handle]
      (by decide +kernel)
  refine ⟨⟨s, hs, hsent, hunsent, hwaiting, hflag, hmark⟩, fun hall => ?_⟩
  have := ((hall s hs).2.2 hunsent hwaiting).2
  rw [hflag, hmark] at this
  cases this

end Reachability

end Zestors
