import Zestors.ActorStatus
import Zestors.Lib.ListOrder
import Zestors.Lib.Lts
import Zestors.Lib.Notify

/-!
# Monitoring a status

`Channel::monitor` over the observable status: a monitor subscribes, and then looks at the status and
waits for the next change in turns. A change may come at any moment between, and a monitor that wakes up
late sees the last status only.

So a monitor may miss a status that did not last. `watched_of_reachable` says that it never sleeps while
the actor is in a status that it looks for, and that it returns nothing that was not so meanwhile; and
`returned_within` that it soon returns once there are only statuses that it looks for.
-/

namespace Zestors

/-- `ExitStatus::into_result`. -/
def ExitStatus.intoResult : ExitStatus → Except ExitError Unit
  | normal => .ok ()
  | panicked => .error .panicked
  | aborted => .error .aborted
  | unhandledError => .error .unhandledError

/-- What `monitor_running` looks for. -/
def monitorRunning : ActorStatus → Option Unit
  | .running => some ()
  | _ => none

def monitorAcceptsMessages (status : ActorStatus) : Option Unit :=
  if status.acceptsMessages then some () else none

def monitorExit : ActorStatus → Option (Except ExitError Unit)
  | .exited exit => some exit.intoResult
  | _ => none

/-- What a monitor does next; `next` remembers the status that it looked at last. -/
inductive MonitorStage (T : Type)
  | status
  | check (status : ActorStatus)
  | next (looked : ActorStatus)
  | checkNext (status : ActorStatus)
  | returned (result : T)

/-- A call of `monitor`. `seen` is the version that its subscriber has observed; `begun` tells how many
statuses there had been when it began, the current one included. -/
structure StatusMonitor (T : Type) where
  checkFor : ActorStatus → Option T
  stage : MonitorStage T
  seen : ℕ
  begun : ℕ

/-- The observable status: its version is the number of values that were set, and `past` has those
before the current one. -/
structure WatchedStatus (T : Type) where
  status : ActorStatus
  past : List ActorStatus
  monitors : List (StatusMonitor T)

namespace WatchedStatus
variable {T : Type} {s s' : WatchedStatus T} {m m' : StatusMonitor T}

def new : WatchedStatus T := ⟨.exited .normal, [], []⟩

def version (s : WatchedStatus T) : ℕ := s.past.length + 1

/-- All the statuses that there have been. -/
def statuses (s : WatchedStatus T) : List ActorStatus := s.past ++ [s.status]

inductive Event (T : Type)
  /-- `update_status` writes. -/
  | set (status : ActorStatus)
  | monitor (checkFor : ActorStatus → Option T)
  /-- The `i`-th monitor goes on. -/
  | step (i : ℕ)

variable {e : Event T}

/-- `subscriber.next()` is ready only when there is a change that the subscriber has not observed. -/
def stepMonitor (s : WatchedStatus T) (m : StatusMonitor T) : Option (StatusMonitor T) :=
  match m.stage with
  | .status => some { m with stage := .check s.status }
  | .check status =>
    match m.checkFor status with
    | some result => some { m with stage := .returned result }
    | none => some { m with stage := .next status }
  | .next _ =>
    if m.seen < s.version then some { m with stage := .checkNext s.status, seen := s.version }
    else none
  | .checkNext status =>
    match m.checkFor status with
    | some result => some { m with stage := .returned result }
    | none => some { m with stage := .status }
  | .returned _ => none

def step (s : WatchedStatus T) : Event T → Option (WatchedStatus T)
  | .set status => some { s with status := status, past := s.past ++ [s.status] }
  | .monitor checkFor => some { s with
      monitors := s.monitors ++ [⟨checkFor, .status, s.version, s.version⟩] }
  | .step i => do
    let m ← s.monitors[i]?
    let m' ← s.stepMonitor m
    some { s with monitors := s.monitors.set i m' }

/-- Every interleaving of the changes and the monitors. -/
def runs (T : Type) : Lts (WatchedStatus T) (Event T) := Lts.ofFun (fun s => s = new) step

/-- The monitor has been polled in vain, and there was no change since. -/
def Sleeps (s : WatchedStatus T) (m : StatusMonitor T) : Prop :=
  ∃ looked, m.stage = .next looked ∧ m.seen = s.version

/-- The actor had the status at some moment since the monitor began. -/
def Since (s : WatchedStatus T) (m : StatusMonitor T) (status : ActorStatus) : Prop :=
  status ∈ s.statuses.drop (m.begun - 1)

/-- What a monitor knows in each of its stages. -/
structure Knows (s : WatchedStatus T) (m : StatusMonitor T) : Prop where
  begun : 0 < m.begun ∧ m.begun ≤ s.version
  seen : m.seen ≤ s.version
  check : ∀ status, m.stage = .check status ∨ m.stage = .checkNext status →
    Fresh m.seen s.version status s.status ∧ s.Since m status
  next : ∀ looked, m.stage = .next looked →
    Fresh m.seen s.version looked s.status ∧ m.checkFor looked = none
  returned : ∀ result, m.stage = .returned result →
    ∃ status, s.Since m status ∧ m.checkFor status = some result

theorem since_status (h : m.begun ≤ s.version) : s.Since m s.status := by
  unfold Since statuses
  have hlen : m.begun - 1 ≤ s.past.length := by
    unfold version at h
    omega
  rw [List.drop_append_of_le_length hlen]
  exact List.mem_append_right _ (List.mem_singleton.2 rfl)

theorem Since.set {status status' : ActorStatus} (h : s.Since m status) :
    Since { s with status := status', past := s.past ++ [s.status] } m status := by
  unfold Since statuses at h ⊢
  rw [List.drop_append]
  exact List.mem_append_left _ h

theorem Knows.set (h : s.Knows m) {status : ActorStatus} :
    Knows { s with status := status, past := s.past ++ [s.status] } m := by
  have hversion : version { s with status := status, past := s.past ++ [s.status] } = s.version + 1 := by
    simp [version]
  have hfresh : ∀ {looked : ActorStatus}, Fresh m.seen s.version looked s.status →
      Fresh m.seen (s.version + 1) looked status := fun hfresh =>
    hfresh.change (Nat.le_succ _) fun heq => by omega
  constructor
  · rw [hversion]
    exact ⟨h.begun.1, Nat.le_succ_of_le h.begun.2⟩
  · rw [hversion]
    exact Nat.le_succ_of_le h.seen
  · intro looked hstage
    obtain ⟨hlooked, hsince⟩ := h.check looked hstage
    rw [hversion]
    exact ⟨hfresh hlooked, hsince.set⟩
  · intro looked hstage
    obtain ⟨hlooked, hnone⟩ := h.next looked hstage
    rw [hversion]
    exact ⟨hfresh hlooked, hnone⟩
  · intro result hstage
    obtain ⟨status', hsince, hsome⟩ := h.returned result hstage
    exact ⟨status', hsince.set, hsome⟩

theorem knows_new {checkFor : ActorStatus → Option T} :
    s.Knows ⟨checkFor, .status, s.version, s.version⟩ := by
  constructor
  · exact ⟨Nat.succ_pos _, Nat.le_refl _⟩
  · exact Nat.le_refl _
  · rintro status (hstage | hstage) <;> cases hstage
  · intro looked hstage
    cases hstage
  · intro result hstage
    cases hstage

theorem Knows.stepMonitor (h : s.Knows m) (hs : s.stepMonitor m = some m') : s.Knows m' := by
  unfold WatchedStatus.stepMonitor at hs
  cases hstage : m.stage with
  | status =>
    simp only [hstage, Option.some.injEq] at hs
    subst hs
    refine ⟨h.begun, h.seen, ?_, nofun, nofun⟩
    rintro status (hst | hst)
    · cases hst
      exact ⟨.look h.seen, since_status (m := m) h.begun.2⟩
    · cases hst
  | check status =>
    obtain ⟨hfresh, hsince⟩ := h.check status (.inl hstage)
    simp only [hstage] at hs
    cases hcheck : m.checkFor status with
    | some result =>
      simp only [hcheck, Option.some.injEq] at hs
      subst hs
      refine ⟨h.begun, h.seen, by simp, nofun, fun result' hst => ?_⟩
      cases hst
      exact ⟨status, hsince, hcheck⟩
    | none =>
      simp only [hcheck, Option.some.injEq] at hs
      subst hs
      refine ⟨h.begun, h.seen, by simp, fun looked hst => ?_, nofun⟩
      cases hst
      exact ⟨hfresh, hcheck⟩
  | next looked =>
    simp only [hstage] at hs
    split at hs
    · cases hs
      refine ⟨h.begun, Nat.le_refl _, ?_, nofun, nofun⟩
      rintro status (hst | hst)
      · cases hst
      · cases hst
        exact ⟨.look (Nat.le_refl _), since_status (m := m) h.begun.2⟩
    · cases hs
  | checkNext status =>
    obtain ⟨-, hsince⟩ := h.check status (.inr hstage)
    simp only [hstage] at hs
    cases hcheck : m.checkFor status with
    | some result =>
      simp only [hcheck, Option.some.injEq] at hs
      subst hs
      refine ⟨h.begun, h.seen, by simp, nofun, fun result' hst => ?_⟩
      cases hst
      exact ⟨status, hsince, hcheck⟩
    | none =>
      simp only [hcheck, Option.some.injEq] at hs
      subst hs
      exact ⟨h.begun, h.seen, by simp, nofun, nofun⟩
  | returned result =>
    simp only [hstage] at hs
    cases hs

theorem knows_step (h : ∀ m ∈ s.monitors, s.Knows m) (hs : s.step e = some s') :
    ∀ m ∈ s'.monitors, s'.Knows m := by
  cases e with
  | set status =>
    cases hs
    exact fun m hm => (h m hm).set
  | monitor checkFor =>
    cases hs
    intro m hm
    rcases List.mem_append.1 hm with hm | hm
    · exact ⟨(h m hm).begun, (h m hm).seen, (h m hm).check, (h m hm).next, (h m hm).returned⟩
    · cases List.mem_singleton.1 hm
      have hnew : s.Knows ⟨checkFor, .status, s.version, s.version⟩ := knows_new
      exact ⟨hnew.begun, hnew.seen, hnew.check, hnew.next, hnew.returned⟩
  | step i =>
    simp only [step, Option.bind_eq_bind, Option.bind_eq_some_iff] at hs
    obtain ⟨m, hm, m', hm', hs⟩ := hs
    cases hs
    have hknows := (h m (List.mem_of_getElem? hm)).stepMonitor hm'
    intro m'' hm''
    rcases List.mem_or_eq_of_mem_set hm'' with hm'' | rfl
    · exact ⟨(h m'' hm'').begun, (h m'' hm'').seen, (h m'' hm'').check, (h m'' hm'').next,
        (h m'' hm'').returned⟩
    · exact ⟨hknows.begun, hknows.seen, hknows.check, hknows.next, hknows.returned⟩

theorem knows_of_reachable (h : (runs T).Reachable s) : ∀ m ∈ s.monitors, s.Knows m :=
  h.invariant (I := fun s => ∀ m ∈ s.monitors, s.Knows m) (fun s hs => by cases hs; nofun)
    fun _ _ _ hI hs => knows_step hI hs

/-- A monitor sleeps in no status that it looks for, and what it has returned was so while it looked. -/
theorem watched_of_reachable (h : (runs T).Reachable s) {m : StatusMonitor T} (hm : m ∈ s.monitors) :
    (s.Sleeps m → m.checkFor s.status = none) ∧
      ∀ result, m.stage = .returned result →
        ∃ status, s.Since m status ∧ m.checkFor status = some result := by
  have hknows := knows_of_reachable h m hm
  refine ⟨?_, hknows.returned⟩
  rintro ⟨looked, hstage, hseen⟩
  obtain ⟨⟨-, hfresh⟩, hnone⟩ := hknows.next looked hstage
  rw [← hfresh hseen]
  exact hnone

theorem watched_of_reachable_run : ∃ (s : WatchedStatus Unit) (m : _), m ∈ s.monitors ∧
    ((s.Sleeps m → m.checkFor s.status = none) ∧ ∀ result, m.stage = .returned result →
      ∃ status, s.Since m status ∧ m.checkFor status = some result) := by
  obtain ⟨s, hs, hlength⟩ : ∃ s, (runs Unit).Reachable s ∧ s.monitors.length = 1 :=
    Lts.exists_reachable_of_exec (s := new) rfl
      [.monitor monitorRunning, .step 0, .step 0, .set .initializing, .step 0, .set .running, .step 0,
        .step 0, .step 0]
      (by decide +kernel)
  obtain ⟨m, hm⟩ := List.length_eq_one_iff.1 hlength
  have hmem : m ∈ s.monitors := by
    rw [hm]
    exact List.mem_singleton.2 rfl
  exact ⟨s, m, hmem, watched_of_reachable hs hmem⟩

/-! ## A monitor comes to its end -/

def Event.isStep (i : ℕ) : Event T → Bool
  | .step j => i = j
  | .set _ | .monitor _ => false

def Returned (m : StatusMonitor T) : Prop := ∃ result, m.stage = .returned result

/-- How far a monitor is from its end, if it looks for the current status. -/
def distance (m : StatusMonitor T) : ℕ :=
  match m.stage with
  | .returned _ => 0
  | .check status => if (m.checkFor status).isSome then 1 else 4
  | .checkNext status => if (m.checkFor status).isSome then 1 else 3
  | .status => 2
  | .next _ => 3

theorem distance_stepMonitor (hlooks : (m.checkFor s.status).isSome = true)
    (hs : s.stepMonitor m = some m') : distance m' < distance m := by
  unfold stepMonitor at hs
  unfold distance
  cases hstage : m.stage with
  | status =>
    simp only [hstage, Option.some.injEq] at hs
    subst hs
    simp [hlooks]
  | check status | checkNext status =>
    simp only [hstage] at hs
    cases hcheck : m.checkFor status <;> simp only [hcheck, Option.some.injEq] at hs <;> subst hs <;>
      simp [hcheck]
  | next looked =>
    simp only [hstage] at hs
    split at hs
    · cases hs
      simp [hlooks]
    · cases hs
  | returned result =>
    simp only [hstage] at hs
    cases hs

theorem checkFor_stepMonitor (hs : s.stepMonitor m = some m') : m'.checkFor = m.checkFor := by
  unfold stepMonitor at hs
  repeat' split at hs
  all_goals cases hs
  all_goals rfl

theorem distance_le (m : StatusMonitor T) : distance m ≤ 4 := by
  unfold distance
  split
  · omega
  · split <;> omega
  · split <;> omega
  · omega
  · omega

theorem exists_stepMonitor (h : s.Knows m) (hlooks : (m.checkFor s.status).isSome = true)
    (hnot : ¬ Returned m) : ∃ m', s.stepMonitor m = some m' := by
  unfold stepMonitor
  cases hstage : m.stage with
  | status => exact ⟨_, rfl⟩
  | check status | checkNext status =>
    dsimp only
    split <;> exact ⟨_, rfl⟩
  | returned result => exact absurd ⟨result, hstage⟩ hnot
  | next looked =>
    obtain ⟨⟨hle, hfresh⟩, hnone⟩ := h.next looked hstage
    have hlt : m.seen < s.version := by
      refine Nat.lt_of_le_of_ne hle fun heq => ?_
      rw [← hfresh heq, hnone] at hlooks
      cases hlooks
    simp only [if_pos hlt]
    exact ⟨_, rfl⟩

/-- The `i`-th monitor is there, and looks for what `checkFor` does. -/
structure Monitors (i : ℕ) (checkFor : ActorStatus → Option T) (s : WatchedStatus T) : Prop where
  knows : ∀ m ∈ s.monitors, s.Knows m
  monitor : ∃ m, s.monitors[i]? = some m ∧ m.checkFor = checkFor

def distanceOf (i : ℕ) (s : WatchedStatus T) : ℕ := (s.monitors[i]?).elim 0 distance

theorem Monitors.step {i : ℕ} {checkFor : ActorStatus → Option T} (h : s.Monitors i checkFor)
    (hlooks : (checkFor s.status).isSome = true) (hs : s.step e = some s') : s'.Monitors i checkFor ∧
      s'.distanceOf i + (if e.isStep i then 1 else 0) ≤ s.distanceOf i := by
  have hknows := knows_step h.knows hs
  obtain ⟨m, hi, rfl⟩ := h.monitor
  cases e with
  | set status =>
    cases hs
    exact ⟨⟨hknows, m, hi, rfl⟩, Nat.le_refl _⟩
  | monitor checkFor' =>
    cases hs
    have hi' : (s.monitors ++ [⟨checkFor', .status, s.version, s.version⟩])[i]? = some m :=
      List.getElem?_concat_eq_some.2 (.inl hi)
    refine ⟨⟨hknows, m, hi', rfl⟩, ?_⟩
    simp only [distanceOf, hi, hi', Event.isStep, Bool.false_eq_true, if_false]
    exact Nat.le_refl _
  | step j =>
    simp only [WatchedStatus.step, Option.bind_eq_bind, Option.bind_eq_some_iff] at hs
    obtain ⟨m₁, hj, m', hm', hs⟩ := hs
    cases hs
    by_cases hij : i = j
    · subst hij
      rw [hi] at hj
      cases hj
      have hi' : (s.monitors.set i m')[i]? = some m' :=
        List.getElem?_set_self (List.getElem?_eq_some_iff.1 hi).1
      refine ⟨⟨hknows, m', hi', checkFor_stepMonitor hm'⟩, ?_⟩
      simp only [distanceOf, hi, hi', Event.isStep, decide_true, if_true, Option.elim_some]
      exact distance_stepMonitor hlooks hm'
    · have hi' : (s.monitors.set j m')[i]? = some m := by
        rw [List.getElem?_set_ne (Ne.symm hij)]
        exact hi
      refine ⟨⟨hknows, m, hi', rfl⟩, ?_⟩
      simp only [distanceOf, hi, hi', Event.isStep, hij, decide_false, Bool.false_eq_true, if_false]
      exact Nat.le_refl _

/-- A monitor looks for the status that there is, and for every one that comes after it: whatever else
happens, it returns within four steps of its own, and can take them. -/
theorem returned_within {i : ℕ} {es : List (Event T)} (h : (runs T).Reachable s)
    (hi : s.monitors[i]? = some m)
    (hlooks : ∀ k t, Lts.exec step s (es.take k) = some t → (m.checkFor t.status).isSome = true)
    (hs : Lts.exec step s es = some s') :
    ∃ m', s'.monitors[i]? = some m' ∧
      (¬ Returned m' → es.countP (Event.isStep i) < 4 ∧ ∃ s'', s'.step (.step i) = some s'') := by
  obtain ⟨⟨hknows, m', hi', hcheck⟩, hle⟩ := Lts.exec_bound (f := step) (I := Monitors i m.checkFor)
    (distanceOf i) (fun _ _ _ => Monitors.step) ⟨knows_of_reachable h, m, hi, rfl⟩ hlooks hs
  have hstart : s.distanceOf i ≤ 4 := by
    rw [distanceOf, hi]
    exact distance_le m
  have hend : s'.distanceOf i = distance m' := by
    rw [distanceOf, hi']
    rfl
  refine ⟨m', hi', fun hnot => ⟨?_, ?_⟩⟩
  · have hpos : distance m' ≠ 0 := by
      intro hzero
      refine hnot ?_
      unfold distance at hzero
      split at hzero
      · exact ⟨_, ‹_›⟩
      · split at hzero <;> cases hzero
      · split at hzero <;> cases hzero
      · cases hzero
      · cases hzero
    omega
  · have hnow := hlooks es.length s' (by rw [List.take_length]; exact hs)
    obtain ⟨m'', hm''⟩ := exists_stepMonitor (hknows m' (List.mem_of_getElem? hi')) (hcheck.symm ▸ hnow) hnot
    refine ⟨{ s' with monitors := s'.monitors.set i m'' }, ?_⟩
    simp only [step, hi', Option.bind_eq_bind, Option.bind_some, hm'']

/-- An actor runs and panics before its monitor looks again. -/
def panicRun : List (Event (Except ExitError Unit)) :=
  [.set .initializing, .monitor monitorExit, .step 0, .step 0, .set .running, .set (.exited .panicked)]

/-- The monitor looks, and the actor exits once more. -/
def abortRun : List (Event (Except ExitError Unit)) := [.step 0, .set (.exited .aborted)]

theorem returned_within_panic : ∃ (s s' : WatchedStatus (Except ExitError Unit)) (m : _),
    s.monitors[0]? = some m ∧ Lts.exec step s abortRun = some s' ∧
      ∃ m', s'.monitors[0]? = some m' ∧ (¬ Returned m' →
        abortRun.countP (Event.isStep 0) < 4 ∧ ∃ s'', s'.step (.step 0) = some s'') := by
  obtain ⟨s, hs, hlooks, hexec⟩ : ∃ s, (runs (Except ExitError Unit)).Reachable s ∧
      (s.monitors[0]?.any fun m => (List.range (abortRun.length + 1)).all fun k =>
        (Lts.exec step s (abortRun.take k)).all fun t => (m.checkFor t.status).isSome) = true ∧
      (Lts.exec step s abortRun).isSome = true :=
    Lts.exists_reachable_of_exec (s := new) rfl panicRun (by decide +kernel)
  obtain ⟨m, hi, hlooks⟩ := (Option.any_eq_true _ _).1 hlooks
  obtain ⟨s', hs'⟩ := Option.isSome_iff_exists.1 hexec
  exact ⟨s, s', m, hi, hs', returned_within hs hi (Lts.forall_exec_of_all hlooks) hs'⟩

end WatchedStatus
end Zestors
