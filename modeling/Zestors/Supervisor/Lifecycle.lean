import Zestors.Lib.Once
import Zestors.Supervisor.Supervisee

/-!
# The life of a supervisee

Everything that can happen to one supervisee, over and over: it is started, stopped, polled, and asked
for permits. `contract_of_ends` is what the strategies rely on: which calls are followed by which
items, and how often, if whatever was started comes to an end.
-/

namespace Zestors
open Moments

/-- Whether the supervisee is dead after the item. -/
def SuperviseeItem.isTerminal : SuperviseeItem → Bool
  | .started (.ok _) | .initialized (.ok _) => false
  | .started (.error _) | .initialized (.error _) | .exit _ => true

namespace Supervisee

inductive LifeEvent
  | start
  | stop
  /-- The supervisee's stream is polled and yields an item. -/
  | item (item : SuperviseeItem)
  | permit (now : Instant)
  /-- Nothing happens to the supervisee, or it is polled and yields nothing. -/
  | idle

def live (sv : Supervisee) : LifeEvent → Option Supervisee
  | .start => some sv.start.1
  | .stop => some sv.stop.1
  | .item item => sv.supervise item
  | .permit now => some (sv.acquireRestartPermit now).1
  | .idle => some sv

def itemsLeft (sv : Supervisee) : ℕ :=
  match sv.state with
  | .starting => 3
  | .initializing => 2
  | .alive => 1
  | .shuttingDown => 1
  | .dead => 0

variable {sv sv' : Supervisee} {e : LifeEvent} {item : SuperviseeItem}

/-- An item that is not terminal leaves fewer items to come, a terminal one leaves none. -/
theorem supervise_cases (h : sv.supervise item = some sv') :
    (item.isTerminal = true ∧ sv'.state = .dead) ∨
      (item.isTerminal = false ∧ sv'.state ≠ .dead ∧ sv'.state ≠ .starting ∧
        sv.state ≠ .shuttingDown ∧ sv'.itemsLeft < sv.itemsLeft) := by
  unfold supervise at h
  split at h <;> cases h <;> simp_all [SuperviseeItem.isTerminal, itemsLeft, withState]

/-- A supervisee that is shutting down yields its exit and nothing else. -/
theorem supervise_shuttingDown (hs : sv.state = .shuttingDown)
    (h : sv.supervise item = some sv') : ∃ exit, item = .exit exit := by
  unfold supervise at h
  split at h <;> simp_all

theorem start_eq_error : sv.start.2 = .error .mk ↔ sv.state = .shuttingDown := by
  unfold start; split <;> simp_all

/-- Nothing but an item or a stop brings a supervisee closer to its end, and nothing but a start of a
dead one takes it further from it. -/
theorem itemsLeft_live (h : sv.live e = some sv') (hd : sv.state ≠ .dead) :
    sv'.itemsLeft ≤ sv.itemsLeft := by
  cases e with
  | start =>
    cases h
    rw [start_of_not_dead hd]
  | stop =>
    cases h
    cases hs : sv.state <;> simp [itemsLeft, stop, hs]
  | item item =>
    rcases supervise_cases h with ⟨-, hdead⟩ | ⟨-, -, -, -, hlt⟩
    · simp [itemsLeft, hdead]
    · exact hlt.le
  | permit now =>
    cases h
    simp [itemsLeft]
  | idle =>
    cases h
    exact le_rfl

/-- Only a stop before it was spawned, or a terminal item, takes a supervisee out of its life. -/
theorem dead_of_live (h : sv.live e = some sv') (hd : sv.state ≠ .dead) (hd' : sv'.state = .dead) :
    (∃ item, e = .item item ∧ item.isTerminal = true) ∨ e = .stop ∧ sv.stop.2 = .cancelled := by
  cases e with
  | start =>
    cases h
    rw [start_of_not_dead hd] at hd'
    exact absurd hd' hd
  | stop =>
    cases h
    refine .inr ⟨rfl, ?_⟩
    unfold stop at hd' ⊢
    split <;> simp_all
  | item item =>
    rcases supervise_cases h with ⟨hterm, -⟩ | ⟨-, hne, -⟩
    · exact .inl ⟨item, rfl, hterm⟩
    · exact absurd hd' hne
  | permit now =>
    cases h
    exact absurd (by simpa using hd') hd
  | idle =>
    cases h
    exact absurd hd' hd

theorem live_dead (h : sv.live e = some sv') (hd : sv.state = .dead) :
    (∀ item, e ≠ .item item) ∧ (e ≠ .start → sv'.state = .dead) := by
  cases e with
  | start => exact ⟨by simp, fun hne => absurd rfl hne⟩
  | stop =>
    cases h
    exact ⟨by simp, fun _ => by simp [stop, hd]⟩
  | item item => exact absurd hd (state_ne_dead_of_supervise h)
  | permit now =>
    cases h
    exact ⟨by simp, fun _ => by simpa using hd⟩
  | idle =>
    cases h
    exact ⟨by simp, fun _ => hd⟩

theorem live_shuttingDown (h : sv.live e = some sv') (hs : sv.state = .shuttingDown) :
    (∃ exit, e = .item (.exit exit) ∧ sv'.state = .dead) ∨
      (∀ item, e ≠ .item item) ∧ sv'.state = .shuttingDown := by
  cases e with
  | start =>
    cases h
    exact .inr ⟨by simp, by simp [start, hs]⟩
  | stop =>
    cases h
    exact .inr ⟨by simp, by simp [stop, hs]⟩
  | item item =>
    obtain ⟨exit, rfl⟩ := supervise_shuttingDown hs h
    rcases supervise_cases h with ⟨-, hdead⟩ | ⟨hterm, -⟩
    · exact .inl ⟨exit, rfl, hdead⟩
    · cases hterm
  | permit now =>
    cases h
    exact .inr ⟨by simp, by simpa using hs⟩
  | idle =>
    cases h
    exact .inr ⟨by simp, hs⟩

/-- An endless life of a supervisee, from its creation on. -/
structure Life where
  spec : ChildSpec
  state : ℕ → Supervisee
  event : ℕ → LifeEvent
  begins : state 0 = new spec
  lives : ∀ n, (state n).live (event n) = some (state (n + 1))

namespace Life
variable {l : Life} {n : ℕ}

/-- A start that begins anew: it returns `Ok(true)`. -/
def StartsAnew (l : Life) (n : ℕ) : Prop := l.event n = .start ∧ (l.state n).start.2 = .ok true

def StopsWith (l : Life) (outcome : StopOutcome) (n : ℕ) : Prop :=
  l.event n = .stop ∧ (l.state n).stop.2 = outcome

def Yields (l : Life) (n : ℕ) : Prop := ∃ item, l.event n = .item item

def Exits (l : Life) (n : ℕ) : Prop := ∃ exit, l.event n = .item (.exit exit)

def Terminates (l : Life) (n : ℕ) : Prop := ∃ item, l.event n = .item item ∧ item.isTerminal = true

/-- A stop cancels the start of moment `n`. -/
def Cancelled (l : Life) (n : ℕ) : Prop :=
  ∃ m, n < m ∧ l.StopsWith .cancelled m ∧ ∀ k, n < k → k < m → ¬ l.StartsAnew k

/-- The start, the initialization and the child itself come to an end: there is another item, or a stop
cancels the start. -/
def Ends (l : Life) : Prop :=
  ∀ n, (l.state n).state ≠ .dead → ∃ m, n ≤ m ∧ (l.Yields m ∨ (l.state m).state = .dead)

theorem Exits.terminates (h : l.Exits n) : l.Terminates n := by
  obtain ⟨exit, he⟩ := h
  exact ⟨_, he, rfl⟩

theorem Terminates.yields (h : l.Terminates n) : l.Yields n := by
  obtain ⟨item, he, -⟩ := h
  exact ⟨item, he⟩

theorem startsAnew_iff : l.StartsAnew n ↔ l.event n = .start ∧ (l.state n).state = .dead :=
  and_congr_right fun _ => start_eq_ok_true

theorem dead_of_terminates (h : l.Terminates n) : (l.state (n + 1)).state = .dead := by
  obtain ⟨item, he, hterm⟩ := h
  have hlive := l.lives n
  rw [he] at hlive
  rcases supervise_cases hlive with ⟨-, hdead⟩ | ⟨hnot, -⟩
  · exact hdead
  · rw [hterm] at hnot
    cases hnot

/-- Once dead, a supervisee yields nothing before it is started anew. -/
theorem quiet_of_dead (h : (l.state (n + 1)).state = .dead) : NoneUntil l.Yields l.StartsAnew n := by
  refine noneUntil_of_invariant (I := fun k => (l.state k).state = .dead) h ?_ ?_
  · rintro k hk ⟨item, he⟩
    exact (live_dead (l.lives k) hk).1 item he
  · intro k hk hnot
    exact (live_dead (l.lives k) hk).2 fun he => hnot (startsAnew_iff.2 ⟨he, hk⟩)

theorem yields_of_live (h : l.Ends) {k : ℕ} (hlive : ∀ j, k ≤ j → (l.state j).state ≠ .dead) :
    ∃ m, k ≤ m ∧ l.Yields m := by
  obtain ⟨m, hm, hyield | hdead⟩ := h k (hlive k le_rfl)
  · exact ⟨m, hm, hyield⟩
  · exact absurd hdead (hlive m hm)

/-- A stop that waits for an exit gets exactly one. -/
theorem exits_of_stopsWith (hends : l.Ends) (h : l.StopsWith .shuttingDown n) :
    OnceUntil l.Exits l.StartsAnew n := by
  have hafter : ∀ k, l.Exits k → NoneUntil l.Exits l.StartsAnew k := fun k hk =>
    (quiet_of_dead (dead_of_terminates hk.terminates)).mono fun _ hk => hk.terminates.yields
  refine onceUntil_of_rank (I := fun k => (l.state k).state = .shuttingDown) (T := l.Yields)
    (fun _ => 0) ?_ ?_ ?_ ?_ ?_ fun k _ => hafter k
  · have hlive := l.lives n
    rw [h.1] at hlive
    have hstop : (l.state n).stop.1.state =
        if (l.state n).stop.2.isShuttingDown then .shuttingDown else .dead := state_stop
    rw [h.2] at hstop
    rw [← Option.some.inj hlive]
    exact hstop
  · intro k hk hanew
    rw [startsAnew_iff, hk] at hanew
    cases hanew.2
  · intro k hk hnot
    rcases live_shuttingDown (l.lives k) hk with ⟨exit, he, -⟩ | ⟨-, hsame⟩
    · exact absurd ⟨exit, he⟩ hnot
    · exact ⟨hsame, le_rfl⟩
  · rintro k hk hnot ⟨item, he⟩
    rcases live_shuttingDown (l.lives k) hk with ⟨exit, he', -⟩ | ⟨hquiet, -⟩
    · exact absurd ⟨exit, he'⟩ hnot
    · exact absurd he (hquiet item)
  · exact fun k hall => yields_of_live hends fun j hj => by rw [hall j hj]; simp

/-- A start that is not cancelled ends in exactly one terminal item. -/
theorem terminates_of_startsAnew (hends : l.Ends) (h : l.StartsAnew n) (hnot : ¬ l.Cancelled n) :
    OnceUntil l.Terminates l.StartsAnew n := by
  have hafter : ∀ k, l.Terminates k → NoneUntil l.Terminates l.StartsAnew k := fun k hk =>
    (quiet_of_dead (dead_of_terminates hk)).mono fun _ hk => hk.yields
  refine onceUntil_of_rank (T := l.Yields) (I := fun k => n < k ∧ (l.state k).state ≠ .dead ∧
    ∀ j, n < j → j < k → ¬ l.StartsAnew j) (fun k => (l.state k).itemsLeft) ?_ ?_ ?_ ?_ ?_
    fun k _ => hafter k
  · refine ⟨Nat.lt_succ_self n, ?_, fun j _ _ => by omega⟩
    have hlive := l.lives n
    rw [h.1] at hlive
    rw [← Option.some.inj hlive, start_of_dead (startsAnew_iff.1 h).2]
    simp
  · intro k hk hanew
    exact hk.2.1 (startsAnew_iff.1 hanew).2
  · rintro k ⟨hlt, hk, hno⟩ hterm
    refine ⟨⟨by omega, fun hdead => ?_, fun j hj hjk => ?_⟩, itemsLeft_live (l.lives k) hk⟩
    · rcases dead_of_live (l.lives k) hk hdead with hitem | hstop
      · exact hterm hitem
      · exact hnot ⟨k, hlt, hstop, hno⟩
    · rcases Nat.lt_succ_iff_lt_or_eq.1 hjk with hjk | rfl
      · exact hno j hj hjk
      · exact fun hanew => hk (startsAnew_iff.1 hanew).2
  · rintro k ⟨-, hk, -⟩ hterm ⟨item, he⟩
    have hlive := l.lives k
    rw [he] at hlive
    rcases supervise_cases hlive with ⟨hitem, -⟩ | ⟨-, -, -, -, hlt⟩
    · exact absurd ⟨item, he, hitem⟩ hterm
    · exact hlt
  · exact fun k hall => yields_of_live hends fun j hj => (hall j hj).2.1

/-- What the strategies rely on. A stop that returns `ShuttingDown` is followed by exactly one exit
before the next start; a stop that returns `Dead` or `Cancelled` by no item before it; a start that
is not cancelled by exactly one terminal item; and a start is refused in the state `ShuttingDown`
only. -/
theorem contract_of_ends (l : Life) (hends : l.Ends) :
    (∀ n, l.StopsWith .shuttingDown n → OnceUntil l.Exits l.StartsAnew n) ∧
    (∀ n, l.StopsWith .dead n ∨ l.StopsWith .cancelled n → NoneUntil l.Yields l.StartsAnew n) ∧
    (∀ n, l.StartsAnew n → ¬ l.Cancelled n → OnceUntil l.Terminates l.StartsAnew n) ∧
    ∀ n, (l.state n).start.2 = .error .mk ↔ (l.state n).state = .shuttingDown := by
  refine ⟨fun n => exits_of_stopsWith hends, fun n h => quiet_of_dead ?_,
    fun n => terminates_of_startsAnew hends, fun n => start_eq_error⟩
  have hstop : (l.state n).stop.1.state =
      if (l.state n).stop.2.isShuttingDown then .shuttingDown else .dead := state_stop
  have hlive := l.lives n
  rcases h with ⟨he, hout⟩ | ⟨he, hout⟩
  · rw [he] at hlive
    rw [hout] at hstop
    rw [← Option.some.inj hlive]
    exact hstop
  · rw [he] at hlive
    rw [hout] at hstop
    rw [← Option.some.inj hlive]
    exact hstop

/-- A child is started, stopped before it is initialized, and gone for good. -/
def stopped (spec : ChildSpec) : Life where
  spec := spec
  state
    | 0 => new spec
    | 1 => (new spec).withState .starting
    | 2 => (new spec).withState .initializing
    | 3 => (new spec).withState .shuttingDown
    | _ => new spec
  event
    | 0 => .start
    | 1 => .item (.started (.ok ()))
    | 2 => .stop
    | 3 => .item (.exit .normalShutdown)
    | _ => .idle
  begins := rfl
  lives
    | 0 => rfl
    | 1 => rfl
    | 2 => rfl
    | 3 => rfl
    | _ + 4 => rfl

theorem ends_stopped (spec : ChildSpec) : (stopped spec).Ends
  | 0, _ => ⟨1, by omega, .inl ⟨_, rfl⟩⟩
  | 1, _ => ⟨1, le_rfl, .inl ⟨_, rfl⟩⟩
  | 2, _ => ⟨3, by omega, .inl ⟨_, rfl⟩⟩
  | 3, _ => ⟨3, le_rfl, .inl ⟨_, rfl⟩⟩
  | n + 4, _ => ⟨n + 4, le_rfl, .inr rfl⟩

/-- The exit that the stop is waiting for comes once. -/
theorem contract_of_ends_stopped :
    OnceUntil (stopped ⟨⟨"a"⟩, ⟨.never, none, 0, 0, 0⟩⟩).Exits
      (stopped ⟨⟨"a"⟩, ⟨.never, none, 0, 0, 0⟩⟩).StartsAnew 2 :=
  (contract_of_ends (stopped ⟨⟨"a"⟩, ⟨.never, none, 0, 0, 0⟩⟩) (ends_stopped _)).1 2 ⟨rfl, rfl⟩

end Life

end Supervisee

end Zestors
