import Mathlib.Tactic.Common

/-!
# Waiting to be notified

`tokio::sync::Notify` with one waiter, and the loop in which the waiter enables its `Notified` before it
looks at what it waits for. `notify_one` hands the notification to the waiter that is enabled and stores
a permit otherwise, and several notifications make one permit; so whoever looked first and enabled
afterwards would sleep through a push in between. `Heeded` says that this loop does not.

`Fresh` is for whoever waits for the next change of something whose changes are counted.
-/

/-- An enabled `Notified`. `waker` says that it was polled since, so that the task is woken with it. -/
inductive Notified
  | waiting (waker : Bool)
  | notified
  /-- It has taken the permit. -/
  | done
deriving DecidableEq

/-- Where a loop of `enable`, a look and `await` is; `idle` when there is no loop, and no `Notified`. -/
inductive NotifyStage
  | idle
  | enable
  | look (fut : Notified)
  | await (fut : Notified)
deriving DecidableEq

/-- A notifier with the loop that waits for it. -/
structure NotifyLoop where
  permit : Bool
  stage : NotifyStage
deriving DecidableEq

namespace Notified

/-- The loop will go round again without waiting. -/
def ready : Notified → Bool
  | waiting _ => false
  | notified | done => true

/-- `Notified` is notified; whether that wakes a task. -/
def notify : Notified → Option (Notified × Bool)
  | waiting waker => some (notified, waker)
  | notified | done => none

end Notified

namespace NotifyStage

/-- The `Notified` that exists, if any. -/
def fut? : NotifyStage → Option Notified
  | idle | enable => none
  | look fut | await fut => some fut

/-- There is a loop, and it has no `Notified` that was notified or has the permit. -/
def sleepy : NotifyStage → Bool
  | await fut => !fut.ready
  | _ => false

/-- The loop sleeps: its task is to be woken. -/
def asleep : NotifyStage → Bool
  | await (.waiting true) => true
  | _ => false

def setFut (fut : Notified) : NotifyStage → NotifyStage
  | idle => idle
  | enable => enable
  | look _ => look fut
  | await _ => await fut

end NotifyStage

namespace NotifyLoop
variable {l l' : NotifyLoop} {items owed : ℕ}

def new : NotifyLoop := ⟨false, .idle⟩

/-- `Notify::notify_one`, and whether it wakes the task. -/
def notifyOne (l : NotifyLoop) : NotifyLoop × Bool :=
  match l.stage.fut?.bind Notified.notify with
  | some (fut, wakes) => ({ l with stage := l.stage.setFut fut }, wakes)
  | none => ({ l with permit := true }, false)

/-- The loop begins, or goes round again: `Notify::notified`. -/
def renew (l : NotifyLoop) : NotifyLoop := { l with stage := .enable }

/-- `Notified::enable` of a new one: it takes the permit if there is one. -/
def enable (l : NotifyLoop) : NotifyLoop :=
  if l.permit then ⟨false, .look .done⟩ else ⟨false, .look (.waiting false)⟩

/-- There was nothing to take. -/
def wait (l : NotifyLoop) (fut : Notified) : NotifyLoop := { l with stage := .await fut }

/-- The `Notified` was polled in vain, and knows now whom to wake. -/
def sleep (l : NotifyLoop) : NotifyLoop := { l with stage := .await (.waiting true) }

/-- The `Notified` is dropped: one that was notified and has not said so hands it on. -/
def drop (l : NotifyLoop) : NotifyLoop :=
  ⟨l.permit || l.stage.fut? == some .notified, .idle⟩

/-- Whoever is past its look and was not notified since has left nothing behind but what is still to be
notified of. -/
def Heeded (l : NotifyLoop) (items owed : ℕ) : Prop := l.stage.sleepy = true → items ≤ owed

theorem Heeded.of_not_sleepy (h : l.stage.sleepy = false) : l.Heeded items owed := by
  intro hsleepy
  rw [h] at hsleepy
  cases hsleepy

/-- One more was pushed, whose notification is owed. -/
theorem Heeded.push (h : l.Heeded items owed) : l.Heeded (items + 1) (owed + 1) := by
  intro hsleepy
  have hle := h hsleepy
  omega

theorem Heeded.take (h : l.Heeded (items + 1) owed) : l.Heeded items owed := by
  intro hsleepy
  have hle := h hsleepy
  omega

theorem sleepy_notifyOne : l.notifyOne.1.stage.sleepy = false := by
  unfold notifyOne
  cases hstage : l.stage with
  | idle | enable => simp [NotifyStage.fut?, NotifyStage.sleepy]
  | look fut | await fut =>
    cases fut <;> simp [NotifyStage.fut?, Notified.notify, NotifyStage.setFut, NotifyStage.sleepy,
      Notified.ready]

theorem Heeded.notifyOne : l.notifyOne.1.Heeded items owed := .of_not_sleepy sleepy_notifyOne

theorem Heeded.renew : l.renew.Heeded items owed := .of_not_sleepy rfl

theorem Heeded.enable : l.enable.Heeded items owed := by
  refine .of_not_sleepy ?_
  unfold NotifyLoop.enable
  split <;> rfl

theorem Heeded.drop : l.drop.Heeded items owed := .of_not_sleepy rfl

/-- The loop looked and saw nothing. -/
theorem Heeded.wait {fut : Notified} : (l.wait fut).Heeded 0 owed := fun _ => Nat.zero_le _

theorem Heeded.sleep {waker : Bool} (h : l.Heeded items owed) (hstage : l.stage = .await (.waiting waker)) :
    l.sleep.Heeded items owed := by
  intro _
  refine h ?_
  rw [hstage]
  rfl

/-- A loop that sleeps has left nothing behind. -/
theorem Heeded.le (h : l.Heeded items owed) (hasleep : l.stage.asleep = true) : items ≤ owed := by
  refine h ?_
  cases hstage : l.stage with
  | idle | enable | look fut => rw [hstage] at hasleep; cases hasleep
  | await fut => cases fut <;> rw [hstage] at hasleep <;> first | rfl | cases hasleep

theorem notifyOne_ne_idle (h : l.stage ≠ .idle) : l.notifyOne.1.stage ≠ .idle := by
  unfold notifyOne
  cases hstage : l.stage with
  | idle => exact absurd hstage h
  | enable => simp [NotifyStage.fut?]
  | look fut | await fut =>
    cases fut <;> simp [NotifyStage.fut?, Notified.notify, NotifyStage.setFut]

/-- A loop that sleeps is woken by what notifies it. -/
theorem notifyOne_wakes (h : l.stage.asleep = true) : l.notifyOne.2 = true := by
  unfold notifyOne
  cases hstage : l.stage with
  | idle | enable | look fut => rw [hstage] at h; cases h
  | await fut =>
    cases fut with
    | waiting waker => rw [hstage] at h; cases waker <;> first | rfl | cases h
    | notified | done => rw [hstage] at h; cases h

/-! ## How long a loop goes on by itself -/

/-- A bound on the steps that the loop has left before it sleeps, with nothing else to take. -/
def bound (l : NotifyLoop) : ℕ :=
  (if l.permit then 4 else 0) +
    match l.stage with
    | .idle => 0
    | .enable => 3
    | .look fut => if fut.ready then 6 else 2
    | .await fut => if fut.ready then 5 else 1

theorem bound_enable (h : l.stage = .enable) : l.enable.bound < l.bound := by
  unfold bound enable
  rw [h]
  cases l.permit <;> simp [Notified.ready]

theorem bound_wait {fut : Notified} (h : l.stage = .look fut) : (l.wait fut).bound < l.bound := by
  unfold bound wait
  rw [h]
  cases fut <;> simp [Notified.ready]

theorem bound_renew {fut : Notified} (h : l.stage = .await fut) (hready : fut.ready = true) :
    l.renew.bound < l.bound := by
  unfold bound renew
  rw [h]
  simp [hready]

theorem bound_sleep {waker : Bool} (h : l.stage = .await (.waiting waker)) : l.sleep.bound = l.bound := by
  unfold bound sleep
  rw [h]
  rfl

theorem bound_renew_le : l.renew.bound ≤ l.bound + 3 := by
  unfold bound renew
  dsimp only
  omega

/-- A notification makes the loop go round once more at most. -/
theorem bound_notifyOne : l.notifyOne.1.bound ≤ l.bound + 4 := by
  unfold notifyOne
  cases hstage : l.stage with
  | idle | enable => cases hpermit : l.permit <;> simp [NotifyStage.fut?, bound, hstage, hpermit]
  | look fut | await fut =>
    cases fut <;> cases hpermit : l.permit <;>
      simp [NotifyStage.fut?, Notified.notify, NotifyStage.setFut, Notified.ready, bound, hstage, hpermit]

theorem bound_drop : l.drop.bound ≤ l.bound := by
  unfold bound drop
  cases l.stage with
  | idle | enable => cases l.permit <;> simp [NotifyStage.fut?]
  | look fut | await fut => cases l.permit <;> cases fut <;> simp [NotifyStage.fut?, Notified.ready]

end NotifyLoop

/-! ## Waiting for a change -/

/-- Who has been told of the first `seen` changes and `looked` since; there have been `version` of them, and
the value is `value`. As long as there is nothing new to be told, what was looked at is what there is. -/
def Fresh {α : Type*} (seen version : ℕ) (looked value : α) : Prop :=
  seen ≤ version ∧ (seen = version → looked = value)

namespace Fresh
variable {α : Type*} {seen version version' : ℕ} {looked value value' : α}

theorem look (h : seen ≤ version) : Fresh seen version value value := ⟨h, fun _ => rfl⟩

/-- Whatever changes the value is counted. -/
theorem change (h : Fresh seen version looked value) (hle : version ≤ version')
    (heq : version' = version → value' = value) : Fresh seen version' looked value' := by
  obtain ⟨hseen, hlooked⟩ := h
  refine ⟨Nat.le_trans hseen hle, fun hversion => ?_⟩
  have hsame : version' = version := by omega
  rw [heq hsame]
  exact hlooked (by omega)

end Fresh
