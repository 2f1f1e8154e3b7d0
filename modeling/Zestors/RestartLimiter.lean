import Mathlib.Data.List.Basic
import Mathlib.Tactic.Common

/-!
# Restart budgets

How many restarts a supervisor, or one of its children, may make within a sliding window of time.
-/

namespace Zestors

/-- A reading of the monotonic clock, in nanoseconds. -/
abbrev Instant := ℕ

/-- A span of time, in nanoseconds. -/
abbrev Duration := ℕ

/-- `Instant::duration_since`, which saturates at zero. -/
def Instant.durationSince (now earlier : Instant) : Duration := now - earlier

structure RestartIntensity where
  maxRestarts : UInt16
  within : Duration
deriving DecidableEq

namespace RestartIntensity

/-- `u16::MAX` with a zero window stands for "no limit". -/
def isInfinite (intensity : RestartIntensity) : Bool :=
  intensity.maxRestarts == 65535 && intensity.within == 0

def infinite : RestartIntensity := ⟨65535, 0⟩

/-- Three restarts within five minutes. -/
def default : RestartIntensity := ⟨3, 300000000000⟩

/-- The history without the entries at its front that have aged out of the window. -/
def dropExpired (intensity : RestartIntensity) (now : Instant) (restarts : List Instant) :
    List Instant :=
  restarts.dropWhile fun front => decide (intensity.within < now.durationSince front)

/-- Records a restart at `now` in the history, oldest first, unless the budget is used up. -/
def allowRestart (intensity : RestartIntensity) (now : Instant) (restarts : List Instant) :
    List Instant × Bool :=
  if intensity.isInfinite then (restarts, true)
  else if intensity.maxRestarts.toNat ≤ (intensity.dropExpired now restarts).length then
    (intensity.dropExpired now restarts, false)
  else (intensity.dropExpired now restarts ++ [now], true)

variable {intensity : RestartIntensity} {now : Instant} {restarts : List Instant}

theorem length_dropExpired_le : (intensity.dropExpired now restarts).length ≤ restarts.length :=
  (List.dropWhile_sublist _).length_le

theorem mem_of_mem_dropExpired {t : Instant} (h : t ∈ intensity.dropExpired now restarts) :
    t ∈ restarts :=
  (List.dropWhile_sublist _).subset h

theorem dropExpired_eq_self (h : ∀ t ∈ restarts, now.durationSince t ≤ intensity.within) :
    intensity.dropExpired now restarts = restarts := by
  cases restarts with
  | nil => rfl
  | cons t l =>
    have ht := h t List.mem_cons_self
    rw [dropExpired, List.dropWhile_cons_of_neg (by simpa using ht)]

theorem length_allowRestart_le (h : restarts.length ≤ intensity.maxRestarts.toNat) :
    (intensity.allowRestart now restarts).1.length ≤ intensity.maxRestarts.toNat := by
  have hd : (intensity.dropExpired now restarts).length ≤ restarts.length := length_dropExpired_le
  unfold allowRestart
  split_ifs with _ hfull
  · exact h
  · exact Nat.le_trans hd h
  · rw [List.length_append, List.length_singleton]
    omega

theorem mem_allowRestart {t : Instant} (h : t ∈ (intensity.allowRestart now restarts).1) :
    t ∈ restarts ∨ t = now := by
  unfold allowRestart at h
  split_ifs at h
  · exact .inl h
  · exact .inl (mem_of_mem_dropExpired h)
  · exact (List.mem_append.1 h).imp mem_of_mem_dropExpired List.mem_singleton.1

/-- Within the window every permit that is granted is recorded, and nothing else. -/
theorem length_allowRestart (hfin : intensity.isInfinite = false)
    (h : ∀ t ∈ restarts, now.durationSince t ≤ intensity.within) :
    (intensity.allowRestart now restarts).1.length =
      restarts.length + if (intensity.allowRestart now restarts).2 then 1 else 0 := by
  unfold allowRestart
  rw [if_neg (by simp [hfin]), dropExpired_eq_self h]
  split_ifs with h₁ h₂ h₂ <;> simp_all

end RestartIntensity

/-- A budget together with the restarts it still counts. -/
structure RestartLimiter where
  intensity : RestartIntensity
  restarts : List Instant
  bounded : restarts.length ≤ intensity.maxRestarts.toNat
deriving DecidableEq

namespace RestartLimiter

def new (intensity : RestartIntensity) : RestartLimiter := ⟨intensity, [], Nat.zero_le _⟩

/-- Takes a permit at `now`, if there is one left. -/
def acquirePermit (limiter : RestartLimiter) (now : Instant) : RestartLimiter × Bool :=
  (⟨limiter.intensity, (limiter.intensity.allowRestart now limiter.restarts).1,
      RestartIntensity.length_allowRestart_le limiter.bounded⟩,
    (limiter.intensity.allowRestart now limiter.restarts).2)

@[simp] theorem acquirePermit_intensity (limiter : RestartLimiter) (now : Instant) :
    (limiter.acquirePermit now).1.intensity = limiter.intensity := rfl

theorem mem_acquirePermit {limiter : RestartLimiter} {now t : Instant}
    (h : t ∈ (limiter.acquirePermit now).1.restarts) : t ∈ limiter.restarts ∨ t = now :=
  RestartIntensity.mem_allowRestart h

theorem length_acquirePermit (limiter : RestartLimiter) (now : Instant)
    (hfin : limiter.intensity.isInfinite = false)
    (h : ∀ t ∈ limiter.restarts, now.durationSince t ≤ limiter.intensity.within) :
    (limiter.acquirePermit now).1.restarts.length =
      limiter.restarts.length + if (limiter.acquirePermit now).2 then 1 else 0 :=
  RestartIntensity.length_allowRestart hfin h

end RestartLimiter

end Zestors
