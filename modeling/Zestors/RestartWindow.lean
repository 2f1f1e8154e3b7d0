import Zestors.Lib.ListOrder
import Zestors.RestartLimiter

/-!
# The sliding window of a restart budget

A limiter keeps the times of the restarts it has granted and drops those that have aged out when
the next attempt comes. For attempts in the order of time the history is then exactly the grants
within the window that ends now, so that an attempt is granted if and only if the window has room.
-/

namespace Zestors

namespace RestartIntensity

/-- The closed window that ends at `now`. -/
def inWindow (intensity : RestartIntensity) (now t : Instant) : Bool :=
  decide (now - intensity.within ≤ t ∧ t ≤ now)

variable {intensity : RestartIntensity} {now t : Instant}

theorem inWindow_iff : intensity.inWindow now t = true ↔ now - intensity.within ≤ t ∧ t ≤ now :=
  decide_eq_true_iff

/-- What a later window holds of the past, an earlier one holds as well. -/
theorem inWindow_mono {s : Instant} (ht : t ≤ s) (hs : s ≤ now)
    (h : intensity.inWindow now t = true) : intensity.inWindow s t = true := by
  rw [inWindow_iff] at h ⊢
  exact ⟨(Nat.sub_le_sub_right hs _).trans h.1, ht⟩

/-- Whatever window of this length it is, what it holds up to `now` the one that ends at `now`
holds. -/
theorem inWindow_of_le_add {w : Instant} (hw : w ≤ t) (ht : t ≤ now)
    (hnow : now ≤ w + intensity.within) : intensity.inWindow now t = true :=
  inWindow_iff.2 ⟨(Nat.sub_le_iff_le_add.2 hnow).trans hw, ht⟩

theorem isInfinite_eq_false (h : intensity ≠ infinite) : intensity.isInfinite = false := by
  rw [Bool.eq_false_iff]
  intro hinf
  rw [isInfinite, Bool.and_eq_true, beq_iff_eq, beq_iff_eq] at hinf
  apply h
  cases intensity
  simp only [infinite, RestartIntensity.mk.injEq]
  exact hinf

theorem inWindow_of_le (h : t ≤ now) :
    intensity.inWindow now t = !decide (intensity.within < now.durationSince t) := by
  have haged : now - intensity.within ≤ t ↔ ¬ intensity.within < now - t := by
    rw [Nat.sub_le_iff_le_add, not_lt, Nat.sub_le_iff_le_add, Nat.add_comm]
  rw [inWindow, ← decide_not, decide_eq_decide, haged]
  exact and_iff_left h

/-- Of restarts in the order of time those at the front age out first. -/
theorem dropExpired_eq_filter {restarts : List Instant} (hs : restarts.Pairwise (· ≤ ·))
    (hle : ∀ t ∈ restarts, t ≤ now) :
    intensity.dropExpired now restarts = restarts.filter (intensity.inWindow now) := by
  rw [dropExpired, List.dropWhile_eq_filter hs]
  · exact List.filter_congr fun t ht => (inWindow_of_le (hle t ht)).symm
  · intro a b hab hb
    exact decide_eq_true ((of_decide_eq_true hb).trans_le (Nat.sub_le_sub_left hab now))

end RestartIntensity

namespace RestartLimiter
variable {limiter limiter' : RestartLimiter} {granted : List Instant} {now t : Instant}

/-- The limiter after an attempt at each of these times. -/
def attempts (limiter : RestartLimiter) : List Instant → RestartLimiter
  | [] => limiter
  | t :: times => (limiter.acquirePermit t).1.attempts times

/-- What it answers to each of them. -/
def answers (limiter : RestartLimiter) : List Instant → List Bool
  | [] => []
  | t :: times => (limiter.acquirePermit t).2 :: (limiter.acquirePermit t).1.answers times

/-- The times at which it grants one. -/
def grants (limiter : RestartLimiter) : List Instant → List Instant
  | [] => []
  | t :: times => (if (limiter.acquirePermit t).2 then [t] else []) ++
      (limiter.acquirePermit t).1.grants times

theorem grants_append (l l' : List Instant) :
    limiter.grants (l ++ l') = limiter.grants l ++ (limiter.attempts l).grants l' := by
  induction l generalizing limiter with
  | nil => rfl
  | cons t l ih => simp only [List.cons_append, grants, attempts, ih, List.append_assoc]

@[simp] theorem attempts_intensity (l : List Instant) :
    (limiter.attempts l).intensity = limiter.intensity := by
  induction l generalizing limiter with
  | nil => rfl
  | cons t l ih => exact ih

/-- The grants up to `now` are in the order of time, and the history is what the window holds
of them. -/
structure Windowed (limiter : RestartLimiter) (granted : List Instant) (now : Instant) : Prop where
  sorted : granted.Pairwise (· ≤ ·)
  past : ∀ t ∈ granted, t ≤ now
  holds : limiter.restarts = granted.filter (limiter.intensity.inWindow now)

theorem windowed_new (intensity : RestartIntensity) (now : Instant) :
    Windowed (new intensity) [] now where
  sorted := .nil
  past := by simp
  holds := rfl

namespace Windowed

theorem dropExpired (h : Windowed limiter granted now) (hle : now ≤ t) :
    limiter.intensity.dropExpired t limiter.restarts =
      granted.filter (limiter.intensity.inWindow t) := by
  have hsub : limiter.restarts.Sublist granted := h.holds ▸ List.filter_sublist
  rw [RestartIntensity.dropExpired_eq_filter (h.sorted.sublist hsub)
    fun g hg => (h.past g (hsub.subset hg)).trans hle, h.holds, List.filter_filter]
  refine List.filter_congr fun g hg => ?_
  have hmono : limiter.intensity.inWindow t g = true → limiter.intensity.inWindow now g = true :=
    RestartIntensity.inWindow_mono (h.past g hg) hle
  cases hin : limiter.intensity.inWindow t g with
  | false => rfl
  | true => exact hmono hin

theorem acquirePermit_iff (h : Windowed limiter granted now) (hle : now ≤ t)
    (hfin : limiter.intensity.isInfinite = false) :
    (limiter.acquirePermit t).2 = true ↔
      granted.countP (limiter.intensity.inWindow t) < limiter.intensity.maxRestarts.toNat := by
  simp only [RestartLimiter.acquirePermit, RestartIntensity.allowRestart, hfin, Bool.false_eq_true,
    if_false, h.dropExpired hle, ← List.countP_eq_length_filter]
  split_ifs with hfull
  · simpa using hfull
  · simpa using hfull

theorem acquirePermit (h : Windowed limiter granted now) (hle : now ≤ t)
    (hfin : limiter.intensity.isInfinite = false) :
    Windowed (limiter.acquirePermit t).1
      (granted ++ if (limiter.acquirePermit t).2 then [t] else []) t := by
  have hpast : ∀ g ∈ granted, g ≤ t := fun g hg => (h.past g hg).trans hle
  have hself : limiter.intensity.inWindow t t = true := by
    simp [RestartIntensity.inWindow]
  simp only [RestartLimiter.acquirePermit, RestartIntensity.allowRestart, hfin, Bool.false_eq_true,
    if_false, h.dropExpired hle]
  split_ifs with hfull
  · exact ⟨by simpa using h.sorted, by simpa using hpast, by simp⟩
  · refine ⟨List.pairwise_append.2 ⟨h.sorted, List.pairwise_singleton _ _, ?_⟩, ?_, ?_⟩
    · simpa using hpast
    · intro g hg
      rcases List.mem_append.1 hg with hg | hg
      · exact hpast g hg
      · exact (List.mem_singleton.1 hg).le
    · simp [List.filter_append, hself]

theorem answers_eq {now' : Instant} {times : List Instant} (h : Windowed limiter granted now)
    (h' : Windowed limiter' granted now') (hi : limiter'.intensity = limiter.intensity)
    (hfin : limiter.intensity.isInfinite = false) (hs : times.Pairwise (· ≤ ·))
    (hle : ∀ t ∈ times, now ≤ t ∧ now' ≤ t) : limiter'.answers times = limiter.answers times := by
  induction times generalizing limiter limiter' granted now now' with
  | nil => rfl
  | cons t times ih =>
    rw [List.pairwise_cons] at hs
    obtain ⟨hnow, hnow'⟩ := hle t List.mem_cons_self
    have hfin' : limiter'.intensity.isInfinite = false := hi ▸ hfin
    have hsame : (limiter'.acquirePermit t).2 = (limiter.acquirePermit t).2 := by
      rw [Bool.eq_iff_iff, h.acquirePermit_iff hnow hfin, h'.acquirePermit_iff hnow' hfin', hi]
    have hnext := h'.acquirePermit hnow' hfin'
    rw [hsame] at hnext
    rw [answers, answers, hsame, ih (h.acquirePermit hnow hfin) hnext hi hfin hs.2
      fun s hs' => ⟨hs.1 s hs', hs.1 s hs'⟩]

theorem attempts (h : Windowed limiter granted now) (hfin : limiter.intensity.isInfinite = false)
    {times : List Instant} (hs : (now :: times ++ [t]).Pairwise (· ≤ ·)) :
    ∃ last ≤ t, now ≤ last ∧
      Windowed (limiter.attempts times) (granted ++ limiter.grants times) last := by
  induction times generalizing limiter granted now with
  | nil =>
    exact ⟨now, by simpa using hs, le_rfl, by simpa [RestartLimiter.attempts, RestartLimiter.grants] using h⟩
  | cons s times ih =>
    rw [List.cons_append, List.pairwise_cons] at hs
    have hle : now ≤ s := hs.1 s (by simp)
    obtain ⟨last, hlast, hge, hw⟩ := ih (h.acquirePermit hle hfin) hfin hs.2
    exact ⟨last, hlast, hle.trans hge, by
      simpa only [RestartLimiter.attempts, RestartLimiter.grants, List.append_assoc] using hw⟩

end Windowed

variable {intensity : RestartIntensity} {times : List Instant}

theorem attempts_new (times : List Instant) : ((new intensity).attempts times).intensity = intensity :=
  attempts_intensity times

theorem windowed_attempts (hfin : intensity.isInfinite = false)
    (hs : (times ++ [t]).Pairwise (· ≤ ·)) :
    ∃ last ≤ t, Windowed ((new intensity).attempts times) ((new intensity).grants times) last := by
  have hs' : (0 :: times ++ [t]).Pairwise (· ≤ ·) :=
    List.pairwise_cons.2 ⟨fun _ _ => Nat.zero_le _, hs⟩
  obtain ⟨last, hlast, -, hw⟩ := (windowed_new intensity 0).attempts hfin hs'
  exact ⟨last, hlast, hw⟩

/-- No window, wherever it lies, holds more grants than the budget: when its last one was granted,
the window that ended there held all the others. -/
theorem countP_grants_le (hfin : intensity.isInfinite = false) (hs : times.Pairwise (· ≤ ·))
    (w : Instant) :
    ((new intensity).grants times).countP (fun g => decide (w ≤ g ∧ g ≤ w + intensity.within)) ≤
      intensity.maxRestarts.toNat := by
  induction times using List.reverseRecOn with
  | nil => exact Nat.zero_le _
  | append_singleton times t ih =>
    obtain ⟨last, hlast, hw⟩ := windowed_attempts hfin hs
    have hbefore := ih (List.pairwise_append.1 hs).1
    rw [grants_append, List.countP_append, grants, grants, List.append_nil]
    split_ifs with hgrant
    · rw [hw.acquirePermit_iff hlast (by rw [attempts_new]; exact hfin), attempts_new] at hgrant
      rw [List.countP_singleton]
      split_ifs with ht
      · have hroom : ((new intensity).grants times).countP
            (fun g => decide (w ≤ g ∧ g ≤ w + intensity.within)) ≤
            ((new intensity).grants times).countP (intensity.inWindow t) := by
          refine List.countP_mono_left fun g hg hin => ?_
          exact RestartIntensity.inWindow_of_le_add (of_decide_eq_true hin).1
            ((hw.past g hg).trans hlast) (of_decide_eq_true ht).2
        exact Nat.lt_of_le_of_lt hroom hgrant
      · exact hbefore
    · exact hbefore

/-- For attempts in the order of time: one is granted if and only if the window that ends there
has room, no window holds more grants than the budget, and what comes after a refused attempt is
answered as if there had been none. -/
theorem slidingWindow_exact (intensity : RestartIntensity) (hfin : intensity ≠ .infinite)
    (times : List Instant) (hs : times.Pairwise (· ≤ ·)) :
    (∀ before t later, times = before ++ t :: later →
      ((((new intensity).attempts before).acquirePermit t).2 = true ↔
        ((new intensity).grants before).countP
          (fun g => decide (t - intensity.within ≤ g ∧ g ≤ t)) < intensity.maxRestarts.toNat)) ∧
    (∀ w, ((new intensity).grants times).countP
      (fun g => decide (w ≤ g ∧ g ≤ w + intensity.within)) ≤ intensity.maxRestarts.toNat) ∧
    ∀ before t later, times = before ++ t :: later →
      (((new intensity).attempts before).acquirePermit t).2 = false →
      (((new intensity).attempts before).acquirePermit t).1.answers later =
        ((new intensity).attempts before).answers later := by
  have hfin := RestartIntensity.isInfinite_eq_false hfin
  refine ⟨?_, countP_grants_le hfin hs, ?_⟩
  · rintro before t later rfl
    have hpre : (before ++ [t]).Pairwise (· ≤ ·) := by
      rw [List.append_cons] at hs
      exact (List.pairwise_append.1 hs).1
    obtain ⟨last, hlast, hw⟩ := windowed_attempts hfin hpre
    rw [hw.acquirePermit_iff hlast (by rw [attempts_new]; exact hfin), attempts_new]
    rfl
  · rintro before t later rfl hrefused
    have hpre : (before ++ [t]).Pairwise (· ≤ ·) := by
      rw [List.append_cons] at hs
      exact (List.pairwise_append.1 hs).1
    obtain ⟨last, hlast, hw⟩ := windowed_attempts hfin hpre
    have hlater : (t :: later).Pairwise (· ≤ ·) := (List.pairwise_append.1 hs).2.1
    have hafter := hw.acquirePermit hlast (by rw [attempts_new]; exact hfin)
    rw [hrefused] at hafter
    rw [List.pairwise_cons] at hlater
    exact hw.answers_eq (by simpa using hafter) rfl (by rw [attempts_new]; exact hfin) hlater.2
      fun s hs => ⟨hlast.trans (hlater.1 s hs), hlater.1 s hs⟩

/-- Two in three nanoseconds: the third attempt is refused, the fourth comes when the first has
aged out. -/
theorem slidingWindow_exact_four :
    (new ⟨2, 3⟩).answers [0, 1, 3, 4] = [true, true, false, true] ∧
      ((new ⟨2, 3⟩).grants [0, 1, 3, 4]).countP (fun g => decide (1 ≤ g ∧ g ≤ 4)) ≤ 2 :=
  ⟨by decide, (slidingWindow_exact ⟨2, 3⟩ (by decide) [0, 1, 3, 4] (by decide)).2.1 1⟩

end RestartLimiter

end Zestors
