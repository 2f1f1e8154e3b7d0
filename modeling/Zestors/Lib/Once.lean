import Mathlib.Order.Basic
import Mathlib.Data.Nat.Find
import Mathlib.Tactic.Common

/-!
# Happening once

What happens at the moments of an endless run, as predicates on `ℕ`. `NoneUntil P Q n` says that after
`n` there is no `P` before the next `Q`, and `OnceUntil P Q n` that there is one. An invariant shows
the former; the latter needs a bound that goes down again and again until `P` happens
(`exists_first_of_rank`).
-/

namespace Moments

/-- After `n` there is no `P` before the next `Q`. -/
def NoneUntil (P Q : ℕ → Prop) (n : ℕ) : Prop := ∀ k, n < k → P k → ∃ j, n < j ∧ j < k ∧ Q j

/-- After `n` there is exactly one `P` before the next `Q`. -/
def OnceUntil (P Q : ℕ → Prop) (n : ℕ) : Prop :=
  ∃ m, n < m ∧ P m ∧ (∀ k, n < k → k < m → ¬ P k ∧ ¬ Q k) ∧ NoneUntil P Q m

variable {P Q I T : ℕ → Prop} {n : ℕ}

/-- While `I` holds there is no `P`, and only a `Q` ends it. -/
theorem noneUntil_of_invariant (h : I (n + 1)) (hnot : ∀ k, I k → ¬ P k)
    (hkeep : ∀ k, I k → ¬ Q k → I (k + 1)) : NoneUntil P Q n := by
  intro k hk hP
  by_contra hnone
  have hall : ∀ j, n + 1 ≤ j → j ≤ k → I j := by
    intro j hj
    induction j, hj using Nat.le_induction with
    | base => exact fun _ => h
    | succ j hj ih =>
      intro hjk
      exact hkeep j (ih (by omega)) fun hQ => hnone ⟨j, by omega, by omega, hQ⟩
  exact hnot k (hall k hk le_rfl) hP

theorem NoneUntil.mono {P' : ℕ → Prop} (h : NoneUntil P Q n) (hP : ∀ k, P' k → P k) :
    NoneUntil P' Q n := fun k hk hk' => h k hk (hP k hk')

/-- Where `I` goes on until `P` happens, and a bound goes down with every `T` before that, `P` does
happen if there is always another `T`. -/
theorem exists_first_of_rank (rank : ℕ → ℕ) (h : I n)
    (hkeep : ∀ k, I k → ¬ P k → I (k + 1) ∧ rank (k + 1) ≤ rank k)
    (hdown : ∀ k, I k → ¬ P k → T k → rank (k + 1) < rank k)
    (hfair : ∀ k, n ≤ k → (∀ j, k ≤ j → I j) → ∃ m, k ≤ m ∧ T m) :
    ∃ m, n ≤ m ∧ P m ∧ I m ∧ ∀ k, n ≤ k → k < m → I k ∧ ¬ P k := by
  classical
  have hsome : ∃ m, n ≤ m ∧ P m := by
    by_contra hnone
    have hnot : ∀ k, n ≤ k → ¬ P k := fun k hk hP => hnone ⟨k, hk, hP⟩
    have hI : ∀ k, n ≤ k → I k := by
      intro k hk
      induction k, hk using Nat.le_induction with
      | base => exact h
      | succ k hk ih => exact (hkeep k ih (hnot k hk)).1
    have hle : ∀ k m, n ≤ k → k ≤ m → rank m ≤ rank k := by
      intro k m hk hm
      induction m, hm using Nat.le_induction with
      | base => exact le_rfl
      | succ m hm ih =>
        exact (hkeep m (hI m (hk.trans hm)) (hnot m (hk.trans hm))).2.trans ih
    have hbound : ∀ b k, n ≤ k → rank k ≤ b → False := by
      intro b
      induction b with
      | zero =>
        intro k hk hb
        obtain ⟨m, hm, hT⟩ := hfair k hk fun j hj => hI j (hk.trans hj)
        have hlt := hdown m (hI m (hk.trans hm)) (hnot m (hk.trans hm)) hT
        have hmk := hle k m hk hm
        omega
      | succ b ih =>
        intro k hk hb
        obtain ⟨m, hm, hT⟩ := hfair k hk fun j hj => hI j (hk.trans hj)
        have hlt := hdown m (hI m (hk.trans hm)) (hnot m (hk.trans hm)) hT
        have hmk := hle k m hk hm
        exact ih (m + 1) (by omega) (by omega)
    exact hbound (rank n) n le_rfl le_rfl
  obtain ⟨hn, hP⟩ := Nat.find_spec hsome
  have hfirst : ∀ k, n ≤ k → k < Nat.find hsome → ¬ P k :=
    fun k hk hlt hPk => Nat.find_min hsome hlt ⟨hk, hPk⟩
  have hI : ∀ k, n ≤ k → k ≤ Nat.find hsome → I k := by
    intro k hk
    induction k, hk using Nat.le_induction with
    | base => exact fun _ => h
    | succ k hk ih => exact fun hlt => (hkeep k (ih (by omega)) (hfirst k hk hlt)).1
  exact ⟨_, hn, hP, hI _ hn le_rfl, fun k hk hlt => ⟨hI k hk hlt.le, hfirst k hk hlt⟩⟩

/-- While `I` holds there is no `Q`; the first `P` is followed by no other before the next `Q`. -/
theorem onceUntil_of_rank (rank : ℕ → ℕ) (h : I (n + 1)) (hnot : ∀ k, I k → ¬ Q k)
    (hkeep : ∀ k, I k → ¬ P k → I (k + 1) ∧ rank (k + 1) ≤ rank k)
    (hdown : ∀ k, I k → ¬ P k → T k → rank (k + 1) < rank k)
    (hfair : ∀ k, (∀ j, k ≤ j → I j) → ∃ m, k ≤ m ∧ T m)
    (hafter : ∀ k, I k → P k → NoneUntil P Q k) : OnceUntil P Q n := by
  obtain ⟨m, hm, hP, hI, hbefore⟩ :=
    exists_first_of_rank rank h hkeep hdown fun k _ => hfair k
  exact ⟨m, hm, hP, fun k hk hlt => ⟨(hbefore k hk hlt).2, hnot k (hbefore k hk hlt).1⟩,
    hafter m hI hP⟩

end Moments
