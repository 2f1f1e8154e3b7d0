import Mathlib.Tactic.Common

/-!
# Labelled transition systems

A system is a set of initial states and a labelled step relation. A run is any finite sequence of
steps from an initial state, so `Reachable` ranges over every interleaving. `guard` keeps the steps
that meet a condition on the state before the step and the event: a theorem about the runs of
`M.guard ok` is a theorem about the runs of `M` whose steps all meet `ok`.

What comes about in the end is `Inevitable`, if nothing but the steps of the system can happen; where others
may come in between for ever, `exec_bound` counts the steps of the one that it takes.
-/

universe u v

/-- A labelled transition system: where a run may begin, and what one step may do. -/
structure Lts (σ : Type u) (ε : Type v) where
  init : σ → Prop
  step : σ → ε → σ → Prop

namespace Lts
variable {σ : Type u} {ε : Type v} {M : Lts σ ε}

/-- The states that the runs of `M` reach. -/
inductive Reachable (M : Lts σ ε) : σ → Prop
  | init {s : σ} : M.init s → Reachable M s
  | step {s s' : σ} {e : ε} : Reachable M s → M.step s e s' → Reachable M s'

/-- `M` with only the steps that meet `ok`. -/
def guard (M : Lts σ ε) (ok : σ → ε → Prop) : Lts σ ε where
  init := M.init
  step s e s' := M.step s e s' ∧ ok s e

namespace Reachable

/-- What holds initially and survives every step holds of every reachable state. -/
theorem invariant {I : σ → Prop} (hinit : ∀ s, M.init s → I s)
    (hstep : ∀ s e s', I s → M.step s e s' → I s') {s : σ} (h : M.Reachable s) : I s := by
  induction h with
  | init h₀ => exact hinit _ h₀
  | step _ hs ih => exact hstep _ _ _ ih hs

/-- The invariant rule for the runs whose steps all meet `ok`. -/
theorem guard_invariant {I : σ → Prop} {ok : σ → ε → Prop} (hinit : ∀ s, M.init s → I s)
    (hstep : ∀ s e s', I s → ok s e → M.step s e s' → I s') {s : σ}
    (h : (M.guard ok).Reachable s) : I s :=
  invariant (M := M.guard ok) hinit (fun s e s' hI hs => hstep s e s' hI hs.2 hs.1) h

/-- Where every step meets `ok` anyway, the runs of the guarded system are all the runs. -/
theorem to_guard {ok : σ → ε → Prop} (hok : ∀ s e s', M.Reachable s → M.step s e s' → ok s e) {s : σ}
    (h : M.Reachable s) : (M.guard ok).Reachable s := by
  induction h with
  | init h₀ => exact .init h₀
  | step hr hs ih => exact .step ih ⟨hs, hok _ _ _ hr hs⟩

theorem of_guard {ok : σ → ε → Prop} {s : σ} (h : (M.guard ok).Reachable s) : M.Reachable s := by
  induction h with
  | init h₀ => exact .init h₀
  | step _ hs ih => exact .step ih hs.1

end Reachable

/-- Whatever steps the system takes from here, it comes to a state with `P` before it can go no further. -/
inductive Inevitable (M : Lts σ ε) (P : σ → Prop) : σ → Prop
  | now {s : σ} : P s → Inevitable M P s
  | later {s : σ} : (∃ e s', M.step s e s') → (∀ e s', M.step s e s' → Inevitable M P s') →
      Inevitable M P s

/-- A bound that goes down with every step, where some step is possible as long as `P` does not hold. -/
theorem inevitable_of_bound {I P : σ → Prop} (bound : σ → ℕ)
    (hstep : ∀ s e s', I s → M.step s e s' → I s' ∧ bound s' < bound s)
    (hnext : ∀ s, I s → ¬ P s → ∃ e s', M.step s e s') {s : σ} (h : I s) : M.Inevitable P s := by
  induction hn : bound s using Nat.strongRecOn generalizing s with
  | ind n ih =>
    by_cases hP : P s
    · exact .now hP
    · refine .later (hnext s h hP) fun e s' hs => ?_
      obtain ⟨h', hlt⟩ := hstep s e s' h hs
      exact ih (bound s') (hn ▸ hlt) h' rfl

/-- As `inevitable_of_bound`, where `I` need only hold until `P` does. -/
theorem inevitable_of_bound_until {I P : σ → Prop} (bound : σ → ℕ)
    (hstep : ∀ s e s', I s → M.step s e s' → (I s' ∨ P s') ∧ bound s' < bound s)
    (hnext : ∀ s, I s → ∃ e s', M.step s e s') {s : σ} (h : I s) : M.Inevitable P s := by
  induction hn : bound s using Nat.strongRecOn generalizing s with
  | ind n ih =>
    refine .later (hnext s h) fun e s' hs => ?_
    obtain ⟨h' | hP, hlt⟩ := hstep s e s' h hs
    · exact ih (bound s') (hn ▸ hlt) h' rfl
    · exact .now hP

/-! ## Systems whose steps are computed -/

/-- The system that starts in the states of `init` and moves by the partial function `f`. -/
def ofFun (init : σ → Prop) (f : σ → ε → Option σ) : Lts σ ε where
  init := init
  step s e s' := f s e = some s'

/-- Runs `f` over a list of events; `none` as soon as one of them is not possible. -/
def exec (f : σ → ε → Option σ) (s : σ) : List ε → Option σ
  | [] => some s
  | e :: es => (f s e).bind fun s' => exec f s' es

theorem exec_append {f : σ → ε → Option σ} {s : σ} (es es' : List ε) :
    exec f s (es ++ es') = (exec f s es).bind fun s' => exec f s' es' := by
  induction es generalizing s with
  | nil => rfl
  | cons e es ih =>
    simp only [List.cons_append, exec, Option.bind_assoc, ih]

theorem exec_take_succ {f : σ → ε → Option σ} {s : σ} {es : List ε} {k : ℕ} {e : ε}
    (h : es[k]? = some e) : exec f s (es.take (k + 1)) = (exec f s (es.take k)).bind (f · e) := by
  rw [List.take_add_one, h, Option.toList_some, exec_append]
  simp only [exec, Option.bind_fun_some]

/-- Where `ok` says exactly which steps keep `P`, all the states on the way have `P` if and only if the
first one has it and every step meets `ok`. -/
theorem forall_exec_iff {f : σ → ε → Option σ} {P : σ → Prop} {ok : σ → ε → Prop} {s₀ : σ}
    {es : List ε} (hstep : ∀ s e s', P s → f s e = some s' → (P s' ↔ ok s e)) :
    (∀ k s, exec f s₀ (es.take k) = some s → P s) ↔
      P s₀ ∧ ∀ k e s s', es[k]? = some e → exec f s₀ (es.take k) = some s → f s e = some s' →
        ok s e := by
  constructor
  · refine fun h => ⟨h 0 s₀ rfl, fun k e s s' he hs hs' => ?_⟩
    refine (hstep s e s' (h k s hs) hs').1 (h (k + 1) s' ?_)
    rw [exec_take_succ he, hs, Option.bind_some, hs']
  · rintro ⟨h₀, hok⟩ k
    induction k with
    | zero =>
      intro s hs
      cases hs
      exact h₀
    | succ k ih =>
      intro s hs
      cases he : es[k]? with
      | none =>
        have hlen := List.getElem?_eq_none_iff.1 he
        rw [List.take_of_length_le (by omega)] at hs
        exact ih s (by rwa [List.take_of_length_le hlen])
      | some e =>
        rw [exec_take_succ he] at hs
        obtain ⟨t, ht, hs⟩ := Option.bind_eq_some_iff.1 hs
        exact (hstep t e s (ih t ht) hs).2 (hok k e t s he ht hs)

theorem Reachable.exec {init : σ → Prop} {f : σ → ε → Option σ} {s s' : σ} {es : List ε}
    (h : (ofFun init f).Reachable s) (he : Lts.exec f s es = some s') :
    (ofFun init f).Reachable s' := by
  induction es generalizing s with
  | nil => cases he; exact h
  | cons e es ih =>
    obtain ⟨s₁, h₁, he⟩ := Option.bind_eq_some_iff.1 he
    exact ih (.step h h₁) he

/-- Where a bound never goes up, and goes down with every step that is `own`, as long as the states have
`J`: a run through such states has no more of these steps than the bound says. -/
theorem exec_bound {f : σ → ε → Option σ} {I J : σ → Prop} {own : ε → Bool} (bound : σ → ℕ)
    (hstep : ∀ s e s', I s → J s → f s e = some s' → I s' ∧ bound s' + (if own e then 1 else 0) ≤ bound s)
    {s s' : σ} {es : List ε} (h : I s) (hJ : ∀ k t, exec f s (es.take k) = some t → J t)
    (hs : exec f s es = some s') : I s' ∧ bound s' + es.countP own ≤ bound s := by
  induction es generalizing s with
  | nil =>
    cases hs
    exact ⟨h, Nat.le_refl _⟩
  | cons e es ih =>
    obtain ⟨t, ht, hs⟩ := Option.bind_eq_some_iff.1 hs
    obtain ⟨hI, hbound⟩ := hstep s e t h (hJ 0 s rfl) ht
    have hrest : ∀ k u, exec f t (es.take k) = some u → J u := by
      intro k u hu
      refine hJ (k + 1) u ?_
      rw [List.take_succ_cons, exec, ht]
      exact hu
    obtain ⟨hI', hbound'⟩ := ih hI hrest hs
    refine ⟨hI', ?_⟩
    rw [List.countP_cons]
    omega

/-- Whether all the states on the way have `p` can be computed. -/
theorem forall_exec_of_all {f : σ → ε → Option σ} {p : σ → Bool} {s : σ} {es : List ε}
    (h : ((List.range (es.length + 1)).all fun k => (exec f s (es.take k)).all p) = true) (k : ℕ) (t : σ)
    (ht : exec f s (es.take k) = some t) : p t = true := by
  have htake : es.take k = es.take (min k es.length) := List.take_eq_take_iff.2 (by simp)
  have hk := List.all_eq_true.1 h (min k es.length) (List.mem_range.2 (by omega))
  rw [← htake, ht] at hk
  exact hk

/-- A run that can be computed reaches its last state. -/
theorem exists_reachable_of_exec {init : σ → Prop} {f : σ → ε → Option σ} {p : σ → Prop} {s : σ}
    [DecidablePred p] (h₀ : init s) (es : List ε)
    (hp : ((Lts.exec f s es).any fun s' => decide (p s')) = true) :
    ∃ s', (ofFun init f).Reachable s' ∧ p s' := by
  obtain ⟨s', hs', hp⟩ := (Option.any_eq_true _ _).1 hp
  exact ⟨s', (Reachable.init h₀).exec hs', of_decide_eq_true hp⟩

/-- A run that ends in a state without `p` shows that `p` is no invariant. -/
theorem not_invariant_of_exec {init : σ → Prop} {f : σ → ε → Option σ} {p : σ → Prop} {s : σ}
    [DecidablePred p] (h₀ : init s) (es : List ε)
    (hbad : ((Lts.exec f s es).any fun s' => decide (¬ p s')) = true) :
    ¬ ∀ s', (ofFun init f).Reachable s' → p s' := by
  intro hall
  obtain ⟨s', hs', hp⟩ := exists_reachable_of_exec h₀ es hbad
  exact hp (hall s' hs')

/-- `f`, where the event meets `ok`. -/
def guardFun (f : σ → ε → Option σ) (ok : σ → ε → Prop) [∀ s e, Decidable (ok s e)] (s : σ) (e : ε) :
    Option σ :=
  if ok s e then f s e else none

/-- A run that can be computed and meets `ok` at every step is a run of the guarded system. -/
theorem exists_guard_reachable_of_exec {init : σ → Prop} {f : σ → ε → Option σ}
    {ok : σ → ε → Prop} [∀ s e, Decidable (ok s e)] {p : σ → Prop} {s : σ} [DecidablePred p]
    (h₀ : init s) (es : List ε)
    (hp : ((Lts.exec (guardFun f ok) s es).any fun s' => decide (p s')) = true) :
    ∃ s', ((ofFun init f).guard ok).Reachable s' ∧ p s' := by
  obtain ⟨s', hs', hp⟩ := exists_reachable_of_exec (f := guardFun f ok) h₀ es hp
  refine ⟨s', ?_, hp⟩
  clear hp
  induction hs' with
  | init h₀ => exact .init h₀
  | @step s s' e _ hs ih =>
    have hs : (if ok s e then f s e else none) = some s' := hs
    split at hs
    · exact .step ih ⟨hs, ‹_›⟩
    · cases hs

end Lts
