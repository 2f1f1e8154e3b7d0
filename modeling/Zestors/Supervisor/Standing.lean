import Zestors.Supervisor.Effects

/-!
# Where a supervisee stands

The distinctions that the strategies make: who is gone (`Gone`), whom a cascade restarts or drops
(`Restartable`, `Droppable`), and whose exit calls for a restart (`Required`); and how each of them
survives the shared operations.
-/

namespace Zestors
namespace SupervisorInner
variable {i i' : SupervisorInner} {l : List Name} {n j : Name}

/-! ## Who is gone -/

/-- The supervisee called `n`, if there is one, is dead. -/
def Gone (s : SupervisorInner) (n : Name) : Prop :=
  s.supervisees.stateOf n = none ∨ s.supervisees.stateOf n = some .dead

instance (s : SupervisorInner) (n : Name) : Decidable (Gone s n) := by
  unfold Gone; infer_instance

theorem stop_gone_or_shuttingDown (i : SupervisorInner) (n : Name) :
    ((i.stop n).2.isShuttingDown = true ∧
        (i.stop n).1.supervisees.stateOf n = some .shuttingDown) ∨
      ((i.stop n).2.isShuttingDown = false ∧ Gone (i.stop n).1 n) := by
  rcases hb : (i.stop n).2.isShuttingDown with _ | _
  · refine .inr ⟨rfl, ?_⟩
    have hne : (i.stop n).1.supervisees.stateOf n ≠ some .shuttingDown := fun h => by
      simp [stop_isShuttingDown.2 h] at hb
    unfold Gone
    rw [stateOf_stop, if_pos rfl] at hne ⊢
    generalize i.supervisees.stateOf n = o at hne ⊢
    rcases o with _ | _ | _ | _ | _ | _ <;> simp_all [stopped]
  · exact .inl ⟨rfl, stop_isShuttingDown.1 hb⟩

theorem Stopped.gone_or_shuttingDown (h : Stopped l i i') (hn : n ∈ l) :
    Gone i' n ∨ i'.supervisees.stateOf n = some .shuttingDown := by
  unfold Gone
  rw [h.stateOf, if_pos hn]
  rcases i.supervisees.stateOf n with _ | _ | _ | _ | _ | _ <;> simp [stopped]

theorem Gone.of_stopped (h : Stopped l i i') (hg : Gone i n) : Gone i' n := by
  unfold Gone at hg ⊢
  rw [h.stateOf]
  rcases hg with hg | hg <;> rw [hg] <;> split <;> simp [stopped]

theorem Gone.removed (h : Gone i j) (hr : Removed n i i') : Gone i' j := by
  unfold Gone
  rw [hr.stateOf]
  split
  · exact .inl rfl
  · exact h

theorem Gone.setState {state : SuperviseeState} (h : Gone i j) (hn : ¬ Gone i n) :
    Gone (i.setState n state) j := by
  unfold Gone
  rwa [stateOf_setState, if_neg]
  rintro rfl; exact hn h

theorem stateOf_setState_dead (hn : ¬ Gone i n) :
    (i.setState n .dead).supervisees.stateOf n = some .dead := by
  rw [stateOf_setState, if_pos rfl]
  obtain ⟨st, hst⟩ := Option.ne_none_iff_exists'.1 fun e => hn (.inl e)
  rw [hst]; rfl

theorem stateOf_of_removed {st : SuperviseeState} (hr : Removed n i i')
    (h : i'.supervisees.stateOf j = some st) : i.supervisees.stateOf j = some st ∧ j ≠ n := by
  rw [hr.stateOf] at h
  split at h
  · cases h
  · exact ⟨h, ‹_›⟩

theorem not_gone_of_state {st : SuperviseeState} (hst : i.supervisees.stateOf n = some st)
    (hne : st ≠ .dead) : ¬ Gone i n := by
  rintro (h | h) <;> cases hst.symm.trans h
  exact hne rfl

theorem Removed.names_length_le (hr : Removed n i i') :
    i'.supervisees.names.length ≤ i.supervisees.names.length := by
  refine List.Nodup.length_le_of_subset (SuperviseeMap.nodup_names _) fun j hj => ?_
  rw [SuperviseeMap.mem_names_iff_stateOf, hr.stateOf] at hj
  rw [SuperviseeMap.mem_names_iff_stateOf]
  split at hj
  · exact absurd rfl hj
  · exact hj

theorem not_gone_of_fits {reason : ExitReason} {st : SuperviseeState}
    (hst : i.supervisees.stateOf n = some st) (hfit : reason.Fits st) : ¬ Gone i n :=
  not_gone_of_state hst hfit.ne_dead

/-! ## Whom a cascade restarts -/

/-- There is a supervisee called `n`, and a cascade restarts it. -/
def Restartable (s : SupervisorInner) (n : Name) : Prop :=
  s.supervisees.modeOf n ≠ none ∧ s.supervisees.modeOf n ≠ some .never

/-- There is a supervisee called `n`, and a cascade drops it. -/
def Droppable (s : SupervisorInner) (n : Name) : Prop := s.supervisees.modeOf n = some .never

/-- There is a supervisee called `n`, and being gone for this reason it is due a restart. -/
def Required (i : SupervisorInner) (n : Name) (reason : ExitReason) : Prop :=
  ∃ sv, i.supervisees.get? n = some sv ∧ reason.requiresRestart sv = true

instance (s : SupervisorInner) (n : Name) : Decidable (Restartable s n) := by
  unfold Restartable; infer_instance

instance (s : SupervisorInner) (n : Name) : Decidable (Droppable s n) := by
  unfold Droppable; infer_instance

instance (i : SupervisorInner) (n : Name) (reason : ExitReason) :
    Decidable (Required i n reason) :=
  decidable_of_iff ((i.supervisees.get? n).any reason.requiresRestart = true) (by
    unfold Required
    cases i.supervisees.get? n <;> simp)

theorem not_required {sv : Supervisee} {reason : ExitReason} (hsv : i.supervisees.get? n = some sv)
    (h : reason.requiresRestart sv = false) : ¬ Required i n reason := by
  rintro ⟨sv', hsv', hreq⟩
  cases hsv.symm.trans hsv'
  simp [h] at hreq

theorem Restartable.congr (h : i'.supervisees.modeOf n = i.supervisees.modeOf n) :
    Restartable i' n ↔ Restartable i n := by
  unfold Restartable; rw [h]

theorem Droppable.congr (h : i'.supervisees.modeOf n = i.supervisees.modeOf n) :
    Droppable i' n ↔ Droppable i n := by
  unfold Droppable; rw [h]

theorem Required.restartable {reason : ExitReason} (h : Required i n reason) :
    Restartable i n := by
  obtain ⟨sv, hsv, hreq⟩ := h
  rw [Restartable, SuperviseeMap.modeOf_of_get? hsv]
  simpa using ExitReason.not_never_of_requiresRestart hreq

theorem Required.of_setState {reason : ExitReason} {state : SuperviseeState}
    (h : Required (i.setState n state) n reason) : Required i n reason := by
  obtain ⟨sv, hsv, hreq⟩ := h
  unfold SupervisorInner.setState at hsv
  split at hsv
  · rename_i hnone
    rw [hnone] at hsv; cases hsv
  · rename_i sv' hsome
    obtain rfl := SuperviseeMap.name_of_get? hsome
    refine ⟨sv', hsome, ?_⟩
    rw [SuperviseeMap.get?_set, if_pos (Supervisee.name_withState state).symm] at hsv
    obtain rfl := Option.some.inj hsv
    rwa [ExitReason.requiresRestart_congr (Supervisee.spec_withState state)] at hreq

/-! ## The clock -/

theorem ticks_acquireRestartPermit (h : i.supervisees.get? n ≠ none) :
    (i.acquireRestartPermit n).1.ticks = i.ticks + 1 := by
  unfold acquireRestartPermit
  split
  · exact absurd (by assumption) h
  · rfl

theorem ticks_stop (i : SupervisorInner) : (i.stop n).1.ticks = i.ticks := by
  unfold stop
  split <;> rfl

/-! ## Starts during a shutdown -/

/-- No supervisee was started while the supervisor was exiting. -/
def QuietStarts (s : SupervisorInner) : Prop := ∀ e ∈ s.starts, e.exiting = false

theorem QuietStarts.of_eq (h : QuietStarts i) (he : i'.starts = i.starts) :
    QuietStarts i' := fun e hm => h e (he ▸ hm)

theorem QuietStarts.start (h : QuietStarts i) (hx : i.isExiting = false)
    {cause : StartCause} : QuietStarts (i.start n cause).1 := by
  intro e he
  rw [starts_start] at he
  split at he
  · rcases List.mem_append.1 he with he | he
    · exact h e he
    · rw [List.mem_singleton.1 he]; exact hx
  · exact h e he

end SupervisorInner
end Zestors
