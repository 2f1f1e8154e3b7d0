import Zestors.Supervisor.Awaits
import Zestors.Supervisor.Traced

/-!
# One-for-all restarts the group as a whole

While a one-for-all supervisor is not exiting, `restarting` holds the names that are shutting down,
the members of a cascade are the supervisees that are dead or shutting down, and there is no cascade
once nobody is shutting down (`Grouped`). So nobody is restarted before the last member has exited;
the step in which that happens ends the cascade, for all of its members at once (`Ends`).
-/

namespace Zestors
open SupervisorInner LoopState Strategy

namespace OneForAllSupervisor
variable {s s' t : OneForAllSupervisor} {i : SupervisorInner} {ev : Event} {l : List Name} {n : Name}

/-- The cascade will restart or drop `n`. -/
def Member (s : OneForAllSupervisor) (n : Name) : Prop := n ∈ s.cascadeRestart ∨ n ∈ s.cascadeDrop

instance (s : OneForAllSupervisor) (n : Name) : Decidable (s.Member n) := by
  unfold Member
  infer_instance

/-- The three sets say of `n` what its own state says. -/
structure Tallied (s : OneForAllSupervisor) (n : Name) : Prop where
  restarting : n ∈ s.restarting ↔ s.inner.supervisees.stateOf n = some .shuttingDown
  member : s.Member n ↔ s.inner.supervisees.stateOf n = some .dead ∨
    s.inner.supervisees.stateOf n = some .shuttingDown
  restart : n ∈ s.cascadeRestart → Restartable s.inner n
  drop : n ∈ s.cascadeDrop → Droppable s.inner n

/-- A cascade is under way only while somebody is shutting down. -/
structure Grouped (s : OneForAllSupervisor) : Prop where
  tallied : ∀ n, s.Tallied n
  idle : (∀ n, n ∉ s.restarting) → (∀ n, n ∉ s.cascadeRestart) ∧ (∀ n, n ∉ s.cascadeDrop) ∧
    ∀ n, s.inner.supervisees.stateOf n ≠ some .dead

/-- The event restarts nobody, and the cascade keeps its members. -/
structure GoesOn (s : OneForAllSupervisor) (ev : Event) (s' : OneForAllSupervisor) : Prop where
  starts : ∃ new, s'.inner.starts = s.inner.starts ++ new ∧
    ∀ e ∈ new, e.cause ≠ .restart ∧ ¬ s.Member e.name
  members : ∀ n, s.Member n → ev.removes ≠ some n → s'.Member n

/-- The members of the cascade that the event ends: those that it had before, or everybody, if it only
begins with the event. -/
def Joined (s : OneForAllSupervisor) (ev : Event) (n : Name) : Prop :=
  s.inner.supervisees.stateOf n ≠ none ∧ ev.removes ≠ some n ∧ (s.Member n ∨ ∀ m, ¬ s.Member m)

/-- The event ends the cascade. -/
structure Ends (s : OneForAllSupervisor) (ev : Event) (s' : OneForAllSupervisor) : Prop where
  /-- Whoever has not exited by the event had done so before, or was not spawned yet. -/
  exited : ∀ n, s.Joined ev n → ev.exits ≠ some n → s.inner.supervisees.stateOf n = some .dead ∨
    s.inner.supervisees.stateOf n = some .starting
  stopped : ∀ n, s'.inner.supervisees.stateOf n ≠ some .shuttingDown
  ended : ∀ n, ¬ s'.Member n
  dropped : ∀ n, s.Joined ev n → Droppable s.inner n → s'.inner.supervisees.stateOf n = none
  /-- Every other member is started once. -/
  started : ∃ l : List Name, l.Nodup ∧ (∀ n, n ∈ l ↔ s.Joined ev n ∧ ¬ Droppable s.inner n) ∧
    (∀ n ∈ l, s'.inner.supervisees.stateOf n = some .starting) ∧
    s'.inner.starts = s.inner.starts ++ l.map fun n => ⟨.restart, n, false⟩
  others : ∀ n, ¬ s.Joined ev n → ev.removes ≠ some n →
    s'.inner.supervisees.stateOf n = s.inner.supervisees.stateOf n

/-- What an event leads to, as long as the supervisor is not exiting. -/
def Regroups (s : OneForAllSupervisor) (ev : Event) (s' : OneForAllSupervisor) : Prop :=
  s'.inner.isExiting = false → s'.Grouped ∧ (GoesOn s ev s' ∨ Ends s ev s')

/-! ## The end of a cascade -/

theorem Tallied.mem_cascadeRestart (h : s.Tallied n) :
    n ∈ s.cascadeRestart ↔ s.Member n ∧ ¬ Droppable s.inner n := by
  constructor
  · exact fun hn => ⟨.inl hn, (h.restart hn).2⟩
  · rintro ⟨hn | hn, hd⟩
    · exact hn
    · exact absurd (h.drop hn) hd

theorem Tallied.mem_cascadeDrop (h : s.Tallied n) :
    n ∈ s.cascadeDrop ↔ s.Member n ∧ Droppable s.inner n := by
  constructor
  · exact fun hn => ⟨.inr hn, h.drop hn⟩
  · rintro ⟨hn | hn, hd⟩
    · exact absurd hd (h.restart hn).2
    · exact hn

theorem Tallied.dead (h : s.Tallied n) (hn : n ∉ s.restarting) :
    s.Member n ↔ s.inner.supervisees.stateOf n = some .dead := by
  rw [h.member, or_iff_left fun hdown => hn (h.restarting.2 hdown)]

/-- What a cascade leaves behind that has waited for everybody. -/
structure Finished (t s' : OneForAllSupervisor) : Prop where
  grouped : s'.Grouped
  stateOf : ∀ n, s'.inner.supervisees.stateOf n =
    if t.inner.supervisees.stateOf n = some .dead then if Droppable t.inner n then none else some .starting
    else t.inner.supervisees.stateOf n
  stopped : ∀ n, s'.inner.supervisees.stateOf n ≠ some .shuttingDown
  ended : ∀ n, ¬ s'.Member n
  starts : ∃ l : List Name, l.Nodup ∧
    (∀ n, n ∈ l ↔ t.inner.supervisees.stateOf n = some .dead ∧ ¬ Droppable t.inner n) ∧
    s'.inner.starts = t.inner.starts ++ l.map fun n => ⟨.restart, n, t.inner.isExiting⟩

theorem finished_finishCascade (h : ∀ n, t.inner.supervisees.stateOf n ≠ none → t.Tallied n)
    (he : ∀ n, n ∉ t.restarting) : Finished t t.finishCascade := by
  have hf := cascadeFinished_finishCascade t
  have hmember : ∀ n, t.inner.supervisees.stateOf n = some .dead →
      (n ∈ t.cascadeRestart ↔ ¬ Droppable t.inner n) ∧ (n ∈ t.cascadeDrop ↔ Droppable t.inner n) := by
    intro n hn
    have hn' : t.Tallied n := h n (by simp [hn])
    have hm := (hn'.dead (he n)).2 hn
    exact ⟨hn'.mem_cascadeRestart.trans (and_iff_right hm), hn'.mem_cascadeDrop.trans (and_iff_right hm)⟩
  have hstate : ∀ n, t.finishCascade.inner.supervisees.stateOf n =
      if t.inner.supervisees.stateOf n = some .dead then
        if Droppable t.inner n then none else some .starting
      else t.inner.supervisees.stateOf n := by
    intro n
    rw [hf.stateOf]
    by_cases hn : t.inner.supervisees.stateOf n = some .dead
    · simp only [hn, hmember n hn, if_true, and_true]
      split_ifs <;> rfl
    · rw [if_neg (c := _ ∧ _) fun h => hn h.2, if_neg hn]
      split_ifs with hd
      · -- A member that is not dead is not there.
        by_contra hne
        have hn' := h n (Ne.symm hne)
        exact hn ((hn'.dead (he n)).1 (.inr hd))
      · rfl
  have hover : ∀ n, ¬ t.finishCascade.Member n := fun n hn =>
    hn.elim (hf.cascadeRestart n) (hf.cascadeDrop n)
  -- Nobody is dead or shutting down any more.
  have hlive : ∀ n, ¬ (t.finishCascade.inner.supervisees.stateOf n = some .dead ∨
      t.finishCascade.inner.supervisees.stateOf n = some .shuttingDown) := by
    intro n
    rw [hstate]
    split_ifs with hm hd
    · simp
    · simp
    · rw [not_or]
      exact ⟨hm, fun hdown => he n ((h n (by simp [hdown])).restarting.2 hdown)⟩
  refine ⟨⟨fun n => ⟨?_, iff_of_false (hover n) (hlive n), fun hn => absurd hn (hf.cascadeRestart n),
    fun hn => absurd hn (hf.cascadeDrop n)⟩, fun _ => ⟨hf.cascadeRestart, hf.cascadeDrop, fun n hn =>
    hlive n (.inl hn)⟩⟩, hstate, fun n hn => hlive n (.inr hn), hover, ?_⟩
  · rw [hf.restarting]
    exact iff_of_false (he n) fun hn => hlive n (.inr hn)
  · obtain ⟨l, hl, hmem, hstarts⟩ := hf.starts
    refine ⟨l, hl, fun n => (hmem n).trans ?_, hstarts⟩
    rw [← and_assoc, and_comm]
    refine and_congr_right fun hn => ?_
    rw [hmember n hn |>.1, hmember n hn |>.2, and_self]

theorem Finished.ends (h : Finished t s')
    (hmember : ∀ n, t.inner.supervisees.stateOf n = some .dead ↔ s.Joined ev n)
    (hmode : ∀ n, s.Joined ev n → t.inner.supervisees.modeOf n = s.inner.supervisees.modeOf n)
    (hstate : ∀ n, ¬ s.Joined ev n → ev.removes ≠ some n →
      t.inner.supervisees.stateOf n = s.inner.supervisees.stateOf n)
    (hstarts : t.inner.starts = s.inner.starts) (hx : t.inner.isExiting = false)
    (hexited : ∀ n, s.Joined ev n → ev.exits ≠ some n → s.inner.supervisees.stateOf n = some .dead ∨
      s.inner.supervisees.stateOf n = some .starting) : Ends s ev s' := by
  refine ⟨hexited, h.stopped, h.ended, fun n hn hd => ?_, ?_, fun n hn hr => ?_⟩
  · rw [h.stateOf, if_pos ((hmember n).2 hn), if_pos ((Droppable.congr (hmode n hn)).2 hd)]
  · obtain ⟨l, hl, hmem, heq⟩ := h.starts
    have hmem' : ∀ n, n ∈ l ↔ s.Joined ev n ∧ ¬ Droppable s.inner n := fun n => by
      rw [hmem, hmember]
      exact and_congr_right fun hn => not_congr (Droppable.congr (hmode n hn))
    refine ⟨l, hl, hmem', fun n hn => ?_, ?_⟩
    · obtain ⟨hm, hd⟩ := (hmem n).1 hn
      rw [h.stateOf, if_pos hm, if_neg hd]
    · rw [heq, hstarts, hx]
  · rw [h.stateOf, if_neg (mt (hmember n).1 hn), hstate n hn hr]

/-! ## Steps -/

theorem Tallied.congr (h : s.Tallied n) (hr : n ∈ s'.restarting ↔ n ∈ s.restarting)
    (hcr : n ∈ s'.cascadeRestart ↔ n ∈ s.cascadeRestart) (hcd : n ∈ s'.cascadeDrop ↔ n ∈ s.cascadeDrop)
    (hst : s'.inner.supervisees.stateOf n = s.inner.supervisees.stateOf n)
    (hm : s'.inner.supervisees.modeOf n = s.inner.supervisees.modeOf n) : s'.Tallied n := by
  refine ⟨?_, ?_, ?_, ?_⟩
  · rw [hr, hst, h.restarting]
  · rw [Member, hcr, hcd, hst, ← h.member, Member]
  · rw [hcr, Restartable.congr hm]
    exact h.restart
  · rw [hcd, Droppable.congr hm]
    exact h.drop

/-- Whoever is neither dead nor shutting down is in none of the sets. -/
theorem tallied_of_live (hdead : s.inner.supervisees.stateOf n ≠ some .dead)
    (hdown : s.inner.supervisees.stateOf n ≠ some .shuttingDown) (hr : n ∉ s.restarting)
    (hm : ¬ s.Member n) : s.Tallied n :=
  ⟨iff_of_false hr hdown, iff_of_false hm (not_or.2 ⟨hdead, hdown⟩), fun hn => absurd (.inl hn) hm,
    fun hn => absurd (.inr hn) hm⟩

theorem Tallied.live (h : s.Tallied n) (hdead : s.inner.supervisees.stateOf n ≠ some .dead)
    (hdown : s.inner.supervisees.stateOf n ≠ some .shuttingDown) : n ∉ s.restarting ∧ ¬ s.Member n :=
  ⟨fun hn => hdown (h.restarting.1 hn), fun hn => not_or.2 ⟨hdead, hdown⟩ (h.member.1 hn)⟩

/-- Nothing that concerns the group changes, but who is alive among those who are not in it. -/
theorem Grouped.regroups (h : s.Grouped) (hr : ∀ n, n ∈ s'.restarting ↔ n ∈ s.restarting)
    (hcr : ∀ n, n ∈ s'.cascadeRestart ↔ n ∈ s.cascadeRestart)
    (hcd : ∀ n, n ∈ s'.cascadeDrop ↔ n ∈ s.cascadeDrop)
    (hstate : ∀ n, s'.inner.supervisees.stateOf n = s.inner.supervisees.stateOf n ∧
      s'.inner.supervisees.modeOf n = s.inner.supervisees.modeOf n ∨
      (∀ st, s.inner.supervisees.stateOf n = some st → st ≠ .dead ∧ st ≠ .shuttingDown) ∧
      ∀ st, s'.inner.supervisees.stateOf n = some st → st ≠ .dead ∧ st ≠ .shuttingDown)
    (hstarts : ∃ new, s'.inner.starts = s.inner.starts ++ new ∧
      ∀ e ∈ new, e.cause ≠ .restart ∧ ¬ s.Member e.name) : Regroups s ev s' := by
  refine fun _ => ⟨⟨fun n => ?_, fun he => ?_⟩, .inl ⟨hstarts, fun n hn _ => ?_⟩⟩
  · rcases hstate n with ⟨hst, hm⟩ | ⟨hlive, hlive'⟩
    · exact (h.tallied n).congr (hr n) (hcr n) (hcd n) hst hm
    · obtain ⟨hn, hmem⟩ := (h.tallied n).live (fun he => (hlive _ he).1 rfl) fun he => (hlive _ he).2 rfl
      refine tallied_of_live (fun he => (hlive' _ he).1 rfl) (fun he => (hlive' _ he).2 rfl)
        (mt (hr n).1 hn) ?_
      rwa [Member, hcr, hcd]
  · obtain ⟨hcr', hcd', hdead⟩ := h.idle fun n hn => he n ((hr n).2 hn)
    refine ⟨fun n hn => hcr' n ((hcr n).1 hn), fun n hn => hcd' n ((hcd n).1 hn), fun n hn => ?_⟩
    rcases hstate n with ⟨hst, -⟩ | ⟨-, hlive'⟩
    · exact hdead n (hst ▸ hn)
    · exact (hlive' _ hn).1 rfl
  · rwa [Member, hcr, hcd]

theorem regroups_of_exiting (hx : s'.inner.isExiting = true) : Regroups s ev s' := fun he => by
  rw [hx] at he
  cases he

theorem exiting_shutdown (s : OneForAllSupervisor) : s.shutdown.1.inner.isExiting = true :=
  (isExiting_shutdown : (s.inner.shutdown s.exiting).1.isExiting = true)

theorem regroups_shutdown : Regroups s ev t.shutdown.1 := regroups_of_exiting (exiting_shutdown t)

theorem Grouped.not_member (h : s.Grouped) (he : ∀ n, n ∉ s.restarting) : ¬ s.Member n :=
  fun hn => hn.elim ((h.idle he).1 n) ((h.idle he).2.1 n)

/-- The members of a cascade that is under way, but for the one that is removed. -/
theorem Grouped.joined_iff {m : Name} (h : s.Grouped) (hm : s.Member m) :
    s.Joined ev n ↔ ev.removes ≠ some n ∧ s.Member n := by
  constructor
  · rintro ⟨-, hr, hn | hn⟩
    · exact ⟨hr, hn⟩
    · exact absurd hm (hn m)
  · rintro ⟨hr, hn⟩
    refine ⟨fun hnone => ?_, hr, .inl hn⟩
    rcases (h.tallied n).member.1 hn with he | he <;> cases hnone.symm.trans he

theorem removeSpec_regroups (h : s.Grouped) (hx : s.inner.isExiting = false)
    (hev : ev.removes = some n) : Regroups s ev (s.removeSpec n).1 := by
  have hr := removed_forget (s := s) (n := n)
  have hne : ∀ {m}, ev.removes ≠ some m ↔ m ≠ n := by
    intro m
    rw [hev, Ne, Option.some.injEq, eq_comm]
  have hcase := removeSpec_case s n
  generalize (s.removeSpec n).1 = s' at hcase ⊢
  cases hcase with
  | absent =>
    exact h.regroups (fun _ => .rfl) (fun _ => .rfl) (fun _ => .rfl) (fun _ => .inl ⟨rfl, rfl⟩)
      ⟨[], (List.append_nil _).symm, by simp⟩
  | drop hsome hothers =>
    refine fun _ => ⟨⟨fun m => ?_, fun he => ?_⟩, .inl ⟨⟨[], ?_, by simp⟩, fun m hm hmn => ?_⟩⟩
    · by_cases hmn : m = n
      · subst hmn
        have hnone : (s.forget m).inner.supervisees.stateOf m = none := by rw [hr.stateOf, if_pos rfl]
        refine tallied_of_live (fun he => ?_) (fun he => ?_) (fun hm => ?_) fun hm => ?_
        · cases hnone.symm.trans he
        · cases hnone.symm.trans he
        · exact (IndexSet.mem_swapRemove.1 hm).1 rfl
        · exact hm.elim (fun hm => (IndexSet.mem_swapRemove.1 hm).1 rfl)
            fun hm => (IndexSet.mem_swapRemove.1 hm).1 rfl
      · refine (h.tallied m).congr ?_ ?_ ?_ ((hr.stateOf m).trans (if_neg hmn))
          ((hr.modeOf m).trans (if_neg hmn))
        all_goals exact IndexSet.mem_swapRemove.trans (and_iff_right hmn)
    · -- Nobody was waited for before, either.
      have he' : ∀ m, m ∉ s.restarting := fun m hm => by
        by_cases hmn : m = n
        · obtain ⟨m', hm', hne'⟩ := hothers (hmn ▸ hm)
          exact he m' (IndexSet.mem_swapRemove.2 ⟨hne', hm'⟩)
        · exact he m (IndexSet.mem_swapRemove.2 ⟨hmn, hm⟩)
      obtain ⟨hcr, hcd, hdead⟩ := h.idle he'
      exact ⟨fun m hm => hcr m (IndexSet.mem_swapRemove.1 hm).2,
        fun m hm => hcd m (IndexSet.mem_swapRemove.1 hm).2,
        fun m hm => hdead m (stateOf_of_removed hr hm).1⟩
    · rw [List.append_nil]
      exact hr.starts
    · have hmn := hne.1 hmn
      exact hm.imp (fun hm => IndexSet.mem_swapRemove.2 ⟨hmn, hm⟩)
        fun hm => IndexSet.mem_swapRemove.2 ⟨hmn, hm⟩
  | finish hsome hn honly =>
    have hmember : s.Member n := (h.tallied n).member.2 (.inr ((h.tallied n).restarting.1 hn))
    have hstate : ∀ m, m ≠ n → (s.forget n).inner.supervisees.stateOf m =
        s.inner.supervisees.stateOf m := fun m hmn => (hr.stateOf m).trans (if_neg hmn)
    have hmode : ∀ m, m ≠ n → (s.forget n).inner.supervisees.modeOf m =
        s.inner.supervisees.modeOf m := fun m hmn => (hr.modeOf m).trans (if_neg hmn)
    -- Whoever is left in the cascade is dead.
    have hdead : ∀ m, m ≠ n → (s.Member m ↔ s.inner.supervisees.stateOf m = some .dead) :=
      fun m hmn => (h.tallied m).dead fun hm => hmn (honly m hm)
    have hfinished : Finished (s.forget n) (s.forget n).finishCascade := by
      refine finished_finishCascade (fun m hm => ?_) fun m hm => ?_
      · have hmn : m ≠ n := by
          rintro rfl
          exact hm ((hr.stateOf m).trans (if_pos rfl))
        exact (h.tallied m).congr (IndexSet.mem_swapRemove.trans (and_iff_right hmn)) .rfl .rfl
          (hstate m hmn) (hmode m hmn)
      · obtain ⟨hmn, hm⟩ := IndexSet.mem_swapRemove.1 hm
        exact hmn (honly m hm)
    refine fun _ => ⟨hfinished.grouped, .inr (hfinished.ends (fun m => ?_) (fun m hm => ?_)
      (fun m hm hmn => hstate m (hne.1 hmn)) hr.starts (hr.isExiting.trans hx) fun m hm _ => ?_)⟩
    · rw [h.joined_iff hmember, hne, hr.stateOf]
      by_cases hmn : m = n
      · simp [hmn]
      · rw [if_neg hmn, ← hdead m hmn, and_iff_right hmn]
    · rw [h.joined_iff hmember, hne] at hm
      exact hmode m hm.1
    · rw [h.joined_iff hmember, hne] at hm
      exact .inl ((hdead m hm.1).1 hm.2)

theorem Grouped.exited (h : s.Grouped) (hn : n ∈ s.restarting) (m : Name) : Tallied { s with
    inner := s.inner.setState n .dead
    restarting := s.restarting.swapRemove n } m := by
  have hdown := (h.tallied n).restarting.1 hn
  by_cases hmn : m = n
  · subst hmn
    have hdead : (s.inner.setState m .dead).supervisees.stateOf m = some .dead :=
      stateOf_setState_dead (not_gone_of_state hdown (by simp))
    refine ⟨iff_of_false (fun hm => (IndexSet.mem_swapRemove.1 hm).1 rfl) (by simp [hdown]),
      iff_of_true ((h.tallied m).member.2 (.inr hdown)) (.inl hdead), fun hm => ?_, fun hm => ?_⟩
    · exact (Restartable.congr modeOf_setState).2 ((h.tallied m).restart hm)
    · exact (Droppable.congr modeOf_setState).2 ((h.tallied m).drop hm)
  · exact (h.tallied m).congr (IndexSet.mem_swapRemove.trans (and_iff_right hmn)) .rfl .rfl
      (stateOf_setState.trans (if_neg hmn)) modeOf_setState

theorem tallied_folded {siblings : List Name} (h : s.Grouped) (hn : ¬ Gone s.inner n)
    (hrestarting : n ∉ s.restarting) (ht : ∀ m, t.inner.supervisees.stateOf m =
      (s.inner.setState n .dead).supervisees.stateOf m)
    (hmode : ∀ m, t.inner.supervisees.modeOf m = s.inner.supervisees.modeOf m)
    (hr : t.restarting = s.restarting) (hcr : t.cascadeRestart = s.cascadeRestart.insert n)
    (hcd : t.cascadeDrop = s.cascadeDrop) (hrequired : Restartable s.inner n)
    (hsiblings : ∀ m, m ∈ siblings ↔ s.inner.supervisees.stateOf m ≠ none ∧ m ≠ n ∧ ¬ s.Member m)
    (hf : Folded siblings t s') (m : Name) : s'.Tallied m := by
  have hlive : ¬ s.Member n := fun hm => by
    rcases (h.tallied n).member.1 hm with he | he
    · exact hn (.inr he)
    · exact hrestarting ((h.tallied n).restarting.2 he)
  have hnot : n ∉ siblings := fun hm => ((hsiblings n).1 hm).2.1 rfl
  have hmode' : ∀ m, s'.inner.supervisees.modeOf m = s.inner.supervisees.modeOf m := fun m =>
    (hf.modeOf m).trans (hmode m)
  by_cases hmn : m = n
  · subst hmn
    have hdead : s'.inner.supervisees.stateOf m = some .dead := by
      rw [hf.stateOf, if_neg hnot, ht, stateOf_setState_dead hn]
    refine ⟨?_, iff_of_true (.inl ?_) (.inl hdead), fun _ => (Restartable.congr (hmode' m)).2 hrequired,
      fun hm => absurd ?_ hlive⟩
    · rw [hf.mem_restarting, hr, hdead]
      exact iff_of_false (fun hm => hm.elim hrestarting fun hm => hnot hm.1) (by simp)
    · rw [hf.mem_cascadeRestart, hcr]
      exact .inl (IndexSet.mem_insert.2 (.inr rfl))
    · rw [hf.mem_cascadeDrop, hcd] at hm
      exact hm.elim .inr fun hm => absurd hm.1 hnot
  · have hstate : t.inner.supervisees.stateOf m = s.inner.supervisees.stateOf m := by
      rw [ht, stateOf_setState, if_neg hmn]
    have hmem : m ∈ t.cascadeRestart ↔ m ∈ s.cascadeRestart := by
      rw [hcr, IndexSet.mem_insert, or_iff_left hmn]
    by_cases hs : m ∈ siblings
    · obtain ⟨hpresent, -, hm⟩ := (hsiblings m).1 hs
      have hmodes : s.inner.supervisees.modeOf m ≠ none := by
        rwa [Ne, SuperviseeMap.modeOf_eq_none, ← SuperviseeMap.stateOf_eq_none]
      have hover := hf.toStopped.gone_or_shuttingDown hs
      have hthere : s'.inner.supervisees.stateOf m ≠ none := by
        rw [hf.stateOf, if_pos hs, hstate]
        simpa using hpresent
      refine ⟨?_, iff_of_true ?_ ?_, fun hm' => ?_, fun hm' => ?_⟩
      · rw [hf.mem_restarting, hr, or_iff_right fun hm' => ?_, and_iff_right hs]
        exact hm ((h.tallied m).member.2 (.inr ((h.tallied m).restarting.1 hm')))
      · rw [Member, hf.mem_cascadeRestart, hf.mem_cascadeDrop]
        by_cases hd : Droppable t.inner m
        · exact .inr (.inr ⟨hs, hd⟩)
        · exact .inl (.inr ⟨hs, hmode m ▸ hmodes, hd⟩)
      · exact hover.imp_left fun hg => hg.resolve_left hthere
      · rw [hf.mem_cascadeRestart, hmem] at hm'
        exact (Restartable.congr (hf.modeOf m)).2 (hm'.resolve_left fun hm' => hm (.inl hm')).2
      · rw [hf.mem_cascadeDrop, hcd] at hm'
        exact (Droppable.congr (hf.modeOf m)).2 (hm'.resolve_left fun hm' => hm (.inr hm')).2
    · refine (h.tallied m).congr ?_ ?_ ?_ ((hf.stateOf m).trans ((if_neg hs).trans hstate)) (hmode' m)
      · rw [hf.mem_restarting, hr, or_iff_left fun hm => hs hm.1]
      · rw [hf.mem_cascadeRestart, hmem, or_iff_left fun hm => hs hm.1]
      · rw [hf.mem_cascadeDrop, hcd, or_iff_left fun hm => hs hm.1]

theorem foldEnds_regroups {siblings : List Name} {x : OneForAllSupervisor × ControlFlow}
    (h : s.Grouped) (hx : s.inner.isExiting = false) (hexits : ev.exits = some n)
    (hremoves : ev.removes = none) (hn : ¬ Gone s.inner n) (hrestarting : n ∉ s.restarting)
    (hrequired : Restartable s.inner n)
    (hsiblings : ∀ m, m ∈ siblings ↔ s.inner.supervisees.stateOf m ≠ none ∧ m ≠ n ∧ ¬ s.Member m)
    (hp : Permitted (s.inner.setState n .dead) i)
    (hends : FoldEnds { s with inner := i, cascadeRestart := s.cascadeRestart.insert n } siblings x) :
    Regroups s ev x.1 := by
  cases hends with
  | refused _ _ => exact regroups_shutdown
  | @done s' hf =>
    have htallied := tallied_folded
      (t := { s with inner := i, cascadeRestart := s.cascadeRestart.insert n }) h hn hrestarting
      hp.stateOf (fun m => (hp.modeOf m).trans modeOf_setState) rfl rfl rfl hrequired hsiblings hf
    have hstarts : s'.inner.starts = s.inner.starts := hf.starts.trans (hp.starts.trans starts_setState)
    have hrunning : s'.inner.isExiting = false :=
      hf.isExiting.trans (hp.isExiting.trans (frame_setState.isExiting.trans hx))
    show Regroups s ev (if s'.restarting.isEmpty then s'.finishCascade else s')
    split
    · rename_i hempty
      rw [IndexSet.isEmpty_iff] at hempty
      have hnone : ∀ m, ¬ s.Member m := fun m =>
        h.not_member fun j hj => hempty j ((hf.mem_restarting j).2 (.inl hj))
      have hjoined : ∀ m, s.Joined ev m ↔ s.inner.supervisees.stateOf m ≠ none := fun m => by
        rw [Joined, hremoves]
        simp [hnone]
      have hsibling : ∀ m, m ≠ n → s.inner.supervisees.stateOf m ≠ none → m ∈ siblings := fun m hmn hm =>
        (hsiblings m).2 ⟨hm, hmn, hnone m⟩
      have hstate : ∀ m, m ≠ n → i.supervisees.stateOf m = s.inner.supervisees.stateOf m := fun m hmn => by
        rw [hp.stateOf, stateOf_setState, if_neg hmn]
      -- Everybody is dead: the trigger, and whoever had not been spawned yet.
      have hdead : ∀ m, s.inner.supervisees.stateOf m ≠ none →
          s'.inner.supervisees.stateOf m = some .dead := fun m hm => by
        by_cases hmn : m = n
        · subst hmn
          rw [hf.stateOf, if_neg fun hm => ((hsiblings m).1 hm).2.1 rfl]
          exact (hp.stateOf m).trans (stateOf_setState_dead hn)
        · have hs := hsibling m hmn hm
          rcases hf.toStopped.gone_or_shuttingDown hs with (he | he) | he
          · rw [hf.stateOf, if_pos hs, Option.map_eq_none_iff] at he
            exact absurd ((hstate m hmn).symm.trans he) hm
          · exact he
          · exact absurd ((htallied m).restarting.2 he) (hempty m)
      have hfinished := finished_finishCascade (fun m _ => htallied m) hempty
      refine fun _ => ⟨hfinished.grouped, .inr (hfinished.ends (fun m => ?_) (fun m _ => ?_)
        (fun m hm _ => ?_) hstarts hrunning fun m hm hmn => ?_)⟩
      · rw [hjoined]
        refine ⟨fun hm hnone' => ?_, hdead m⟩
        by_cases hmn : m = n
        · exact hn (.inl (hmn ▸ hnone'))
        · have hi : i.supervisees.stateOf m = none := (hstate m hmn).trans hnone'
          rw [hf.stateOf, show _ = none from hi] at hm
          split at hm <;> cases hm
      · exact (hf.modeOf m).trans ((hp.modeOf m).trans modeOf_setState)
      · rw [hjoined, not_not] at hm
        have hmn : m ≠ n := fun he => hn (.inl (he ▸ hm))
        rw [hf.stateOf, if_neg fun hs => ((hsiblings m).1 hs).1 hm]
        exact hstate m hmn
      · rw [hjoined] at hm
        rw [hexits, Ne, Option.some.injEq] at hmn
        have hmn : m ≠ n := Ne.symm hmn
        have hd := hdead m hm
        rw [hf.stateOf, if_pos (hsibling m hmn hm)] at hd
        obtain ⟨st, hst, hstopped⟩ := Option.map_eq_some_iff.1 hd
        rw [← hstate m hmn]
        rcases stopped_eq_dead.1 hstopped with rfl | rfl
        · exact .inl hst
        · exact .inr hst
    · rename_i hwaits
      rw [Bool.not_eq_true, IndexSet.isEmpty_eq_false] at hwaits
      obtain ⟨j, hj⟩ := hwaits
      refine fun _ => ⟨⟨htallied, fun he => absurd hj (he j)⟩, .inl ⟨⟨[], ?_, by simp⟩, fun m hm _ => ?_⟩⟩
      · rw [List.append_nil, hstarts]
      · refine hm.imp (fun hm => (hf.mem_cascadeRestart m).2 (.inl (IndexSet.mem_insert.2 (.inl hm))))
          fun hm => (hf.mem_cascadeDrop m).2 (.inl hm)

theorem handleExit_regroups {reason : ExitReason} (h : s.Grouped) (hx : s.inner.isExiting = false)
    (hquiet : ∀ n, n ∉ s.exiting) (hexits : ev.exits = some n) (hremoves : ev.removes = none)
    (hn : ¬ Gone s.inner n) :
    Regroups s ev ({ s with inner := s.inner.setState n .dead }.handleExit n reason).1 := by
  have hcase := handleExit_case (s := { s with inner := s.inner.setState n .dead }) reason
    (stateOf_setState_dead hn)
  have hmode : ∀ m, (s.inner.setState n .dead).supervisees.modeOf m = s.inner.supervisees.modeOf m :=
    fun m => modeOf_setState
  have hstate : ∀ m, m ≠ n → (s.inner.setState n .dead).supervisees.stateOf m =
      s.inner.supervisees.stateOf m := fun m hmn => stateOf_setState.trans (if_neg hmn)
  generalize OneForAllSupervisor.handleExit _ n reason = x at hcase ⊢
  cases hcase with
  | awaited he => exact absurd he (hquiet n)
  | member _ hr hothers =>
    obtain ⟨j, hj, hjn⟩ := hothers
    refine fun _ => ⟨⟨h.exited hr, fun he => ?_⟩, .inl ⟨⟨[], ?_, by simp⟩, fun m hm _ => hm⟩⟩
    · exact absurd (IndexSet.mem_swapRemove.2 ⟨hjn, hj⟩) (he j)
    · rw [List.append_nil]
      exact starts_setState
  | last _ hr honly =>
    have hmember : s.Member n := (h.tallied n).member.2 (.inr ((h.tallied n).restarting.1 hr))
    have hfinished := finished_finishCascade (fun m _ => h.exited hr m) fun m hm => by
      obtain ⟨hmn, hm⟩ := IndexSet.mem_swapRemove.1 hm
      exact hmn (honly m hm)
    have hjoined : ∀ m, s.Joined ev m ↔ s.Member m := fun m => by
      rw [h.joined_iff hmember, hremoves]
      simp
    have hdead : ∀ m, m ≠ n → (s.Member m ↔ s.inner.supervisees.stateOf m = some .dead) :=
      fun m hmn => (h.tallied m).dead fun hm => hmn (honly m hm)
    refine fun _ => ⟨hfinished.grouped, .inr (hfinished.ends (fun m => ?_) (fun m _ => hmode m)
      (fun m hm _ => hstate m ?_) starts_setState (frame_setState.isExiting.trans hx) fun m hm hmn => ?_)⟩
    · rw [hjoined]
      by_cases hmn : m = n
      · subst hmn
        exact iff_of_true (stateOf_setState_dead hn) hmember
      · rw [hdead m hmn, ← hstate m hmn]
    · rintro rfl
      exact hm ((hjoined m).2 hmember)
    · rw [hexits, Ne, Option.some.injEq] at hmn
      exact .inl ((hdead m (Ne.symm hmn)).1 ((hjoined m).1 hm))
  | drop _ hr =>
    have hrem := removed_forget (s := { s with inner := s.inner.setState n .dead }) (n := n)
    have hlive : ¬ s.Member n := fun hm => by
      rcases (h.tallied n).member.1 hm with he | he
      · exact hn (.inr he)
      · exact hr ((h.tallied n).restarting.2 he)
    have hcase := removeSpec_case { s with inner := s.inner.setState n .dead } n
    generalize (removeSpec { s with inner := s.inner.setState n .dead } n).1 = s' at hcase ⊢
    have hiff : ∀ {set : IndexSet Name} {m : Name}, n ∉ set → (m ∈ set.swapRemove n ↔ m ∈ set) := by
      intro set m hn
      refine IndexSet.mem_swapRemove.trans (and_iff_right_of_imp ?_)
      rintro hm rfl
      exact hn hm
    cases hcase with
    | absent hnone => cases hnone.symm.trans (stateOf_setState_dead hn)
    | drop _ _ =>
      refine h.regroups (fun m => hiff hr) (fun m => hiff fun hm => hlive (.inl hm))
        (fun m => hiff fun hm => hlive (.inr hm)) (fun m => ?_) ⟨[], ?_, by simp⟩
      · by_cases hmn : m = n
        · subst hmn
          refine .inr ⟨fun st hst => ⟨?_, ?_⟩, fun st hst => ?_⟩
          · rintro rfl
            exact hn (.inr hst)
          · rintro rfl
            exact hr ((h.tallied m).restarting.2 hst)
          · have hnone := (hrem.stateOf m).trans (if_pos rfl)
            cases hnone.symm.trans hst
        · exact .inl ⟨(hrem.stateOf m).trans ((if_neg hmn).trans (hstate m hmn)),
            (hrem.modeOf m).trans ((if_neg hmn).trans (hmode m))⟩
      · rw [List.append_nil]
        exact hrem.starts.trans starts_setState
    | finish _ hmem _ => exact absurd hmem hr
  | refused _ _ => exact regroups_shutdown
  | trigger _ hr hrequired _ hsiblings hends =>
    refine foldEnds_regroups h hx hexits hremoves hn hr
      ((Restartable.congr (hmode n)).1 hrequired.restartable) (fun m => ?_)
      permitted_acquirePermits hends
    rw [hsiblings]
    refine and_congr ?_ (and_congr_right fun _ => not_or.symm)
    by_cases hmn : m = n
    · subst hmn
      refine iff_of_true ?_ fun hnone => hn (.inl hnone)
      show (s.inner.setState m .dead).supervisees.stateOf m ≠ none
      rw [stateOf_setState_dead hn]
      simp
    · exact not_congr (Eq.congr (hstate m hmn) rfl)

/-! ## Runs -/

theorem regroups_obligations (h : s.Grouped) (hx : s.inner.isExiting = false)
    (hquiet : ∀ n, n ∉ s.exiting) : Obligations (· = s) (fun _ ev' => ev' = ev) (Regroups s ev)
    fun _ => True where
  keep s' hs := by
    subst hs
    exact h.regroups (fun _ => .rfl) (fun _ => .rfl) (fun _ => .rfl) (fun _ => .inl ⟨rfl, rfl⟩)
      ⟨[], (List.append_nil _).symm, by simp⟩
  inbox t inbox ht hinbox := fun hx' => by
    obtain ⟨hgrouped, hstep⟩ := ht (hinbox.symm.trans hx')
    refine ⟨⟨fun n => (hgrouped.tallied n).congr .rfl .rfl .rfl rfl rfl, hgrouped.idle⟩, hstep.imp ?_ ?_⟩
    · exact fun h => ⟨h.starts, h.members⟩
    · exact fun h => ⟨h.exited, h.stopped, h.ended, h.dropped, h.started, h.others⟩
  shutdown t inbox ht _ := sat_of_fst (regroups_shutdown (t := withInbox t inbox)) trivial
  add t ev' spec ht _ _ := by
    subst ht
    rcases addSpec_cases t.inner spec with heq | hadd
    · show Regroups t ev { t with inner := (t.inner.addSpec spec).1 }
      rw [heq]
      exact h.regroups (fun _ => .rfl) (fun _ => .rfl) (fun _ => .rfl) (fun _ => .inl ⟨rfl, rfl⟩)
        ⟨[], (List.append_nil _).symm, by simp⟩
    · refine h.regroups (fun _ => .rfl) (fun _ => .rfl) (fun _ => .rfl) (fun n => ?_)
        ⟨_, hadd.starts, fun e he => ?_⟩
      · by_cases hn : n = spec.name
        · subst hn
          refine .inr ⟨fun st hst => ?_, fun st hst => ?_⟩
          · cases hadd.fresh.symm.trans hst
          · cases ((hadd.stateOf _).trans (if_pos rfl)).symm.trans hst
            simp
        · exact .inl ⟨(hadd.stateOf n).trans (if_neg hn), (hadd.modeOf n).trans (if_neg hn)⟩
      · rw [List.mem_singleton.1 he]
        refine ⟨nofun, ((h.tallied _).live (fun hn => ?_) fun hn => ?_).2⟩
        all_goals cases hadd.fresh.symm.trans hn
  remove t ev' name ht hev hremoves := by
    subst ht
    exact removeSpec_regroups h hx (hev ▸ hremoves)
  item t name item i ht hev hy := by
    subst ht
    have hup : ∀ {st st' : SuperviseeState} {j : SupervisorInner}, t.inner.supervisees.stateOf name = some st →
        st ≠ .dead → st ≠ .shuttingDown → st' ≠ .dead → st' ≠ .shuttingDown →
        Same (t.inner.setState name st') j → ∀ initializing : IndexSet Name,
        Regroups t ev { t with inner := j, initializing } := by
      intro st st' j hst hdead hdown hdead' hdown' hsame initializing
      refine h.regroups (fun _ => .rfl) (fun _ => .rfl) (fun _ => .rfl) (fun n => ?_)
        ⟨[], ?_, by simp⟩
      · by_cases hn : n = name
        · subst hn
          refine .inr ⟨fun st₁ hst₁ => ?_, fun st₁ hst₁ => ?_⟩
          · cases hst.symm.trans hst₁
            exact ⟨hdead, hdown⟩
          · rw [hsame.stateOf_eq, stateOf_setState, if_pos rfl, hst] at hst₁
            cases hst₁
            exact ⟨hdead', hdown'⟩
        · exact .inl ⟨(hsame.stateOf_eq n).trans (stateOf_setState.trans (if_neg hn)),
            (hsame.modeOf n).trans modeOf_setState⟩
      · rw [List.append_nil]
        exact hsame.starts.trans starts_setState
    cases hy with
    | started hst => exact hup hst (by simp) (by simp) (by simp) (by simp) (.refl _) t.initializing
    | initialized hst =>
      exact hup hst (by simp) (by simp) (by simp) (by simp) same_handleInitialized _
    | exit hst hr hfit =>
      rw [handleItem_of_exitReason hr]
      refine sat_of_fst (handleExit_regroups h hx hquiet ?_ ?_ (not_gone_of_fits hst hfit)) trivial
      · exact hev ▸ Event.exits_of_exitReason hr
      · rw [← hev]
        rfl

theorem grouped_of_begins {st : LoopState OneForAllSupervisor} (h : Begins st) :
    st.Sat Grouped fun _ => True := by
  obtain ⟨s₀, s, initializing, hfresh, rfl⟩ := fresh_of_begins h
  have hlive : ∀ n st, s.supervisees.stateOf n = some st → st = .starting := fun n st hst => by
    rcases hfresh.stateOf n with hn | hn <;> cases hst.symm.trans hn
    rfl
  refine ⟨fun n => tallied_of_live (fun hn => ?_) (fun hn => ?_) (IndexSet.not_mem_empty n) fun hm =>
    hm.elim (IndexSet.not_mem_empty n) (IndexSet.not_mem_empty n), fun _ =>
    ⟨IndexSet.not_mem_empty, IndexSet.not_mem_empty, fun n hn => ?_⟩⟩
  all_goals cases hlive n _ hn

theorem grouped_of_reachable {st : LoopState OneForAllSupervisor}
    (h : (runs OneForAllSupervisor).Reachable st) :
    st.Sat (fun s => s.inner.isExiting = false → s.Grouped) fun _ => True := by
  induction h with
  | init h₀ => exact (grouped_of_begins h₀).mono (fun _ h _ => h) fun _ h => h
  | @step st st' ev hr hs ih =>
    cases st with
    | running s =>
      by_cases hx : s.inner.isExiting = false
      · have hquiet := (folding_of_reachable hr).awaits.quiet hx
        exact ((regroups_obligations (ih hx) hx hquiet).step rfl rfl hs).mono
          (fun _ h hx' => (h hx').1) fun _ h => h
      · rw [Bool.not_eq_false] at hx
        refine (tracedHandlers.traced_of_step hs).mono (fun s' htraced hx' => ?_) fun _ _ => trivial
        cases hx'.symm.trans (htraced.exiting hx)
    | broken s => cases hs
    | panicked => cases hs

/-- One-for-all restarts the group as a whole, in every run. -/
theorem regroups_of_reachable (h : (runs OneForAllSupervisor).Reachable (.running s))
    (hx : s.inner.isExiting = false) :
    s.Grouped ∧ ∀ ev s', step (.running s) ev = some (.running s') → Regroups s ev s' := by
  have hgrouped := grouped_of_reachable h hx
  have hquiet := (folding_of_reachable h).awaits.quiet hx
  exact ⟨hgrouped, fun ev s' hs => (regroups_obligations hgrouped hx hquiet).step rfl rfl hs⟩

/-- The supervisor waits for `b`, which it will drop, before it starts `a` again. -/
theorem regroups_of_reachable_waiting : ∃ s : OneForAllSupervisor,
    (⟨"a"⟩ ∈ s.cascadeRestart ∧ ⟨"b"⟩ ∈ s.cascadeDrop ∧ ⟨"b"⟩ ∈ s.restarting) ∧
    s.Grouped ∧ ∀ ev s', step (.running s) ev = some (.running s') → Regroups s ev s' := by
  obtain ⟨s, hr, hx, hs⟩ := exists_running
    (p := fun s : OneForAllSupervisor => s.inner.isExiting = false ∧
      ⟨"a"⟩ ∈ s.cascadeRestart ∧ ⟨"b"⟩ ∈ s.cascadeDrop ∧ ⟨"b"⟩ ∈ s.restarting)
    (begins_booted [childSpec "a" .always none, childSpec "b" .never none] (by decide) .default)
    (comesUp "a" ++ comesUp "b" ++ [.supervisee ⟨"a"⟩ (.exit .normalExit)]) (by decide)
  exact ⟨s, hs, regroups_of_reachable hr hx⟩

end OneForAllSupervisor
end Zestors
