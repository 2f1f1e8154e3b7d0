import Zestors.Supervisor.Traced

/-!
# What the answer to a registration says

`RegisterTruthful` says of a registration that its answer agrees with what it did: the child is there
and was started, or nothing has changed. An exiting supervisor adds nobody and answers `Ok` all the
same (`registers_truthfully`).
-/

namespace Zestors
open Strategy SupervisorInner

/-- The answer to `RegisterChild` agrees with the supervisor that sends it: after `Ok` the child is
there and this registration has started it, after an error nobody has changed. -/
def RegisterTruthful {σ : Type} [Strategy σ] (s : σ) (spec : ChildSpec) : Prop :=
  ∃ result, (inner (handleMessage s (.register spec))).inbox.replies =
      (inner s).inbox.replies ++ [.register result] ∧
    (result = .ok () →
      (inner (handleMessage s (.register spec))).supervisees.get? spec.name =
        some ((Supervisee.new spec).withState .starting) ∧
      (inner (handleMessage s (.register spec))).starts =
        (inner s).starts ++ [⟨.addSpec, spec.name, (inner s).isExiting⟩]) ∧
    ∀ e, result = .error e →
      (inner (handleMessage s (.register spec))).supervisees = (inner s).supervisees ∧
      (inner (handleMessage s (.register spec))).starts = (inner s).starts

namespace SupervisorInner
variable {i : SupervisorInner} {spec : ChildSpec}

theorem addSpec_of_exiting (h : i.isExiting = true) : i.addSpec spec = (i, .ok ()) := by
  rw [addSpec, if_pos h]

theorem addSpec_of_taken (h : i.isExiting = false) {sv : Supervisee}
    (hget : i.supervisees.get? spec.name = some sv) :
    i.addSpec spec = (i, .error ⟨spec.name⟩) := by
  rw [addSpec, if_neg (by simp [h])]
  simp [SuperviseeMap.add, hget]

theorem addSpec_of_free (h : i.isExiting = false) (hget : i.supervisees.get? spec.name = none) :
    (i.addSpec spec).2 = .ok () ∧ (i.addSpec spec).1.inbox = i.inbox ∧
      (i.addSpec spec).1.supervisees.get? spec.name =
        some ((Supervisee.new spec).withState .starting) ∧
      (i.addSpec spec).1.starts = i.starts ++ [⟨.addSpec, spec.name, i.isExiting⟩] := by
  rw [addSpec, if_neg (by simp [h])]
  have hadd : i.supervisees.add (Supervisee.new spec) = (i.supervisees.set (Supervisee.new spec), .ok ()) := by
    simp [SuperviseeMap.add, hget]
  simp [hadd, start, Supervisee.start, isExiting]

end SupervisorInner

variable {σ : Type} [Strategy σ] {s : σ} {spec : ChildSpec}

theorem inner_handleMessage_register (h : TracedHandlers σ) :
    inner (handleMessage s (.register spec)) =
      { ((inner s).addSpec spec).1 with
        inbox := ((inner s).addSpec spec).1.inbox.reply (.register ((inner s).addSpec spec).2) } := by
  rw [handleMessage, reply, withInbox, h.inner_setInner, Strategy.addSpec, h.inner_setInner]

theorem not_registerTruthful_of_exiting (h : TracedHandlers σ) (hx : (inner s).isExiting = true) :
    ¬ RegisterTruthful s spec := by
  rintro ⟨result, hreply, hok, -⟩
  rw [inner_handleMessage_register h, addSpec_of_exiting hx] at hreply hok
  have hresult : result = .ok () := by
    simpa [Inbox.reply] using (List.append_cancel_left hreply).symm
  exact absurd (hok hresult).2 (by simp)

theorem registerTruthful_of_open (h : TracedHandlers σ) (hx : (inner s).isExiting = false) :
    RegisterTruthful s spec := by
  rw [RegisterTruthful, inner_handleMessage_register h]
  cases hget : (inner s).supervisees.get? spec.name with
  | some sv =>
    rw [addSpec_of_taken hx hget]
    exact ⟨.error ⟨spec.name⟩, rfl, by simp, fun _ _ => ⟨rfl, rfl⟩⟩
  | none =>
    obtain ⟨hok, hinbox, hsv, hstarts⟩ := addSpec_of_free hx hget
    exact ⟨.ok (), by rw [hok, hinbox]; rfl, fun _ => ⟨hsv, hstarts⟩, by simp⟩

/-- In every state of a supervisor, whatever its strategy, the answer to a registration is truthful
if and only if the supervisor is not exiting. -/
theorem registers_truthfully (spec : ChildSpec) :
    (∀ s : OneForOneSupervisor, RegisterTruthful s spec ↔ s.inner.isExiting = false) ∧
    (∀ s : OneForAllSupervisor, RegisterTruthful s spec ↔ s.inner.isExiting = false) ∧
    ∀ s : RestForOneSupervisor, RegisterTruthful s spec ↔ s.inner.isExiting = false := by
  have key : ∀ {σ : Type} [Strategy σ], TracedHandlers σ → ∀ s : σ,
      RegisterTruthful s spec ↔ (inner s).isExiting = false := by
    intro σ _ h s
    refine ⟨fun ht => ?_, registerTruthful_of_open h⟩
    rw [Bool.eq_false_iff]
    exact fun hx => not_registerTruthful_of_exiting h hx ht
  exact ⟨key OneForOneSupervisor.tracedHandlers, key OneForAllSupervisor.tracedHandlers,
    key RestForOneSupervisor.tracedHandlers⟩

/-- The supervisor waits for `a` to exit when `b` is registered. -/
theorem not_registers_truthfully : ¬ ∀ s : OneForOneSupervisor,
    (runs OneForOneSupervisor).Reachable (.running s) → ∀ spec, RegisterTruthful s spec := by
  intro hall
  obtain ⟨s, hr, hx⟩ := exists_running
    (p := fun s : OneForOneSupervisor => s.inner.isExiting = true)
    (begins_booted [childSpec "a" .always none] (by decide) .default)
    (comesUp "a" ++ [.signal .shutdown]) (by decide)
  exact not_registerTruthful_of_exiting OneForOneSupervisor.tracedHandlers hx
    (hall s hr (childSpec "b" .always none))

end Zestors
