import Zestors.Supervisor.Departing

/-!
# When a supervisor is initialized

A supervisor is to leave `Initializing` when each of its initial children has reported that it is
initialized, or is gone. `Watch` remembers which of them have done neither yet (`waiting`), whatever
the supervisor itself keeps track of. Completion is only looked at when a child reports: a supervisor
stays in `Initializing` for good if it has no children to begin with, or if the last child that it
waits for is removed. Otherwise its status is exact (`initExact_of_sparing`).
-/

namespace Zestors
open SupervisorInner LoopState Strategy

/-- The child that reports that it is initialized. -/
def SupervisorInner.Event.reports : Event → Option Name
  | .supervisee name (.initialized (.ok _)) => some name
  | _ => none

variable {σ : Type} [Strategy σ]

/-- Who is there. -/
def LoopState.names : LoopState σ → List Name
  | running s | broken s => (inner s).supervisees.names
  | panicked => []

/-- A supervisor, and the initial children that have neither reported nor been removed. -/
structure Watch (σ : Type) where
  loop : LoopState σ
  waiting : List Name

namespace Watch

/-- All children are waited for when the loop begins. -/
def Opens (w : Watch σ) : Prop := Begins w.loop ∧ w.waiting = w.loop.names

def step (w : Watch σ) (ev : Event) : Option (Watch σ) :=
  (Strategy.step w.loop ev).map fun st =>
    ⟨st, w.waiting.filter fun m => ev.reports ≠ some m ∧ m ∈ st.names⟩

/-- The status is not `Initializing` if and only if nobody is waited for, as long as the supervisor
is not exiting. -/
def InitExact (w : Watch σ) : Prop :=
  w.loop.Sat (fun s => (inner s).isExiting = false → ((inner s).isInitializing = false ↔ w.waiting = []))
    fun _ => True

/-- One of those who are waited for is not removed by the event. -/
def Spares [Departing σ] (w : Watch σ) (ev : Event) : Prop :=
  w.loop.Sat (fun s => (inner s).isExiting = false → w.waiting = [] ∨
    ∃ m ∈ w.waiting, ¬ Departing.Departs s ev m) fun _ => True

instance (w : Watch σ) : Decidable w.InitExact := by
  unfold InitExact
  infer_instance

instance [Departing σ] (w : Watch σ) (ev : Event) : Decidable (w.Spares ev) := by
  unfold Spares
  infer_instance

/-- A supervisor that has just entered its loop. -/
def booted (σ : Type) [Strategy σ] (blueprint : List ChildSpec) : Watch σ :=
  ⟨Zestors.booted σ blueprint .default, (Zestors.booted σ blueprint .default).names⟩

theorem opens_booted (blueprint : List ChildSpec) (h : (blueprint.map ChildSpec.name).Nodup) :
    (booted σ blueprint).Opens :=
  ⟨begins_booted blueprint h .default, rfl⟩

end Watch

/-- The runs of a supervisor, watched. -/
def watched (σ : Type) [Strategy σ] : Lts (Watch σ) Event := Lts.ofFun Watch.Opens Watch.step

/-- The runs that begin with somebody to wait for, and in which the last of them is not removed. -/
def sparing (σ : Type) [Strategy σ] [Departing σ] : Lts (Watch σ) Event :=
  (Lts.ofFun (fun w => Watch.Opens w ∧ w.waiting ≠ []) Watch.step).guard Watch.Spares

theorem exists_sparing [Departing σ] {p : Watch σ → Prop} [DecidablePred p] {blueprint : List ChildSpec}
    (h : (blueprint.map ChildSpec.name).Nodup) (hne : (Watch.booted σ blueprint).waiting ≠ [])
    (es : List Event) (hp : ((Lts.exec (Lts.guardFun Watch.step Watch.Spares)
      (Watch.booted σ blueprint) es).any fun w => decide (p w)) = true) :
    ∃ w : Watch σ, (sparing σ).Reachable w ∧ p w :=
  Lts.exists_guard_reachable_of_exec ⟨Watch.opens_booted _ h, hne⟩ es hp

theorem runs_of_sparing [Departing σ] {w : Watch σ} (h : (sparing σ).Reachable w) :
    (runs σ).Reachable w.loop := by
  induction h with
  | init h₀ => exact .init h₀.1.1
  | step _ hs ih =>
    obtain ⟨st, hst, rfl⟩ := Option.map_eq_some_iff.1 hs.1
    exact .step ih hst

/-! ## Turns of the loop -/

/-- What a turn without a report does, if the supervisor is not exiting after it: somebody stops being
waited for when he is removed, and only then. -/
structure Turned (s s' : σ) : Prop where
  isInitializing : (inner s').isInitializing = (inner s).isInitializing
  init : (inner s').inbox.init = (inner s).inbox.init
  mem : ∀ n, n ∈ initializing s' ↔ n ∈ initializing s ∧
    ((inner s').supervisees.stateOf n = none → (inner s).supervisees.stateOf n = none)

/-- The supervisor keeps track of those who are waited for. -/
structure Synced (s : σ) (waiting : List Name) : Prop where
  mem : ∀ n, n ∈ initializing s ↔ n ∈ waiting
  present : ∀ n ∈ waiting, (inner s).supervisees.stateOf n ≠ none
  exact : (inner s).isInitializing = true ↔ waiting ≠ []
  init : (inner s).isInitializing = true → (inner s).inbox.init ≠ .completed

/-- What a strategy has to show of its own handlers, in the states that `K` allows for. -/
structure WatchedHandlers (σ : Type) [Strategy σ] [Departing σ] (K : σ → Prop) : Prop
    extends TracedHandlers σ where
  initializing_setInner : ∀ (s : σ) i, initializing (setInner s i) = initializing s
  initializing_setInitializing : ∀ (s : σ) w, initializing (setInitializing s w) = w
  lapsed_removeSpec : ∀ (s : σ) n, Lapsed s (Strategy.removeSpec s n).1
  lapsed_afterInitialized : ∀ (s : σ) n, Lapsed s (Strategy.afterInitialized s n).1
  lapsed_handleExit : ∀ (s : σ) n reason x, Strategy.handleExit s n reason = some x → Lapsed s x.1
  departs_of_removeSpec : ∀ (s : σ) ev n m, K s → ev.removes = some n →
    (inner (Strategy.removeSpec s n).1).isExiting = false → (inner s).supervisees.stateOf m ≠ none →
    (inner (Strategy.removeSpec s n).1).supervisees.stateOf m = none → Departing.Departs s ev m
  departs_of_handleExit : ∀ (s : σ) n item reason x m, K s → item.exitReason = some reason →
    ¬ Gone (inner s) n → Strategy.handleExit (setInner s ((inner s).setState n .dead)) n reason = some x →
    (inner x.1).isExiting = false → (inner s).supervisees.stateOf m ≠ none →
    (inner x.1).supervisees.stateOf m = none → Departing.Departs s (.supervisee n item) m
  spared : ∀ (s s₁ : σ) n m, K s → (inner s).supervisees.stateOf n = some .initializing →
    s₁ = Strategy.handleInitialized (setInner s ((inner s).setState n .alive)) n →
    (inner s₁).supervisees.stateOf m ≠ none →
    (inner (Strategy.afterInitialized s₁ n).1).supervisees.stateOf m ≠ none

theorem SupervisorInner.inbox_addSpec {s : SupervisorInner} {spec : ChildSpec} :
    (s.addSpec spec).1.inbox = s.inbox := by
  unfold addSpec
  split
  · rfl
  split
  · rfl
  · unfold start
    split <;> rfl

theorem SupervisorInner.inbox_load {s s' : SupervisorInner} {specs : List ChildSpec}
    (h : s.load specs = .ok s') : s'.inbox = s.inbox := by
  induction specs generalizing s with
  | nil =>
    cases h
    rfl
  | cons spec specs ih =>
    unfold load at h
    split at h
    · cases h
    · exact (ih h).trans rfl

theorem SupervisorInner.stateOf_of_addSpec {s : SupervisorInner} {spec : ChildSpec} {n : Name}
    (h : (s.addSpec spec).1.supervisees.stateOf n = none) : s.supervisees.stateOf n = none := by
  rcases addSpec_cases s spec with heq | hadd
  · rwa [heq] at h
  · rw [hadd.stateOf] at h
    split at h
    · cases h
    · exact h

theorem SupervisorInner.inbox_setState {s : SupervisorInner} {n : Name} {state : SuperviseeState} :
    (s.setState n state).inbox = s.inbox := by
  unfold setState
  split <;> rfl

theorem SupervisorInner.inbox_handleInitialized {s : SupervisorInner} {w : IndexSet Name} {n : Name} :
    (s.handleInitialized w n).1.inbox =
      if n ∈ w ∧ s.isInitializing = true ∧ (w.swapRemove n).isEmpty = true then
        s.inbox.registerInitialized
      else s.inbox := by
  simp only [handleInitialized, Bool.and_eq_true, decide_eq_true_eq, and_assoc]
  split <;> rfl

theorem Inbox.not_initializing_registerInitialized {inbox : Inbox} (h : inbox.init ≠ .completed) :
    (inbox.registerInitialized.status == .initializing) = false := by
  unfold registerInitialized
  rw [if_neg h]
  show (inbox.status.registerInitialized.1 == .initializing) = false
  cases inbox.status <;> rfl

theorem SupervisorInner.snd_handleInitialized {s : SupervisorInner} {w : IndexSet Name} {n : Name} :
    (s.handleInitialized w n).2 = w.swapRemove n := by
  simp only [handleInitialized]
  split <;> rfl

theorem Turned.refl (s : σ) : Turned s s := ⟨rfl, rfl, fun _ => (and_iff_left id).symm⟩

theorem Turned.of_lapsed {s s' : σ} (h : Lapsed s s') (hx : (inner s').isExiting = false) :
    Turned s s' := by
  have hinbox : (inner s').inbox = (inner s).inbox := h.inbox.resolve_right (by simp [hx])
  exact ⟨congrArg (·.status == .initializing) hinbox, congrArg Inbox.init hinbox, h.mem⟩

theorem Synced.turned {s s' : σ} {waiting : List Name} (hs : Synced s waiting) (ht : Turned s s')
    (hspare : waiting = [] ∨ ∃ m ∈ waiting, (inner s').supervisees.stateOf m ≠ none) :
    Synced s' (waiting.filter (· ∈ (inner s').supervisees.names)) := by
  have hmem : ∀ m, m ∈ waiting.filter (· ∈ (inner s').supervisees.names) ↔
      m ∈ waiting ∧ (inner s').supervisees.stateOf m ≠ none := fun m => by
    rw [List.mem_filter, decide_eq_true_eq, SuperviseeMap.mem_names_iff_stateOf]
  refine ⟨fun m => ?_, fun m hm => ((hmem m).1 hm).2, ?_, fun hx => ?_⟩
  · rw [ht.mem, hmem, hs.mem]
    exact and_congr_right fun hm => ⟨fun hgone hnone => hs.present m hm (hgone hnone), fun hne hnone =>
      absurd hnone hne⟩
  · rw [ht.isInitializing, hs.exact]
    refine ⟨fun hne hnil => ?_, fun hne hnil => hne (by rw [hnil]; rfl)⟩
    obtain ⟨m, hm, hpresent⟩ := hspare.resolve_left hne
    have hm' := (hmem m).2 ⟨hm, hpresent⟩
    rw [hnil] at hm'
    cases hm'
  · rw [ht.init]
    exact hs.init (ht.isInitializing ▸ hx)

namespace WatchedHandlers
variable [Departing σ] {K : σ → Prop} {s s' t : σ} {ev : Event} {n : Name} {waiting : List Name}

theorem turned_withInbox (h : WatchedHandlers σ K) {inbox : Inbox} (ht : Turned s t)
    (hi : inbox.init = (inner t).inbox.init)
    (hs : inbox.status = .initializing ↔ (inner t).inbox.status = .initializing) :
    Turned s (withInbox t inbox) := by
  have hinner : inner (withInbox t inbox) = { inner t with inbox } := h.inner_setInner _ _
  refine ⟨?_, ?_, fun n => ?_⟩
  · rw [hinner, ← ht.isInitializing, Bool.eq_iff_iff]
    simpa [SupervisorInner.isInitializing] using hs
  · rw [hinner, ← ht.init]
    exact hi
  · rw [hinner, withInbox, h.initializing_setInner]
    exact ht.mem n

theorem turned_reply (h : WatchedHandlers σ K) {r : Reply} (ht : Turned s t) :
    Turned s (reply t r) :=
  h.turned_withInbox ht rfl Iff.rfl

theorem turned_addSpec (h : WatchedHandlers σ K) (spec : ChildSpec) :
    Turned s (Strategy.addSpec s spec).1 := by
  have hinner : inner (Strategy.addSpec s spec).1 = ((inner s).addSpec spec).1 := h.inner_setInner _ _
  refine ⟨?_, ?_, fun n => ?_⟩
  · rw [hinner, SupervisorInner.isInitializing, inbox_addSpec]
    rfl
  · rw [hinner, inbox_addSpec]
  · rw [hinner]
    have hinit : initializing (Strategy.addSpec s spec).1 = initializing s := h.initializing_setInner _ _
    rw [hinit, iff_self_and]
    exact fun _ => stateOf_of_addSpec

theorem turned_removeSpec (h : WatchedHandlers σ K)
    (hx : (inner (Strategy.removeSpec s n).1).isExiting = false) : Turned s (Strategy.removeSpec s n).1 :=
  .of_lapsed (h.lapsed_removeSpec s n) hx

theorem lapsed_setState (h : WatchedHandlers σ K) (state : SuperviseeState) :
    Lapsed s (setInner s ((inner s).setState n state)) := by
  rw [Lapsed, h.inner_setInner, h.initializing_setInner]
  exact .of_setState

theorem turned_signal (h : WatchedHandlers σ K) {signal : SignalInterface} {st : LoopState σ}
    (hs : Strategy.step (.running s) (.signal signal) = some st) :
    st.Sat (fun s' => (inner s').isExiting = false → Turned s s') fun _ => True := by
  obtain rfl := Option.some.inj hs
  set inbox := ((inner s).inbox.takeSignal signal).1 with hinbox
  have hyield : ((inner s).inbox.takeSignal signal).2 =
      ((inner s).inbox.status.handleSignal signal).2 := rfl
  rw [hyield]
  by_cases hsig : ((inner s).inbox.status.handleSignal signal).2 = some .shutdown
  · rw [hsig]
    refine sat_of_fst (x := shutdown (withInbox s inbox)) (fun hx => ?_) trivial
    have hexit : (inner (withInbox s inbox)).isExiting = true := by
      rw [withInbox, h.inner_setInner]
      show ((inner s).inbox.status.handleSignal signal).1.isExiting = true
      rw [ActorStatus.handleSignal_shutdown hsig]
      exact ActorStatus.isExiting_registerExiting (inner s).inbox.live
    cases hx.symm.trans ((h.shutdown _).exiting hexit)
  · have hturned : Turned s (withInbox s inbox) :=
      h.turned_withInbox (.refl s) rfl (ActorStatus.handleSignal_eq_initializing hsig)
    rcases ho : ((inner s).inbox.status.handleSignal signal).2 with _ | _ | _ | _
    · exact fun _ => hturned
    · exact absurd ho hsig
    · exact fun _ => hturned
    · exact fun _ => hturned

theorem turned_message (h : WatchedHandlers σ K) {msg : SupervisorInterface}
    (hx : (inner (handleMessage s msg)).isExiting = false) : Turned s (handleMessage s msg) := by
  cases msg with
  | children => exact h.turned_reply (.refl s)
  | health => exact h.turned_reply (.refl s)
  | register spec => exact h.turned_reply (h.turned_addSpec spec)
  | deregister name =>
    refine h.turned_reply (h.turned_removeSpec ?_)
    rwa [handleMessage, reply, withInbox, h.inner_setInner] at hx

theorem turned_of_step (h : WatchedHandlers σ K) (hr : ev.reports = none) {st : LoopState σ}
    (hs : Strategy.step (.running s) ev = some st) :
    st.Sat (fun s' => (inner s').isExiting = false → Turned s s') fun _ => True := by
  cases ev with
  | signal signal => exact h.turned_signal hs
  | message msg =>
    simp only [Strategy.step, next] at hs
    split at hs
    · cases hs
    · obtain rfl := Option.some.inj hs
      show _ → Turned s (handleMessage (setInner s (inner s)) msg)
      rw [setInner_inner]
      exact h.turned_message
  | source ev =>
    simp only [Strategy.step, next] at hs
    split at hs
    · obtain rfl := Option.some.inj hs
      show _ → Turned s (handleSource (setInner s (inner s)) ev)
      rw [setInner_inner]
      cases ev with
      | added spec => exact fun _ => h.turned_addSpec spec
      | removed name => exact h.turned_removeSpec
    · cases hs
  | supervisee name item =>
    simp only [Strategy.step, Option.map_eq_some_iff] at hs
    obtain ⟨⟨i, o⟩, hnext, rfl⟩ := hs
    obtain ⟨rfl, hy⟩ := yields_of_next hnext
    show (ofOutcome (handleItem (setInner s i) name item)).Sat _ _
    cases hy with
    | started _ => exact .of_lapsed (h.lapsed_setState _)
    | initialized _ => cases hr
    | @exit _ reason _ _ hreason _ =>
      rw [handleItem_of_exitReason hreason]
      rcases hx : handleExit (setInner s ((inner s).setState name .dead)) name reason with _ | x
      · trivial
      · exact sat_of_fst (.of_lapsed ((h.lapsed_setState _).trans (h.lapsed_handleExit _ _ _ x hx)))
          trivial

theorem inner_handleInitialized (h : WatchedHandlers σ K) {i : SupervisorInner} :
    inner (Strategy.handleInitialized (setInner s i) n) = (i.handleInitialized (initializing s) n).1 := by
  rw [Strategy.handleInitialized, h.inner_setInitializing, h.inner_setInner, h.inner_setInner,
    h.initializing_setInner]

/-- A report is counted, and completes the initialization if it was the last one. -/
theorem synced_handleInitialized (h : WatchedHandlers σ K) (hs : Synced s waiting) :
    Synced (Strategy.handleInitialized (setInner s ((inner s).setState n .alive)) n)
      (waiting.filter (n ≠ ·)) := by
  set i := (inner s).setState n .alive with hi
  set s₁ := Strategy.handleInitialized (setInner s i) n with hs₁
  have hinner : inner s₁ = (i.handleInitialized (initializing s) n).1 := h.inner_handleInitialized
  have hwaits : initializing s₁ = (initializing s).swapRemove n := by
    rw [hs₁, Strategy.handleInitialized, h.initializing_setInitializing, snd_handleInitialized,
      h.initializing_setInner]
  have hinbox : i.inbox = (inner s).inbox := inbox_setState
  have hinit : i.isInitializing = (inner s).isInitializing := congrArg (·.status == .initializing) hinbox
  have hmem : ∀ m, m ∈ initializing s₁ ↔ m ∈ waiting.filter (n ≠ ·) := fun m => by
    rw [hwaits, IndexSet.mem_swapRemove, hs.mem, List.mem_filter, decide_eq_true_eq, and_comm, ne_comm]
  have hempty : (initializing s₁).isEmpty = true ↔ waiting.filter (n ≠ ·) = [] := by
    rw [IndexSet.isEmpty_iff, List.eq_nil_iff_forall_not_mem]
    exact forall_congr' fun m => not_congr (hmem m)
  have hstate : ∀ m ∈ waiting, (inner s₁).supervisees.stateOf m ≠ none := fun m hm => by
    rw [hinner, same_handleInitialized.stateOf_eq]
    exact present_setState (hs.present m hm)
  have hinbox₁ := congrArg SupervisorInner.inbox hinner
  rw [inbox_handleInitialized, hinit, hinbox, ← hwaits] at hinbox₁
  split at hinbox₁ <;> rename_i hlast
  · -- Nobody else is waited for.
    have hrun : (inner s₁).isInitializing = false := by
      rw [SupervisorInner.isInitializing, hinbox₁]
      exact Inbox.not_initializing_registerInitialized (hs.init hlast.2.1)
    exact ⟨hmem, fun m hm => hstate m (List.mem_of_mem_filter hm),
      iff_of_false (by simp [hrun]) (not_not.2 (hempty.1 hlast.2.2)), fun hx => by simp [hrun] at hx⟩
  · have hinit₁ : (inner s₁).isInitializing = (inner s).isInitializing :=
      congrArg (·.status == .initializing) hinbox₁
    refine ⟨hmem, fun m hm => hstate m (List.mem_of_mem_filter hm), ?_, fun hx => ?_⟩
    · rw [hinit₁]
      refine ⟨fun hx hnil => hlast ⟨?_, hx, hempty.2 hnil⟩, fun hne => hs.exact.2 fun hnil => ?_⟩
      · -- Somebody is waited for, and it can only be `n`.
        obtain ⟨m, hm⟩ := List.exists_mem_of_ne_nil _ (hs.exact.1 hx)
        by_cases hmn : n = m
        · exact (hs.mem n).2 (hmn ▸ hm)
        · have hm' : m ∈ waiting.filter (n ≠ ·) := List.mem_filter.2 ⟨hm, decide_eq_true hmn⟩
          rw [hnil] at hm'
          cases hm'
      · exact hne (by rw [hnil]; rfl)
    · rw [hinbox₁]
      exact hs.init (hinit₁ ▸ hx)

theorem departs_obligations (h : WatchedHandlers σ K) (hK : K s) : Obligations (· = s) (fun _ e => e = ev)
    (fun s' => (inner s').isExiting = false → ∀ m, (inner s).supervisees.stateOf m ≠ none →
      (inner s').supervisees.stateOf m = none → Departing.Departs s ev m) fun _ => True where
  keep t ht _ m hm hgone := absurd (ht ▸ hgone) hm
  inbox t inbox ht hx := by
    have hinner : inner (withInbox t inbox) = { inner t with inbox } := h.inner_setInner _ _
    rw [hinner]
    exact fun hx' => ht (hx.symm.trans hx')
  shutdown t inbox ht hx := by
    refine sat_of_fst (fun hx' => ?_) trivial
    have hexit : (inner (withInbox t inbox)).isExiting = true := by
      rw [withInbox, h.inner_setInner]
      exact hx
    cases hx'.symm.trans ((h.shutdown _).exiting hexit)
  add t e spec ht hev _ hx m hm hgone := by
    subst ht
    have hinner : inner (Strategy.addSpec t spec).1 = ((inner t).addSpec spec).1 := h.inner_setInner _ _
    rw [hinner] at hgone
    exact absurd (stateOf_of_addSpec hgone) hm
  remove t e n ht hev hr hx m hm hgone := by
    subst ht hev
    exact h.departs_of_removeSpec t e n m hK hr hx hm hgone
  item t n item i ht hev hy := by
    subst ht hev
    have hset : ∀ j, inner (setInner t j) = j := h.inner_setInner t
    cases hy with
    | started _ =>
      intro _ m hm hgone
      rw [hset] at hgone
      exact absurd hgone (present_setState hm)
    | initialized hst =>
      refine sat_of_fst (fun _ m hm hgone => absurd hgone ?_) trivial
      refine h.spared t _ n m hK hst rfl ?_
      rw [h.inner_handleInitialized, same_handleInitialized.stateOf_eq]
      exact present_setState hm
    | @exit _ reason _ hst hreason hfit =>
      rw [handleItem_of_exitReason hreason]
      rcases hx : handleExit (setInner t ((inner t).setState n .dead)) n reason with _ | x
      · trivial
      · exact sat_of_fst (fun hx' m => h.departs_of_handleExit t n item reason x m hK hreason
          (not_gone_of_fits hst hfit) hx hx') trivial

theorem synced_of_report (h : WatchedHandlers σ K) (hK : K s) (hs : Synced s waiting) {u : Unit}
    {st : LoopState σ}
    (hstep : Strategy.step (.running s) (.supervisee n (.initialized (.ok u))) = some st) :
    st.Sat (fun s' => (inner s').isExiting = false →
      Synced s' ((waiting.filter (n ≠ ·)).filter (· ∈ (inner s').supervisees.names))) fun _ => True := by
  simp only [Strategy.step, Option.map_eq_some_iff] at hstep
  obtain ⟨⟨i, o⟩, hnext, rfl⟩ := hstep
  obtain ⟨rfl, hy⟩ := yields_of_next hnext
  cases hy with
  | initialized hst =>
    refine sat_of_fst (fun hx => ?_) trivial
    have hs₁ := h.synced_handleInitialized (n := n) hs
    refine hs₁.turned (.of_lapsed (h.lapsed_afterInitialized _ _) hx) ?_
    by_cases hnil : waiting.filter (n ≠ ·) = []
    · exact .inl hnil
    · obtain ⟨m, hm⟩ := List.exists_mem_of_ne_nil _ hnil
      exact .inr ⟨m, hm, h.spared s _ n m hK hst rfl (hs₁.present m hm)⟩
  | exit _ hreason _ => cases hreason

/-- A turn keeps track of those who are waited for, if one of them is spared. -/
theorem synced_of_step (h : WatchedHandlers σ K) (hK : K s) (hs : Synced s waiting)
    (hok : waiting = [] ∨ ∃ m ∈ waiting, ¬ Departing.Departs s ev m)
    (hstep : Strategy.step (.running s) ev = some (.running s')) (hx : (inner s').isExiting = false) :
    Synced s' (waiting.filter fun m => ev.reports ≠ some m ∧ m ∈ (inner s').supervisees.names) := by
  rcases hr : ev.reports with _ | n
  · have ht : Turned s s' := h.turned_of_step hr hstep hx
    have hd := (h.departs_obligations hK).step rfl rfl hstep hx
    have hsynced := hs.turned ht (hok.imp_right fun ⟨m, hm, hne⟩ => ⟨m, hm, fun hgone =>
      hne (hd m (hs.present m hm) hgone)⟩)
    simpa using hsynced
  · unfold Event.reports at hr
    split at hr
    · cases hr
      have hsynced : Synced s' _ := h.synced_of_report hK hs hstep hx
      simpa [List.filter_filter, Bool.and_comm] using hsynced
    · cases hr

theorem synced_of_begins (h : WatchedHandlers σ K) {st : LoopState σ} (hst : Begins st)
    (hne : st.names ≠ []) : st.Sat (fun s => Synced s st.names) fun _ => True := by
  obtain ⟨blueprint, loaded, intensity, source, clock, s₀, -, hload⟩ := hst
  have hok := (((Unstarted.new blueprint intensity source clock).load hload).startAll).1
  have hinbox : s₀.startAll.1.inbox = Inbox.spawned.setManualInit := inbox_load hload
  set t : σ := setInitializing (setInner (Strategy.new s₀) s₀.startAll.1)
    (.ofList s₀.startAll.1.supervisees.names)
    with ht
  have hinner : inner t = s₀.startAll.1 := by
    rw [ht, h.inner_setInitializing, h.inner_setInner]
  have hbegin : begin (Strategy.new s₀ : σ) = .running t := by
    unfold begin
    rw [inner_new, hok]
    dsimp only
    rw [h.inner_setInner]
  rw [hbegin] at hne ⊢
  have hinit : (inner t).isInitializing = true := by
    rw [hinner, SupervisorInner.isInitializing, hinbox]
    rfl
  refine ⟨fun n => ?_, fun n hn => SuperviseeMap.mem_names_iff_stateOf.1 hn, iff_of_true hinit hne, fun _ => ?_⟩
  · rw [ht, h.initializing_setInitializing, IndexSet.mem_ofList, ← ht, names, hinner]
  · rw [hinner, hinbox]
    simp [Inbox.spawned, Inbox.setManualInit]

/-- In every run that keeps somebody to wait for, the supervisor keeps track of those who are waited
for. -/
theorem synced_of_sparing (h : WatchedHandlers σ K)
    (hK : ∀ s : σ, (runs σ).Reachable (.running s) → (inner s).isExiting = false → K s) {w : Watch σ}
    (hr : (sparing σ).Reachable w) :
    w.loop.Sat (fun s => (inner s).isExiting = false → Synced s w.waiting) fun _ => True := by
  induction hr with
  | init h₀ =>
    obtain ⟨⟨hb, hw⟩, hne⟩ := h₀
    rw [hw] at hne ⊢
    exact (h.synced_of_begins hb hne).mono (fun _ hs _ => hs) fun _ h => h
  | @step w w' ev hr hs ih =>
    obtain ⟨hs, hok⟩ := hs
    obtain ⟨st, hst, rfl⟩ := Option.map_eq_some_iff.1 hs
    cases hloop : w.loop with
    | running s =>
      rw [hloop] at hst
      rw [Watch.Spares, hloop] at hok
      rw [hloop] at ih
      cases st with
      | running s' =>
        intro hx'
        have hx : (inner s).isExiting = false := by
          by_contra hx
          cases hx'.symm.trans ((h.traced_of_step hst).exiting (by simpa using hx))
        exact h.synced_of_step (hK s (hloop ▸ runs_of_sparing hr) hx) (ih hx) (hok hx) hst hx'
      | broken s' => trivial
      | panicked => trivial
    | broken s =>
      rw [hloop] at hst
      cases hst
    | panicked =>
      rw [hloop] at hst
      cases hst

theorem initExact (h : WatchedHandlers σ K)
    (hK : ∀ s : σ, (runs σ).Reachable (.running s) → (inner s).isExiting = false → K s) {w : Watch σ}
    (hr : (sparing σ).Reachable w) : w.InitExact :=
  (h.synced_of_sparing hK hr).mono (fun s hs hx => by
    rw [← Bool.not_eq_true, (hs hx).exact, not_not]) fun _ h => h

end WatchedHandlers

theorem OneForOneSupervisor.watchedHandlers :
    WatchedHandlers OneForOneSupervisor fun s => ∀ n, n ∉ s.exiting where
  toTracedHandlers := tracedHandlers
  initializing_setInner _ _ := rfl
  initializing_setInitializing _ _ := rfl
  lapsed_removeSpec _ _ := lapsed_removeSpec
  lapsed_afterInitialized _ _ := .refl _ _
  lapsed_handleExit _ _ _ _ h := by
    cases h
    exact lapsed_handleExit
  departs_of_removeSpec _ _ _ _ _ hev _ hm hgone := departs_of_removeSpec hev hm hgone
  departs_of_handleExit _ _ _ _ _ _ he hr hn h hx hm hgone := by
    cases h
    exact departs_of_handleExit he hr hn hx hm hgone
  spared _ _ _ _ _ _ _ hm := hm

theorem OneForAllSupervisor.watchedHandlers :
    WatchedHandlers OneForAllSupervisor fun s => s.Grouped ∧ ∀ n, n ∉ s.exiting where
  toTracedHandlers := tracedHandlers
  initializing_setInner _ _ := rfl
  initializing_setInitializing _ _ := rfl
  lapsed_removeSpec _ _ := lapsed_removeSpec
  lapsed_afterInitialized _ _ := .refl _ _
  lapsed_handleExit _ _ _ _ h := by
    cases h
    exact lapsed_handleExit
  departs_of_removeSpec _ _ _ _ _ hev _ hm hgone := departs_of_removeSpec hev hm hgone
  departs_of_handleExit _ _ _ _ _ _ hK hr hn h hx hm hgone := by
    cases h
    exact departs_of_handleExit hK.1 hK.2 hr hn hx hm hgone
  spared _ _ _ _ _ _ _ hm := hm

theorem RestForOneSupervisor.watchedHandlers :
    WatchedHandlers RestForOneSupervisor fun s => RunPhase s.inner s.cascade where
  toTracedHandlers := tracedHandlers
  initializing_setInner _ _ := rfl
  initializing_setInitializing _ _ := rfl
  lapsed_removeSpec _ _ := lapsed_removeSpec
  lapsed_afterInitialized _ _ := lapsed_afterInitialized
  lapsed_handleExit _ _ _ _ h := lapsed_handleExit h
  departs_of_removeSpec _ _ _ _ hK hev hx hm hgone :=
    departs_of_removeSpec hK.not_shuttingDown hev hx hm hgone
  departs_of_handleExit _ _ _ _ _ _ hK hr hn h hx hm hgone :=
    departs_of_handleExit hK.not_shuttingDown hr hn h hx hm hgone
  spared s s₁ n m hK hst hs₁ hm := by
    subst hs₁
    refine afterInitialized_present (s := Strategy.handleInitialized (setInner s _) n)
      hK.not_shuttingDown (fun p r d hc => ?_) hm
    -- Whoever the cascade is stopping cannot report.
    rw [show s.cascade = .exiting n p r d from hc] at hK
    cases hst.symm.trans hK

/-! ## Runs -/

/-- The status is exact in every run that begins with somebody to wait for, and in which the last of
them is not removed. -/
theorem initExact_of_sparing (u : Watch OneForOneSupervisor) (v : Watch OneForAllSupervisor)
    (w : Watch RestForOneSupervisor) :
    ((sparing OneForOneSupervisor).Reachable u → u.InitExact) ∧
      ((sparing OneForAllSupervisor).Reachable v → v.InitExact) ∧
      ((sparing RestForOneSupervisor).Reachable w → w.InitExact) := by
  refine ⟨fun hr => ?_, fun hr => ?_, fun hr => ?_⟩
  · refine OneForOneSupervisor.watchedHandlers.initExact (fun s hs hx => ?_) hr
    have ha : AwaitsAll s.inner s.exiting := OneForOneSupervisor.awaitsAll_of_reachable hs
    exact ha.quiet hx
  · refine OneForAllSupervisor.watchedHandlers.initExact (fun s hs hx => ?_) hr
    have hf : s.Folding := OneForAllSupervisor.folding_of_reachable hs
    exact ⟨OneForAllSupervisor.grouped_of_reachable hs hx, hf.awaits.quiet hx⟩
  · refine RestForOneSupervisor.watchedHandlers.initExact (fun s hs hx => ?_) hr
    have hp : s.Phased := RestForOneSupervisor.phased_of_reachable hs
    exact hp.running hx

/-- `a` is removed before it reports, and then `b` reports. -/
theorem initExact_of_sparing_removed :
    ∃ (u : Watch OneForOneSupervisor) (v : Watch OneForAllSupervisor) (w : Watch RestForOneSupervisor),
      (u.waiting = [] ∧ u.InitExact) ∧ (v.waiting = [] ∧ v.InitExact) ∧ w.waiting = [] ∧ w.InitExact := by
  have hnodup : ([childSpec "a" .always none, childSpec "b" .never none].map ChildSpec.name).Nodup :=
    by decide
  obtain ⟨u, hu, hud⟩ := exists_sparing (p := fun u : Watch OneForOneSupervisor => u.waiting = []) hnodup
    (by decide) (.source (.removed ⟨"a"⟩) :: comesUp "b") (by decide)
  obtain ⟨v, hv, hvd⟩ := exists_sparing (p := fun v : Watch OneForAllSupervisor => v.waiting = []) hnodup
    (by decide) (.source (.removed ⟨"a"⟩) :: comesUp "b") (by decide)
  obtain ⟨w, hw, hwd⟩ := exists_sparing (p := fun w : Watch RestForOneSupervisor => w.waiting = []) hnodup
    (by decide) (.source (.removed ⟨"a"⟩) :: comesUp "b") (by decide)
  have h := initExact_of_sparing u v w
  exact ⟨u, v, w, ⟨hud, h.1 hu⟩, ⟨hvd, h.2.1 hv⟩, hwd, h.2.2 hw⟩

/-- A supervisor without children is never initialized, and neither is one whose last child ends before
it reports, or is removed. -/
theorem not_initExact :
    (¬ ∀ u : Watch OneForOneSupervisor, (watched OneForOneSupervisor).Reachable u → u.InitExact) ∧
    (¬ ∀ v : Watch OneForAllSupervisor, (watched OneForAllSupervisor).Reachable v → v.InitExact) ∧
    ¬ ∀ w : Watch RestForOneSupervisor, (watched RestForOneSupervisor).Reachable w → w.InitExact := by
  have hnodup : ([childSpec "a" .always none, childSpec "b" .never none].map ChildSpec.name).Nodup :=
    by decide
  refine ⟨?_, ?_, ?_⟩
  · exact Lts.not_invariant_of_exec (Watch.opens_booted [] List.nodup_nil) [] (by decide)
  · exact Lts.not_invariant_of_exec (Watch.opens_booted _ hnodup)
      (comesUp "a" ++ [.supervisee ⟨"b"⟩ (.started (.error .timeout))]) (by decide)
  · exact Lts.not_invariant_of_exec (Watch.opens_booted _ hnodup)
      (comesUp "a" ++ [.message (.deregister ⟨"b"⟩)]) (by decide)

end Zestors
