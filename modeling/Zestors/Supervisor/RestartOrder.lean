import Zestors.Supervisor.RestForOneSpec

/-!
# The order of rest-for-one restarts

A cascade starts its members one at a time, the next one only when the last one is done
(`Restarts`). It starts them in the order of their slots as long as its list of names to restart is
in that order back to front (`Ordered`): but the trigger is put at the front of that list, so it is
the last to start unless all who come after it are dropped (`KeepsOrder`).
-/

namespace Zestors

/-- The names come in strictly increasing start order. -/
def SupervisorInner.InStartOrder (i : SupervisorInner) (l : List Name) : Prop :=
  l.Pairwise fun a b => i.supervisees.names.idxOf a < i.supervisees.names.idxOf b

instance (i : SupervisorInner) (l : List Name) : Decidable (i.InStartOrder l) := by
  unfold SupervisorInner.InStartOrder; infer_instance

namespace RestForOneSupervisor
open SupervisorInner LoopState Strategy

variable {s s' : RestForOneSupervisor} {i : SupervisorInner} {l r d p : List Name} {n : Name}

/-! ## Orders of the lists -/

/-- The lists of the cascade are in the order of the slots. -/
def Ordered (i : SupervisorInner) : Cascade → Prop
  | .exiting _ p r _ => r.reverse.Sublist i.supervisees.keys ∧ ∀ n ∈ p, ¬ Restartable i n
  | .restarting c p => (c :: p).Sublist i.supervisees.keys
  | .idle | .shuttingDown _ _ => True

/-- Whether the event keeps the lists of the cascade in order. A trigger that begins a cascade does
if everybody after it is dropped; one that joins a cascade does if it comes before everybody who is
to be restarted, and everybody between it and `current` who was not stopped yet is dropped. A new
child does if it does not take the name of one that is to be stopped, or is dropped with it. -/
def KeepsOrder (s : RestForOneSupervisor) : Event → Prop
  | .supervisee n item =>
    match item.exitReason, s.cascade with
    | some reason, .exiting c p r d =>
      n ≠ c → n ∉ p → Required s.inner n reason → (s.inner.acquirePermits n).2 = true →
        (∀ m ∈ r, s.inner.supervisees.keys.idxOf n < s.inner.supervisees.keys.idxOf m) ∧
          ∀ m ∈ s.inner.supervisees.names, Between s.inner n c r d m → ¬ Restartable s.inner m
    | some reason, .idle | some reason, .restarting _ _ =>
      s.cascade.current ≠ some n → Required s.inner n reason →
        (s.inner.acquirePermits n).2 = true →
          ∀ m ∈ s.inner.supervisees.names,
            s.inner.supervisees.names.idxOf n < s.inner.supervisees.names.idxOf m →
              ¬ Restartable s.inner m
    | _, _ => True
  | ev =>
    match ev.registers, s.cascade with
    | some spec, .exiting _ p _ _ => spec.name ∈ p → spec.cfg.restartMode = .never
    | _, _ => True

instance (s : RestForOneSupervisor) (n c : Name) (r d : List Name) (m : Name) :
    Decidable (Between s.inner n c r d m) := by
  unfold Between; infer_instance

instance (s : RestForOneSupervisor) (ev : Event) : Decidable (KeepsOrder s ev) := by
  unfold KeepsOrder
  exact match ev with
    | .supervisee _ item => by
      dsimp only
      exact match item.exitReason, s.cascade with
        | none, _ | some _, .idle | some _, .restarting .. | some _, .shuttingDown .. |
          some _, .exiting .. => inferInstance
    | .signal _ | .message _ | .source _ => by
      dsimp only
      exact match Event.registers _, s.cascade with
        | none, _ | some _, .idle | some _, .restarting .. | some _, .shuttingDown .. |
          some _, .exiting .. => inferInstance

theorem Ordered.mono {i' : SupervisorInner} {c : Cascade} (h : Ordered i c)
    (hk : i.supervisees.keys <+: i'.supervisees.keys)
    (hr : ∀ c₁ p r d, c = .exiting c₁ p r d → ∀ n ∈ p, Restartable i' n → Restartable i n) :
    Ordered i' c := by
  cases c with
  | idle | shuttingDown => trivial
  | restarting c p => exact h.trans hk.sublist
  | exiting c p r d =>
    exact ⟨h.1.trans hk.sublist, fun n hn hR => h.2 n hn (hr _ _ _ _ rfl n hn hR)⟩

theorem shutdownNext_ordered : Ordered (s.shutdownNext l).1.inner (s.shutdownNext l).1.cascade := by
  rcases shutdownNext_spec s l with ⟨i, heq, -⟩ | ⟨i, pre, c, post, -, heq, -⟩ <;> rw [heq] <;> trivial

theorem shutdown_ordered : Ordered s.shutdown.1.inner s.shutdown.1.cascade := by
  rcases shutdown_cases s with ⟨-, heq⟩ | ⟨c, p, hc, heq⟩ <;> rw [heq]
  · exact shutdownNext_ordered
  · rw [hc]
    trivial

theorem advanceRestart_ordered (h : l.Sublist s.inner.supervisees.keys) :
    Ordered (s.advanceRestart l).1.inner (s.advanceRestart l).1.cascade := by
  rcases advanceRestart_spec s l with ⟨heq, -⟩ | ⟨pre, c, post, rfl, heq, -⟩ <;> rw [heq]
  · trivial
  · show (c :: post).Sublist (s.inner.start c .restart).1.supervisees.keys
    rw [keys_start]
    exact (List.sublist_append_right pre (c :: post)).trans h

theorem stopNext_ordered (hr : r.reverse.Sublist s.inner.supervisees.keys)
    (hl : ∀ n ∈ l, ¬ Restartable s.inner n) :
    Ordered (s.stopNext l r d).1.inner (s.stopNext l r d).1.cascade := by
  have hends := stopNext_ends s l r d
  -- Nobody is added to the names to restart.
  have hnil : ∀ l' : List Name, (∀ n ∈ l', n ∈ l) →
      (l'.filter fun n => Restartable s.inner n) = [] := fun l' hsub =>
    List.filter_eq_nil_iff.2 fun n hn => by simpa using hl n (hsub n hn)
  generalize s.stopNext l r d = x at hends ⊢
  cases hends with
  | @waits i pre post c heq hst _ _ =>
    subst heq
    rw [hnil (pre ++ [c]) (by simp +contextual [or_imp]), List.append_nil]
    refine ⟨?_, fun n hn hR => ?_⟩
    · show r.reverse.Sublist i.supervisees.keys
      rw [hst.keys]; exact hr
    · exact hl n (by simp_all) ((Restartable.congr (hst.modeOf n)).1 hR)
  | @refused i pre post c heq _ _ hc _ _ => exact absurd hc (hl c (by simp [heq]))
  | @done i hst _ =>
    have hd := droppedAll { s with inner := i } (d ++ l.filter fun n => Droppable s.inner n)
    rw [hnil l fun _ => id, List.append_nil]
    refine advanceRestart_ordered ?_
    rw [hd.keys]
    show r.reverse.Sublist i.supervisees.keys
    rw [hst.keys]; exact hr

theorem advanceCascade_ordered (h : Ordered s.inner s.cascade) :
    Ordered s.advanceCascade.1.inner s.advanceCascade.1.cascade := by
  unfold advanceCascade
  split <;> rename_i hc <;> rw [hc] at h
  · rw [hc]; trivial
  · exact stopNext_ordered h.1 fun n hn => h.2 n (List.mem_reverse.1 hn)
  · exact advanceRestart_ordered ((List.sublist_cons_self _ _).trans h)
  · exact shutdownNext_ordered

theorem dropSpec_ordered (h : Ordered s.inner s.cascade) :
    Ordered (s.dropSpec n).1.inner s.cascade := by
  have hr := removed_dropSpec (s := s) (n := n)
  refine h.mono (hr.keys ▸ List.prefix_rfl) fun _ _ _ _ _ j _ hR => ?_
  unfold Restartable at hR ⊢
  rw [hr.modeOf] at hR
  split at hR
  · exact absurd rfl hR.1
  · exact hR

theorem removeSpec_ordered (h : Ordered s.inner s.cascade) :
    Ordered (s.removeSpec n).1.inner (s.removeSpec n).1.cascade := by
  have hcase := removeSpec_case s n
  generalize (s.removeSpec n).1 = s' at hcase ⊢
  cases hcase with
  | absent _ => exact h
  | other _ => exact dropSpec_ordered h
  | current _ _ => exact advanceCascade_ordered (s := (s.dropSpec n).1) (dropSpec_ordered h)

theorem addSpec_ordered {ev : Event} {spec : ChildSpec} (h : Ordered s.inner s.cascade)
    (hok : KeepsOrder s ev) (hev : ev.registers = some spec) :
    Ordered (s.inner.addSpec spec).1 s.cascade := by
  rcases addSpec_cases s.inner spec with heq | hadd
  · rwa [heq]
  · refine h.mono hadd.keys fun c p r d hc n hn hR => ?_
    unfold Restartable at hR ⊢
    rw [hadd.modeOf] at hR
    split at hR
    · -- A child that takes the name of one that is to be stopped is dropped with it.
      subst n
      have hnever : spec.name ∈ p → spec.cfg.restartMode = .never := by
        cases ev with
        | supervisee => cases hev
        | signal | message | source => simpa only [KeepsOrder, hev, hc] using hok
      exact absurd (congrArg some (hnever hn)) hR.2
    · exact hR

/-! ## Triggers -/

theorem KeepsOrder.begin {item : SuperviseeItem} {reason : ExitReason}
    (h : KeepsOrder s (.supervisee n item)) (hr : item.exitReason = some reason)
    (hc : s.cascade = .idle ∨ ∃ c p, c ≠ n ∧ s.cascade = .restarting c p)
    (hreq : Required s.inner n reason) (hgrant : (s.inner.acquirePermits n).2 = true) :
    ∀ m ∈ s.inner.supervisees.names,
      s.inner.supervisees.names.idxOf n < s.inner.supervisees.names.idxOf m →
        ¬ Restartable s.inner m := by
  rcases hc with hc | ⟨c, p, hne, hc⟩ <;> simp only [KeepsOrder, hr, hc] at h
  · exact h (by simp [Cascade.current]) hreq hgrant
  · exact h (by simpa [Cascade.current] using hne) hreq hgrant

theorem KeepsOrder.join {item : SuperviseeItem} {reason : ExitReason} {c : Name}
    (h : KeepsOrder s (.supervisee n item)) (hr : item.exitReason = some reason)
    (hc : s.cascade = .exiting c p r d) (hne : n ≠ c) (hnp : n ∉ p)
    (hreq : Required s.inner n reason) (hgrant : (s.inner.acquirePermits n).2 = true) :
    (∀ m ∈ r, s.inner.supervisees.keys.idxOf n < s.inner.supervisees.keys.idxOf m) ∧
      ∀ m ∈ s.inner.supervisees.names, Between s.inner n c r d m → ¬ Restartable s.inner m := by
  simp only [KeepsOrder, hr, hc] at h
  exact h hne hnp hreq hgrant

theorem handleExit_ordered {item : SuperviseeItem} {reason : ExitReason}
    (h : Ordered s.inner s.cascade) (hok : KeepsOrder s (.supervisee n item))
    (hr : item.exitReason = some reason) (hn : ¬ Gone s.inner n) :
    (ofOutcome (handleExit { s with inner := s.inner.setState n .dead } n reason)).Sat
      (fun s => Ordered s.inner s.cascade) fun _ => True := by
  set i := s.inner.setState n .dead with hi
  have hdead : i.supervisees.stateOf n = some .dead := stateOf_setState_dead hn
  have hkeys : i.supervisees.keys = s.inner.supervisees.keys := keys_setState
  have hmode : ∀ j, i.supervisees.modeOf j = s.inner.supervisees.modeOf j := fun _ => modeOf_setState
  have hset : Ordered i s.cascade := h.mono (hkeys ▸ List.prefix_rfl) fun _ _ _ _ _ j _ hR =>
    (Restartable.congr (hmode j)).1 hR
  have hcase := handleExit_case (s := { s with inner := i }) reason hdead
  have hp := permitted_acquirePermits (s := i) (n := n)
  -- What the permits leave of modes and slots.
  have hR : ∀ j, Restartable (i.acquirePermits n).1 j ↔ Restartable s.inner j := fun j =>
    Restartable.congr ((hp.modeOf j).trans (hmode j))
  have hK : (i.acquirePermits n).1.supervisees.keys = s.inner.supervisees.keys :=
    hp.keys.trans hkeys
  have hnames : (i.acquirePermits n).1.supervisees.names = s.inner.supervisees.names :=
    hp.names.trans names_setState
  have hmem : n ∈ s.inner.supervisees.names := SuperviseeMap.mem_names_iff_stateOf.2 fun hnone =>
    hn (.inl hnone)
  have hslot : n ∈ s.inner.supervisees.keys := (SuperviseeMap.names_sublist_keys _).subset hmem
  generalize handleExit { s with inner := i } n reason = x at hcase ⊢
  cases hcase with
  | advance _ _ => exact sat_of_fst (advanceCascade_ordered hset) trivial
  | dropCurrent _ =>
    exact advanceCascade_ordered (s := (dropSpec { s with inner := i } n).1)
      (dropSpec_ordered (s := { s with inner := i }) hset)
  | giveUp _ => exact sat_of_fst shutdown_ordered trivial
  | @retry p hc _ _ =>
    refine hset.mono ?_ fun _ _ _ _ hc' => ?_
    · have hstart : ((i.acquireRestartPermit n).1.start n .restart).1.supervisees.keys =
          i.supervisees.keys := keys_start.trans keys_acquireRestartPermit
      exact hstart.symm ▸ List.prefix_rfl
    · cases hc.symm.trans hc'
  | queued _ _ => exact hset
  | drop _ => exact dropSpec_ordered (s := { s with inner := i }) hset
  | refused _ _ => exact sat_of_fst shutdown_ordered trivial
  | @trigger before after hc hreq hgrant hnames' =>
    rw [acquirePermits_setState] at hgrant
    have hlast := hok.begin hr hc hreq.of_setState hgrant
    have hsplit : s.inner.supervisees.names = before ++ n :: after :=
      names_setState.symm.trans hnames'
    have hnodup : (before ++ n :: after).Nodup := hsplit ▸ SuperviseeMap.nodup_names _
    refine sat_of_fst (stopNext_ordered ?_ fun m hm hRm => ?_) trivial
    · show [n].Sublist (i.acquirePermits n).1.supervisees.keys
      rw [hK]
      exact List.singleton_sublist.2 hslot
    · have hm : m ∈ after := List.mem_reverse.1 hm
      refine hlast m (by rw [hsplit]; simp [hm]) ?_ ((hR m).1 hRm)
      rw [hsplit]
      exact (List.pairwise_cons.1 (List.pairwise_append.1 (List.pairwise_idxOf_lt hnodup)).2.1).1 m hm
  | @merge c p r d hc hne hnp hreq hgrant =>
    have hc : s.cascade = .exiting c p r d := hc
    rw [acquirePermits_setState] at hgrant
    obtain ⟨hfront, hbetween⟩ := hok.join hr hc hne hnp hreq.of_setState hgrant
    rw [hc] at h
    rcases hm : mergeIntoStopping _ n c p r d with _ | x
    · trivial
    · obtain ⟨pending, rfl, -, hmem'⟩ := mergeIntoStopping_spec hm
      refine ⟨?_, fun m hm hRm => ?_⟩
      · show (r ++ [n]).reverse.Sublist (i.acquirePermits n).1.supervisees.keys
        rw [hK, List.reverse_append]
        refine List.cons_sublist_of_idxOf_lt (SuperviseeMap.nodup_keys _) hslot h.1 fun m hm => ?_
        exact hfront m (List.mem_reverse.1 hm)
      · have hRm : Restartable s.inner m := (hR m).1 hRm
        rcases (hmem' m).1 hm with hb | hb
        · refine hbetween m (SuperviseeMap.mem_names_iff_stateOf.2 fun hnone => ?_) ?_ hRm
          · exact hRm.1 (SuperviseeMap.modeOf_eq_none.2 (SuperviseeMap.stateOf_eq_none.1 hnone))
          · unfold Between at hb ⊢
            rwa [← hnames]
        · exact h.2 m hb hRm
  | unreachable => trivial

theorem ordered_obligations : Obligations (fun s : RestForOneSupervisor => Ordered s.inner s.cascade)
    KeepsOrder (fun s => Ordered s.inner s.cascade) fun _ => True where
  keep s h := h
  inbox s inbox h hx := h
  shutdown s inbox h hx := sat_of_fst shutdown_ordered trivial
  add s ev spec h hok hev := addSpec_ordered h hok hev
  remove s ev name h _ _ := removeSpec_ordered h
  item s name item i h hok hy := by
    have hset : ∀ state, Ordered (s.inner.setState name state) s.cascade := fun state =>
      h.mono (keys_setState ▸ List.prefix_rfl) fun _ _ _ _ _ j _ hR =>
        (Restartable.congr modeOf_setState).1 hR
    cases hy with
    | started _ => exact hset .initializing
    | initialized _ =>
      set t := Strategy.handleInitialized (setInner s (s.inner.setState name .alive)) name
      have hsame : Same (s.inner.setState name .alive) t.inner := same_handleInitialized
      have ht : Ordered t.inner t.cascade := (hset .alive).mono (hsame.keys ▸ List.prefix_rfl)
        fun _ _ _ _ _ j _ hR => (Restartable.congr (hsame.modeOf j)).1 hR
      refine sat_of_fst ?_ trivial
      show Ordered (afterInitialized t name).1.inner (afterInitialized t name).1.cascade
      unfold afterInitialized
      split
      · exact advanceCascade_ordered ht
      · exact ht
    | exit hst hr hfit =>
      rw [handleItem_of_exitReason hr]
      exact handleExit_ordered h hok hr (not_gone_of_fits hst hfit)

theorem ordered_of_reachable {st : LoopState RestForOneSupervisor}
    (hr : (runsWhere KeepsOrder).Reachable st) :
    st.Sat (fun s => Ordered s.inner s.cascade) fun _ => True := by
  refine runsWhere_obligations (fun st hst => ?_) ordered_obligations hr
  obtain ⟨s₀, s, initializing, hfresh, rfl⟩ := fresh_of_begins hst
  trivial

/-- The members of a cascade that is starting them are in start order. -/
theorem inStartOrder_of_ordered {c : Name} (h : Ordered s.inner s.cascade)
    (hc : s.cascade = .restarting c p) : s.inner.InStartOrder
      ((c :: p).filter fun n => s.inner.supervisees.stateOf n ≠ none) := by
  rw [hc] at h
  have hsub : ((c :: p).filter fun n => s.inner.supervisees.stateOf n ≠ none).Sublist
      s.inner.supervisees.names := by
    rw [SuperviseeMap.names_eq_filter]
    convert h.filter fun n => (s.inner.supervisees.get? n).isSome using 2
    funext n
    rw [Bool.eq_iff_iff, decide_eq_true_eq, Option.isSome_iff_ne_none, Ne, Ne,
      SuperviseeMap.stateOf_eq_none]
  exact (List.pairwise_idxOf_lt (SuperviseeMap.nodup_names _)).sublist hsub

/-! ## One member at a time -/

/-- The names of the restarts so far, in the order in which they were made. -/
def restartsOf (i : SupervisorInner) : List Name :=
  (i.starts.filter fun e => e.cause = .restart).map StartEvent.name

/-- What one turn of the loop does to the restarts: nothing, or a cascade starts one supervisee and
waits for it. -/
inductive Restarts (s : RestForOneSupervisor) (ev : Event) (s' : RestForOneSupervisor) : Prop
  | idle : restartsOf s'.inner = restartsOf s.inner →
    (∀ c p, s'.cascade = .restarting c p → s.cascade = .restarting c p) → Restarts s ev s'
  /-- `current` has failed and is started again. -/
  | again {c : Name} {p : List Name} : s.cascade = .restarting c p → s'.cascade = .restarting c p →
    restartsOf s'.inner = restartsOf s.inner ++ [c] → ev.exits = some c → Restarts s ev s'
  /-- `current` is done: it has initialized, or it was removed; the next member is started. -/
  | next {c c' : Name} {p p' : List Name} : s.cascade = .restarting c p →
    s'.cascade = .restarting c' p' → (c' :: p') <:+ p →
    restartsOf s'.inner = restartsOf s.inner ++ [c'] →
    (ev = .supervisee c (.initialized (.ok ())) ∨ s'.inner.supervisees.stateOf c = none) →
    Restarts s ev s'
  /-- A cascade begins to start its members. -/
  | first {c' : Name} {p' : List Name} : s'.cascade = .restarting c' p' →
    restartsOf s'.inner = restartsOf s.inner ++ [c'] →
    (∀ c p, s.cascade = .restarting c p → ∃ n ≠ c, ev.exits = some n) → Restarts s ev s'

theorem restartsOf_congr {i' : SupervisorInner} (h : i'.starts = i.starts) :
    restartsOf i' = restartsOf i := by
  rw [restartsOf, h, ← restartsOf]

theorem restartsOf_start (hd : i.supervisees.stateOf n = some .dead) :
    restartsOf (i.start n .restart).1 = restartsOf i ++ [n] := by
  unfold restartsOf
  rw [starts_start, if_pos hd]
  simp

theorem Restarts.congr {ev : Event} {i' : SupervisorInner} {initializing : IndexSet Name}
    (h : Restarts s ev s') (hi : Same s'.inner i') : Restarts s ev ⟨i', initializing, s'.cascade⟩ := by
  have hr : restartsOf i' = restartsOf s'.inner := restartsOf_congr hi.starts
  cases h with
  | idle h₁ h₂ => exact .idle (hr.trans h₁) h₂
  | again h₁ h₂ h₃ h₄ => exact .again h₁ h₂ (hr.trans h₃) h₄
  | next h₁ h₂ h₃ h₄ h₅ =>
    exact .next h₁ h₂ h₃ (hr.trans h₄) (h₅.imp_right fun h => (hi.stateOf_eq _).trans h)
  | first h₁ h₂ h₃ => exact .first h₁ (hr.trans h₂) h₃

/-- How a pass ends that does not go on with a cascade that is starting its members: `before` are the
restarts made before the pass. -/
inductive Opens (before : List Name) (s' : RestForOneSupervisor) : Prop
  | closed : restartsOf s'.inner = before → (∀ c p, s'.cascade ≠ .restarting c p) → Opens before s'
  | opened {c : Name} {p : List Name} : s'.cascade = .restarting c p →
    restartsOf s'.inner = before ++ [c] → Opens before s'

theorem Opens.restarts {ev : Event} (h : Opens (restartsOf s.inner) s')
    (hc : ∀ c p, s.cascade = .restarting c p → ∃ n ≠ c, ev.exits = some n) : Restarts s ev s' := by
  cases h with
  | closed h₁ h₂ => exact .idle h₁ fun c p h => absurd h (h₂ c p)
  | opened h₁ h₂ => exact .first h₁ h₂ hc

theorem shutdownNext_closed : restartsOf (s.shutdownNext l).1.inner = restartsOf s.inner ∧
    ∀ c p, (s.shutdownNext l).1.cascade ≠ .restarting c p := by
  rcases shutdownNext_spec s l with ⟨i, heq, hst, -⟩ | ⟨i, pre, c, post, -, heq, hst, -⟩ <;>
    rw [heq] <;> exact ⟨restartsOf_congr hst.starts, by simp⟩

/-- A shutdown starts nobody. -/
theorem shutdown_closed : restartsOf s.shutdown.1.inner = restartsOf s.inner ∧
    ∀ c p, s.shutdown.1.cascade ≠ .restarting c p := by
  rcases shutdown_cases s with ⟨-, heq⟩ | ⟨c, p, hc, heq⟩ <;> rw [heq]
  · exact shutdownNext_closed (s := { s with inner := s.inner.registerExiting })
  · exact ⟨rfl, by simp [hc]⟩

theorem advanceRestart_opens : Opens (restartsOf s.inner) (s.advanceRestart l).1 := by
  rcases advanceRestart_spec s l with ⟨heq, -⟩ | ⟨pre, c, post, -, heq, -, hd⟩ <;> rw [heq]
  · exact .closed rfl (by simp)
  · exact .opened rfl (restartsOf_start hd)

theorem stopNext_opens : Opens (restartsOf s.inner) (s.stopNext l r d).1 := by
  have hends := stopNext_ends s l r d
  generalize s.stopNext l r d = x at hends ⊢
  cases hends with
  | waits _ hst _ _ => exact .closed (restartsOf_congr hst.starts) (by simp)
  | @refused i pre post c _ hst _ _ _ _ =>
    obtain ⟨h₁, h₂⟩ := shutdown_closed (s := { s with inner := (i.acquireRestartPermit c).1 })
    exact .closed (h₁.trans (restartsOf_congr (starts_acquireRestartPermit.trans hst.starts))) h₂
  | @done i hst _ =>
    have hd := droppedAll { s with inner := i } (d ++ l.filter fun n => Droppable s.inner n)
    rw [← restartsOf_congr (hd.starts.trans hst.starts)]
    exact advanceRestart_opens

theorem advanceCascade_opens (h : ∀ c p, s.cascade ≠ .restarting c p) :
    Opens (restartsOf s.inner) s.advanceCascade.1 := by
  unfold advanceCascade
  split <;> rename_i hc
  · exact .closed rfl (by simp [hc])
  · exact stopNext_opens (s := { s with cascade := .idle })
  · exact absurd hc (h _ _)
  · obtain ⟨h₁, h₂⟩ := shutdownNext_closed (s := { s with cascade := .idle })
    exact .closed h₁ h₂

theorem advanceCascade_restarts {ev : Event} {t : RestForOneSupervisor} {c : Name}
    (hc : s.cascade.current = some c) (htc : t.cascade = s.cascade)
    (ht : t.inner.starts = s.inner.starts)
    (hdone : ev = .supervisee c (.initialized (.ok ())) ∨ t.inner.supervisees.stateOf c = none) :
    Restarts s ev t.advanceCascade.1 := by
  by_cases hr : ∀ c p, s.cascade ≠ .restarting c p
  · have hopens := advanceCascade_opens (s := t) fun c p => htc ▸ hr c p
    rw [restartsOf_congr ht] at hopens
    exact hopens.restarts fun c p h => absurd h (hr c p)
  · push Not at hr
    obtain ⟨c', p, hcas⟩ := hr
    obtain rfl : c' = c := by rw [hcas] at hc; exact Option.some.inj hc
    have hgo : t.advanceCascade = { t with cascade := .idle }.advanceRestart p := by
      rw [advanceCascade, htc, hcas]
    rw [hgo]
    rcases advanceRestart_spec { t with cascade := .idle } p with
      ⟨heq, -⟩ | ⟨pre, c₁, post, rfl, heq, -, hd⟩ <;> rw [heq]
    · exact .idle (restartsOf_congr ht) (by simp)
    · refine .next hcas rfl ⟨pre, rfl⟩ ((restartsOf_start hd).trans ?_) (hdone.imp_right fun hnone => ?_)
      · exact congrArg (· ++ [c₁]) (restartsOf_congr ht)
      · show (t.inner.start c₁ .restart).1.supervisees.stateOf c' = none
        rw [stateOf_start, if_neg, hnone]
        rintro ⟨rfl, hd⟩
        cases hnone.symm.trans hd

theorem removeSpec_restarts {ev : Event} : Restarts s ev (s.removeSpec n).1 := by
  have hr := removed_dropSpec (s := s) (n := n)
  have hcase := removeSpec_case s n
  generalize (s.removeSpec n).1 = s' at hcase ⊢
  cases hcase with
  | absent _ => exact .idle rfl fun _ _ => id
  | other _ => exact .idle (restartsOf_congr hr.starts) fun _ _ => id
  | current hc _ =>
    exact advanceCascade_restarts hc rfl hr.starts (.inr ((hr.stateOf n).trans (if_pos rfl)))

theorem handleExit_restarts {ev : Event} {reason : ExitReason}
    (hev : ev.exits = some n) (hn : ¬ Gone s.inner n) :
    (ofOutcome (handleExit { s with inner := s.inner.setState n .dead } n reason)).Sat
      (Restarts s ev) fun _ => True := by
  set i := s.inner.setState n .dead with hi
  have hdead : i.supervisees.stateOf n = some .dead := stateOf_setState_dead hn
  have hstarts : i.starts = s.inner.starts := starts_setState
  have hcase := handleExit_case (s := { s with inner := i }) reason hdead
  have hp := permitted_acquirePermits (s := i) (n := n)
  have hdrop := removed_dropSpec (s := { s with inner := i }) (n := n)
  have hshutdown : ∀ {j : SupervisorInner}, j.starts = s.inner.starts →
      (ofFlow { s with inner := j }.shutdown).Sat (Restarts s ev) fun _ => True := fun hj => by
    obtain ⟨h₁, h₂⟩ := shutdown_closed (s := { s with inner := _ })
    exact sat_of_fst (.idle (h₁.trans (restartsOf_congr hj)) fun c p h => absurd h (h₂ c p)) trivial
  generalize handleExit { s with inner := i } n reason = x at hcase ⊢
  cases hcase with
  | advance hc hnr =>
    have hopens := advanceCascade_opens (s := { s with inner := i }) hnr
    rw [restartsOf_congr hstarts] at hopens
    exact sat_of_fst (hopens.restarts fun c p h => absurd h (hnr c p)) trivial
  | @dropCurrent p hc =>
    refine advanceCascade_restarts (t := (dropSpec { s with inner := i } n).1) (c := n) ?_ rfl
      (hdrop.starts.trans hstarts) (.inr ((hdrop.stateOf n).trans (if_pos rfl)))
    rw [show s.cascade = .restarting n p from hc]; rfl
  | giveUp _ => exact hshutdown (starts_acquireRestartPermit.trans hstarts)
  | @retry p hc _ _ =>
    refine .again (c := n) (p := p) hc hc ?_ hev
    refine (restartsOf_start (by simpa using hdead)).trans ?_
    rw [restartsOf_congr (starts_acquireRestartPermit.trans hstarts)]
  | queued _ _ => exact .idle (restartsOf_congr hstarts) fun _ _ => id
  | drop _ => exact .idle (restartsOf_congr (hdrop.starts.trans hstarts)) fun _ _ => id
  | refused _ _ => exact hshutdown (hp.starts.trans hstarts)
  | @trigger before after hc _ _ _ =>
    have hopens := stopNext_opens (l := after.reverse) (r := [n]) (d := [])
      (s := { s with inner := (i.acquirePermits n).1, cascade := .idle })
    rw [restartsOf_congr (hp.starts.trans hstarts)] at hopens
    refine sat_of_fst (hopens.restarts fun c p h => ?_) trivial
    rcases hc with hc | ⟨c', p', hne, hc⟩
    · cases hc.symm.trans h
    · cases hc.symm.trans h
      exact ⟨n, hne.symm, hev⟩
  | @merge c p r d _ _ _ _ _ =>
    rcases hm : mergeIntoStopping _ n c p r d with _ | x
    · trivial
    · obtain ⟨pending, rfl, -, -⟩ := mergeIntoStopping_spec hm
      exact .idle (restartsOf_congr (hp.starts.trans hstarts)) (by simp)
  | unreachable => trivial

theorem restarts_obligations (s₀ : RestForOneSupervisor) (ev₀ : Event) :
    Obligations (· = s₀) (fun _ ev => ev = ev₀) (Restarts s₀ ev₀) fun _ => True where
  keep s hs := hs ▸ .idle rfl fun _ _ => id
  inbox s inbox h hx := h.congr (.of_inbox hx)
  shutdown s inbox hs _ := by
    subst hs
    obtain ⟨h₁, h₂⟩ := shutdown_closed (s := withInbox s inbox)
    exact sat_of_fst (.idle h₁ fun c p h => absurd h (h₂ c p)) trivial
  add s ev spec hs _ _ := by
    subst hs
    refine .idle ?_ fun _ _ => id
    show restartsOf (s.inner.addSpec spec).1 = restartsOf s.inner
    rcases addSpec_cases s.inner spec with heq | hadd
    · rw [heq]
    · unfold restartsOf
      rw [hadd.starts]
      simp
  remove s ev name hs _ _ := hs ▸ removeSpec_restarts
  item s name item i hs hev hy := by
    subst hs hev
    cases hy with
    | started _ => exact .idle (restartsOf_congr starts_setState) fun _ _ => id
    | initialized _ =>
      set t := Strategy.handleInitialized (setInner s (s.inner.setState name .alive)) name
      have hstarts : t.inner.starts = s.inner.starts :=
        same_handleInitialized.starts.trans starts_setState
      refine sat_of_fst ?_ trivial
      show Restarts s _ (afterInitialized t name).1
      unfold afterInitialized
      split
      · exact advanceCascade_restarts (c := name) (t := t) ‹_› rfl hstarts (.inl rfl)
      · exact .idle (restartsOf_congr hstarts) fun _ _ => id
    | exit hst hr hfit =>
      rw [handleItem_of_exitReason hr]
      exact handleExit_restarts (Event.exits_of_exitReason hr) (not_gone_of_fits hst hfit)

/-! ## Runs -/

/-- Rest-for-one restarts in start order: as long as every event keeps the lists in order, the
members of a cascade that are still to be started come in start order after the one that was started
last; and in every turn of the loop at most one of them is started, once the last one has initialized
or is gone. -/
theorem restarts_inStartOrder (hr : (runsWhere KeepsOrder).Reachable (.running s)) :
    (∀ c p, s.cascade = .restarting c p → s.inner.InStartOrder
      ((c :: p).filter fun n => s.inner.supervisees.stateOf n ≠ none)) ∧
    ∀ ev s', step (.running s) ev = some (.running s') → Restarts s ev s' :=
  ⟨fun _ _ hc => inStartOrder_of_ordered (ordered_of_reachable hr) hc,
    fun ev _ hs => (restarts_obligations s ev).step rfl rfl hs⟩

/-- `c` is dropped when it is stopped. -/
def lastDropped : List ChildSpec :=
  [childSpec "a" .always none, childSpec "b" .always none, childSpec "c" .never none]

/-- `b` panics, and then `a`, while `c` is being stopped: both are restarted, `a` before `b`. -/
theorem restarts_inStartOrder_merged : ∃ s : RestForOneSupervisor,
    s.cascade = .restarting ⟨"a"⟩ [⟨"b"⟩] ∧ s.inner.InStartOrder
      ([⟨"a"⟩, ⟨"b"⟩].filter fun n => s.inner.supervisees.stateOf n ≠ none) := by
  obtain ⟨s, hr, hc⟩ := exists_running_where KeepsOrder
    (p := fun s : RestForOneSupervisor => s.cascade = .restarting ⟨"a"⟩ [⟨"b"⟩])
    (begins_booted lastDropped (by decide) .default)
    (comesUp "a" ++ comesUp "b" ++ comesUp "c" ++
      [.supervisee ⟨"b"⟩ (.exit (.joinError .panic)), .supervisee ⟨"a"⟩ (.exit (.joinError .panic)),
        .supervisee ⟨"c"⟩ (.exit .normalShutdown)]) (by decide)
  exact ⟨s, hc, (restarts_inStartOrder hr).1 _ _ hc⟩

/-- `a` panics, and is restarted after `b`. -/
theorem not_restarts_inStartOrder : ¬ ∀ s : RestForOneSupervisor,
    (runs RestForOneSupervisor).Reachable (.running s) → ∀ c p, s.cascade = .restarting c p →
      s.inner.InStartOrder ((c :: p).filter fun n => s.inner.supervisees.stateOf n ≠ none) := by
  intro hall
  obtain ⟨s, hr, hc, hbad⟩ := exists_running
    (p := fun s : RestForOneSupervisor => s.cascade = .restarting ⟨"b"⟩ [⟨"a"⟩] ∧
      ¬ s.inner.InStartOrder
        ([⟨"b"⟩, ⟨"a"⟩].filter fun n => s.inner.supervisees.stateOf n ≠ none))
    (begins_booted [childSpec "a" .always none, childSpec "b" .always none]
      (by decide) .default)
    (comesUp "a" ++ comesUp "b" ++ [.supervisee ⟨"a"⟩ (.exit (.joinError .panic)),
      .supervisee ⟨"b"⟩ (.exit .normalShutdown)]) (by decide)
  exact hbad (hall s hr _ _ hc)

end RestForOneSupervisor
end Zestors
