import Mathlib.Algebra.Group.Nat.Defs
import Mathlib.Logic.Function.Basic
import Zestors.Lib.ListOrder
import Zestors.Lib.Lts
import Zestors.Supervisor.Supervisee

/-!
# The registry and the strong counts

The registry of a process, the channels created in it and the strong addresses that are held, with
any number of threads at work: an upgrade reads the status and then the strong count of the channel
before it counts itself in, and a drop that finds itself to be the last one takes the name out of the
registry in a step of its own.

The registry has exactly the channels with a positive count, and a last drop finds its own channel
(`Agrees`), in the runs in which no upgrade counts itself in at zero (`agrees_of_upgradesCounted`).
The code does not see to that: the last strong address may be dropped after the check, and the check
lets every channel pass whose actor runs.
-/

namespace Zestors

/-- What the registry is concerned with of a channel. -/
structure Counted where
  name : Name
  status : ActorStatus
  strongCount : ℕ
deriving DecidableEq

/-- What an upgrade does next: the two reads of `is_permanently_dead`, and `incr_strong_count`. -/
inductive UpgradeStage
  | status
  | count
  | incr
deriving DecidableEq

/-- A call of `from_address_ref` that has not returned. -/
structure Upgrade where
  channel : ℕ
  stage : UpgradeStage
deriving DecidableEq

/-- A count above this aborts the process. -/
def maxStrongCount : ℕ := (2 ^ 64 - 1) / 2

/-- The process: every channel there ever was, the registry, the channel of each strong address, the
upgrades and the last drops under way, and for each last drop that is over its channel and the channel
that it took out of the registry. -/
structure Registry where
  channels : List Counted
  processes : Name → Option ℕ
  strong : List ℕ
  upgrades : List Upgrade
  removals : List ℕ
  removed : List (ℕ × Option ℕ)

namespace Registry

def new : Registry := ⟨[], fun _ => none, [], [], [], []⟩

inductive Event
  | create (name : Name)
  /-- The `k`-th strong address is cloned. -/
  | clone (k : ℕ)
  | drop (k : ℕ)
  /-- Somebody begins to upgrade an address of the channel `c`. -/
  | upgrade (c : ℕ)
  /-- The `i`-th upgrade takes its next step. -/
  | step (i : ℕ)
  /-- The `i`-th last drop takes the name out of the registry. -/
  | remove (i : ℕ)
  /-- An actor is spawned on the `k`-th strong address, with a clone of it in its inbox. -/
  | spawn (k : ℕ)
  | exit (c : ℕ) (reason : Except ExitError Unit)

variable {s s' : Registry} {e : Event} {c : ℕ} {ch : Counted}

def setChannel (s : Registry) (c : ℕ) (ch : Counted) : Registry :=
  { s with channels := s.channels.set c ch }

/-- `incr_strong_count`, for a strong address that there is from then on. The process aborts before
the count can overflow. -/
def incr (s : Registry) (c : ℕ) : Option Registry := do
  let ch ← s.channels[c]?
  if ch.strongCount > maxStrongCount then none
  else some { s with
    channels := s.channels.set c { ch with strongCount := ch.strongCount + 1 }
    strong := s.strong ++ [c] }

/-- `StrongAddress::create`: a channel with a name that is taken is let go of at once. -/
def create (s : Registry) (name : Name) : Registry :=
  match s.processes name with
  | some _ => s
  | none =>
    { s with
      channels := s.channels ++ [⟨name, .exited .normal, 1⟩]
      processes := Function.update s.processes name (some s.channels.length)
      strong := s.strong ++ [s.channels.length] }

/-- `StrongAddress::drop`, up to `Registry::remove`. -/
def drop (s : Registry) (k : ℕ) : Option Registry := do
  let c ← s.strong[k]?
  let ch ← s.channels[c]?
  some { s with
    channels := s.channels.set c { ch with strongCount := ch.strongCount - 1 }
    strong := s.strong.eraseIdx k
    removals := if ch.strongCount = 1 then s.removals ++ [c] else s.removals }

/-- `Registry::remove`, of whatever has the name. -/
def remove (s : Registry) (i : ℕ) : Option Registry := do
  let c ← s.removals[i]?
  let ch ← s.channels[c]?
  some { s with
    processes := Function.update s.processes ch.name none
    removals := s.removals.eraseIdx i
    removed := s.removed ++ [(c, s.processes ch.name)] }

/-- The next step of `from_address_ref`. -/
def stepUpgrade (s : Registry) (i : ℕ) : Option Registry := do
  let up ← s.upgrades[i]?
  let ch ← s.channels[up.channel]?
  match up.stage with
  | .status =>
    let stage := if ch.status.isDead then UpgradeStage.count else .incr
    some { s with upgrades := s.upgrades.set i ⟨up.channel, stage⟩ }
  | .count =>
    if ch.strongCount = 0 then some { s with upgrades := s.upgrades.eraseIdx i }
    else some { s with upgrades := s.upgrades.set i ⟨up.channel, .incr⟩ }
  | .incr => incr { s with upgrades := s.upgrades.eraseIdx i } up.channel

def step (s : Registry) : Event → Option Registry
  | .create name => some (s.create name)
  | .clone k => do
    let c ← s.strong[k]?
    s.incr c
  | .drop k => s.drop k
  | .upgrade c =>
    if c < s.channels.length then some { s with upgrades := s.upgrades ++ [⟨c, .status⟩] } else none
  | .step i => s.stepUpgrade i
  | .remove i => s.remove i
  | .spawn k => do
    let c ← s.strong[k]?
    let ch ← s.channels[c]?
    -- `Inbox::try_new`
    if ch.status.isDead then
      (s.setChannel c { ch with status := ch.status.registerSpawned.1 }).incr c
    else none
  | .exit c reason => do
    let ch ← s.channels[c]?
    some (s.setChannel c { ch with status := (ch.status.registerExited reason).1 })

/-- Every interleaving of the operations on strong addresses. -/
def runs : Lts Registry Event := Lts.ofFun (fun s => s = new) step

/-- When no operation is half done, a name leads to a channel if and only if it is the name of the
channel and its count is positive; and every last drop has taken its own channel out. -/
def Agrees (s : Registry) : Prop :=
  (s.upgrades = [] → s.removals = [] → ∀ name c, s.processes name = some c ↔
    ∃ ch, s.channels[c]? = some ch ∧ ch.name = name ∧ 0 < ch.strongCount) ∧
  ∀ r ∈ s.removed, r.2 = some r.1

/-- No upgrade counts itself in at zero. -/
def UpgradesCounted (s : Registry) : Event → Prop
  | .step i => ∀ up ∈ s.upgrades[i]?, up.stage = .incr →
      ∀ ch ∈ s.channels[up.channel]?, 0 < ch.strongCount
  | _ => True

instance (s : Registry) (e : Event) : Decidable (s.UpgradesCounted e) := by
  cases e <;> unfold UpgradesCounted <;> infer_instance

/-- The counts are those of the strong addresses, and the registry has the channels that are counted
or about to be removed. -/
structure Consistent (s : Registry) : Prop where
  count : ∀ c ch, s.channels[c]? = some ch → ch.strongCount = s.strong.count c
  strong : ∀ c ∈ s.strong, c < s.channels.length
  entry : ∀ name c, s.processes name = some c ↔ ∃ ch, s.channels[c]? = some ch ∧ ch.name = name ∧
    (0 < ch.strongCount ∨ c ∈ s.removals)
  nodup : s.removals.Nodup
  zero : ∀ c ∈ s.removals, ∃ ch, s.channels[c]? = some ch ∧ ch.strongCount = 0
  removed : ∀ r ∈ s.removed, r.2 = some r.1

theorem consistent_new : new.Consistent :=
  ⟨nofun, nofun, fun _ _ => ⟨nofun, fun ⟨_, h, _⟩ => by cases h⟩, .nil, nofun, nofun⟩

theorem Consistent.agrees (h : s.Consistent) : s.Agrees := by
  refine ⟨fun _ hnone name c => (h.entry name c).trans ?_, h.removed⟩
  simp [hnone]

/-! ## Steps -/

theorem Consistent.pos_of_mem (h : s.Consistent) (hch : s.channels[c]? = some ch)
    (hmem : c ∈ s.strong) : 0 < ch.strongCount := by
  rw [h.count c ch hch]
  exact List.count_pos_iff.2 hmem

theorem Consistent.not_mem_removals (h : s.Consistent) (hch : s.channels[c]? = some ch)
    (hpos : 0 < ch.strongCount) : c ∉ s.removals := by
  intro hmem
  obtain ⟨ch', hch', hzero⟩ := h.zero c hmem
  rw [hch] at hch'
  cases hch'
  omega

theorem Consistent.upgrades (h : s.Consistent) (upgrades : List Upgrade) :
    Consistent { s with upgrades := upgrades } :=
  ⟨h.count, h.strong, h.entry, h.nodup, h.zero, h.removed⟩

theorem Consistent.setStatus (h : s.Consistent) (hch : s.channels[c]? = some ch)
    (status : ActorStatus) : (s.setChannel c { ch with status := status }).Consistent := by
  have hget : ∀ k, (s.channels.set c { ch with status := status })[k]? = _ := fun k =>
    List.getElem?_set_of_getElem? hch
  refine ⟨fun k ch' hk => ?_, fun k hk => ?_, fun name k => ?_, h.nodup, fun k hk => ?_, h.removed⟩
  · rw [setChannel, hget] at hk
    split at hk
    · cases hk
      subst k
      exact h.count c ch hch
    · exact h.count k ch' hk
  · rw [setChannel, List.length_set]
    exact h.strong k hk
  · refine (h.entry name k).trans ?_
    rw [setChannel, hget]
    split
    · subst k
      simp [hch]
    · exact Iff.rfl
  · obtain ⟨ch', hk', hzero⟩ := h.zero k hk
    rw [setChannel, hget]
    split
    · subst k
      rw [hch] at hk'
      cases hk'
      exact ⟨_, rfl, hzero⟩
    · exact ⟨ch', hk', hzero⟩

theorem Consistent.incr (h : s.Consistent)
    (hpos : ∀ ch, s.channels[c]? = some ch → 0 < ch.strongCount) (hs : s.incr c = some s') :
    s'.Consistent := by
  obtain ⟨ch, hch, hs⟩ := Option.bind_eq_some_iff.1 hs
  split at hs
  · cases hs
  have hpos := hpos ch hch
  have hget : ∀ k, (s.channels.set c { ch with strongCount := ch.strongCount + 1 })[k]? = _ :=
    fun k => List.getElem?_set_of_getElem? hch
  cases hs
  refine ⟨fun k ch' hk => ?_, fun k hk => ?_, fun name k => ?_, h.nodup, fun k hk => ?_, h.removed⟩
  · rw [List.count_append, List.count_singleton]
    rw [hget] at hk
    split at hk
    · cases hk
      subst k
      simp [h.count c ch hch]
    · rename_i hne
      simp [h.count k ch' hk, hne]
  · rw [List.length_set]
    rcases List.mem_append.1 hk with hk | hk
    · exact h.strong k hk
    · rw [List.mem_singleton.1 hk]
      exact (List.getElem?_eq_some_iff.1 hch).1
  · refine (h.entry name k).trans ?_
    rw [hget]
    split
    · subst k
      simp [hch, hpos]
    · exact Iff.rfl
  · obtain ⟨ch', hk', hzero⟩ := h.zero k hk
    rw [hget, if_neg]
    · exact ⟨ch', hk', hzero⟩
    · rintro rfl
      exact h.not_mem_removals hch hpos hk

theorem Consistent.drop (h : s.Consistent) {k : ℕ} (hs : s.drop k = some s') : s'.Consistent := by
  obtain ⟨c, hc, hs⟩ := Option.bind_eq_some_iff.1 hs
  obtain ⟨ch, hch, hs⟩ := Option.bind_eq_some_iff.1 hs
  have hpos := h.pos_of_mem hch (List.mem_of_getElem? hc)
  have hnot := h.not_mem_removals hch hpos
  have hget : ∀ k, (s.channels.set c { ch with strongCount := ch.strongCount - 1 })[k]? = _ :=
    fun k => List.getElem?_set_of_getElem? hch
  have hcount := List.count_eraseIdx_of_getElem? hc
  have hmem : ∀ j, j ∈ (if ch.strongCount = 1 then s.removals ++ [c] else s.removals) ↔
      j ∈ s.removals ∨ (j = c ∧ ch.strongCount = 1) := by
    intro j
    split <;> simp_all
  cases hs
  refine ⟨fun j ch' hj => ?_, fun j hj => ?_, fun name j => ?_, ?_, fun j hj => ?_, h.removed⟩
  · rw [hget] at hj
    split at hj
    · cases hj
      subst j
      have := hcount c
      have := h.count c ch hch
      simp only [if_true] at *
      omega
    · rename_i hne
      have := hcount j
      rw [if_neg hne] at this
      rw [h.count j ch' hj]
      omega
  · rw [List.length_set]
    exact h.strong j (List.mem_of_mem_eraseIdx hj)
  · refine (h.entry name j).trans ?_
    rw [hget]
    split
    · subst j
      rw [hch]
      constructor
      · rintro ⟨ch', hch', hname, -⟩
        cases hch'
        refine ⟨_, rfl, hname, ?_⟩
        by_cases hone : ch.strongCount = 1
        · exact .inr ((hmem c).2 (.inr ⟨rfl, hone⟩))
        · exact .inl (by show 0 < ch.strongCount - 1; omega)
      · rintro ⟨ch', hch', hname, -⟩
        cases hch'
        exact ⟨ch, rfl, hname, .inl hpos⟩
    · rename_i hne
      rw [hmem]
      simp [Ne.symm hne]
  · show (if ch.strongCount = 1 then s.removals ++ [c] else s.removals).Nodup
    split
    · exact List.nodup_append.2 ⟨h.nodup, List.nodup_singleton c, by
        intro a ha b hb heq
        rw [List.mem_singleton.1 hb] at heq
        exact hnot (heq ▸ ha)⟩
    · exact h.nodup
  · rw [hget]
    rcases (hmem j).1 hj with hj | ⟨rfl, hone⟩
    · obtain ⟨ch', hch', hzero⟩ := h.zero j hj
      rw [if_neg]
      · exact ⟨ch', hch', hzero⟩
      · rintro rfl
        exact hnot hj
    · exact ⟨_, if_pos rfl, by show ch.strongCount - 1 = 0; omega⟩

theorem Consistent.remove (h : s.Consistent) {i : ℕ} (hs : s.remove i = some s') :
    s'.Consistent := by
  obtain ⟨c, hc, hs⟩ := Option.bind_eq_some_iff.1 hs
  obtain ⟨ch, hch, hs⟩ := Option.bind_eq_some_iff.1 hs
  have hmem := List.mem_of_getElem? hc
  have hown : s.processes ch.name = some c := (h.entry ch.name c).2 ⟨ch, hch, rfl, .inr hmem⟩
  obtain ⟨ch', hch', hzero⟩ := h.zero c hmem
  rw [hch] at hch'
  cases hch'
  have hgone : ∀ j, j ∈ s.removals.eraseIdx i ↔ j ≠ c ∧ j ∈ s.removals := fun _ =>
    h.nodup.mem_eraseIdx_of_getElem? hc
  cases hs
  refine ⟨h.count, h.strong, fun name j => ?_, h.nodup.eraseIdx i, fun j hj => ?_, fun r hr => ?_⟩
  · show Function.update s.processes ch.name none name = some j ↔ _
    rw [Function.update_apply]
    by_cases hname : name = ch.name
    · subst hname
      rw [if_pos rfl]
      refine ⟨nofun, fun ⟨ch', hch', hname, hor⟩ => absurd hor ?_⟩
      rintro (hpos | hj)
      · have hj := (h.entry ch.name j).2 ⟨ch', hch', hname, .inl hpos⟩
        rw [hown] at hj
        cases hj
        rw [hch] at hch'
        cases hch'
        omega
      · obtain ⟨hne, hj⟩ := (hgone j).1 hj
        have hj := (h.entry ch.name j).2 ⟨ch', hch', hname, .inr hj⟩
        rw [hown] at hj
        exact hne (Option.some.inj hj).symm
    · rw [if_neg hname]
      refine (h.entry name j).trans ⟨fun ⟨ch', hch', hn, hor⟩ => ⟨ch', hch', hn, ?_⟩,
        fun ⟨ch', hch', hn, hor⟩ => ⟨ch', hch', hn, hor.imp id fun hj => ((hgone j).1 hj).2⟩⟩
      refine hor.imp id fun hj => (hgone j).2 ⟨?_, hj⟩
      rintro rfl
      rw [hch] at hch'
      cases hch'
      exact hname hn.symm
  · exact h.zero j ((hgone j).1 hj).2
  · rcases List.mem_append.1 hr with hr | hr
    · exact h.removed r hr
    · rw [List.mem_singleton.1 hr]
      exact hown

theorem Consistent.create (h : s.Consistent) (name : Name) : (s.create name).Consistent := by
  unfold Registry.create
  cases hfree : s.processes name with
  | some c => exact h
  | none =>
    have hnew : s.strong.count s.channels.length = 0 :=
      List.count_eq_zero.2 fun hmem => absurd (h.strong _ hmem) (Nat.lt_irrefl _)
    have hlt : ∀ {k ch}, s.channels[k]? = some ch → k ≠ s.channels.length := by
      intro k ch hk
      have := (List.getElem?_eq_some_iff.1 hk).1
      omega
    refine ⟨fun k ch hk => ?_, fun k hk => ?_, fun name' k => ?_, h.nodup, fun k hk => ?_, h.removed⟩
    · rw [List.count_append, List.count_singleton]
      rcases List.getElem?_concat_eq_some.1 hk with hk | ⟨rfl, rfl⟩
      · simp [h.count k ch hk, (hlt hk).symm]
      · simp [hnew]
    · rw [List.length_append, List.length_singleton]
      rcases List.mem_append.1 hk with hk | hk
      · have := h.strong k hk
        omega
      · rw [List.mem_singleton.1 hk]
        omega
    · show Function.update s.processes name _ name' = some k ↔ _
      rw [Function.update_apply]
      by_cases hname : name' = name
      · subst hname
        rw [if_pos rfl]
        constructor
        · rintro ⟨⟩
          exact ⟨_, List.getElem?_concat_length, rfl, .inl Nat.one_pos⟩
        · rintro ⟨ch, hch, hname, hor⟩
          rcases List.getElem?_concat_eq_some.1 hch with hch | ⟨rfl, -⟩
          · have := (h.entry name' k).2 ⟨ch, hch, hname, hor⟩
            rw [hfree] at this
            cases this
          · rfl
      · rw [if_neg hname]
        refine (h.entry name' k).trans ⟨fun ⟨ch, hch, hrest⟩ =>
          ⟨ch, List.getElem?_concat_eq_some.2 (.inl hch), hrest⟩, fun ⟨ch, hch, hn, hor⟩ => ?_⟩
        rcases List.getElem?_concat_eq_some.1 hch with hch | ⟨-, rfl⟩
        · exact ⟨ch, hch, hn, hor⟩
        · exact absurd hn.symm hname
    · obtain ⟨ch, hch, hzero⟩ := h.zero k hk
      exact ⟨ch, List.getElem?_concat_eq_some.2 (.inl hch), hzero⟩

theorem Consistent.stepUpgrade (h : s.Consistent) {i : ℕ} (hok : s.UpgradesCounted (.step i))
    (hs : s.stepUpgrade i = some s') : s'.Consistent := by
  obtain ⟨up, hup, hs⟩ := Option.bind_eq_some_iff.1 hs
  obtain ⟨ch, hch, hs⟩ := Option.bind_eq_some_iff.1 hs
  cases hstage : up.stage with
  | status => simp only [hstage] at hs; cases hs; exact h.upgrades _
  | count =>
    simp only [hstage] at hs
    split at hs <;> cases hs <;> exact h.upgrades _
  | incr =>
    simp only [hstage] at hs
    exact (h.upgrades (s.upgrades.eraseIdx i)).incr (fun ch hch => hok up hup hstage ch hch) hs

theorem Consistent.step (h : s.Consistent) (hok : s.UpgradesCounted e) (hs : s.step e = some s') :
    s'.Consistent := by
  cases e with
  | create name => cases hs; exact h.create name
  | clone k =>
    obtain ⟨c, hc, hs⟩ := Option.bind_eq_some_iff.1 hs
    exact h.incr (fun ch hch => h.pos_of_mem hch (List.mem_of_getElem? hc)) hs
  | drop k => exact h.drop hs
  | upgrade c =>
    simp only [Registry.step] at hs
    split at hs
    · cases hs; exact h.upgrades _
    · cases hs
  | step i => exact h.stepUpgrade hok hs
  | remove i => exact h.remove hs
  | spawn k =>
    obtain ⟨c, hc, hs⟩ := Option.bind_eq_some_iff.1 hs
    obtain ⟨ch, hch, hs⟩ := Option.bind_eq_some_iff.1 hs
    split at hs
    · have hset := h.setStatus hch ch.status.registerSpawned.1
      exact hset.incr (fun ch hch => hset.pos_of_mem hch (List.mem_of_getElem? hc)) hs
    · cases hs
  | exit c reason =>
    obtain ⟨ch, hch, hs⟩ := Option.bind_eq_some_iff.1 hs
    cases hs
    exact h.setStatus hch _

/-! ## Runs -/

/-- The registry agrees with the strong counts in the runs in which no upgrade counts itself in at
zero. -/
theorem agrees_of_upgradesCounted (h : (runs.guard UpgradesCounted).Reachable s) : s.Agrees := by
  refine (h.guard_invariant (I := Consistent) ?_ fun s e s' hi hok hs => hi.step hok hs).agrees
  rintro _ rfl
  exact consistent_new

/-- An upgrade holds on to a channel whose creator lets go of it, and the last drop frees the name. -/
theorem agrees_of_upgradesCounted_reused : ∃ s, (runs.guard UpgradesCounted).Reachable s ∧
    s.removed = [(0, some 0)] ∧ s.processes ⟨"a"⟩ = some 1 ∧ s.Agrees := by
  obtain ⟨s, hs, hr, hp⟩ : ∃ s, (runs.guard UpgradesCounted).Reachable s ∧ _ :=
    Lts.exists_guard_reachable_of_exec (f := step)
      (p := fun s => s.removed = [(0, some 0)] ∧ s.processes ⟨"a"⟩ = some 1) (s := new) rfl
      [.create ⟨"a"⟩, .upgrade 0, .step 0, .step 0, .step 0, .drop 0, .spawn 0, .drop 0, .drop 0,
        .create ⟨"a"⟩, .remove 0, .create ⟨"a"⟩]
      (by decide +kernel)
  exact ⟨s, hs, hr, hp, agrees_of_upgradesCounted hs⟩

/-- An upgrade passes its check just before the last strong address is dropped: its channel is counted
and not registered. Another channel takes the name, and when the upgraded address is dropped it takes
the other channel out of the registry. -/
theorem not_agrees_upgradeRaces : (∃ s, runs.Reachable s ∧ s.upgrades = [] ∧ s.removals = [] ∧
      s.channels[0]? = some ⟨⟨"a"⟩, .exited .normal, 1⟩ ∧ s.processes ⟨"a"⟩ = none) ∧
    (∃ s, runs.Reachable s ∧ (0, some 1) ∈ s.removed) ∧
    ¬ ∀ s, runs.Reachable s → s.Agrees := by
  obtain ⟨s, hs, hup, hrem, hch, hnone⟩ : ∃ s, runs.Reachable s ∧ s.upgrades = [] ∧
      s.removals = [] ∧ s.channels[0]? = some ⟨⟨"a"⟩, .exited .normal, 1⟩ ∧
      s.processes ⟨"a"⟩ = none :=
    Lts.exists_reachable_of_exec (s := new) rfl
      [.create ⟨"a"⟩, .upgrade 0, .step 0, .step 0, .drop 0, .remove 0, .step 0]
      (by decide +kernel)
  refine ⟨⟨s, hs, hup, hrem, hch, hnone⟩, ?_, fun hall => ?_⟩
  · exact Lts.exists_reachable_of_exec (s := new) rfl
      [.create ⟨"a"⟩, .upgrade 0, .step 0, .step 0, .drop 0, .remove 0, .step 0, .create ⟨"a"⟩,
        .drop 0, .remove 0] (by decide +kernel)
  · have := ((hall s hs).1 hup hrem ⟨"a"⟩ 0).2 ⟨_, hch, rfl, Nat.one_pos⟩
    rw [hnone] at this
    cases this

end Registry

end Zestors
