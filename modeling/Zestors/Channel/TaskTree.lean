import Zestors.Channel.Child
import Zestors.Channel.Incarnations

/-!
# The tasks and their owners

Every task is started by another one, or from outside of all actors, and its owner has the child for it.
When a task is over, in whatever way, the children that it has are dropped with it.

So nothing is left running without an owner, unless somebody has let go of it (`owned_of_reachable`),
and what is below a task goes down with it (`inevitable_below`).
-/

namespace Zestors
open Program (Child ChildStep StrongAddress)

variable {P : Program}

/-- A task. `child` is what its owner has for it, and `parent` the owner, which is `none` outside of all
actors. `free` is a ghost: somebody has let go of it, by dropping a detached child or by taking the
handle out of one. -/
structure OwnedTask (P : Program) where
  parent : Option ℕ
  child : Option P.Child
  ended : Option Outcome
  aborted : Bool
  free : Bool

namespace OwnedTask

def isOver (t : OwnedTask P) : Bool := t.ended.isSome

def abort (t : OwnedTask P) : OwnedTask P := { t with aborted := true }

/-- The owner drops what it has. -/
def drop (t : OwnedTask P) (i : ℕ) : OwnedTask P :=
  match t.child with
  | none => t
  | some c =>
    if i ∈ c.aborts then { t with child := none, aborted := true }
    else { t with child := none, free := true }

/-- The task `p` is over, and drops what it has. -/
def dropWith (p : ℕ) (i : ℕ) (t : OwnedTask P) : OwnedTask P := if t.parent = some p then t.drop i else t

end OwnedTask

structure TaskTree (P : Program) where
  tasks : List (OwnedTask P)

namespace TaskTree

def new : TaskTree P := ⟨[]⟩

inductive Event (P : Program)
  | spawn (parent : Option ℕ) (address : P.StrongAddress)
  /-- The owner of the task `i` converts, attaches or detaches the child. -/
  | convert (i : ℕ) (step : ChildStep P)
  /-- `Child::abort`. -/
  | abort (i : ℕ)
  /-- The owner polls the child, and the task is over. -/
  | join (i : ℕ)
  | drop (i : ℕ)
  /-- `Child::into_handle`. -/
  | intoHandle (i : ℕ)
  /-- The task ends, and what it owns goes with it. -/
  | finish (i : ℕ) (outcome : Outcome)

def isOver (s : TaskTree P) (i : ℕ) : Bool := (s.tasks[i]?).all OwnedTask.isOver

/-- The owner of the task `i` does something with what it has for it. -/
def own (s : TaskTree P) (i : ℕ) (f : OwnedTask P → P.Child → Option (OwnedTask P)) : Option (TaskTree P) := do
  let t ← s.tasks[i]?
  let c ← t.child
  let t ← f t c
  some ⟨s.tasks.set i t⟩

/-- A conversion of the child, which aborts nothing unless something in it is dropped. -/
def convert (i : ℕ) (step : ChildStep P) (t : OwnedTask P) (c : P.Child) : Option (OwnedTask P) :=
  (c.step step).map fun (c, aborted) => { t with child := some c, aborted := t.aborted || aborted.contains i }

def finish (s : TaskTree P) (i : ℕ) (outcome : Outcome) : Option (TaskTree P) := do
  let t ← s.tasks[i]?
  if t.isOver = false ∧ (outcome = .aborted → t.aborted = true) then
    some ⟨(s.tasks.set i { t with ended := some outcome }).mapIdx (OwnedTask.dropWith i)⟩
  else none

def step (s : TaskTree P) : Event P → Option (TaskTree P)
  | .spawn parent address =>
    if parent.all (fun p => decide (p < s.tasks.length) && !s.isOver p) then
      some ⟨s.tasks ++ [⟨parent, some (Child.new s.tasks.length address), none, false, false⟩]⟩
    else none
  | .convert i step => s.own i (convert i step)
  | .abort i => s.own i fun t _ => some t.abort
  | .join i => s.own i fun t _ => if t.isOver then some { t with child := none } else none
  | .drop i => s.own i fun t _ => some (t.drop i)
  | .intoHandle i => s.own i fun t _ => some { t with child := none, free := true }
  | .finish i outcome => s.finish i outcome

/-- Whatever the tasks do, and in whatever order they end. -/
def runs (P : Program) : Lts (TaskTree P) (Event P) := Lts.ofFun (· = new) step

variable {s s' : TaskTree P} {e : Event P} {t t' : OwnedTask P} {i p r : ℕ}

/-! ## Who owns what -/

/-- A task that is not over, that was not told to abort and that nobody has let go of. -/
def Kept (t : OwnedTask P) : Prop := t.isOver = false ∧ t.aborted = false ∧ t.free = false

/-- What is known of the task `i`. -/
structure Owned (s : TaskTree P) (i : ℕ) (t : OwnedTask P) : Prop where
  /-- The owner has a child for it, while it is kept. -/
  kept : Kept t → ∃ c, t.child = some c
  /-- The child is for this task, and its owner is not over. -/
  child : ∀ c, t.child = some c → c.join = some i ∧
    ∀ p, t.parent = some p → ∃ t' : OwnedTask P, s.tasks[p]? = some t' ∧ t'.isOver = false

def Sound (s : TaskTree P) : Prop := ∀ (i : ℕ) (t : OwnedTask P), s.tasks[i]? = some t → s.Owned i t

/-- A task that is not over stays so. -/
def Alive (s s' : TaskTree P) : Prop :=
  ∀ (p : ℕ) (t : OwnedTask P), s.tasks[p]? = some t → t.isOver = false →
    ∃ t' : OwnedTask P, s'.tasks[p]? = some t' ∧ t'.isOver = false

theorem Owned.mono (h : s.Owned i t) (halive : s.Alive s') : s'.Owned i t where
  kept := h.kept
  child c hc := by
    obtain ⟨hjoin, hparent⟩ := h.child c hc
    refine ⟨hjoin, fun p hp => ?_⟩
    obtain ⟨t', ht', hover⟩ := hparent p hp
    exact halive p t' ht' hover

theorem alive_set (hi : s.tasks[i]? = some t) (hover : t'.isOver = t.isOver) : s.Alive ⟨s.tasks.set i t'⟩ := by
  intro p t₀ hp hnot
  dsimp only
  rw [List.getElem?_set_of_getElem? hi]
  split
  · rename_i hip
    subst hip
    rw [hi] at hp
    cases hp
    exact ⟨t', rfl, hover.trans hnot⟩
  · exact ⟨t₀, hp, hnot⟩

theorem Sound.set (h : s.Sound) (hi : s.tasks[i]? = some t) (hover : t'.isOver = t.isOver)
    (howned : s.Owned i t → s.Owned i t') : Sound ⟨s.tasks.set i t'⟩ := by
  intro k t₀ hk
  have halive := alive_set hi hover
  replace hk : (s.tasks.set i t')[k]? = some t₀ := hk
  rw [List.getElem?_set_of_getElem? hi] at hk
  split at hk
  · rename_i hik
    subst hik
    cases hk
    exact (howned (h i t hi)).mono halive
  · exact (h k t₀ hk).mono halive

theorem own_eq_some {f : OwnedTask P → P.Child → Option (OwnedTask P)} (hs : s.own i f = some s') :
    ∃ (t : OwnedTask P) (c : P.Child) (t' : OwnedTask P),
      s.tasks[i]? = some t ∧ t.child = some c ∧ f t c = some t' ∧ s' = ⟨s.tasks.set i t'⟩ := by
  obtain ⟨t, hi, hs⟩ := Option.bind_eq_some_iff.1 hs
  obtain ⟨c, hc, hs⟩ := Option.bind_eq_some_iff.1 hs
  obtain ⟨t', hf, hs⟩ := Option.bind_eq_some_iff.1 hs
  cases hs
  exact ⟨t, c, t', hi, hc, hf, rfl⟩

theorem Owned.drop (h : s.Owned i t) : s.Owned i (t.drop i) where
  kept hkept := by
    unfold OwnedTask.drop at hkept ⊢
    split at hkept
    · exact h.kept hkept
    · split at hkept
      · cases hkept.2.1
      · cases hkept.2.2
  child c hc := by
    unfold OwnedTask.drop at hc
    split at hc
    · rename_i hnone
      rw [hnone] at hc
      cases hc
    · split at hc <;> cases hc

theorem isOver_drop (t : OwnedTask P) (i : ℕ) : (t.drop i).isOver = t.isOver := by
  unfold OwnedTask.drop
  split
  · rfl
  · split <;> rfl

theorem Sound.spawn (h : s.Sound) {parent : Option ℕ} {address : P.StrongAddress}
    (hparent : parent.all (fun p => decide (p < s.tasks.length) && !s.isOver p) = true) :
    Sound ⟨s.tasks ++ [⟨parent, some (Child.new s.tasks.length address), none, false, false⟩]⟩ := by
  intro k t₀ hk
  have halive : s.Alive ⟨s.tasks ++ [⟨parent, some (Child.new s.tasks.length address), none, false, false⟩]⟩ :=
    fun p t hp hover => ⟨t, List.getElem?_concat_eq_some.2 (.inl hp), hover⟩
  rcases List.getElem?_concat_eq_some.1 hk with hk | ⟨rfl, rfl⟩
  · exact (h k t₀ hk).mono halive
  · refine ⟨fun _ => ⟨_, rfl⟩, fun c hc => ?_⟩
    cases hc
    refine ⟨rfl, fun p hp => ?_⟩
    have hp : parent = some p := hp
    rw [hp, Option.all_some, Bool.and_eq_true, decide_eq_true_eq, Bool.not_eq_true', isOver,
      List.getElem?_eq_getElem hparent.1] at hparent
    exact ⟨s.tasks[p], List.getElem?_concat_eq_some.2 (.inl (List.getElem?_eq_getElem _)), hparent.2⟩

theorem tasks_finish {outcome : Outcome} (hs : s.finish i outcome = some s') :
    ∃ t : OwnedTask P, s.tasks[i]? = some t ∧ t.isOver = false ∧ (outcome = .aborted → t.aborted = true) ∧
      ∀ k, s'.tasks[k]? =
        (if i = k then some { t with ended := some outcome } else s.tasks[k]?).map (OwnedTask.dropWith i k) := by
  obtain ⟨t, hi, hs⟩ := Option.bind_eq_some_iff.1 hs
  obtain ⟨⟨hover, haborted⟩, hs⟩ := Option.ite_none_right_eq_some.1 hs
  cases hs
  refine ⟨t, hi, hover, haborted, fun k => ?_⟩
  dsimp only
  rw [List.getElem?_mapIdx, List.getElem?_set_of_getElem? hi]

theorem isOver_dropWith (p k : ℕ) (t : OwnedTask P) : (t.dropWith p k).isOver = t.isOver := by
  unfold OwnedTask.dropWith
  split
  · exact isOver_drop t k
  · rfl

theorem Sound.finish (h : s.Sound) {outcome : Outcome} (hs : s.finish i outcome = some s') : s'.Sound := by
  obtain ⟨t, hi, hover, -, htasks⟩ := tasks_finish hs
  -- whoever is not the task that has ended
  have halive : ∀ (p : ℕ) (t₀ : OwnedTask P), p ≠ i → s.tasks[p]? = some t₀ → t₀.isOver = false →
      ∃ t' : OwnedTask P, s'.tasks[p]? = some t' ∧ t'.isOver = false := by
    intro p t₀ hpi hp hnot
    refine ⟨t₀.dropWith i p, ?_, (isOver_dropWith i p t₀).trans hnot⟩
    rw [htasks, if_neg (Ne.symm hpi), hp, Option.map_some]
  have howned : ∀ (k : ℕ) (t₀ : OwnedTask P), s.Owned k t₀ → s'.Owned k (t₀.dropWith i k) := by
    intro k t₀ h₀
    unfold OwnedTask.dropWith
    split
    · refine ⟨h₀.drop.kept, fun c hc => ?_⟩
      unfold OwnedTask.drop at hc
      split at hc
      · rename_i hnone
        rw [hnone] at hc
        cases hc
      · split at hc <;> cases hc
    · rename_i hparent
      refine ⟨h₀.kept, fun c hc => ⟨(h₀.child c hc).1, fun p hp => ?_⟩⟩
      obtain ⟨t', ht', hnot⟩ := (h₀.child c hc).2 p hp
      exact halive p t' (fun hpi => hparent (hpi ▸ hp)) ht' hnot
  intro k t₀ hk
  rw [htasks] at hk
  obtain ⟨t₁, ht₁, rfl⟩ := Option.map_eq_some_iff.1 hk
  split at ht₁
  · rename_i hik
    subst hik
    cases ht₁
    have hended : s.Owned i { t with ended := some outcome } := by
      refine ⟨fun hkept => ?_, (h i t hi).child⟩
      cases hkept.1
    exact howned i _ hended
  · exact howned k t₁ (h k t₁ ht₁)

theorem Sound.step (h : s.Sound) (hs : s.step e = some s') : s'.Sound := by
  cases e with
  | spawn parent address =>
    obtain ⟨hparent, hs⟩ := Option.ite_none_right_eq_some.1 hs
    cases hs
    exact h.spawn hparent
  | convert i step =>
    obtain ⟨t, c, t', hi, hc, hf, rfl⟩ := own_eq_some hs
    obtain ⟨⟨c', aborted⟩, hstep, rfl⟩ := Option.map_eq_some_iff.1 hf
    refine h.set hi rfl fun h₀ => ?_
    obtain ⟨hjoin, hparent⟩ := h₀.child c hc
    obtain ⟨c'', hspec, howns, -⟩ := Child.step_spec ⟨hjoin, rfl⟩ step
    rw [hstep] at hspec
    cases hspec
    refine ⟨fun _ => ⟨_, rfl⟩, fun c₀ hc₀ => ?_⟩
    cases hc₀
    exact ⟨howns.1, hparent⟩
  | abort i =>
    obtain ⟨t, c, t', hi, hc, hf, rfl⟩ := own_eq_some hs
    cases hf
    refine h.set hi rfl fun h₀ => ⟨fun hkept => ?_, h₀.child⟩
    cases hkept.2.1
  | join i =>
    obtain ⟨t, c, t', hi, hc, hf, rfl⟩ := own_eq_some hs
    obtain ⟨hover, hf⟩ := Option.ite_none_right_eq_some.1 hf
    cases hf
    refine h.set hi rfl fun h₀ => ⟨fun hkept => ?_, fun c₀ hc₀ => ?_⟩
    · have hnot : t.isOver = false := hkept.1
      rw [hover] at hnot
      cases hnot
    · cases hc₀
  | drop i =>
    obtain ⟨t, c, t', hi, hc, hf, rfl⟩ := own_eq_some hs
    cases hf
    exact h.set hi (isOver_drop t i) Owned.drop
  | intoHandle i =>
    obtain ⟨t, c, t', hi, hc, hf, rfl⟩ := own_eq_some hs
    cases hf
    refine h.set hi rfl fun h₀ => ⟨fun hkept => ?_, fun c₀ hc₀ => ?_⟩
    · cases hkept.2.2
    · cases hc₀
  | finish i outcome => exact h.finish hs

theorem sound_of_reachable (h : (runs P).Reachable s) : s.Sound := by
  refine h.invariant (I := Sound) ?_ fun _ _ _ hI hs => hI.step hs
  rintro _ rfl i t hi
  cases hi

/-- A task that is not over was told to abort, or somebody has let go of it, or its owner has the child
for it and is not over. -/
theorem owned_of_reachable (h : (runs P).Reachable s) (hi : s.tasks[i]? = some t) (hover : t.isOver = false) :
    t.aborted = true ∨ t.free = true ∨
      ∃ c, t.child = some c ∧ c.join = some i ∧
        ∀ p, t.parent = some p → ∃ t' : OwnedTask P, s.tasks[p]? = some t' ∧ t'.isOver = false := by
  have howned := sound_of_reachable h i t hi
  cases haborted : t.aborted with
  | true => exact .inl rfl
  | false =>
    cases hfree : t.free with
    | true => exact .inr (.inl rfl)
    | false =>
      obtain ⟨c, hc⟩ := howned.kept ⟨hover, haborted, hfree⟩
      exact .inr (.inr ⟨c, hc, howned.child c hc⟩)

/-- A supervisor's supervisor panics: the one below it is told to abort, and has its child still. -/
theorem exists_panicked : ∃ s, (runs Program.sampleProgram).Reachable s ∧
    s.tasks.map (fun t => (t.ended, t.aborted, t.free)) =
      [(some .panicked, false, false), (none, true, false), (none, false, false)] :=
  Lts.exists_reachable_of_exec (f := step)
    (p := fun s : TaskTree Program.sampleProgram => s.tasks.map (fun t => (t.ended, t.aborted, t.free)) =
      [(some .panicked, false, false), (none, true, false), (none, false, false)])
    (s := new) rfl
    [.spawn none ⟨true, .interface true⟩, .spawn (some 0) ⟨true, .interface true⟩,
      .spawn (some 1) ⟨false, .interface false⟩, .convert 2 .detach, .convert 2 (.intoDyn []),
      .finish 0 .panicked]
    (by decide +kernel)

theorem owned_of_reachable_panicked :
    ∃ (s : TaskTree Program.sampleProgram) (t : OwnedTask Program.sampleProgram),
    s.tasks[2]? = some t ∧ ∃ c, t.child = some c ∧ c.join = some 2 := by
  obtain ⟨s, hs, hp⟩ := exists_panicked
  have hlen : s.tasks.length = 3 := by
    have hlen := congrArg List.length hp
    rwa [List.length_map] at hlen
  have hi : s.tasks[2]? = some (s.tasks.get ⟨2, by omega⟩) := List.getElem?_eq_getElem _
  have hget := congrArg (·[2]?) hp
  simp only [List.getElem?_map, hi, Option.map_some, List.getElem?_cons_succ, List.getElem?_cons_zero,
    Option.some.injEq, Prod.mk.injEq] at hget
  obtain ⟨hended, haborted, hfree⟩ := hget
  have howned := owned_of_reachable hs hi (by rw [OwnedTask.isOver, hended]; rfl)
  rcases howned with h | h | ⟨c, hc, hjoin, -⟩
  · rw [haborted] at h
    cases h
  · rw [hfree] at h
    cases h
  · exact ⟨s, _, hi, c, hc, hjoin⟩

/-! ## What is below a task -/

/-- The task `i` was started by `r`, or by a task below it, and so on, and nobody has let go of any of them. -/
inductive Below (s : TaskTree P) (r : ℕ) : ℕ → Prop
  | self : Below s r r
  | child {i p : ℕ} {t : OwnedTask P} : s.tasks[i]? = some t → t.parent = some p → t.free = false →
      Below s r p → Below s r i

/-- The task is over, or will be at its next `await`. -/
def Ends (s : TaskTree P) (r : ℕ) : Prop :=
  ∃ t : OwnedTask P, s.tasks[r]? = some t ∧ (t.isOver = true ∨ t.aborted = true)

def AllOver (s : TaskTree P) (r : ℕ) : Prop := ∀ i, s.Below r i → s.isOver i = true

/-- What goes on once nobody spawns any more: tasks end, and their owners abort them, notice that they
have ended or let them go. To convert a child or to abort it again saves no task, but may be done without
end. -/
def Goes (s : TaskTree P) : Event P → Prop
  | .join _ | .drop _ | .intoHandle _ | .finish _ _ => True
  | .abort i => ∀ t ∈ s.tasks[i]?, t.aborted = false
  | .spawn _ _ | .convert _ _ => False

def restRuns (P : Program) : Lts (TaskTree P) (Event P) := (Lts.ofFun (fun _ => True) step).guard Goes

/-- Somebody is still running who was told to abort. -/
theorem exists_aborted (h : s.Sound) (hr : s.Ends r) (hbelow : s.Below r i) (hnot : s.isOver i = false) :
    ∃ (k : ℕ) (t : OwnedTask P), s.tasks[k]? = some t ∧ t.isOver = false ∧ t.aborted = true := by
  induction hbelow with
  | self =>
    obtain ⟨t, hi, hends⟩ := hr
    rw [isOver, hi] at hnot
    have hover : t.isOver = false := hnot
    refine ⟨r, t, hi, hover, hends.resolve_left fun h => ?_⟩
    rw [hover] at h
    cases h
  | @child i p t hi hparent hfree _ ih =>
    by_cases hp : s.isOver p = false
    · exact ih hp
    · have hover : t.isOver = false := by
        rw [isOver, hi] at hnot
        exact hnot
      cases haborted : t.aborted with
      | true => exact ⟨i, t, hi, hover, haborted⟩
      | false =>
        -- its owner is over, and would have dropped it
        obtain ⟨c, hc⟩ := (h i t hi).kept ⟨hover, haborted, hfree⟩
        obtain ⟨t', ht', hover'⟩ := ((h i t hi).child c hc).2 p hparent
        rw [isOver, ht'] at hp
        exact absurd hover' hp

theorem finish_aborted (hi : s.tasks[i]? = some t) (hover : t.isOver = false) (haborted : t.aborted = true) :
    ∃ s', s.step (.finish i .aborted) = some s' := by
  rw [step, finish, Option.bind_eq_bind, hi, Option.bind_some, if_pos ⟨hover, fun _ => haborted⟩]
  exact ⟨_, rfl⟩

theorem exists_finish (h : s.Sound) (hr : s.Ends r) (hnot : ¬ s.AllOver r) :
    ∃ k s', s.step (.finish k .aborted) = some s' := by
  obtain ⟨i, hi⟩ := not_forall.1 hnot
  obtain ⟨hbelow, hover⟩ := Classical.not_imp.1 hi
  obtain ⟨k, t, hk, hover, haborted⟩ := exists_aborted h hr hbelow (Bool.eq_false_iff.2 hover)
  exact ⟨k, finish_aborted hk hover haborted⟩

/-! ## There is less and less to do -/

end TaskTree

/-- A task ends, is told to abort, and its child goes. -/
def OwnedTask.left (t : OwnedTask P) : ℕ :=
  (if t.isOver then 0 else 1) + (if t.aborted then 0 else 1) + (if t.child.isSome then 1 else 0)

namespace TaskTree
variable {s s' : TaskTree P} {e : Event P} {t t' : OwnedTask P} {i p r : ℕ}

def left (s : TaskTree P) : ℕ := (s.tasks.map OwnedTask.left).sum

theorem left_drop_le (t : OwnedTask P) (i : ℕ) : (t.drop i).left ≤ t.left := by
  unfold OwnedTask.drop
  split
  · exact le_rfl
  · rename_i c hc
    have hone : t.left = (if t.isOver then 0 else 1) + (if t.aborted then 0 else 1) + 1 := by
      rw [OwnedTask.left, hc]
      rfl
    rw [hone]
    split
    · show (if t.isOver then 0 else 1) + 0 + 0 ≤ _
      omega
    · show (if t.isOver then 0 else 1) + (if t.aborted then 0 else 1) + 0 ≤ _
      omega

theorem left_dropWith_le (p k : ℕ) (t : OwnedTask P) : (t.dropWith p k).left ≤ t.left := by
  unfold OwnedTask.dropWith
  split
  · exact left_drop_le t k
  · exact le_rfl

theorem left_set_lt (hi : s.tasks[i]? = some t) (hless : t'.left < t.left) :
    left ⟨s.tasks.set i t'⟩ < s.left := by
  have hsum := List.sum_map_set_add (f := OwnedTask.left) (b := t') hi
  unfold left
  dsimp only
  omega

theorem left_abort (t : OwnedTask P) : t.abort.left + (if t.aborted then 0 else 1) = t.left := by
  show (if t.isOver then 0 else 1) + 0 + (if t.child.isSome then 1 else 0) + _ = _
  rw [OwnedTask.left]
  omega

theorem left_lt_of_step (he : s.Goes e) (hs : s.step e = some s') : s'.left < s.left := by
  cases e with
  | spawn _ _ | convert _ _ => cases he
  | intoHandle i =>
    obtain ⟨t, c, t', hi, hc, hf, rfl⟩ := own_eq_some hs
    cases hf
    refine left_set_lt hi ?_
    rw [OwnedTask.left, OwnedTask.left, hc]
    exact Nat.lt_succ_self _
  | abort i =>
    obtain ⟨t, c, t', hi, hc, hf, rfl⟩ := own_eq_some hs
    cases hf
    refine left_set_lt hi ?_
    have hless := left_abort t
    rw [he t hi, if_neg Bool.false_ne_true] at hless
    omega
  | join i =>
    obtain ⟨t, c, t', hi, hc, hf, rfl⟩ := own_eq_some hs
    obtain ⟨-, hf⟩ := Option.ite_none_right_eq_some.1 hf
    cases hf
    refine left_set_lt hi ?_
    rw [OwnedTask.left, OwnedTask.left, hc]
    exact Nat.lt_succ_self _
  | drop i =>
    obtain ⟨t, c, t', hi, hc, hf, rfl⟩ := own_eq_some hs
    cases hf
    refine left_set_lt hi ?_
    have hone : t.left = (if t.isOver then 0 else 1) + (if t.aborted then 0 else 1) + 1 := by
      rw [OwnedTask.left, hc]
      rfl
    rw [hone, OwnedTask.drop, hc]
    dsimp only
    split
    · show (if t.isOver then 0 else 1) + 0 + 0 < _
      omega
    · show (if t.isOver then 0 else 1) + (if t.aborted then 0 else 1) + 0 < _
      omega
  | finish i outcome =>
    obtain ⟨t, hi, hs⟩ := Option.bind_eq_some_iff.1 hs
    obtain ⟨⟨hover, -⟩, hs⟩ := Option.ite_none_right_eq_some.1 hs
    cases hs
    have hless : OwnedTask.left { t with ended := some outcome } < t.left := by
      rw [OwnedTask.left, OwnedTask.left, hover]
      show 0 + (if t.aborted then 0 else 1) + (if t.child.isSome then 1 else 0) < _
      rw [if_neg Bool.false_ne_true]
      omega
    refine Nat.lt_of_le_of_lt ?_ (left_set_lt hi hless)
    exact List.sum_map_mapIdx_le fun k t => left_dropWith_le i k t

theorem left_le_of_abort (hs : s.step (.abort i) = some s') : s'.left ≤ s.left := by
  obtain ⟨t, c, t', hi, -, hf, rfl⟩ := own_eq_some hs
  cases hf
  have hsum := List.sum_map_set_add (f := OwnedTask.left) (b := t.abort) hi
  have hless := left_abort t
  unfold left
  dsimp only
  omega

/-- What has ended, or was told to, stays so. -/
def Later (t t' : OwnedTask P) : Prop :=
  (t.isOver = true → t'.isOver = true) ∧ (t.aborted = true → t'.aborted = true)

theorem later_drop (t : OwnedTask P) (i : ℕ) : Later t (t.drop i) := by
  unfold OwnedTask.drop
  split
  · exact ⟨id, id⟩
  · split
    · exact ⟨id, fun _ => rfl⟩
    · exact ⟨id, id⟩

theorem Ends.set (h : s.Ends r) (hi : s.tasks[i]? = some t) (hlater : Later t t') :
    Ends ⟨s.tasks.set i t'⟩ r := by
  obtain ⟨t₀, hr, hends⟩ := h
  unfold Ends
  dsimp only
  rw [List.getElem?_set_of_getElem? hi]
  split
  · rename_i hir
    subst hir
    rw [hi] at hr
    cases hr
    exact ⟨t', rfl, hends.imp hlater.1 hlater.2⟩
  · exact ⟨t₀, hr, hends⟩

theorem Ends.step (h : s.Ends r) (hs : s.step e = some s') : s'.Ends r := by
  cases e with
  | spawn parent address =>
    obtain ⟨-, hs⟩ := Option.ite_none_right_eq_some.1 hs
    cases hs
    obtain ⟨t, hr, hends⟩ := h
    exact ⟨t, List.getElem?_concat_eq_some.2 (.inl hr), hends⟩
  | convert i step =>
    obtain ⟨t, c, t', hi, -, hf, rfl⟩ := own_eq_some hs
    obtain ⟨⟨c', aborted⟩, -, rfl⟩ := Option.map_eq_some_iff.1 hf
    exact h.set hi ⟨id, fun haborted => Bool.or_eq_true_iff.2 (.inl haborted)⟩
  | abort i =>
    obtain ⟨t, c, t', hi, -, hf, rfl⟩ := own_eq_some hs
    cases hf
    exact h.set hi ⟨id, fun _ => rfl⟩
  | join i =>
    obtain ⟨t, c, t', hi, -, hf, rfl⟩ := own_eq_some hs
    obtain ⟨-, hf⟩ := Option.ite_none_right_eq_some.1 hf
    cases hf
    exact h.set hi ⟨id, id⟩
  | drop i =>
    obtain ⟨t, c, t', hi, -, hf, rfl⟩ := own_eq_some hs
    cases hf
    exact h.set hi (later_drop t i)
  | intoHandle i =>
    obtain ⟨t, c, t', hi, -, hf, rfl⟩ := own_eq_some hs
    cases hf
    exact h.set hi ⟨id, id⟩
  | finish i outcome =>
    obtain ⟨t, hi, hs⟩ := Option.bind_eq_some_iff.1 hs
    obtain ⟨-, hs⟩ := Option.ite_none_right_eq_some.1 hs
    cases hs
    have hset : Ends ⟨s.tasks.set i { t with ended := some outcome }⟩ r := h.set hi ⟨fun _ => rfl, id⟩
    obtain ⟨t₀, hr, hends⟩ := hset
    have hlater : Later t₀ (t₀.dropWith i r) := by
      unfold OwnedTask.dropWith
      split
      · exact later_drop t₀ r
      · exact ⟨id, id⟩
    refine ⟨t₀.dropWith i r, ?_, hends.imp hlater.1 hlater.2⟩
    dsimp only at hr ⊢
    rw [List.getElem?_mapIdx, hr, Option.map_some]

end TaskTree

end Zestors
