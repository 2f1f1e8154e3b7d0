import Mathlib.Data.List.Induction
import Zestors.Channel.Casting

/-!
# The owner of a task

A `Child` aborts the task of its actor when it is dropped, unless it has been detached. Its conversions
take it apart and make a new one, and a new one is attached: a detached child that is converted aborts
its task after all (`ownership_iff`).
-/

namespace Zestors.Program
variable {P : Program}

/-- The `Context` of a reference: an interface, or `Dyn` of a set of messages. -/
inductive Context (P : Program)
  | interface (i : P.InterfaceId)
  | dyn (set : List P.MsgId)

/-- A strong address in the context `ctx`, of a channel whose queue has the interface `channel`. -/
structure StrongAddress (P : Program) where
  channel : P.InterfaceId
  ctx : P.Context

namespace StrongAddress

def intoContextUnchecked (address : P.StrongAddress) (ctx : P.Context) : P.StrongAddress :=
  { address with ctx := ctx }

def isSupersetOf (address : P.StrongAddress) (ids : List P.MsgId) : Bool :=
  ids.all fun id => (P.members address.channel).contains id

def isInterface (address : P.StrongAddress) (i : P.InterfaceId) : Bool := decide (address.channel = i)

end StrongAddress

/-- `join` is the handle of a task, which is known by its number. -/
structure Child (P : Program) where
  join : Option ℕ
  address : P.StrongAddress
  attached : Bool

/-- What is done with a child by value or by reference. -/
inductive ChildStep (P : Program)
  | attach
  | detach
  | attached
  | detached
  | intoContextUnchecked (ctx : P.Context)
  | intoDyn (set : List P.MsgId)
  | intoDynChecked (set : List P.MsgId)
  | downcast (i : P.InterfaceId)

namespace Child

def new (join : ℕ) (address : P.StrongAddress) : P.Child := ⟨some join, address, true⟩

/-- `Drop`: the tasks that it aborts. -/
def aborts (c : P.Child) : List ℕ := if c.attached then c.join.toList else []

/-- `Child::into_parts`, and what the drop of the rest of the child aborts. It panics if the task has
been awaited to its end. -/
def intoParts (c : P.Child) : Option ((ℕ × P.StrongAddress) × List ℕ) :=
  c.join.map fun join => ((join, c.address), ({ c with join := none } : P.Child).aborts)

def intoContextUnchecked (c : P.Child) (ctx : P.Context) : Option (P.Child × List ℕ) :=
  c.intoParts.map fun ((handle, address), aborted) =>
    (new handle (address.intoContextUnchecked ctx), aborted)

/-- The child after a step, and what the step aborts. A checked conversion that does not go through
gives the child back. -/
def step (c : P.Child) : ChildStep P → Option (P.Child × List ℕ)
  | .attach | .attached => some ({ c with attached := true }, [])
  | .detach | .detached => some ({ c with attached := false }, [])
  | .intoContextUnchecked ctx => c.intoContextUnchecked ctx
  | .intoDyn set => c.intoContextUnchecked (.dyn set)
  | .intoDynChecked set =>
    if c.address.isSupersetOf set then c.intoContextUnchecked (.dyn set) else some (c, [])
  | .downcast i =>
    if c.address.isInterface i then c.intoContextUnchecked (.interface i) else some (c, [])

def run (c : P.Child) : List (ChildStep P) → Option (P.Child × List ℕ)
  | [] => some (c, [])
  | step :: steps => do
    let (c, aborted) ← c.step step
    let (c, aborted') ← c.run steps
    some (c, aborted ++ aborted')

end Child

namespace ChildStep

/-- Whether a step attaches or detaches the child, or does neither. -/
def ownership : ChildStep P → Option Bool
  | attach | attached => some true
  | detach | detached => some false
  | _ => none

/-- The step is a conversion, and goes through on a channel of the interface `i`. -/
def converts (i : P.InterfaceId) : ChildStep P → Bool
  | intoContextUnchecked _ | intoDyn _ => true
  | intoDynChecked set => set.all fun id => (P.members i).contains id
  | downcast j => decide (i = j)
  | _ => false

/-- The last step that attaches or detaches. -/
def lastOwnership (steps : List (ChildStep P)) : Option Bool := steps.reverse.findSome? ownership

/-- The steps after it. -/
def sinceOwnership (steps : List (ChildStep P)) : List (ChildStep P) :=
  (steps.reverse.takeWhile fun step => step.ownership.isNone).reverse

/-- The last of these steps is a detach, and a conversion goes through after it. -/
def LosesDetach (i : P.InterfaceId) (steps : List (ChildStep P)) : Prop :=
  lastOwnership steps = some false ∧ ∃ step ∈ sinceOwnership steps, step.converts i = true

end ChildStep

namespace Child
variable {c : P.Child} {task : ℕ} {i : P.InterfaceId} {step : ChildStep P} {steps : List (ChildStep P)}

/-- The child of the task `task`, on a channel of the interface `i`. -/
def Owns (task : ℕ) (i : P.InterfaceId) (c : P.Child) : Prop := c.join = some task ∧ c.address.channel = i

theorem owns_new (task : ℕ) (address : P.StrongAddress) : (new task address).Owns task address.channel :=
  ⟨rfl, rfl⟩

/-- Whatever a step does, it aborts nothing. What owns the task after it is attached if the step
attaches it or converts it, and else as before. -/
theorem step_spec (hc : c.Owns task i) (step : ChildStep P) :
    ∃ c', c.step step = some (c', []) ∧ c'.Owns task i ∧
      c'.attached = (step.ownership.getD (step.converts i || c.attached)) := by
  obtain ⟨join, address, attached⟩ := c
  obtain ⟨rfl, rfl⟩ := hc
  have hconvert : ∀ ctx, (⟨some task, address, attached⟩ : P.Child).intoContextUnchecked ctx =
      some (new task (address.intoContextUnchecked ctx), []) := by
    intro ctx
    cases attached <;> rfl
  cases step with
  | attach | detach | attached | detached => exact ⟨_, rfl, ⟨rfl, rfl⟩, rfl⟩
  | intoContextUnchecked ctx => exact ⟨_, hconvert ctx, ⟨rfl, rfl⟩, rfl⟩
  | intoDyn set => exact ⟨_, hconvert _, ⟨rfl, rfl⟩, rfl⟩
  | intoDynChecked set =>
    have hstep : (ChildStep.intoDynChecked set).ownership.getD
        ((ChildStep.intoDynChecked set).converts address.channel || attached) =
        (address.isSupersetOf set || attached) := rfl
    rw [hstep]
    cases h : address.isSupersetOf set with
    | true => exact ⟨_, (if_pos h).trans (hconvert _), ⟨rfl, rfl⟩, rfl⟩
    | false => exact ⟨_, if_neg (by simp [h]), ⟨rfl, rfl⟩, rfl⟩
  | downcast j =>
    have hstep : (ChildStep.downcast j).ownership.getD
        ((ChildStep.downcast j).converts address.channel || attached) =
        (address.isInterface j || attached) := rfl
    rw [hstep]
    cases h : address.isInterface j with
    | true => exact ⟨_, (if_pos h).trans (hconvert _), ⟨rfl, rfl⟩, rfl⟩
    | false => exact ⟨_, if_neg (by simp [h]), ⟨rfl, rfl⟩, rfl⟩

/-- Whether the child is attached after `steps`. -/
def attachedAfter (i : P.InterfaceId) (attached : Bool) (steps : List (ChildStep P)) : Bool :=
  steps.foldl (fun attached step => step.ownership.getD (step.converts i || attached)) attached

theorem run_spec (hc : c.Owns task i) (steps : List (ChildStep P)) :
    ∃ c', c.run steps = some (c', []) ∧ c'.Owns task i ∧
      c'.attached = attachedAfter i c.attached steps := by
  induction steps generalizing c with
  | nil => exact ⟨c, rfl, hc, rfl⟩
  | cons step steps ih =>
    obtain ⟨c₁, hstep, hc₁, hattached⟩ := step_spec hc step
    obtain ⟨c₂, hrun, hc₂, hattached₂⟩ := ih hc₁
    refine ⟨c₂, by simp [run, hstep, hrun], hc₂, ?_⟩
    rw [hattached₂, hattached]
    rfl

theorem aborts_eq_iff (hc : c.Owns task i) : c.aborts = [task] ↔ c.attached = true := by
  rw [aborts, hc.1]
  cases c.attached <;> simp

end Child

namespace ChildStep
variable {i : P.InterfaceId} {step : ChildStep P} {steps : List (ChildStep P)}

theorem lastOwnership_concat : lastOwnership (steps ++ [step]) = step.ownership.or (lastOwnership steps) := by
  simp only [lastOwnership, List.reverse_append, List.reverse_singleton, List.singleton_append,
    List.findSome?_cons]
  cases step.ownership <;> rfl

theorem sinceOwnership_concat (h : step.ownership = none) :
    sinceOwnership (steps ++ [step]) = sinceOwnership steps ++ [step] := by
  simp [sinceOwnership, h]

theorem losesDetach_concat (h : step.ownership = none) :
    LosesDetach i (steps ++ [step]) ↔
      LosesDetach i steps ∨ lastOwnership steps = some false ∧ step.converts i = true := by
  simp only [LosesDetach, lastOwnership_concat, sinceOwnership_concat h, h, Option.none_or,
    List.mem_append, List.mem_singleton, or_and_right, exists_or, exists_eq_left]
  exact and_or_left

theorem not_losesDetach_concat (i : P.InterfaceId) (steps : List (ChildStep P))
    (h : step.ownership ≠ none) : ¬ LosesDetach i (steps ++ [step]) := by
  rintro ⟨-, converted, hmem, -⟩
  cases howner : step.ownership with
  | none => exact h howner
  | some owner => simp [sinceOwnership, howner] at hmem

/-- A child is detached where the last step of the kind was a detach, and no conversion has gone
through since. -/
theorem attachedAfter_iff (i : P.InterfaceId) (steps : List (ChildStep P)) :
    Child.attachedAfter i true steps = true ↔
      lastOwnership steps ≠ some false ∨ LosesDetach i steps := by
  induction steps using List.reverseRecOn with
  | nil => simp [Child.attachedAfter, lastOwnership]
  | append_singleton steps step ih =>
    rw [Child.attachedAfter, List.foldl_append, List.foldl_cons, List.foldl_nil, ← Child.attachedAfter,
      lastOwnership_concat]
    cases howner : step.ownership with
    | some owner =>
      have hne : step.ownership ≠ none := by simp [howner]
      have hlost := not_losesDetach_concat i steps hne
      cases owner <;> simp [hlost]
    | none =>
      rw [losesDetach_concat howner, Option.none_or, Option.getD_none, Bool.or_eq_true, ih]
      tauto

end ChildStep

/-- Any steps, taken with a freshly spawned child: none of them aborts the task. The drop of the child
that comes out aborts it exactly if no step attaches or detaches or the last such step attaches, unless
that step is a detach and a conversion goes through after it. One more step that neither attaches nor
detaches leaves what the drop aborts as it is, unless it is a conversion that goes through and the
child is a detached one that has not been converted. -/
theorem ownership_iff (i : P.InterfaceId) (ctx : P.Context) (task : ℕ) (steps : List (ChildStep P)) :
    ∃ child, (Child.new task ⟨i, ctx⟩).run steps = some (child, []) ∧
      ((child.aborts = [task] ↔ ChildStep.lastOwnership steps ≠ some false) ↔
        ¬ ChildStep.LosesDetach i steps) ∧
      ∀ step : ChildStep P, step.ownership = none →
        ∃ converted, child.step step = some (converted, []) ∧
          (converted.aborts = child.aborts ↔
            ¬ (step.converts i = true ∧ ChildStep.lastOwnership steps = some false ∧
              ¬ ChildStep.LosesDetach i steps)) := by
  obtain ⟨child, hrun, howns, hattached⟩ := Child.run_spec (Child.owns_new task ⟨i, ctx⟩) steps
  have hiff := ChildStep.attachedAfter_iff i steps
  have hchild : child.attached = true ↔
      ChildStep.lastOwnership steps ≠ some false ∨ ChildStep.LosesDetach i steps := by
    rw [hattached]
    exact hiff
  refine ⟨child, hrun, ?_, fun step hstep => ?_⟩
  · rw [Child.aborts_eq_iff howns, hchild]
    have hlost : ChildStep.LosesDetach i steps → ChildStep.lastOwnership steps = some false :=
      fun h => h.1
    tauto
  obtain ⟨converted, hconverted, howns', hattached'⟩ := Child.step_spec howns step
  refine ⟨converted, hconverted, ?_⟩
  have haborts : converted.aborts = child.aborts ↔ converted.attached = child.attached := by
    rw [Child.aborts, Child.aborts, howns.1, howns'.1]
    cases converted.attached <;> cases child.attached <;> simp
  rw [haborts, hattached', hstep, Option.getD_none]
  cases hconverts : step.converts i with
  | false => simp
  | true =>
    rw [Bool.true_or, eq_comm, hchild]
    tauto

/-- A child is detached, converted to a `Dyn` of no messages, and dropped: its task is aborted. -/
theorem detached_child_aborts :
    ¬ ∀ (i : sampleProgram.InterfaceId) (ctx : sampleProgram.Context) (task : ℕ)
      (steps : List (ChildStep sampleProgram)) child aborted,
      (Child.new task ⟨i, ctx⟩).run steps = some (child, aborted) →
        (child.aborts = [task] ↔ ChildStep.lastOwnership steps ≠ some false) := by
  intro h
  have hsteps := (h true (.interface true) 0 [.detach, .intoDyn []] _ _ rfl).mp rfl
  exact hsteps rfl

end Zestors.Program
