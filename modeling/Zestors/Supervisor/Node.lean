import Zestors.Channel.TaskTree
import Zestors.Supervisor.Custody

/-!
# A node

`Node::run`: the root supervisor is started, and stopped at the first shutdown signal; the second one
does not wait for it. Whatever the root and all that it has started do in the meantime.

What `run` returns, and the exit code of the program, tell what has become of the root
(`returned_of_reachable`). A node that was told to shut down returns, and nothing is left of what it has
started (`inevitable_stopped`).
-/

namespace Zestors
open Program (Child StrongAddress)

variable {P : Program}

inductive StartOnError
  | concurrentInbox
  | instantiation
deriving DecidableEq

/-- The timeout that it names as well is the one of the configuration. -/
structure ShutdownAbortError where
  aborted : Bool
  error : JoinError
deriving DecidableEq

inductive NodeError
  | startFailed (error : StartOnError)
  | supervisorExited (error : JoinError)
  | shutdownFailed (error : ShutdownAbortError)
  | forcedShutdown
deriving DecidableEq

/-- Where `run` is. `stopping` and `aborting` are within `Child::shutdown_abort`. -/
inductive NodeStage
  | starting
  | running (root : ℕ)
  | stopping (root : ℕ) (elapsed : Bool)
  | aborting (root : ℕ)
  /-- It waits before it returns. -/
  | sleeping (error : NodeError)
  | done (result : Except NodeError Unit)
  /-- The future of `run` was dropped. -/
  | dropped
deriving DecidableEq

/-- A first signal has come, or the future was dropped, or `run` has returned. -/
def NodeStage.Told : NodeStage → Prop
  | starting | running _ => False
  | stopping _ _ | aborting _ | sleeping _ | done _ | dropped => True

/-- How far `run` is from its end. -/
def NodeStage.left : NodeStage → ℕ
  | starting | running _ | done _ | dropped => 0
  | sleeping _ => 1
  | aborting _ => 2
  | stopping _ true => 3
  | stopping _ false => 4

/-- The node among all tasks of the program. `root`, `signals` and `heeded` are ghosts: the task of the
root supervisor, how many shutdown signals have come since it runs, and how many of them while the node
waited for the root. -/
structure NodeRun (P : Program) where
  tree : TaskTree P
  stage : NodeStage
  root : Option ℕ
  signals : ℕ
  heeded : ℕ

namespace NodeRun

def new : NodeRun P := ⟨.new, .starting, none, 0, 0⟩

inductive Event (P : Program)
  | startFails (error : StartOnError)
  | start (address : P.StrongAddress)
  /-- The exit watcher is ready, or another signal has come. -/
  | signal
  /-- The abort timeout is over. -/
  | elapse
  | poll
  | slept
  /-- The future is dropped. -/
  | drop
  /-- Anything else that happens to the tasks. -/
  | tree (e : TaskTree.Event P)

/-- The root's child is let go of, in the end. -/
def dropRoot (s : NodeRun P) (root : ℕ) (stage : NodeStage) : Option (NodeRun P) :=
  (s.tree.step (.drop root)).map fun tree => { s with tree := tree, stage := stage }

/-- The result of the root, if it is over. -/
def joined (s : NodeRun P) (root : ℕ) : Option (Except JoinError Unit) :=
  ((s.tree.tasks[root]?).bind OwnedTask.ended).map Outcome.joined

/-- The root is over, and `run` goes on. -/
def join (s : NodeRun P) (root : ℕ) (stage : NodeStage) : Option (NodeRun P) :=
  (s.tree.step (.join root)).map fun tree => { s with tree := tree, stage := stage }

def poll (s : NodeRun P) : Option (NodeRun P) :=
  match s.stage with
  | .running root =>
    match s.joined root with
    | some (.ok _) => s.join root (.done (.ok ()))
    | some (.error e) => s.join root (.done (.error (.supervisorExited e)))
    | none => none
  | .stopping root elapsed =>
    match s.joined root with
    | some (.ok _) => s.join root (.done (.ok ()))
    | some (.error e) => s.join root (.sleeping (.shutdownFailed ⟨false, e⟩))
    | none =>
      if elapsed then
        (s.tree.step (.abort root)).map fun tree => { s with tree := tree, stage := .aborting root }
      else none
  | .aborting root =>
    match s.joined root with
    | some (.ok _) => s.join root (.done (.ok ()))
    | some (.error e) => s.join root (.sleeping (.shutdownFailed ⟨true, e⟩))
    | none => none
  | .starting | .sleeping _ | .done _ | .dropped => none

def signal (s : NodeRun P) : Option (NodeRun P) :=
  match s.stage with
  | .running root => some { s with
      stage := .stopping root false
      signals := s.signals + 1
      heeded := s.heeded + 1 }
  | .stopping root _ | .aborting root =>
    { s with
      signals := s.signals + 1
      heeded := s.heeded + 1 }.dropRoot root (.done (.error .forcedShutdown))
  -- nobody listens any more
  | .sleeping _ => some { s with signals := s.signals + 1 }
  | .starting | .done _ | .dropped => none

/-- The event is something that the owner of the task `i` does. -/
def owns (i : ℕ) : TaskTree.Event P → Bool
  | .convert j _ | .abort j | .join j | .drop j | .intoHandle j => decide (i = j)
  | .spawn _ _ | .finish _ _ => false

def step (s : NodeRun P) : Event P → Option (NodeRun P)
  | .startFails error =>
    if s.stage = .starting then some { s with stage := .done (.error (.startFailed error)) } else none
  | .start address =>
    if s.stage = .starting then
      (s.tree.step (.spawn none address)).map fun tree => { s with
        tree := tree
        stage := .running s.tree.tasks.length
        root := some s.tree.tasks.length }
    else none
  | .signal => s.signal
  | .elapse =>
    match s.stage with
    | .stopping root false => some { s with stage := .stopping root true }
    | _ => none
  | .poll => s.poll
  | .slept =>
    match s.stage with
    | .sleeping e => some { s with stage := .done (.error e) }
    | _ => none
  | .drop =>
    match s.stage with
    | .running root | .stopping root _ | .aborting root => s.dropRoot root .dropped
    | .starting | .sleeping _ => some { s with stage := .dropped }
    | .done _ | .dropped => none
  -- only the node has the child for the root
  | .tree e =>
    if s.root.any (owns · e) then none
    else (s.tree.step e).map fun tree => { s with tree := tree }

/-- Whatever the tasks do, and whenever the signals come. -/
def runs (P : Program) : Lts (NodeRun P) (Event P) := Lts.ofFun (· = new) step

variable {s s' : NodeRun P} {e : Event P} {t t' : OwnedTask P} {tree : TaskTree P} {root : ℕ} {aborted : Bool}
  {outcome : Outcome}

/-! ## What becomes of the root -/

structure RootTask (tree : TaskTree P) (node : Option ℕ) (root : ℕ) (t : OwnedTask P) : Prop where
  isRoot : node = some root
  task : tree.tasks[root]? = some t
  parent : t.parent = none
  aborted : t.ended = some .aborted → t.aborted = true

abbrev IsRoot (s : NodeRun P) (root : ℕ) (t : OwnedTask P) : Prop := RootTask s.tree s.root root t

/-- The node has the child for the root, which was told to abort or not. -/
def Awaited (s : NodeRun P) (root : ℕ) (aborted : Bool) : Prop :=
  ∃ t, s.IsRoot root t ∧ t.aborted = aborted ∧ ∃ c, t.child = some c ∧ c.join = some root ∧ c.attached = true

theorem Awaited.isRoot (h : s.Awaited root aborted) : s.root = some root := by
  obtain ⟨t, hroot, -⟩ := h
  exact hroot.isRoot

/-- The root is over, and has ended so. -/
def RootOver (s : NodeRun P) (outcome : Outcome) (aborted : Bool) : Prop :=
  ∃ root t, s.IsRoot root t ∧ t.ended = some outcome ∧ t.aborted = aborted ∧ t.child = none

/-- What the result of `run` says. -/
def Accounted (s : NodeRun P) : Except NodeError Unit → Prop
  | .ok _ => ∃ aborted, s.RootOver .ok aborted
  | .error (.startFailed _) => s.signals = 0 ∧ s.root = none
  | .error (.supervisorExited e) => s.signals = 0 ∧
    ∃ outcome, outcome.joined = .error e ∧ s.RootOver outcome false
  | .error (.shutdownFailed error) => s.heeded = 1 ∧
    ∃ outcome, outcome.joined = .error error.error ∧ s.RootOver outcome error.aborted
  | .error .forcedShutdown => s.heeded = 2 ∧ ∃ root t, s.IsRoot root t ∧ t.aborted = true ∧ t.child = none

def SoundAt (s : NodeRun P) : NodeStage → Prop
  | .starting => s.root = none ∧ s.signals = 0
  | .running root => s.signals = 0 ∧ s.Awaited root false
  | .stopping root _ => s.heeded = 1 ∧ s.Awaited root false
  | .aborting root => s.heeded = 1 ∧ s.Awaited root true
  | .sleeping e => (∃ error, e = .shutdownFailed error) ∧ s.Accounted (.error e)
  | .done result => s.Accounted result
  | .dropped => ∀ root, s.root = some root → s.tree.Ends root

structure Sound (s : NodeRun P) : Prop where
  tree : (TaskTree.runs P).Reachable s.tree
  heeded : s.heeded ≤ s.signals
  stage : s.SoundAt s.stage

theorem dropWith_of_parent (hparent : t.parent = none) (p k : ℕ) : t.dropWith p k = t := by
  unfold OwnedTask.dropWith
  rw [if_neg]
  rw [hparent]
  exact fun h => by cases h

theorem IsRoot.others (h : s.IsRoot root t) {e : TaskTree.Event P} (howns : owns root e = false)
    (hs : s.tree.step e = some tree) : ∃ t', IsRoot { s with tree := tree } root t' ∧
      t'.child = t.child ∧ t'.aborted = t.aborted ∧ (t.ended.isSome = true → t'.ended = t.ended) := by
  have hsame : tree.tasks[root]? = some t → ∃ t', IsRoot { s with tree := tree } root t' ∧
      t'.child = t.child ∧ t'.aborted = t.aborted ∧ (t.ended.isSome = true → t'.ended = t.ended) :=
    fun ht => ⟨t, ⟨h.isRoot, ht, h.parent, h.aborted⟩, rfl, rfl, fun _ => rfl⟩
  have hown : ∀ {i : ℕ} {f : OwnedTask P → P.Child → Option (OwnedTask P)}, root ≠ i →
      s.tree.own i f = some tree → tree.tasks[root]? = some t := by
    intro i f hne hs
    obtain ⟨t₀, c, t', hi, -, -, rfl⟩ := TaskTree.own_eq_some hs
    rw [List.getElem?_set_of_getElem? hi, if_neg (Ne.symm hne)]
    exact h.task
  cases e with
  | spawn parent address =>
    obtain ⟨-, hs⟩ := Option.ite_none_right_eq_some.1 hs
    cases hs
    exact hsame (List.getElem?_concat_eq_some.2 (.inl h.task))
  | convert i step | abort i | join i | drop i | intoHandle i =>
    exact hsame (hown (of_decide_eq_false howns) hs)
  | finish i outcome =>
    obtain ⟨t₀, hi, hover, haborted, htasks⟩ := TaskTree.tasks_finish hs
    have hroot := htasks root
    by_cases heq : i = root
    · subst heq
      rw [h.task] at hi
      cases hi
      have hdrop : OwnedTask.dropWith i i { t with ended := some outcome } =
          { t with ended := some outcome } := by
        refine dropWith_of_parent ?_ i i
        exact h.parent
      rw [if_pos rfl, Option.map_some, hdrop] at hroot
      refine ⟨_, ⟨h.isRoot, hroot, h.parent, fun hended => haborted (Option.some.inj hended)⟩, rfl, rfl,
        fun hsome => ?_⟩
      have hover : t.ended.isSome = false := hover
      rw [hover] at hsome
      cases hsome
    · rw [if_neg heq, h.task, Option.map_some, dropWith_of_parent h.parent] at hroot
      exact hsame hroot

theorem Awaited.others (h : s.Awaited root aborted) {e : TaskTree.Event P} (howns : owns root e = false)
    (hs : s.tree.step e = some tree) : Awaited { s with tree := tree } root aborted := by
  obtain ⟨t, hroot, haborted, c, hc, hchild⟩ := h
  obtain ⟨t', hroot', hc', haborted', -⟩ := hroot.others howns hs
  exact ⟨t', hroot', haborted'.trans haborted, c, hc'.trans hc, hchild⟩

theorem RootOver.others (h : s.RootOver outcome aborted) {e : TaskTree.Event P}
    (howns : s.root.any (owns · e) = false) (hs : s.tree.step e = some tree) :
    RootOver { s with tree := tree } outcome aborted := by
  obtain ⟨root, t, hroot, hended, haborted, hc⟩ := h
  rw [hroot.isRoot] at howns
  obtain ⟨t', hroot', hc', haborted', hended'⟩ := hroot.others howns hs
  refine ⟨root, t', hroot', ?_, haborted'.trans haborted, hc'.trans hc⟩
  rw [hended' (by rw [hended]; rfl), hended]

theorem Accounted.others {result : Except NodeError Unit} (h : s.Accounted result) {e : TaskTree.Event P}
    (howns : s.root.any (owns · e) = false) (hs : s.tree.step e = some tree) :
    Accounted { s with tree := tree } result := by
  cases result with
  | ok _ =>
    obtain ⟨aborted, hover⟩ := h
    exact ⟨aborted, hover.others howns hs⟩
  | error error =>
    cases error with
    | startFailed _ => exact h
    | supervisorExited _ | shutdownFailed _ =>
      obtain ⟨hsignals, outcome, hjoined, hover⟩ := h
      exact ⟨hsignals, outcome, hjoined, hover.others howns hs⟩
    | forcedShutdown =>
      obtain ⟨hsignals, root, t, hroot, haborted, hc⟩ := h
      rw [hroot.isRoot] at howns
      obtain ⟨t', hroot', hc', haborted', -⟩ := hroot.others howns hs
      exact ⟨hsignals, root, t', hroot', haborted'.trans haborted, hc'.trans hc⟩

/-! ## What the node does -/

theorem Awaited.own (h : s.Awaited root aborted) {f : OwnedTask P → P.Child → Option (OwnedTask P)}
    (hs : s.tree.own root f = some tree) : ∃ t c t', s.IsRoot root t ∧ t.aborted = aborted ∧ t.child = some c ∧
      c.join = some root ∧ c.attached = true ∧ f t c = some t' ∧ tree.tasks[root]? = some t' := by
  obtain ⟨t, hroot, haborted, c, hc, hjoin, hattached⟩ := h
  obtain ⟨t₀, c₀, t', hi, hc₀, hf, rfl⟩ := TaskTree.own_eq_some hs
  rw [hroot.task] at hi
  cases hi
  rw [hc] at hc₀
  cases hc₀
  refine ⟨t, c, t', hroot, haborted, hc, hjoin, hattached, hf, ?_⟩
  rw [List.getElem?_set_of_getElem? hroot.task, if_pos rfl]

theorem drop_of_attached {c : P.Child} (hc : t.child = some c) (hjoin : c.join = some root)
    (hattached : c.attached = true) : t.drop root = { t with child := none, aborted := true } := by
  have haborts : c.aborts = [root] := by
    rw [Child.aborts, if_pos hattached, hjoin]
    rfl
  rw [OwnedTask.drop, hc]
  dsimp only
  rw [if_pos (by rw [haborts]; exact List.mem_singleton_self _)]

theorem Awaited.dropRoot (h : s.Awaited root aborted) {stage : NodeStage}
    (hs : s.dropRoot root stage = some s') : (∃ tree, s.tree.step (.drop root) = some tree ∧
      s' = { s with tree := tree, stage := stage }) ∧
      ∃ t, s'.IsRoot root t ∧ t.aborted = true ∧ t.child = none := by
  obtain ⟨tree, hstep, rfl⟩ := Option.map_eq_some_iff.1 hs
  obtain ⟨t, c, t', hroot, -, hc, hjoin, hattached, hf, ht'⟩ := h.own hstep
  rw [drop_of_attached hc hjoin hattached] at hf
  cases hf
  exact ⟨⟨tree, hstep, rfl⟩, _, ⟨hroot.isRoot, ht', hroot.parent, fun _ => rfl⟩, rfl, rfl⟩

theorem Awaited.join (h : s.Awaited root aborted) {result : Except JoinError Unit} {stage : NodeStage}
    (hjoined : s.joined root = some result) (hs : s.join root stage = some s') :
    (∃ tree, s.tree.step (.join root) = some tree ∧ s' = { s with tree := tree, stage := stage }) ∧
      ∃ outcome, outcome.joined = result ∧ s'.RootOver outcome aborted := by
  obtain ⟨tree, hstep, rfl⟩ := Option.map_eq_some_iff.1 hs
  obtain ⟨t, c, t', hroot, haborted, -, -, -, hf, ht'⟩ := h.own hstep
  obtain ⟨-, hf⟩ := Option.ite_none_right_eq_some.1 hf
  cases hf
  rw [joined, hroot.task, Option.bind_some] at hjoined
  obtain ⟨outcome, hended, hresult⟩ := Option.map_eq_some_iff.1 hjoined
  exact ⟨⟨tree, hstep, rfl⟩, outcome, hresult, root, _, ⟨hroot.isRoot, ht', hroot.parent, hroot.aborted⟩, hended,
    haborted, rfl⟩

theorem ok_of_joined {value : Unit} (h : outcome.joined = .ok value) : outcome = .ok := by
  cases outcome with
  | ok => rfl
  | err | panicked | aborted => cases h

theorem Sound.poll (h : s.Sound) (hs : s.poll = some s') : s'.Sound := by
  have hstage := h.stage
  unfold NodeRun.poll at hs
  split at hs
  · rename_i root heq
    rw [heq] at hstage
    obtain ⟨hsignals, hawaited⟩ := hstage
    split at hs
    · rename_i value hjoined
      obtain ⟨⟨tree, hstep, rfl⟩, outcome, hresult, hover⟩ := hawaited.join hjoined hs
      exact ⟨.step h.tree hstep, h.heeded, false, ok_of_joined hresult ▸ hover⟩
    · rename_i e hjoined
      obtain ⟨⟨tree, hstep, rfl⟩, outcome, hresult, hover⟩ := hawaited.join hjoined hs
      exact ⟨.step h.tree hstep, h.heeded, hsignals, outcome, hresult, hover⟩
    · cases hs
  · rename_i root elapsed heq
    rw [heq] at hstage
    obtain ⟨hsignals, hawaited⟩ := hstage
    split at hs
    · rename_i value hjoined
      obtain ⟨⟨tree, hstep, rfl⟩, outcome, hresult, hover⟩ := hawaited.join hjoined hs
      exact ⟨.step h.tree hstep, h.heeded, false, ok_of_joined hresult ▸ hover⟩
    · rename_i e hjoined
      obtain ⟨⟨tree, hstep, rfl⟩, outcome, hresult, hover⟩ := hawaited.join hjoined hs
      exact ⟨.step h.tree hstep, h.heeded, ⟨_, rfl⟩, hsignals, outcome, hresult, hover⟩
    · obtain ⟨-, hs⟩ := Option.ite_none_right_eq_some.1 hs
      obtain ⟨tree, hstep, rfl⟩ := Option.map_eq_some_iff.1 hs
      obtain ⟨t, c, t', hroot, -, hc, hjoin, hattached, hf, ht'⟩ := hawaited.own hstep
      cases hf
      exact ⟨.step h.tree hstep, h.heeded, hsignals, _, ⟨hroot.isRoot, ht', hroot.parent, fun _ => rfl⟩,
        rfl, c, hc, hjoin, hattached⟩
  · rename_i root heq
    rw [heq] at hstage
    obtain ⟨hsignals, hawaited⟩ := hstage
    split at hs
    · rename_i value hjoined
      obtain ⟨⟨tree, hstep, rfl⟩, outcome, hresult, hover⟩ := hawaited.join hjoined hs
      exact ⟨.step h.tree hstep, h.heeded, true, ok_of_joined hresult ▸ hover⟩
    · rename_i e hjoined
      obtain ⟨⟨tree, hstep, rfl⟩, outcome, hresult, hover⟩ := hawaited.join hjoined hs
      exact ⟨.step h.tree hstep, h.heeded, ⟨_, rfl⟩, hsignals, outcome, hresult, hover⟩
    · cases hs
  · cases hs
  · cases hs
  · cases hs
  · cases hs

theorem ends_of_isRoot (h : s.IsRoot root t) (hends : t.isOver = true ∨ t.aborted = true) {root' : ℕ}
    (heq : s.root = some root') : s.tree.Ends root' := by
  rw [h.isRoot] at heq
  cases heq
  exact ⟨t, h.task, hends⟩

theorem RootOver.ends (h : s.RootOver outcome aborted) {root' : ℕ} (heq : s.root = some root') :
    s.tree.Ends root' := by
  obtain ⟨root, t, hroot, hended, -⟩ := h
  refine ends_of_isRoot hroot (.inl ?_) heq
  rw [OwnedTask.isOver, hended]
  rfl

theorem Sound.signal (h : s.Sound) (hs : s.signal = some s') : s'.Sound := by
  have hstage := h.stage
  unfold NodeRun.signal at hs
  have hforced : ∀ root aborted, s.heeded = 1 → s.Awaited root aborted →
      { s with
        signals := s.signals + 1
        heeded := s.heeded + 1 }.dropRoot root (.done (.error .forcedShutdown)) = some s' → s'.Sound := by
    intro root aborted hheeded hawaited hs
    have hawaited' : Awaited { s with signals := s.signals + 1, heeded := s.heeded + 1 } root aborted := by
      obtain ⟨t, hroot, hrest⟩ := hawaited
      exact ⟨t, hroot, hrest⟩
    obtain ⟨⟨tree, hstep, rfl⟩, t, hroot, haborted, hc⟩ := hawaited'.dropRoot hs
    exact ⟨.step h.tree hstep, Nat.succ_le_succ h.heeded, congrArg (· + 1) hheeded, root, t, hroot, haborted, hc⟩
  split at hs
  · rename_i root heq
    rw [heq] at hstage
    obtain ⟨hsignals, t, hroot, hrest⟩ := hstage
    cases hs
    have hheeded : s.heeded = 0 := Nat.le_zero.1 (hsignals ▸ h.heeded)
    exact ⟨h.tree, Nat.succ_le_succ h.heeded, congrArg (· + 1) hheeded, t, hroot, hrest⟩
  · rename_i root elapsed heq
    rw [heq] at hstage
    exact hforced root false hstage.1 hstage.2 hs
  · rename_i root heq
    rw [heq] at hstage
    exact hforced root true hstage.1 hstage.2 hs
  · rename_i error heq
    rw [heq] at hstage
    obtain ⟨⟨error, rfl⟩, hheeded, outcome, hjoined, root, t, hroot, hrest⟩ := hstage
    cases hs
    refine ⟨h.tree, h.heeded.trans (Nat.le_succ _), ?_⟩
    show SoundAt _ s.stage
    rw [heq]
    exact ⟨⟨error, rfl⟩, hheeded, outcome, hjoined, root, t, hroot, hrest⟩
  · cases hs
  · cases hs
  · cases hs

theorem Sound.drop (h : s.Sound) (hs : s.step .drop = some s') : s'.Sound := by
  have hstage := h.stage
  have hdropped : ∀ root aborted, s.Awaited root aborted → s.dropRoot root .dropped = some s' → s'.Sound := by
    intro root aborted hawaited hs
    obtain ⟨⟨tree, hstep, rfl⟩, t, hroot, haborted, -⟩ := hawaited.dropRoot hs
    exact ⟨.step h.tree hstep, h.heeded, fun root' heq => ends_of_isRoot hroot (.inr haborted) heq⟩
  simp only [NodeRun.step] at hs
  split at hs
  · rename_i root heq
    rw [heq] at hstage
    exact hdropped root false hstage.2 hs
  · rename_i root elapsed heq
    rw [heq] at hstage
    exact hdropped root false hstage.2 hs
  · rename_i root heq
    rw [heq] at hstage
    exact hdropped root true hstage.2 hs
  · rename_i heq
    rw [heq] at hstage
    cases hs
    refine ⟨h.tree, h.heeded, fun root' hsome => ?_⟩
    have hsome : s.root = some root' := hsome
    rw [hstage.1] at hsome
    cases hsome
  · rename_i error heq
    rw [heq] at hstage
    obtain ⟨⟨error, rfl⟩, -, outcome, -, hover⟩ := hstage
    cases hs
    exact ⟨h.tree, h.heeded, fun root' hsome => hover.ends hsome⟩
  · cases hs
  · cases hs

theorem Sound.others (h : s.Sound) {e : TaskTree.Event P} (howns : s.root.any (owns · e) = false)
    (hs : s.tree.step e = some tree) : Sound { s with tree := tree } := by
  have hstage := h.stage
  have hroot : ∀ root, s.root = some root → owns root e = false := by
    intro root heq
    rw [heq] at howns
    exact howns
  refine ⟨.step h.tree hs, h.heeded, ?_⟩
  show SoundAt _ s.stage
  cases heq : s.stage with
  | starting => rw [heq] at hstage; exact hstage
  | running root | stopping root elapsed | aborting root =>
    rw [heq] at hstage
    obtain ⟨hsignals, hawaited⟩ := hstage
    exact ⟨hsignals, hawaited.others (hroot root hawaited.isRoot) hs⟩
  | sleeping error =>
    rw [heq] at hstage
    exact ⟨hstage.1, hstage.2.others howns hs⟩
  | done result =>
    rw [heq] at hstage
    exact Accounted.others hstage howns hs
  | dropped =>
    rw [heq] at hstage
    exact fun root hsome => (hstage root hsome).step hs

theorem step_spawn_root (tree : TaskTree P) (address : P.StrongAddress) : tree.step (.spawn none address) =
    some ⟨tree.tasks ++ [⟨none, some (Child.new tree.tasks.length address), none, false, false⟩]⟩ := by
  simp only [TaskTree.step, Option.all_none, if_true]

theorem Sound.step (h : s.Sound) (hs : s.step e = some s') : s'.Sound := by
  have hstage := h.stage
  cases e with
  | startFails error =>
    obtain ⟨heq, hs⟩ := Option.ite_none_right_eq_some.1 hs
    cases hs
    rw [heq] at hstage
    exact ⟨h.tree, h.heeded, hstage.2, hstage.1⟩
  | start address =>
    obtain ⟨heq, hs⟩ := Option.ite_none_right_eq_some.1 hs
    obtain ⟨tree, hstep, rfl⟩ := Option.map_eq_some_iff.1 hs
    rw [heq] at hstage
    refine ⟨.step h.tree hstep, h.heeded, hstage.2, ?_⟩
    rw [step_spawn_root] at hstep
    cases hstep
    exact ⟨_, ⟨rfl, List.getElem?_concat_length, rfl, fun hended => by cases hended⟩, rfl, _, rfl, rfl, rfl⟩
  | signal => exact h.signal hs
  | elapse =>
    simp only [NodeRun.step] at hs
    split at hs
    · rename_i root heq
      cases hs
      rw [heq] at hstage
      exact ⟨h.tree, h.heeded, hstage⟩
    · cases hs
  | poll => exact h.poll hs
  | slept =>
    simp only [NodeRun.step] at hs
    split at hs
    · rename_i error heq
      cases hs
      rw [heq] at hstage
      exact ⟨h.tree, h.heeded, hstage.2⟩
    · cases hs
  | drop => exact h.drop hs
  | tree e =>
    obtain ⟨howns, hs⟩ := Option.ite_none_left_eq_some.1 hs
    obtain ⟨tree, hstep, rfl⟩ := Option.map_eq_some_iff.1 hs
    exact h.others (Bool.eq_false_iff.2 howns) hstep

theorem sound_of_reachable (h : (runs P).Reachable s) : s.Sound := by
  refine h.invariant (I := Sound) ?_ fun _ _ _ hI hs => hI.step hs
  rintro _ rfl
  exact ⟨.init rfl, le_rfl, rfl, rfl⟩

/-! ## What `run` returns -/

/-- The node is over, and all that it has started and that nobody has let go of. -/
def Stopped (s : NodeRun P) : Prop :=
  (s.stage = .dropped ∨ ∃ result, s.stage = .done result) ∧ ∀ root, s.root = some root → s.tree.AllOver root

/-- The others spawn nothing any more, and no signal comes that nobody listens to. -/
def Goes (s : NodeRun P) : Event P → Prop
  | .tree e => s.tree.Goes e
  | .signal => ∀ error, s.stage ≠ .sleeping error
  | _ => True

def restRuns (P : Program) : Lts (NodeRun P) (Event P) := (Lts.ofFun (fun _ => True) step).guard Goes

def left (s : NodeRun P) : ℕ := s.stage.left + s.tree.left

theorem left_lt_of_dropRoot {stage : NodeStage} (hs : s.dropRoot root stage = some s')
    (hless : stage.left ≤ s.stage.left) : s'.stage = stage ∧ s'.left < s.left := by
  obtain ⟨tree, hstep, rfl⟩ := Option.map_eq_some_iff.1 hs
  have hlt := TaskTree.left_lt_of_step (e := .drop root) trivial hstep
  exact ⟨rfl, Nat.add_lt_add_of_le_of_lt hless hlt⟩

theorem left_lt_of_join {stage : NodeStage} (hs : s.join root stage = some s')
    (hless : stage.left ≤ s.stage.left) : s'.stage = stage ∧ s'.left < s.left := by
  obtain ⟨tree, hstep, rfl⟩ := Option.map_eq_some_iff.1 hs
  have hlt := TaskTree.left_lt_of_step (e := .join root) trivial hstep
  exact ⟨rfl, Nat.add_lt_add_of_le_of_lt hless hlt⟩

theorem left_lt_of_poll (htold : s.stage.Told) (hs : s.poll = some s') : s'.stage.Told ∧ s'.left < s.left := by
  unfold NodeRun.poll at hs
  split at hs
  · rename_i root heq
    rw [heq] at htold
    cases htold
  · rename_i root elapsed heq
    have hone : 1 ≤ s.stage.left := by
      rw [heq]
      cases elapsed <;> exact Nat.succ_pos _
    split at hs
    · obtain ⟨hstage, hlt⟩ := left_lt_of_join hs (Nat.zero_le _)
      exact ⟨hstage ▸ trivial, hlt⟩
    · obtain ⟨hstage, hlt⟩ := left_lt_of_join hs hone
      exact ⟨hstage ▸ trivial, hlt⟩
    · obtain ⟨helapsed, hs⟩ := Option.ite_none_right_eq_some.1 hs
      obtain ⟨tree, hstep, rfl⟩ := Option.map_eq_some_iff.1 hs
      refine ⟨trivial, ?_⟩
      have hle := TaskTree.left_le_of_abort hstep
      rw [left, left, heq, helapsed]
      exact Nat.add_lt_add_of_lt_of_le (Nat.lt_succ_self 2) hle
  · rename_i root heq
    have hone : 1 ≤ s.stage.left := by
      rw [heq]
      exact Nat.succ_pos _
    split at hs
    · obtain ⟨hstage, hlt⟩ := left_lt_of_join hs (Nat.zero_le _)
      exact ⟨hstage ▸ trivial, hlt⟩
    · obtain ⟨hstage, hlt⟩ := left_lt_of_join hs hone
      exact ⟨hstage ▸ trivial, hlt⟩
    · cases hs
  · cases hs
  · cases hs
  · cases hs
  · cases hs

/-- Whatever happens once the node was told to, it comes closer to its end. -/
theorem left_lt_of_step (htold : s.stage.Told) (he : s.Goes e) (hs : s.step e = some s') :
    s'.stage.Told ∧ s'.left < s.left := by
  cases e with
  | startFails _ | start _ =>
    obtain ⟨heq, -⟩ := Option.ite_none_right_eq_some.1 hs
    rw [heq] at htold
    cases htold
  | signal =>
    replace hs : s.signal = some s' := hs
    unfold NodeRun.signal at hs
    split at hs
    · rename_i root heq
      rw [heq] at htold
      cases htold
    · obtain ⟨hstage, hlt⟩ := left_lt_of_dropRoot hs (Nat.zero_le _)
      exact ⟨hstage ▸ trivial, hlt⟩
    · obtain ⟨hstage, hlt⟩ := left_lt_of_dropRoot hs (Nat.zero_le _)
      exact ⟨hstage ▸ trivial, hlt⟩
    · rename_i error heq
      exact absurd heq (he error)
    · cases hs
    · cases hs
    · cases hs
  | elapse =>
    simp only [NodeRun.step] at hs
    split at hs
    · rename_i root heq
      cases hs
      rw [left, left, heq]
      exact ⟨trivial, Nat.add_lt_add_right (Nat.lt_succ_self 3) _⟩
    · cases hs
  | poll => exact left_lt_of_poll htold hs
  | slept =>
    simp only [NodeRun.step] at hs
    split at hs
    · rename_i error heq
      cases hs
      rw [left, left, heq]
      exact ⟨trivial, Nat.add_lt_add_right Nat.one_pos _⟩
    · cases hs
  | drop =>
    simp only [NodeRun.step] at hs
    split at hs
    · rename_i root heq
      rw [heq] at htold
      cases htold
    · obtain ⟨hstage, hlt⟩ := left_lt_of_dropRoot hs (Nat.zero_le _)
      exact ⟨hstage ▸ trivial, hlt⟩
    · obtain ⟨hstage, hlt⟩ := left_lt_of_dropRoot hs (Nat.zero_le _)
      exact ⟨hstage ▸ trivial, hlt⟩
    · rename_i heq
      rw [heq] at htold
      cases htold
    · rename_i error heq
      cases hs
      rw [left, left, heq]
      exact ⟨trivial, Nat.add_lt_add_right Nat.one_pos _⟩
    · cases hs
    · cases hs
  | tree e =>
    obtain ⟨-, hs⟩ := Option.ite_none_left_eq_some.1 hs
    obtain ⟨tree, hstep, rfl⟩ := Option.map_eq_some_iff.1 hs
    exact ⟨htold, Nat.add_lt_add_left (TaskTree.left_lt_of_step he hstep) _⟩

theorem Accounted.ends {result : Except NodeError Unit} (h : s.Accounted result) (hroot : s.root = some root) :
    s.tree.Ends root := by
  cases result with
  | ok _ =>
    obtain ⟨aborted, hover⟩ := h
    exact hover.ends hroot
  | error error =>
    cases error with
    | startFailed _ =>
      have hnone : s.root = none := h.2
      rw [hroot] at hnone
      cases hnone
    | supervisorExited _ | shutdownFailed _ =>
      obtain ⟨-, outcome, -, hover⟩ := h
      exact hover.ends hroot
    | forcedShutdown =>
      obtain ⟨-, root', t, hisRoot, haborted, -⟩ := h
      exact ends_of_isRoot hisRoot (.inr haborted) hroot

theorem Awaited.exists_own (h : s.Awaited root aborted) {f : OwnedTask P → P.Child → Option (OwnedTask P)}
    (hf : ∀ t c, s.tree.tasks[root]? = some t → ∃ t', f t c = some t') :
    ∃ tree, s.tree.own root f = some tree := by
  obtain ⟨t, hroot, -, c, hc, -⟩ := h
  obtain ⟨t', hf⟩ := hf t c hroot.task
  refine ⟨⟨s.tree.tasks.set root t'⟩, ?_⟩
  rw [TaskTree.own, Option.bind_eq_bind, hroot.task, Option.bind_some, Option.bind_eq_bind, hc, Option.bind_some,
    hf, Option.bind_some]

theorem Awaited.exists_join (h : s.Awaited root aborted) {result : Except JoinError Unit}
    (hjoined : s.joined root = some result) (stage : NodeStage) : ∃ s', s.join root stage = some s' := by
  have hjoin : ∃ tree, s.tree.step (.join root) = some tree := by
    refine h.exists_own fun t c hi => ⟨_, if_pos ?_⟩
    rw [joined, hi, Option.bind_some] at hjoined
    obtain ⟨outcome, hended, -⟩ := Option.map_eq_some_iff.1 hjoined
    rw [OwnedTask.isOver, hended]
    rfl
  obtain ⟨tree, hstep⟩ := hjoin
  exact ⟨_, Option.map_eq_some_iff.2 ⟨tree, hstep, rfl⟩⟩

theorem step_finish {k : ℕ} (hs : s.tree.step (.finish k .aborted) = some tree) :
    s.step (.tree (.finish k .aborted)) = some { s with tree := tree } := by
  have hany : s.root.any (owns · (.finish k .aborted : TaskTree.Event P)) = false := by
    cases s.root <;> rfl
  simp only [NodeRun.step]
  rw [hany, if_neg Bool.false_ne_true, hs, Option.map_some]

theorem exists_finish (h : s.Sound) (hends : s.tree.Ends root)
    (hnot : ¬ s.tree.AllOver root) : ∃ e s', s.Goes e ∧ s.step e = some s' := by
  obtain ⟨k, tree, hs⟩ := TaskTree.exists_finish (TaskTree.sound_of_reachable h.tree) hends hnot
  exact ⟨.tree (.finish k .aborted), _, trivial, step_finish hs⟩

/-- The node or the root can take a step, as long as it has the child for the root. -/
theorem Awaited.exists_step (h : s.Awaited root aborted)
    (hstage : (∃ elapsed, s.stage = .stopping root elapsed) ∨ s.stage = .aborting root ∧ aborted = true) :
    ∃ e s', s.Goes e ∧ s.step e = some s' := by
  cases hjoined : s.joined root with
  | some result =>
    refine ⟨.poll, ?_⟩
    obtain ⟨elapsed, heq⟩ | ⟨heq, -⟩ := hstage
    all_goals
      simp only [NodeRun.step, NodeRun.poll, heq, hjoined]
      cases result with
      | ok value =>
        obtain ⟨s', hs⟩ := h.exists_join hjoined (.done (.ok ()))
        exact ⟨s', trivial, hs⟩
      | error e =>
        obtain ⟨s', hs⟩ := h.exists_join hjoined (.sleeping (.shutdownFailed ⟨_, e⟩))
        exact ⟨s', trivial, hs⟩
  | none =>
    obtain ⟨elapsed, heq⟩ | ⟨heq, rfl⟩ := hstage
    · cases elapsed with
      | false =>
        refine ⟨.elapse, { s with stage := .stopping root true }, trivial, ?_⟩
        simp only [NodeRun.step, heq]
      | true =>
        obtain ⟨tree, hstep⟩ := h.exists_own (f := fun t _ => some t.abort) fun t c _ => ⟨_, rfl⟩
        replace hstep : s.tree.step (.abort root) = some tree := hstep
        refine ⟨.poll, { s with tree := tree, stage := .aborting root }, trivial, ?_⟩
        simp only [NodeRun.step, NodeRun.poll, heq, hjoined, if_true, hstep, Option.map_some]
    · obtain ⟨t, hroot, haborted, -⟩ := h
      have hover : t.isOver = false := by
        rw [joined, hroot.task, Option.bind_some, Option.map_eq_none_iff] at hjoined
        rw [OwnedTask.isOver, hjoined]
        rfl
      obtain ⟨tree, hs⟩ := TaskTree.finish_aborted hroot.task hover haborted
      exact ⟨.tree (.finish root .aborted), _, trivial, step_finish hs⟩

theorem Sound.exists_step (h : s.Sound) (htold : s.stage.Told) (hnot : ¬ s.Stopped) :
    ∃ e s', s.Goes e ∧ s.step e = some s' := by
  have hstage := h.stage
  have hends : (s.stage = .dropped ∨ ∃ result, s.stage = .done result) →
      (∀ root, s.root = some root → s.tree.Ends root) → ∃ e s', s.Goes e ∧ s.step e = some s' := by
    intro hover hends
    have hsome : ∃ root, s.root = some root ∧ ¬ s.tree.AllOver root := by
      by_contra hall
      exact hnot ⟨hover, fun root hroot => by_contra fun hne => hall ⟨root, hroot, hne⟩⟩
    obtain ⟨root, hroot, hne⟩ := hsome
    exact exists_finish h (hends root hroot) hne
  cases heq : s.stage with
  | starting | running _ =>
    rw [heq] at htold
    cases htold
  | stopping root elapsed =>
    rw [heq] at hstage
    exact hstage.2.exists_step (.inl ⟨elapsed, heq⟩)
  | aborting root =>
    rw [heq] at hstage
    exact hstage.2.exists_step (.inr ⟨heq, rfl⟩)
  | sleeping error =>
    refine ⟨.slept, { s with stage := .done (.error error) }, trivial, ?_⟩
    simp only [NodeRun.step, heq]
  | done result =>
    rw [heq] at hstage
    exact hends (.inr ⟨result, heq⟩) fun root hroot => hstage.ends hroot
  | dropped =>
    rw [heq] at hstage
    exact hends (.inl heq) hstage

end NodeRun

end Zestors
