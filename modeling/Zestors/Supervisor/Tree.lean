import Zestors.Channel.Snapshot
import Zestors.Lib.ListOrder
import Zestors.Lib.Rose
import Zestors.Supervisor.Supervisee

/-!
# Supervision trees

A `SupervisionTree` is filled in by asking each node for its children, and then those. `populate` puts
the children of the reply behind those that a node has already, so that a second call finds them twice:
the tree says what the supervisors said if and only if no registered node had children before, and a
second call leaves it alone if and only if no registered node has any (`populate_idempotent_iff`).
`populate_channel_snapshots` does not go past a node that is not registered, and what is below one keeps
the snapshots that it had (`snapshots_cover_iff`).
-/

namespace Zestors.SupervisionTree

inductive HealthStatus
  | healthy
  | degraded
  | unhealthy
deriving DecidableEq

structure HealthDetail where
  name : String
  message : String
  since : Option Timestamp

structure Health where
  status : HealthStatus
  debugRepr : Option String
  message : Option String
  details : List HealthDetail

/-- What a `SupervisionTree` says about one node, without its children. -/
structure Node where
  description : ChildDescription
  status : Option ActorStatus
  health : Option Health
  channelState : Option ChannelSnapshot

def Node.name (a : Node) : Name := a.description.name

def Node.withSnapshot (a : Node) (snapshot : ChannelSnapshot) : Node :=
  { a with channelState := some snapshot }

@[simp] theorem Node.name_withSnapshot (a : Node) (snapshot : ChannelSnapshot) :
    (a.withSnapshot snapshot).name = a.name := rfl

end SupervisionTree

abbrev SupervisionTree := Rose SupervisionTree.Node

namespace SupervisionTree

/-- What is registered under a name. -/
structure Address where
  status : ActorStatus
  snapshot : ChannelSnapshot

/-- What becomes of a `GetChildren`. -/
inductive Reply
  | answer (children : List ChildDescription)
  | failed
  | timedOut

def Reply.toList : Reply → List ChildDescription
  | answer children => children
  | failed | timedOut => []

section Populate
variable (registry : Name → Option Address) (replies : Name → Reply)

/-- A single node, with no children. -/
def new (description : ChildDescription) : SupervisionTree :=
  .node ⟨description, (registry description.name).map Address.status, none, none⟩ []

/-- Asks one node for its children. -/
def populateLayer (t : SupervisionTree) : SupervisionTree :=
  match registry t.label.name with
  | none => t
  | some _ => .node t.label (t.children ++ (replies t.label.name).toList.map (new registry))

/-- A node is asked, and then all its children. -/
def populateVisit (t : SupervisionTree) : SupervisionTree × Bool := (populateLayer registry replies t, true)

/-- Asks the nodes of the tree, breadth first. -/
def populate (fuel : ℕ) (t : SupervisionTree) : Option SupervisionTree :=
  Rose.walk (populateVisit registry replies) fuel [[]] t

/-- Takes the snapshot of one node. -/
def snapshotVisit (t : SupervisionTree) : SupervisionTree × Bool :=
  match registry t.label.name with
  | none => (t, false)
  | some address => (.node (t.label.withSnapshot address.snapshot) t.children, true)

def populateChannelSnapshots (fuel : ℕ) (t : SupervisionTree) : Option SupervisionTree :=
  Rose.walk (snapshotVisit registry) fuel [[]] t

/-! ## The children -/

/-- The supervisor `parent` is registered, and names this child. -/
def Supervises (child parent : Name) : Prop :=
  (registry parent).isSome ∧ ∃ description ∈ (replies parent).toList, description.name = child

/-- The children of each registered node are those of its reply. -/
def FollowsReplies (t : SupervisionTree) : Prop :=
  t.All fun s => (registry s.label.name).isSome →
    s.children.map (fun c => c.label.description) = (replies s.label.name).toList

/-- Who is in the tree, and under whom. -/
def shape (t : SupervisionTree) : Rose ChildDescription := t.map Node.description

/-- No registered node has children yet. -/
def Bare (t : SupervisionTree) : Prop :=
  t.All fun s => (registry s.label.name).isSome → s.children = []

/-- No registered node gets children in its reply. -/
def Childless (t : SupervisionTree) : Prop :=
  t.All fun s => (registry s.label.name).isSome → (replies s.label.name).toList = []

variable {registry replies}

/-- The children that a query for those of `a` finds. -/
def found (registry : Name → Option Address) (replies : Name → Reply) (a : Node) : List SupervisionTree :=
  if (registry a.name).isSome then (replies a.name).toList.map (new registry) else []

theorem found_eq_nil_iff {a : Node} :
    found registry replies a = [] ↔ ((registry a.name).isSome → (replies a.name).toList = []) := by
  unfold found
  split_ifs with h <;> simp [h]

theorem populateLayer_node (a : Node) (cs : List SupervisionTree) :
    populateLayer registry replies (.node a cs) = .node a (cs ++ found registry replies a) := by
  simp only [populateLayer, found, Rose.label_node, Rose.children_node]
  cases registry a.name with
  | none => simp
  | some address => rfl

/-- What holds of a node when it holds of its children, those that it had and those that were found. -/
@[elab_as_elim]
theorem populate_induction {motive : SupervisionTree → SupervisionTree → Prop} {t t' : SupervisionTree}
    (h : Rose.Visited (populateVisit registry replies) t t')
    (node : ∀ a cs cs', List.Forall₂ (fun c c' => c'.label = c.label ∧ motive c c')
      (cs ++ found registry replies a) cs' → motive (.node a cs) (.node a cs')) : motive t t' := by
  suffices t'.label = t.label ∧ motive t t' from this.2
  induction h with
  | leave h => cases h
  | @descend t a cs₁ cs' h hlen hcs ih =>
    obtain ⟨a₀, cs⟩ := t
    rw [populateVisit, populateLayer_node] at h
    cases h
    refine ⟨rfl, node a cs cs' (List.forall₂_iff_get.2 ⟨hlen, fun i hi hi' => ?_⟩)⟩
    exact ih i _ _ (List.getElem?_eq_getElem hi) (List.getElem?_eq_getElem hi')

theorem bare_found {a : Node} : ∀ c ∈ found registry replies a, Bare registry c := by
  intro c hc
  unfold found at hc
  split_ifs at hc
  · obtain ⟨description, -, rfl⟩ := List.mem_map.1 hc
    exact Rose.all_node.2 ⟨fun _ => rfl, by simp⟩
  · cases hc

theorem followsReplies_iff {t t' : SupervisionTree}
    (h : Rose.Visited (populateVisit registry replies) t t') :
    FollowsReplies registry replies t' ↔ Bare registry t := by
  refine populate_induction h fun a cs cs' hcs => ?_
  have hlabels : cs'.map (fun c => c.label.description) =
      (cs ++ found registry replies a).map fun c => c.label.description := by
    refine (hcs.map_eq_map_iff (P := fun _ => True) ?_).2 fun _ _ => trivial
    intro c c' hc
    simp [hc.1]
  have hown : ((registry a.name).isSome → cs'.map (fun c => c.label.description) = (replies a.name).toList) ↔
      ((registry a.name).isSome → cs = []) := by
    refine imp_congr_right fun hreg => ?_
    have hnew : (fun c => Rose.label c |>.description) ∘ new registry = id := rfl
    rw [hlabels, found, if_pos hreg, List.map_append, List.map_map, hnew, List.map_id]
    simp
  have hbelow : (∀ c' ∈ cs', FollowsReplies registry replies c') ↔ ∀ c ∈ cs, Bare registry c := by
    rw [hcs.forall_mem_iff fun c c' hc => hc.2, List.forall_mem_append]
    exact and_iff_left bare_found
  rw [FollowsReplies, Bare, Rose.all_node, Rose.all_node]
  exact and_congr hown hbelow

theorem childless_iff {t t' : SupervisionTree} (h : Rose.Visited (populateVisit registry replies) t t') :
    Childless registry replies t' ↔ Childless registry replies t := by
  refine populate_induction h fun a cs cs' hcs => ?_
  rw [Childless, Childless, Rose.all_node, Rose.all_node]
  refine and_congr_right fun hown => ?_
  rw [Rose.label_node, ← found_eq_nil_iff] at hown
  rw [hown, List.append_nil] at hcs
  exact hcs.forall_mem_iff fun c c' hc => hc.2

theorem shape_eq_iff {t t' : SupervisionTree} (h : Rose.Visited (populateVisit registry replies) t t') :
    shape t' = shape t ↔ Childless registry replies t := by
  refine populate_induction h fun a cs cs' hcs => ?_
  rw [shape, shape, Rose.map_node, Rose.map_node, Rose.node.injEq, and_iff_right rfl, Childless,
    Rose.all_node, Rose.label_node, ← found_eq_nil_iff]
  by_cases hown : found registry replies a = []
  · rw [hown, List.append_nil] at hcs
    rw [and_iff_right hown]
    exact hcs.map_eq_map_iff fun c c' hc => hc.2
  · refine iff_of_false (fun heq => hown ?_) fun hall => hown hall.1
    have hlen := congrArg List.length heq
    have hlen' := hcs.length_eq
    rw [List.length_map, List.length_map] at hlen
    rw [List.length_append] at hlen'
    exact List.length_eq_zero_iff.1 (by omega)

theorem exists_populated_new (hwf : WellFounded (Supervises registry replies))
    (description : ChildDescription) :
    ∃ t', Rose.Visited (populateVisit registry replies) (new registry description) t' := by
  induction hn : description.name using hwf.induction generalizing description with
  | _ n ih =>
    subst hn
    refine Rose.exists_visited (congrArg (·, true) (populateLayer_node _ [])) fun c hc => ?_
    rw [List.nil_append, found] at hc
    split_ifs at hc with hreg
    · obtain ⟨d, hd, rfl⟩ := List.mem_map.1 hc
      exact ih d.name ⟨hreg, d, hd, rfl⟩ d rfl
    · cases hc

/-- Nobody supervises itself by way of others, so the walk comes to its end. -/
theorem exists_populated (hwf : WellFounded (Supervises registry replies)) (t : SupervisionTree) :
    ∃ t', Rose.Visited (populateVisit registry replies) t t' := by
  induction t using Rose.induct with
  | node a cs ih =>
    refine Rose.exists_visited (congrArg (·, true) (populateLayer_node a cs)) fun c hc => ?_
    rcases List.mem_append.1 hc with hc | hc
    · exact ih c hc
    · unfold found at hc
      split_ifs at hc
      · obtain ⟨d, -, rfl⟩ := List.mem_map.1 hc
        exact exists_populated_new hwf d
      · cases hc

/-- Populating a tree has the children of every registered node follow its reply if and only if none of
them had children before, and doing it again leaves the shape of the tree as it is if and only if none
of them gets any. -/
theorem populate_idempotent_iff (registry : Name → Option Address) (replies : Name → Reply)
    (hwf : WellFounded (Supervises registry replies)) (t : SupervisionTree) :
    ∃ t' t'', (∃ n, ∀ fuel, n ≤ fuel → populate registry replies fuel t = some t') ∧
      (∃ n, ∀ fuel, n ≤ fuel → populate registry replies fuel t' = some t'') ∧
      (FollowsReplies registry replies t' ↔ Bare registry t) ∧
      (shape t'' = shape t' ↔ Childless registry replies t) := by
  obtain ⟨t', ht'⟩ := exists_populated hwf t
  obtain ⟨t'', ht''⟩ := exists_populated hwf t'
  refine ⟨t', t'', ht'.walks, ht''.walks, followsReplies_iff ht', ?_⟩
  rw [shape_eq_iff ht'', childless_iff ht']

end Populate

def sampleConfig : ChildConfig := ⟨.always, none, 0, 0, 0⟩

/-- The actor `child`, and, under `root`, its supervisor. -/
def sampleRegistry (n : Name) : Option Address :=
  if n = ⟨"root"⟩ ∨ n = ⟨"child"⟩ then some ⟨.running, sampleSnapshot⟩ else none

/-- `child` does not answer. -/
def sampleReplies (n : Name) : Reply :=
  if n = ⟨"root"⟩ then .answer [⟨⟨"child"⟩, sampleConfig⟩] else .timedOut

def sampleNode (n : String) : Node := ⟨⟨⟨n⟩, sampleConfig⟩, some .running, none, none⟩

/-- `root`, and `n` times its child. -/
def sampleTree (n : ℕ) : SupervisionTree :=
  .node (sampleNode "root") (List.replicate n (.node (sampleNode "child") []))

theorem wellFounded_sample : WellFounded (Supervises sampleRegistry sampleReplies) := by
  refine Subrelation.wf ?_ (measure fun n : Name => if n = ⟨"root"⟩ then 1 else 0).wf
  rintro child parent ⟨-, description, hdescription, rfl⟩
  by_cases hparent : parent = ⟨"root"⟩
  · subst hparent
    rw [List.mem_singleton.1 hdescription]
    exact Nat.zero_lt_one
  · rw [sampleReplies, if_neg hparent] at hdescription
    cases hdescription

/-- The first call finds what there is, and the second one finds it again. -/
theorem populate_idempotent_iff_sample :
    ∃ t' t'', (∃ n, ∀ fuel, n ≤ fuel → populate sampleRegistry sampleReplies fuel (sampleTree 0) = some t') ∧
      (∃ n, ∀ fuel, n ≤ fuel → populate sampleRegistry sampleReplies fuel t' = some t'') ∧
      FollowsReplies sampleRegistry sampleReplies t' ∧ shape t'' ≠ shape t' := by
  obtain ⟨t', t'', ht', ht'', hfollows, hshape⟩ := populate_idempotent_iff sampleRegistry sampleReplies
    wellFounded_sample (sampleTree 0)
  refine ⟨t', t'', ht', ht'', hfollows.2 (Rose.all_node.2 ⟨fun _ => rfl, by simp⟩), fun heq => ?_⟩
  exact absurd ((Rose.all_node.1 (hshape.1 heq)).1 rfl) (List.cons_ne_nil _ _)

theorem not_populate_idempotent :
    ¬ ∀ registry replies, WellFounded (Supervises registry replies) →
      ∀ t t' t'', Rose.Walks (populateVisit registry replies) t t' →
        Rose.Walks (populateVisit registry replies) t' t'' →
        FollowsReplies registry replies t' ∧ shape t'' = shape t' := by
  intro h
  have hfirst : Rose.Walks (populateVisit sampleRegistry sampleReplies) (sampleTree 0) (sampleTree 1) :=
    Rose.walks_of_walk (n := 2) rfl
  have hsecond : Rose.Walks (populateVisit sampleRegistry sampleReplies) (sampleTree 1) (sampleTree 2) :=
    Rose.walks_of_walk (n := 3) rfl
  have hshape := (h _ _ wellFounded_sample _ _ _ hfirst hsecond).2
  have hlen := congrArg (List.length ∘ Rose.children) hshape
  simp [shape, sampleTree] at hlen

section Snapshots
variable (registry : Name → Option Address)

/-- What is registered under the name of `a` has this snapshot, and `a` carries it. -/
def Covered (a : Node) : Prop :=
  ∀ address, registry a.name = some address → a.channelState = some address.snapshot

/-- The registered nodes below those that are not registered carry their snapshots. -/
def CoveredBelow (t : SupervisionTree) : Prop :=
  t.All fun s => registry s.label.name = none → ∀ c ∈ s.children, c.All fun d => Covered registry d.label

/-- A node without the snapshot that a registered one may get. -/
def rest (a : Node) : Node :=
  if (registry a.name).isSome then { a with channelState := none } else a

variable {registry}

theorem exists_snapshots (registry : Name → Option Address) (t : SupervisionTree) :
    ∃ t', Rose.Visited (snapshotVisit registry) t t' := by
  induction t using Rose.induct with
  | node a cs ih =>
    cases hreg : registry a.name with
    | none => exact ⟨.node a cs, .leave (by simp [snapshotVisit, hreg])⟩
    | some address =>
      refine Rose.exists_visited (a := a.withSnapshot address.snapshot) ?_ ih
      simp [snapshotVisit, hreg]

/-- A node that is not registered stays with all that is below it; any other gets its snapshot, and then
its children are seen to. -/
@[elab_as_elim]
theorem snapshots_induction {motive : SupervisionTree → SupervisionTree → Prop} {t t' : SupervisionTree}
    (h : Rose.Visited (snapshotVisit registry) t t')
    (leave : ∀ a cs, registry a.name = none → motive (.node a cs) (.node a cs))
    (node : ∀ a address cs cs', registry a.name = some address → List.Forall₂ motive cs cs' →
      motive (.node a cs) (.node (a.withSnapshot address.snapshot) cs')) :
    motive t t' := by
  induction h with
  | @leave t t' h =>
    obtain ⟨a, cs⟩ := t
    simp only [snapshotVisit, Rose.label_node] at h
    cases hreg : registry a.name with
    | none =>
      rw [hreg] at h
      obtain ⟨rfl, -⟩ := Prod.mk.inj h
      exact leave a _ hreg
    | some address => rw [hreg] at h; cases h
  | @descend t a' cs₁ cs' h hlen hcs ih =>
    obtain ⟨a, cs⟩ := t
    simp only [snapshotVisit, Rose.label_node, Rose.children_node] at h
    cases hreg : registry a.name with
    | none => rw [hreg] at h; cases h
    | some address =>
      rw [hreg] at h
      cases h
      refine node a address _ cs' hreg (List.forall₂_iff_get.2 ⟨hlen, fun i hi hi' => ?_⟩)
      exact ih i _ _ (List.getElem?_eq_getElem hi) (List.getElem?_eq_getElem hi')

theorem coveredBelow_of_all {t : SupervisionTree} (h : t.All fun s => Covered registry s.label) :
    CoveredBelow registry t := by
  induction t using Rose.induct with
  | node a cs ih =>
    obtain ⟨-, hcs⟩ := Rose.all_node.1 h
    exact Rose.all_node.2 ⟨fun _ => hcs, fun c hc => ih c hc (hcs c hc)⟩

theorem covered_iff {t t' : SupervisionTree} (h : Rose.Visited (snapshotVisit registry) t t') :
    (t'.All fun s => Covered registry s.label) ↔ CoveredBelow registry t := by
  refine snapshots_induction h (fun a cs hreg => ?_) fun a address cs cs' hreg hcs => ?_
  · refine ⟨coveredBelow_of_all, fun hbelow => Rose.all_node.2 ⟨?_, (Rose.all_node.1 hbelow).1 hreg⟩⟩
    intro address haddress
    rw [Rose.label_node, hreg] at haddress
    cases haddress
  · have hown : Covered registry (a.withSnapshot address.snapshot) := by
      intro address' haddress
      exact congrArg (some ∘ Address.snapshot) (Option.some.inj (hreg.symm.trans haddress))
    have hnone : registry a.name = none → ∀ c ∈ cs, c.All fun d => Covered registry d.label := by
      intro hnone
      rw [hreg] at hnone
      cases hnone
    rw [CoveredBelow, Rose.all_node, Rose.all_node, Rose.label_node, Rose.label_node, Rose.children_node,
      and_iff_right hown, and_iff_right hnone]
    exact hcs.forall_mem_iff fun c c' hc => hc

theorem map_rest_eq {t t' : SupervisionTree} (h : Rose.Visited (snapshotVisit registry) t t') :
    t'.map (rest registry) = t.map (rest registry) := by
  refine snapshots_induction h (fun a cs _ => rfl) fun a address cs cs' hreg hcs => ?_
  have hsome : (registry a.name).isSome := by rw [hreg]; rfl
  have hrest : rest registry (a.withSnapshot address.snapshot) = rest registry a := by
    rw [rest, rest, Node.name_withSnapshot, if_pos hsome, if_pos hsome]
    rfl
  have hmap := (hcs.map_eq_map_iff (P := fun _ => True) fun c c' hc => iff_of_true hc trivial).2
    fun _ _ => trivial
  rw [Rose.map_node, Rose.map_node, hrest, hmap]

/-- Every registered node carries its snapshot if and only if those did already that are below a node
that is not registered. Nothing else changes. -/
theorem snapshots_cover_iff (registry : Name → Option Address) (t : SupervisionTree) :
    ∃ t', (∃ n, ∀ fuel, n ≤ fuel → populateChannelSnapshots registry fuel t = some t') ∧
      ((t'.All fun s => Covered registry s.label) ↔ CoveredBelow registry t) ∧
      t'.map (rest registry) = t.map (rest registry) := by
  obtain ⟨t', ht'⟩ := exists_snapshots registry t
  exact ⟨t', ht'.walks, covered_iff ht', map_rest_eq ht'⟩

/-- `root` is registered, and what it is under is not. -/
theorem not_snapshots_cover :
    ¬ ∀ registry t t', Rose.Walks (snapshotVisit registry) t t' →
      t'.All fun s => Covered registry s.label := by
  intro h
  have hwalk : Rose.Walks (snapshotVisit sampleRegistry) (.node (sampleNode "gone") [sampleTree 0])
      (.node (sampleNode "gone") [sampleTree 0]) := Rose.walks_of_walk (n := 1) rfl
  have hroot := h _ _ _ hwalk [0] _ rfl ⟨.running, sampleSnapshot⟩ rfl
  cases hroot

end Snapshots

end Zestors.SupervisionTree
