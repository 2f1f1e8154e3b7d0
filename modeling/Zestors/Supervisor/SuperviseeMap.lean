import Zestors.Lib.IndexMap
import Zestors.Supervisor.Supervisee

/-!
# The supervisees of a supervisor

The map keeps a child's slot after the child is gone, so a child that is registered again under its
old name takes its old place in the start order.
-/

namespace Zestors

/-- The error of registering a name that is taken. -/
structure DuplicateNameError where
  name : Name
deriving DecidableEq

/-- The supervisees in start order; a slot whose supervisee was removed holds `none`. -/
structure SuperviseeMap where
  mapping : IndexMap Name (Option Supervisee)
  named : ∀ n sv, mapping.get? n = some (some sv) → sv.name = n

namespace SuperviseeMap

def empty : SuperviseeMap := ⟨IndexMap.empty, fun _ _ h => by cases h⟩

/-- `SuperviseeMap::get_mut`, as far as reading goes. -/
def get? (m : SuperviseeMap) (name : Name) : Option Supervisee := (m.mapping.get? name).join

/-- Writes a supervisee into the slot of its name. -/
def set (m : SuperviseeMap) (sv : Supervisee) : SuperviseeMap where
  mapping := m.mapping.insert sv.name (some sv)
  named n sv' h := by
    rw [IndexMap.get?_insert] at h
    split at h
    · cases h; exact (‹_› : n = _).symm
    · exact m.named n sv' h

/-- Every supervisee after `f`, which must not rename it. -/
def mapSupervisees (m : SuperviseeMap) (f : Supervisee → Supervisee)
    (hf : ∀ sv, (f sv).name = sv.name) : SuperviseeMap where
  mapping := m.mapping.map (Option.map f)
  named n sv h := by
    rw [IndexMap.get?_map, Option.map_eq_some_iff] at h
    obtain ⟨o, ho, h⟩ := h
    obtain ⟨sv', rfl, rfl⟩ := Option.map_eq_some_iff.1 h
    rw [hf]; exact m.named n sv' ho

def new (specs : List ChildSpec) : SuperviseeMap :=
  specs.foldl (fun m spec => m.set (Supervisee.new spec)) empty

/-- The supervisees that are still there, in start order. -/
def supervisees (m : SuperviseeMap) : List Supervisee := m.mapping.entries.filterMap Prod.snd

def names (m : SuperviseeMap) : List Name := m.supervisees.map Supervisee.name

def childDescriptions (m : SuperviseeMap) : List ChildDescription :=
  m.supervisees.map Supervisee.getDescription

def remove (m : SuperviseeMap) (name : Name) : SuperviseeMap × Option Supervisee :=
  match m.get? name with
  | none => (m, none)
  | some sv =>
    ({ mapping := m.mapping.insert name none
       named := fun n sv' h => by
        rw [IndexMap.get?_insert] at h
        split at h
        · cases h
        · exact m.named n sv' h }, some sv)

def add (m : SuperviseeMap) (sv : Supervisee) : SuperviseeMap × Except DuplicateNameError Unit :=
  if (m.get? sv.name).isSome then (m, .error ⟨sv.name⟩) else (m.set sv, .ok ())

/-- Starts the named supervisees one by one, up to the first that is shutting down. -/
def startEach (m : SuperviseeMap) :
    List Name → SuperviseeMap × Except (Name × SuperviseeIsShuttingDown) Unit
  | [] => (m, .ok ())
  | name :: names =>
    match m.get? name with
    | none => startEach m names
    | some sv =>
      match sv.start with
      | (sv', .ok _) => startEach (m.set sv') names
      | (sv', .error e) => (m.set sv', .error (name, e))

def startAll (m : SuperviseeMap) : SuperviseeMap × Except (Name × SuperviseeIsShuttingDown) Unit :=
  m.startEach m.names

/-- Stops every supervisee; returns the names that still owe an exit event. -/
def stopAll (m : SuperviseeMap) : SuperviseeMap × List Name :=
  (m.mapSupervisees (fun sv => sv.stop.1) fun _ => Supervisee.name_stop,
    (m.supervisees.filter fun sv => sv.stop.2.isShuttingDown).map Supervisee.name)

variable {m : SuperviseeMap} {sv : Supervisee} {n j : Name}

theorem ext_get? {m m' : SuperviseeMap} (h : m.mapping = m'.mapping) : m = m' := by
  cases m; cases m'; simpa using h

@[simp] theorem get?_empty : empty.get? n = none := rfl

theorem name_of_get? (h : m.get? n = some sv) : sv.name = n :=
  m.named n sv (Option.join_eq_some_iff.1 h)

theorem isSome_slot (h : (m.get? n).isSome) : (m.mapping.get? n).isSome := by
  obtain ⟨sv, h⟩ := Option.isSome_iff_exists.1 h
  rw [Option.join_eq_some_iff.1 h]; rfl

theorem get?_name (h : m.get? n = some sv) : m.get? sv.name = some sv := by
  rwa [name_of_get? h]

@[simp] theorem get?_set (m : SuperviseeMap) (sv : Supervisee) (j : Name) :
    (m.set sv).get? j = if j = sv.name then some sv else m.get? j := by
  unfold get? set
  rw [IndexMap.get?_insert]
  split <;> rfl

@[simp] theorem get?_mapSupervisees (f : Supervisee → Supervisee)
    (hf : ∀ sv, (f sv).name = sv.name) : (m.mapSupervisees f hf).get? j = (m.get? j).map f := by
  unfold get? mapSupervisees
  rw [IndexMap.get?_map]
  rcases m.mapping.get? j with _ | _ | _ <;> rfl

@[simp] theorem remove_snd : (m.remove n).2 = m.get? n := by
  unfold remove; split <;> simp [*]

@[simp] theorem get?_remove : (m.remove n).1.get? j = if j = n then none else m.get? j := by
  unfold remove
  split
  · split <;> simp [*]
  · unfold get?
    rw [IndexMap.get?_insert]
    split <;> rfl

theorem remove_of_get?_none (h : m.get? n = none) : m.remove n = (m, none) := by
  simp [remove, h]

theorem set_of_get? (h : m.get? n = some sv) : m.set sv = m := by
  obtain rfl := name_of_get? h
  exact ext_get? (IndexMap.insert_of_get? (Option.join_eq_some_iff.1 h))

/-! ## The states and the restart modes of the supervisees -/

/-- The state of the supervisee called `n`, if there is one. -/
def stateOf (m : SuperviseeMap) (n : Name) : Option SuperviseeState := (m.get? n).map (·.state)

/-- The restart mode of the supervisee called `n`, if there is one. -/
def modeOf (m : SuperviseeMap) (n : Name) : Option RestartMode :=
  (m.get? n).map fun sv => sv.cfg.restartMode

theorem stateOf_of_get? (h : m.get? n = some sv) : m.stateOf n = some sv.state := by
  simp [stateOf, h]

theorem modeOf_of_get? (h : m.get? n = some sv) : m.modeOf n = some sv.cfg.restartMode := by
  simp [modeOf, h]

theorem stateOf_eq_none : m.stateOf n = none ↔ m.get? n = none := by simp [stateOf]

theorem stateOf_of_get?_none (h : m.get? n = none) (f : SuperviseeState → SuperviseeState) :
    m.stateOf j = if j = n then (m.stateOf n).map f else m.stateOf j := by
  have hnone := stateOf_eq_none.2 h
  split
  · subst j
    rw [hnone, Option.map_none]
  · rfl

theorem modeOf_eq_none : m.modeOf n = none ↔ m.get? n = none := by simp [modeOf]

theorem stateOf_eq_some {state : SuperviseeState} :
    m.stateOf n = some state ↔ ∃ sv, m.get? n = some sv ∧ sv.state = state := by
  simp [stateOf]

@[simp] theorem stateOf_set : (m.set sv).stateOf j = if j = sv.name then some sv.state
    else m.stateOf j := by
  unfold stateOf; rw [get?_set]; split <;> rfl

@[simp] theorem modeOf_set : (m.set sv).modeOf j = if j = sv.name then some sv.cfg.restartMode
    else m.modeOf j := by
  unfold modeOf; rw [get?_set]; split <;> rfl

@[simp] theorem stateOf_remove : (m.remove n).1.stateOf j = if j = n then none else m.stateOf j := by
  unfold stateOf; rw [get?_remove]; split <;> rfl

@[simp] theorem modeOf_remove : (m.remove n).1.modeOf j = if j = n then none else m.modeOf j := by
  unfold modeOf; rw [get?_remove]; split <;> rfl

/-! ## The order of the names -/

/-- Every name that was ever registered, in the order of the first registrations. -/
def keys (m : SuperviseeMap) : List Name := m.mapping.keys

theorem names_eq_filter (m : SuperviseeMap) :
    m.names = m.keys.filter fun n => (m.get? n).isSome := by
  have hnames : m.names = m.mapping.entries.filterMap fun e => e.2.map Supervisee.name := by
    simp [names, supervisees, List.map_filterMap]
  have hkeys : m.keys.filter (fun n => (m.get? n).isSome) =
      m.mapping.entries.filterMap fun e => if (m.get? e.1).isSome then some e.1 else none := by
    simp [keys, IndexMap.keys, List.filter_map, ← List.filterMap_eq_filter, List.map_filterMap,
      Option.guard, Function.comp_def]
  rw [hnames, hkeys]
  refine List.filterMap_congr fun e he => ?_
  have hget : m.mapping.get? e.1 = some e.2 := IndexMap.mem_entries.1 he
  rcases e with ⟨n, _ | sv⟩
  · simp [get?, hget]
  · simp [get?, hget, m.named n sv hget]

theorem mem_names : n ∈ m.names ↔ (m.get? n).isSome := by
  rw [names_eq_filter, List.mem_filter, and_iff_right_iff_imp]
  exact fun h => IndexMap.mem_keys.2 (isSome_slot h)

theorem mem_names_of_get? (h : m.get? n = some sv) : n ∈ m.names := mem_names.2 (by simp [h])

theorem nodup_keys (m : SuperviseeMap) : m.keys.Nodup := m.mapping.nodup_keys

theorem names_sublist_keys (m : SuperviseeMap) : m.names.Sublist m.keys := by
  rw [names_eq_filter]; exact List.filter_sublist

theorem nodup_names (m : SuperviseeMap) : m.names.Nodup := m.nodup_keys.sublist m.names_sublist_keys

theorem keys_prefix_keys_set (m : SuperviseeMap) (sv : Supervisee) : m.keys <+: (m.set sv).keys :=
  m.mapping.keys_prefix_keys_insert _ _

theorem mem_keys : n ∈ m.keys ↔ (m.mapping.get? n).isSome := IndexMap.mem_keys

theorem keys_set (h : (m.get? sv.name).isSome) : (m.set sv).keys = m.keys := by
  exact IndexMap.keys_insert_of_mem _ (isSome_slot h)

theorem names_set (h : (m.get? sv.name).isSome) : (m.set sv).names = m.names := by
  rw [names_eq_filter, names_eq_filter, keys_set h]
  refine List.filter_congr fun n _ => ?_
  rw [get?_set]
  split
  · subst n; simp [h]
  · rfl

@[simp] theorem keys_remove : (m.remove n).1.keys = m.keys := by
  unfold remove
  split
  · rfl
  · refine IndexMap.keys_insert_of_mem _ ?_
    rename_i sv h
    rw [Option.join_eq_some_iff.1 h]; rfl

theorem mem_names_iff_stateOf : n ∈ m.names ↔ m.stateOf n ≠ none := by
  rw [mem_names, Option.isSome_iff_ne_none, Ne, Ne, stateOf_eq_none]

/-- The names depend only on the slots and on which of them are taken. -/
theorem names_congr {m' : SuperviseeMap} (hk : m'.keys = m.keys)
    (hs : ∀ j, m'.stateOf j = none ↔ m.stateOf j = none) : m'.names = m.names := by
  rw [names_eq_filter, names_eq_filter, hk]
  refine List.filter_congr fun j _ => ?_
  have := hs j
  rw [stateOf_eq_none, stateOf_eq_none] at this
  rw [Bool.eq_iff_iff, Option.isSome_iff_ne_none, Option.isSome_iff_ne_none, Ne, Ne, this]

@[simp] theorem names_mapSupervisees (f : Supervisee → Supervisee)
    (hf : ∀ sv, (f sv).name = sv.name) : (m.mapSupervisees f hf).names = m.names := by
  rw [names_eq_filter, names_eq_filter]
  have hk : (m.mapSupervisees f hf).keys = m.keys := IndexMap.keys_map _ _
  rw [hk]
  refine List.filter_congr fun j _ => ?_
  simp

theorem mem_supervisees : sv ∈ m.supervisees ↔ m.get? sv.name = some sv := by
  unfold supervisees
  rw [List.mem_filterMap]
  constructor
  · rintro ⟨⟨n, o⟩, he, rfl : o = some sv⟩
    have hget := IndexMap.mem_entries.1 he
    obtain rfl := m.named n sv hget
    exact Option.join_eq_some_iff.2 hget
  · exact fun h => ⟨(sv.name, some sv), IndexMap.mem_entries.2 (Option.join_eq_some_iff.1 h), rfl⟩

/-! ## Starting and stopping everybody -/

theorem mem_stopAll : n ∈ m.stopAll.2 ↔
    ∃ sv, m.get? n = some sv ∧ sv.stop.2.isShuttingDown = true := by
  unfold stopAll
  simp only [List.mem_map, List.mem_filter, mem_supervisees]
  constructor
  · rintro ⟨sv, ⟨h, hs⟩, rfl⟩
    exact ⟨sv, h, hs⟩
  · rintro ⟨sv, h, hs⟩
    exact ⟨sv, ⟨get?_name h, hs⟩, name_of_get? h⟩

@[simp] theorem get?_stopAll : m.stopAll.1.get? n = (m.get? n).map fun sv => sv.stop.1 :=
  get?_mapSupervisees _ fun _ => Supervisee.name_stop

@[simp] theorem names_stopAll : m.stopAll.1.names = m.names :=
  names_mapSupervisees _ fun _ => Supervisee.name_stop

/-- Where nobody is past starting, starting the names of a list succeeds and starts just these. -/
theorem startEach_of_fresh {l : List Name}
    (h : ∀ n sv, m.get? n = some sv → sv.state = .dead ∨ sv.state = .starting) :
    (m.startEach l).2 = .ok () ∧ (m.startEach l).1.names = m.names ∧
      ∀ n, (m.startEach l).1.get? n =
        if n ∈ l then (m.get? n).map fun sv => sv.withState .starting else m.get? n := by
  induction l generalizing m with
  | nil => simp [startEach]
  | cons name l ih =>
    rcases hget : m.get? name with _ | sv
    · simp only [startEach, hget]
      obtain ⟨hok, hnames, hl⟩ := ih h
      refine ⟨hok, hnames, fun n => ?_⟩
      rw [hl n]
      by_cases hn : n = name
      · subst hn; simp [hget]
      · simp [hn]
    · have hstart : sv.start.1 = sv.withState .starting ∧ ∃ b, sv.start.2 = .ok b := by
        rcases h name sv hget with hd | hs
        · simp [Supervisee.start, hd]
        · refine ⟨?_, false, by simp [Supervisee.start, hs]⟩
          cases sv; simp_all [Supervisee.start, Supervisee.withState]
      obtain ⟨h₁, b, h₂⟩ := hstart
      have hpair : sv.start = (sv.withState .starting, .ok b) := Prod.ext h₁ h₂
      simp only [startEach, hget, hpair]
      obtain rfl := name_of_get? hget
      obtain ⟨hok, hnames, hl⟩ := ih (m := m.set (sv.withState .starting)) fun n sv' h' => by
        rw [get?_set] at h'
        split at h'
        · cases h'; exact .inr rfl
        · exact h n sv' h'
      refine ⟨hok, hnames.trans (names_set (by simp [hget])), fun n => ?_⟩
      rw [hl n, get?_set]
      by_cases hn : n = sv.name
      · subst hn; simp [hget]
      · simp [hn]

theorem get?_new {specs : List ChildSpec} (h : (new specs).get? n = some sv) :
    sv.state = .dead := by
  have key : ∀ (l : List ChildSpec) (m : SuperviseeMap),
      (∀ n sv, m.get? n = some sv → sv.state = .dead) → ∀ n sv,
      (l.foldl (fun m spec => m.set (Supervisee.new spec)) m).get? n = some sv →
      sv.state = .dead := by
    intro l
    induction l with
    | nil => exact fun m hm => hm
    | cons spec l ih =>
      refine fun m hm => ih (m.set (Supervisee.new spec)) fun n sv h => ?_
      rw [get?_set] at h
      split at h
      · cases h; rfl
      · exact hm n sv h
  exact key specs empty (by simp) n sv h

end SuperviseeMap

end Zestors
