import Mathlib.Data.List.TakeWhile
import Zestors.Lib.Lts
import Zestors.Supervisor.SuperviseeMap

/-!
# The supervisees and their streams

The map as it is kept: the supervisees are in a set of streams, which hands out a token for each, and
a name leads to its token. `view` is the map that the supervisor works with.

`Orderly` says that the names are those of the present supervisees, in the order of their latest
insertions, and that every stream is the one that its name leads to. A name that is given twice to `new`
leaves a stream that nothing leads to, and a name that is added again takes its old place
(`orderly_iff`).
-/

namespace Zestors

/-- `SuperviseeMap` in the source: every token that a name leads to is that of a supervisee with this
name. -/
structure StreamMap where
  mapping : IndexMap Name (Option ℕ)
  streams : IndexMap ℕ Supervisee
  held : ∀ n token, mapping.get? n = some (some token) →
    ∃ sv, streams.get? token = some sv ∧ sv.name = n

namespace StreamMap
variable {m m' : StreamMap} {sv : Supervisee} {n j : Name} {token : ℕ}

def empty : StreamMap := ⟨.empty, .empty, fun _ _ h => by cases h⟩

/-- `SuperviseeMap::get_mut`, as far as reading goes. -/
def get? (m : StreamMap) (name : Name) : Option Supervisee :=
  (m.mapping.get? name).join.bind m.streams.get?

theorem ne_of_free {t : ℕ} (h : m.mapping.get? n = some (some t)) (hfree : token ∉ m.streams.keys) :
    t ≠ token := by
  obtain ⟨sv, hget, -⟩ := m.held n t h
  rintro rfl
  exact hfree (IndexMap.mem_keys.2 (by simp [hget]))

theorem name_unique {t : ℕ} (h : m.mapping.get? n = some (some t))
    (h' : m.mapping.get? j = some (some t)) : n = j := by
  obtain ⟨sv, hget, hname⟩ := m.held n t h
  obtain ⟨sv', hget', hname'⟩ := m.held j t h'
  cases hget.symm.trans hget'
  exact hname.symm.trans hname'

theorem get?_of_slot (h : m.mapping.get? n = some (some token)) :
    m.get? n = m.streams.get? token := by
  rw [get?, h]
  rfl

/-- Inserts a supervisee into the set of streams, which hands out a token that is free, and lets its
name lead there. -/
def insert (m : StreamMap) (sv : Supervisee) (token : ℕ) (hfree : token ∉ m.streams.keys) :
    StreamMap where
  mapping := m.mapping.insert sv.name (some token)
  streams := m.streams.insert token sv
  held n t h := by
    rw [IndexMap.get?_insert] at h
    rw [IndexMap.get?_insert]
    split_ifs at h with hn
    · cases h
      exact ⟨sv, by simp, hn.symm⟩
    · obtain ⟨sv', hget, hname⟩ := m.held n t h
      exact ⟨sv', by rw [if_neg (ne_of_free h hfree)]; exact hget, hname⟩

/-- Takes the token out of the entry and the supervisee out of the set; the entry stays. -/
def detach (m : StreamMap) (name : Name) (token : ℕ)
    (h : m.mapping.get? name = some (some token)) : StreamMap where
  mapping := m.mapping.insert name none
  streams := m.streams.shiftRemove token
  held n t hn := by
    rw [IndexMap.get?_insert] at hn
    split_ifs at hn with hname
    · cases hn
    obtain ⟨sv, hget, hsv⟩ := m.held n t hn
    have hne : t ≠ token := fun heq => hname (name_unique hn (heq ▸ h))
    exact ⟨sv, by rw [IndexMap.get?_shiftRemove, if_neg hne]; exact hget, hsv⟩

def remove (m : StreamMap) (name : Name) : StreamMap × Option Supervisee :=
  match h : m.mapping.get? name with
  | some (some token) => (m.detach name token h, m.streams.get? token)
  | some none => (m, none)
  | none => (m, none)

/-- `SuperviseeMap::add`; `none` if the token is taken, which the set never hands out. -/
def add (m : StreamMap) (sv : Supervisee) (token : ℕ) :
    Option (StreamMap × Except DuplicateNameError Unit) :=
  if (m.get? sv.name).isSome then some (m, .error ⟨sv.name⟩)
  else if h : token ∈ m.streams.keys then none
  else some (m.insert sv token h, .ok ())

/-- `SuperviseeMap::new`, up to the tokens that the set hands out. -/
def new (m : StreamMap) : List (ChildSpec × ℕ) → Option StreamMap
  | [] => some m
  | (spec, token) :: specs =>
    if h : token ∈ m.streams.keys then none
    else (m.insert (Supervisee.new spec) token h).new specs

def names (m : StreamMap) : List Name := m.mapping.keys.filter fun n => (m.get? n).isSome

/-! ## The map of the supervisor -/

def view (m : StreamMap) : SuperviseeMap where
  mapping := m.mapping.map fun o => o.bind m.streams.get?
  named n sv h := by
    rw [IndexMap.get?_map, Option.map_eq_some_iff] at h
    obtain ⟨o, ho, h⟩ := h
    obtain ⟨token, rfl, h⟩ := Option.bind_eq_some_iff.1 h
    obtain ⟨sv', hget, hname⟩ := m.held n token ho
    cases hget.symm.trans h
    exact hname

@[simp] theorem get?_view : m.view.get? n = m.get? n := by
  unfold SuperviseeMap.get? view get?
  rw [IndexMap.get?_map]
  cases m.mapping.get? n <;> rfl

theorem keys_view : m.view.keys = m.mapping.keys := IndexMap.keys_map _ _

theorem names_view : m.view.names = m.names := by
  rw [SuperviseeMap.names_eq_filter, keys_view, names]
  exact List.filter_congr fun n _ => by rw [get?_view]

theorem get?_insert (hfree : token ∉ m.streams.keys) :
    (m.insert sv token hfree).get? j = if j = sv.name then some sv else m.get? j := by
  unfold get? insert
  rw [IndexMap.get?_insert]
  split_ifs with hj
  · simp
  · cases hslot : m.mapping.get? j with
    | none => rfl
    | some o =>
      cases o with
      | none => rfl
      | some t => simp [ne_of_free hslot hfree]

theorem get?_mapping_view : m.view.mapping.get? j =
    (m.mapping.get? j).map fun o => o.bind m.streams.get? := IndexMap.get?_map _ _ _

theorem bind_insert (hfree : token ∉ m.streams.keys) :
    ((m.mapping.get? j).map fun o => o.bind (m.streams.insert token sv).get?) =
      (m.mapping.get? j).map fun o => o.bind m.streams.get? := by
  cases hslot : m.mapping.get? j with
  | none => rfl
  | some o =>
    cases o with
    | none => rfl
    | some t => simp [ne_of_free hslot hfree]

theorem view_insert (hfree : token ∉ m.streams.keys) :
    (m.insert sv token hfree).view = m.view.set sv := by
  refine SuperviseeMap.ext_get? (IndexMap.ext_get? ?_ fun k => ?_)
  · show (m.insert sv token hfree).view.keys = (m.view.set sv).keys
    rw [keys_view]
    show (m.mapping.insert sv.name (some token)).keys = (m.view.mapping.insert sv.name (some sv)).keys
    rw [IndexMap.keys_insert, IndexMap.keys_insert, ← keys_view]
    rfl
  · rw [get?_mapping_view]
    show ((m.mapping.insert sv.name (some token)).get? k).map
      (fun o => o.bind (m.streams.insert token sv).get?) =
        (m.view.mapping.insert sv.name (some sv)).get? k
    rw [IndexMap.get?_insert, IndexMap.get?_insert]
    split_ifs with hk
    · simp
    · rw [bind_insert hfree, get?_mapping_view]

theorem view_detach (h : m.mapping.get? n = some (some token)) :
    (m.detach n token h).view = (m.view.remove n).1 := by
  have hget : m.view.get? n = m.streams.get? token := get?_view.trans (get?_of_slot h)
  obtain ⟨sv, hsv, -⟩ := m.held n token h
  have hremove : (m.view.remove n).1.mapping = m.view.mapping.insert n none := by
    unfold SuperviseeMap.remove
    rw [hget, hsv]
  refine SuperviseeMap.ext_get? (IndexMap.ext_get? ?_ fun k => ?_)
  · rw [hremove]
    show (m.detach n token h).view.keys = _
    rw [keys_view]
    show (m.mapping.insert n none).keys = _
    rw [IndexMap.keys_insert, IndexMap.keys_insert, ← keys_view]
    rfl
  · rw [hremove, get?_mapping_view]
    show ((m.mapping.insert n none).get? k).map (fun o => o.bind (m.streams.shiftRemove token).get?) = _
    rw [IndexMap.get?_insert, IndexMap.get?_insert, get?_mapping_view]
    split_ifs with hk
    · rfl
    · cases hslot : m.mapping.get? k with
      | none => rfl
      | some o =>
        cases o with
        | none => rfl
        | some t =>
          have hne : t ≠ token := fun heq => hk (name_unique hslot (heq ▸ h))
          simp [hne]

theorem view_remove : (m.remove n).1.view = (m.view.remove n).1 ∧
    (m.remove n).2 = (m.view.remove n).2 := by
  rw [SuperviseeMap.remove_snd, get?_view]
  unfold remove
  split
  · rename_i token hslot
    exact ⟨view_detach hslot, (get?_of_slot hslot).symm⟩
  · rename_i hslot
    have hget : m.get? n = none := by rw [get?, hslot]; rfl
    exact ⟨by rw [SuperviseeMap.remove_of_get?_none (get?_view.trans hget)], hget.symm⟩
  · rename_i hslot
    have hget : m.get? n = none := by rw [get?, hslot]; rfl
    exact ⟨by rw [SuperviseeMap.remove_of_get?_none (get?_view.trans hget)], hget.symm⟩

/-- A supervisee that is added is added to the view, or refused as there. -/
theorem view_add {result : Except DuplicateNameError Unit}
    (h : m.add sv token = some (m', result)) : m.view.add sv = (m'.view, result) := by
  unfold add at h
  unfold SuperviseeMap.add
  rw [get?_view]
  split_ifs at h with htaken hfree
  · cases h
    rw [if_pos htaken]
  · cases h
    rw [if_neg htaken, view_insert]

theorem view_new {specs : List (ChildSpec × ℕ)} (h : m.new specs = some m') :
    m'.view = (specs.map Prod.fst).foldl (fun v spec => v.set (Supervisee.new spec)) m.view := by
  induction specs generalizing m with
  | nil =>
    cases h
    rfl
  | cons e specs ih =>
    unfold new at h
    split_ifs at h with hfree
    rw [ih h, view_insert]
    rfl

/-! ## The order of the names -/

/-- Somebody is inserted last: the others before it. -/
def latest (order : List Name) (name : Name) : List Name := order.filter (· ≠ name) ++ [name]

/-- The names are those of the present supervisees in the order of their latest insertions, and the
name of every supervisee in the set leads to it. -/
structure OrderlyAs (m : StreamMap) (order : List Name) : Prop where
  names : m.names = order
  owned : ∀ token sv, m.streams.get? token = some sv → m.mapping.get? sv.name = some (some token)

/-- Nobody is after the slot of `n`, if it has one. -/
def SlotLast (m : StreamMap) (n : Name) : Prop :=
  ∀ j ∈ (m.mapping.keys.dropWhile (· ≠ n)).tail, m.get? j = none

instance (m : StreamMap) (n : Name) : Decidable (m.SlotLast n) :=
  inferInstanceAs (Decidable (∀ j ∈ (m.mapping.keys.dropWhile (· ≠ n)).tail, m.get? j = none))

theorem get?_of_notMem (h : n ∉ m.mapping.keys) : m.get? n = none := by
  have hslot : m.mapping.get? n = none := by
    rw [← Option.not_isSome_iff_eq_none, ← IndexMap.mem_keys]
    exact h
  rw [get?, hslot]
  rfl

theorem mem_names : n ∈ m.names ↔ (m.get? n).isSome := by
  rw [← names_view, SuperviseeMap.mem_names, get?_view]

theorem nodup_names (m : StreamMap) : m.names.Nodup := m.mapping.nodup_keys.filter _

theorem split_keys {l : List Name} (h : n ∈ l) (hn : l.Nodup) :
    ∃ l₁ l₂, l = l₁ ++ n :: l₂ ∧ l.dropWhile (· ≠ n) = n :: l₂ ∧ n ∉ l₁ ∧ n ∉ l₂ := by
  induction l with
  | nil => cases h
  | cons a l ih =>
    obtain ⟨ha, hl⟩ := List.nodup_cons.1 hn
    by_cases heq : a = n
    · subst heq
      exact ⟨[], l, rfl, List.dropWhile_cons_of_neg (by simp), by simp, ha⟩
    · obtain ⟨l₁, l₂, rfl, hdrop, h₁, h₂⟩ := ih ((List.mem_cons.1 h).resolve_left (Ne.symm heq)) hl
      exact ⟨a :: l₁, l₂, rfl, by rw [List.dropWhile_cons_of_pos (by simpa using heq), hdrop],
        by simp [Ne.symm heq, h₁], h₂⟩

/-- A name that is inserted goes to the end if and only if nobody is after its slot. -/
theorem names_insert_iff (hfree : token ∉ m.streams.keys) (hget : m.get? sv.name = none) :
    (m.insert sv token hfree).names = latest m.names sv.name ↔ m.SlotLast sv.name := by
  have hnot : sv.name ∉ m.names := by simp [mem_names, hget]
  have hlatest : latest m.names sv.name = m.names ++ [sv.name] := by
    rw [latest, List.filter_eq_self.2]
    intro j hj
    simpa using fun heq : j = sv.name => hnot (heq ▸ hj)
  have hkeys : (m.insert sv token hfree).mapping.keys =
      if sv.name ∈ m.mapping.keys then m.mapping.keys else m.mapping.keys ++ [sv.name] :=
    IndexMap.keys_insert _ _ _
  have hother : ∀ l : List Name, sv.name ∉ l →
      (l.filter fun n => ((m.insert sv token hfree).get? n).isSome) =
        l.filter fun n => (m.get? n).isSome := by
    intro l hl
    refine List.filter_congr fun j hj => ?_
    rw [get?_insert, if_neg (fun heq : j = sv.name => hl (heq ▸ hj))]
  have hself : ((m.insert sv token hfree).get? sv.name).isSome = true := by
    rw [get?_insert, if_pos rfl]
    rfl
  rw [hlatest]
  by_cases hmem : sv.name ∈ m.mapping.keys
  · obtain ⟨l₁, l₂, hsplit, hdrop, h₁, h₂⟩ := split_keys hmem m.mapping.nodup_keys
    have hnew : (m.insert sv token hfree).names = (l₁.filter fun n => (m.get? n).isSome) ++
        sv.name :: l₂.filter fun n => (m.get? n).isSome := by
      rw [names, hkeys, if_pos hmem, hsplit, List.filter_append, List.filter_cons_of_pos (by simpa using hself),
        hother l₁ h₁, hother l₂ h₂]
    have hold : m.names = (l₁.filter fun n => (m.get? n).isSome) ++
        l₂.filter fun n => (m.get? n).isSome := by
      rw [names, hsplit, List.filter_append, List.filter_cons_of_neg (by simp [hget])]
    have hlast : m.SlotLast sv.name ↔ (l₂.filter fun n => (m.get? n).isSome) = [] := by
      rw [SlotLast, hdrop, List.tail_cons, List.filter_eq_nil_iff]
      simp
    rw [hnew, hold, hlast, List.append_assoc, List.append_cancel_left_eq]
    cases hfilter : l₂.filter fun n => (m.get? n).isSome with
    | nil => simp
    | cons a l =>
      have hmem : a ∈ l₂.filter fun n => (m.get? n).isSome := hfilter ▸ List.mem_cons_self
      have hne : sv.name ≠ a := fun heq => h₂ (heq ▸ (List.mem_filter.1 hmem).1)
      simp [hne]
  · have hdrop : m.mapping.keys.dropWhile (· ≠ sv.name) = [] := by
      rw [List.dropWhile_eq_nil_iff]
      intro j hj
      simpa using fun heq : j = sv.name => hmem (heq ▸ hj)
    have hnew : (m.insert sv token hfree).names = m.names ++ [sv.name] := by
      rw [names, hkeys, if_neg hmem, List.filter_append, hother _ hmem,
        List.filter_cons_of_pos (by simpa using hself), List.filter_nil]
      rfl
    rw [hnew, SlotLast, hdrop]
    simp

/-- A supervisee that is inserted into an orderly map leaves it so if and only if its slot is last. -/
theorem orderlyAs_insert_iff {order : List Name} (hfree : token ∉ m.streams.keys)
    (hget : m.get? sv.name = none) (h : m.OrderlyAs order) :
    (m.insert sv token hfree).OrderlyAs (latest order sv.name) ↔ m.SlotLast sv.name := by
  rw [← names_insert_iff hfree hget, ← h.names]
  refine ⟨OrderlyAs.names, fun hnames => ⟨hnames, fun t sv' hsv' => ?_⟩⟩
  have hsv' : (if t = token then some sv else m.streams.get? t) = some sv' :=
    (IndexMap.get?_insert _ _ _ _).symm.trans hsv'
  show (m.mapping.insert sv.name (some token)).get? sv'.name = some (some t)
  rw [IndexMap.get?_insert]
  split_ifs at hsv' with ht
  · cases hsv'
    rw [if_pos rfl, ht]
  · have hslot := h.owned t sv' hsv'
    have hne : sv'.name ≠ sv.name := by
      intro heq
      rw [heq] at hslot
      rw [get?_of_slot hslot, hsv'] at hget
      cases hget
    rw [if_neg hne]
    exact hslot

theorem names_detach (h : m.mapping.get? n = some (some token)) :
    (m.detach n token h).names = m.names.filter (· ≠ n) := by
  have hkeys : (m.detach n token h).mapping.keys = m.mapping.keys :=
    IndexMap.keys_insert_of_mem _ (by rw [h]; rfl)
  rw [names, hkeys, names, List.filter_filter]
  refine List.filter_congr fun j _ => ?_
  have hget : (m.detach n token h).get? j = if j = n then none else m.get? j := by
    rw [← get?_view, view_detach, SuperviseeMap.get?_remove, get?_view]
  rw [hget]
  by_cases hj : j = n <;> simp [hj]

theorem orderlyAs_detach {order : List Name} (h : m.mapping.get? n = some (some token))
    (ho : m.OrderlyAs order) : (m.detach n token h).OrderlyAs (order.filter (· ≠ n)) := by
  refine ⟨by rw [names_detach, ho.names], fun t sv hsv => ?_⟩
  have hsv : (if t = token then none else m.streams.get? t) = some sv :=
    (IndexMap.get?_shiftRemove _ _ _).symm.trans hsv
  split_ifs at hsv with ht
  have hslot := ho.owned t sv hsv
  have hne : sv.name ≠ n := by
    intro heq
    rw [heq, h] at hslot
    cases hslot
    exact ht rfl
  show (m.mapping.insert n none).get? sv.name = some (some t)
  rw [IndexMap.get?_insert, if_neg hne]
  exact hslot

theorem orderlyAs_remove {order : List Name} (ho : m.OrderlyAs order) :
    (m.remove n).1.OrderlyAs (order.filter (· ≠ n)) := by
  have hgone : m.get? n = none → m.OrderlyAs (order.filter (· ≠ n)) := by
    intro hget
    have hself : order.filter (· ≠ n) = order := by
      refine List.filter_eq_self.2 fun j hj => ?_
      have hj : (m.get? j).isSome := mem_names.1 (ho.names ▸ hj)
      simpa using fun heq : j = n => by rw [heq, hget] at hj; cases hj
    rw [hself]
    exact ho
  unfold remove
  split
  · rename_i token hslot
    exact orderlyAs_detach hslot ho
  · rename_i hslot
    exact hgone (by rw [get?, hslot]; rfl)
  · rename_i hslot
    exact hgone (by rw [get?, hslot]; rfl)

/-! ## Every sequence of operations -/

/-- An operation; the set of streams hands out the token of an `add`. -/
inductive MapOp
  | add (sv : Supervisee) (token : ℕ)
  | remove (name : Name)

/-- The map with the names of the present supervisees, in the order of their latest insertions. -/
structure Ordered where
  map : StreamMap
  order : List Name

namespace Ordered
variable {s s' : Ordered} {op : MapOp}

def begin (specs : List (ChildSpec × ℕ)) : Option Ordered :=
  (empty.new specs).map fun map => ⟨map, (specs.map fun e => e.1.name).foldl latest []⟩

def step (s : Ordered) : MapOp → Option Ordered
  | .add sv token => (s.map.add sv token).map fun
    | (map, .ok _) => ⟨map, latest s.order sv.name⟩
    | (map, .error _) => ⟨map, s.order⟩
  | .remove name => some ⟨(s.map.remove name).1, s.order.filter (· ≠ name)⟩

def Orderly (s : Ordered) : Prop := s.map.OrderlyAs s.order

/-- An `add` of a name that is not there finds its slot last, or makes a new one. -/
def AddsLast (s : Ordered) : MapOp → Prop
  | .add sv _ => (s.map.get? sv.name).isSome ∨ s.map.SlotLast sv.name
  | .remove _ => True

theorem orderly_step_iff (h : s.Orderly) (hs : s.step op = some s') :
    s'.Orderly ↔ s.AddsLast op := by
  cases op with
  | add sv token =>
    simp only [step] at hs
    obtain ⟨⟨map, result⟩, hadd, rfl⟩ := Option.map_eq_some_iff.1 hs
    unfold StreamMap.add at hadd
    split_ifs at hadd with htaken hfree
    · cases hadd
      exact iff_of_true h (.inl htaken)
    · cases hadd
      have hnone := Option.not_isSome_iff_eq_none.1 htaken
      exact (orderlyAs_insert_iff hfree hnone h).trans
        ⟨.inr, fun hlast => hlast.resolve_left htaken⟩
  | remove name =>
    cases hs
    exact iff_of_true (orderlyAs_remove h) trivial

theorem entries_new {m m' : StreamMap} {specs : List (ChildSpec × ℕ)} (h : m.new specs = some m') :
    m'.streams.entries =
      m.streams.entries ++ specs.map fun e => (e.2, Supervisee.new e.1) := by
  induction specs generalizing m with
  | nil =>
    cases h
    simp
  | cons e specs ih =>
    unfold new at h
    split_ifs at h with hfree
    rw [ih h, List.map_cons, List.append_cons]
    congr 1
    exact IndexMap.entries_insert_of_notMem _ hfree

theorem orderlyAs_new {m m' : StreamMap} {order : List Name} {specs : List (ChildSpec × ℕ)}
    (h : m.new specs = some m') (ho : m.OrderlyAs order)
    (hn : (specs.map fun e => e.1.name).Nodup) (hfresh : ∀ e ∈ specs, e.1.name ∉ m.mapping.keys) :
    m'.OrderlyAs ((specs.map fun e => e.1.name).foldl latest order) := by
  induction specs generalizing m order with
  | nil =>
    cases h
    exact ho
  | cons e specs ih =>
    unfold new at h
    split_ifs at h with hfree
    rw [List.map_cons, List.nodup_cons] at hn
    have hnot : (Supervisee.new e.1).name ∉ m.mapping.keys := hfresh e List.mem_cons_self
    have hlast : m.SlotLast (Supervisee.new e.1).name := by
      have hdrop : m.mapping.keys.dropWhile (· ≠ (Supervisee.new e.1).name) = [] := by
        refine List.dropWhile_eq_nil_iff.2 fun j hj => ?_
        exact decide_eq_true fun heq : j = (Supervisee.new e.1).name => hnot (heq ▸ hj)
      rw [SlotLast, hdrop]
      simp
    refine ih h ((orderlyAs_insert_iff hfree (get?_of_notMem hnot) ho).2 hlast) hn.2 ?_
    intro e' he' hmem
    have hmem : e'.1.name ∈ (m.mapping.insert (Supervisee.new e.1).name (some e.2)).keys := hmem
    rw [IndexMap.keys_insert, if_neg hnot, List.mem_append, List.mem_singleton] at hmem
    rcases hmem with hmem | heq
    · exact hfresh e' (List.mem_cons_of_mem _ he') hmem
    · exact hn.1 (List.mem_map.2 ⟨e', he', heq⟩)

/-- Where every stream is the one its name leads to, the supervisees have different names. -/
theorem nodup_of_owned {m : StreamMap}
    (h : ∀ token sv, m.streams.get? token = some sv → m.mapping.get? sv.name = some (some token)) :
    (m.streams.entries.map fun e => e.2.name).Nodup := by
  have hentries : m.streams.entries.Nodup := m.streams.nodup.of_map _
  refine hentries.map_on fun e he e' he' heq => ?_
  have hslot := h _ _ (IndexMap.mem_entries.1 he)
  have hslot' := h _ _ (IndexMap.mem_entries.1 he')
  have heq : e.2.name = e'.2.name := heq
  rw [heq, hslot'] at hslot
  have htoken : e'.1 = e.1 := by simpa using hslot
  have hget := IndexMap.mem_entries.1 he
  have hget' := IndexMap.mem_entries.1 he'
  rw [htoken, hget] at hget'
  exact Prod.ext htoken.symm (Option.some.inj hget')

theorem orderly_begin_iff {specs : List (ChildSpec × ℕ)} (h : begin specs = some s) :
    s.Orderly ↔ (specs.map fun e => e.1.name).Nodup := by
  obtain ⟨map, hnew, rfl⟩ := Option.map_eq_some_iff.1 h
  constructor
  · intro ho
    have hnodup := nodup_of_owned ho.owned
    rw [entries_new hnew] at hnodup
    simpa [empty, IndexMap.empty, Function.comp_def] using hnodup
  · intro hn
    refine orderlyAs_new hnew ⟨rfl, ?_⟩ hn (by simp [empty, IndexMap.keys, IndexMap.empty])
    intro token sv hget
    cases hget

/-- For every list of specifications and every sequence of operations: all the time the names are
those of the present supervisees in the order of their latest insertions, and no supervisee is in the
set that no name leads to, if and only if the specifications have different names and nobody is added
whose slot is before that of somebody present. -/
theorem orderly_iff (specs : List (ChildSpec × ℕ)) (s₀ : Ordered) (h₀ : begin specs = some s₀)
    (ops : List MapOp) :
    (∀ k s, Lts.exec step s₀ (ops.take k) = some s → s.Orderly) ↔
      (specs.map fun e => e.1.name).Nodup ∧
      ∀ k op s s', ops[k]? = some op → Lts.exec step s₀ (ops.take k) = some s → s.step op = some s' →
        s.AddsLast op := by
  rw [← orderly_begin_iff h₀]
  exact Lts.forall_exec_iff fun s op s' h hs => orderly_step_iff h hs

/-- A child with this name and nothing else to say. -/
def plain (name : String) : ChildSpec := ⟨⟨name⟩, ⟨.never, none, 0, 0, 0⟩⟩

/-- The last of two children is removed and added again. -/
theorem orderly_iff_readded : ∃ s₀, begin [(plain "a", 0), (plain "b", 1)] = some s₀ ∧
    ∀ k s, Lts.exec step s₀ ([.remove ⟨"b"⟩, .add (.new (plain "b")) 1].take k) = some s →
      s.Orderly := by
  refine ⟨_, rfl, (orderly_iff [(plain "a", 0), (plain "b", 1)] _ rfl _).2 ⟨by decide, ?_⟩⟩
  intro k op s s' hop hs _
  match k with
  | 0 =>
    cases hop
    exact trivial
  | 1 =>
    cases hop
    cases hs
    exact .inr (by decide)
  | k + 2 => cases hop

/-- Of two children called `a` one is left behind, and where `a` comes before `b` it comes back to
its place. -/
theorem not_orderly : (∃ s₀, begin [(plain "a", 0), (plain "a", 1)] = some s₀ ∧ ¬ s₀.Orderly) ∧
    ∃ s₀ s, begin [(plain "a", 0), (plain "b", 1)] = some s₀ ∧
      Lts.exec step s₀ [.remove ⟨"a"⟩, .add (.new (plain "a")) 2] = some s ∧ ¬ s.Orderly := by
  refine ⟨⟨_, rfl, fun h => ?_⟩, _, _, rfl, rfl, fun h => ?_⟩
  · have howned := h.owned 0 (.new (plain "a")) rfl
    cases howned
  · have hnames := h.names
    revert hnames
    decide

end Ordered

end StreamMap

end Zestors
