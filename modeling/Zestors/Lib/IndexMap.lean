import Mathlib.Data.List.Nodup
import Mathlib.Data.List.Sublists
import Mathlib.Tactic.Common

/-!
# Insertion-ordered maps

`IndexMap κ ν` keeps its entries in the order in which their keys were first inserted: inserting a
key again replaces its value in place, so `keys` only ever grows at the end
(`keys_prefix_keys_insert`).
-/

universe u v w

namespace IndexMap.Entries
variable {κ : Type u} {ν : Type v} [DecidableEq κ]

/-- The value under `k`. -/
def get? (k : κ) : List (κ × ν) → Option ν
  | [] => none
  | e :: l => if e.1 = k then some e.2 else get? k l

/-- Puts `v` under `k`: in place if `k` is there, at the end otherwise. -/
def insert (k : κ) (v : ν) : List (κ × ν) → List (κ × ν)
  | [] => [(k, v)]
  | e :: l => if e.1 = k then (k, v) :: l else e :: insert k v l

theorem keys_insert (k : κ) (v : ν) (l : List (κ × ν)) :
    (insert k v l).map Prod.fst =
      if k ∈ l.map Prod.fst then l.map Prod.fst else l.map Prod.fst ++ [k] := by
  induction l with
  | nil => rfl
  | cons e l ih =>
    unfold insert
    by_cases h : e.1 = k
    · simp [h]
    · simp only [if_neg h, List.map_cons, ih, List.mem_cons, Ne.symm h, false_or]
      split <;> rfl

theorem get?_insert (k j : κ) (v : ν) (l : List (κ × ν)) :
    get? j (insert k v l) = if j = k then some v else get? j l := by
  induction l with
  | nil => simp [insert, get?, eq_comm]
  | cons e l ih =>
    by_cases hk : e.1 = k
    · subst hk; simp only [insert, if_pos, get?]
      by_cases hj : j = e.1
      · simp [hj]
      · simp [hj, Ne.symm hj]
    · simp only [insert, if_neg hk, get?, ih]
      by_cases hj : e.1 = j
      · subst hj; simp [hk]
      · simp [hj]

theorem insert_of_get? {k : κ} {v : ν} {l : List (κ × ν)} (h : get? k l = some v) :
    insert k v l = l := by
  induction l with
  | nil => cases h
  | cons e l ih =>
    by_cases hk : e.1 = k
    · simp only [get?, if_pos hk, Option.some.injEq] at h
      subst hk h; simp [insert]
    · simp only [get?, if_neg hk] at h
      simp only [insert, if_neg hk, ih h]

/-- A key that is not there yet is put at the end. -/
theorem insert_of_notMem {k : κ} {v : ν} {l : List (κ × ν)} (h : k ∉ l.map Prod.fst) :
    insert k v l = l ++ [(k, v)] := by
  induction l with
  | nil => rfl
  | cons e l ih =>
    rw [List.map_cons, List.mem_cons, not_or] at h
    rw [insert, if_neg (Ne.symm h.1), ih h.2, List.cons_append]

theorem get?_eq_none {k : κ} {l : List (κ × ν)} : get? k l = none ↔ k ∉ l.map Prod.fst := by
  induction l with
  | nil => simp [get?]
  | cons e l ih =>
    by_cases h : e.1 = k
    · simp [get?, h]
    · simp only [get?, if_neg h, ih, List.map_cons, List.mem_cons, Ne.symm h, false_or]

theorem get?_eq_some_of_mem {k : κ} {v : ν} {l : List (κ × ν)} (hn : (l.map Prod.fst).Nodup)
    (h : (k, v) ∈ l) : get? k l = some v := by
  induction l with
  | nil => simp at h
  | cons e l ih =>
    obtain ⟨hne, hn⟩ := List.nodup_cons.1 hn
    rcases List.mem_cons.1 h with rfl | h
    · simp [get?]
    · have : e.1 ≠ k := fun hek => hne (hek ▸ List.mem_map_of_mem (f := Prod.fst) h)
      simp [get?, this, ih hn h]

theorem get?_filter_ne (k j : κ) (l : List (κ × ν)) :
    get? j (l.filter fun e => e.1 ≠ k) = if j = k then none else get? j l := by
  induction l with
  | nil => simp [get?]
  | cons e l ih =>
    by_cases hk : e.1 = k
    · rw [List.filter_cons_of_neg (by simp [hk]), ih, get?]
      by_cases hj : j = k
      · simp [hj]
      · simp [hj, hk, Ne.symm hj]
    · rw [List.filter_cons_of_pos (by simp [hk]), get?, get?, ih]
      by_cases hj : e.1 = j
      · simp [hj, hj ▸ hk]
      · simp [hj]

theorem mem_of_get?_eq_some {k : κ} {v : ν} {l : List (κ × ν)} (h : get? k l = some v) :
    (k, v) ∈ l := by
  induction l with
  | nil => simp [get?] at h
  | cons e l ih =>
    by_cases hk : e.1 = k
    · simp only [get?, if_pos hk, Option.some.injEq] at h
      subst hk h; simp
    · simp only [get?, if_neg hk] at h
      exact List.mem_cons_of_mem _ (ih h)

theorem get?_map {ω : Type w} (f : ν → ω) (k : κ) (l : List (κ × ν)) :
    get? k (l.map fun e => (e.1, f e.2)) = (get? k l).map f := by
  induction l with
  | nil => rfl
  | cons e l ih =>
    by_cases h : e.1 = k
    · simp [get?, h]
    · simp only [List.map_cons, get?, if_neg h, ih]

theorem get?_mapWithKey (f : κ → ν → ω) (k : κ) (l : List (κ × ν)) :
    get? k (l.map fun e => (e.1, f e.1 e.2)) = (get? k l).map (f k) := by
  induction l with
  | nil => rfl
  | cons e l ih =>
    by_cases h : e.1 = k
    · simp [get?, h]
    · simp only [List.map_cons, get?, if_neg h, ih]

end IndexMap.Entries

/-- A map that remembers the order in which its keys were first inserted. -/
structure IndexMap (κ : Type u) (ν : Type v) where
  entries : List (κ × ν)
  nodup : (entries.map Prod.fst).Nodup
deriving DecidableEq

namespace IndexMap
variable {κ : Type u} {ν : Type v} {ω : Type w}

/-- The map without entries. -/
def empty : IndexMap κ ν := ⟨[], List.nodup_nil⟩

/-- The keys, in order. -/
def keys (m : IndexMap κ ν) : List κ := m.entries.map Prod.fst

/-- Applies `f` to every value. -/
def map (f : ν → ω) (m : IndexMap κ ν) : IndexMap κ ω :=
  ⟨m.entries.map fun e => (e.1, f e.2), by
    have : (m.entries.map fun e => (e.1, f e.2)).map Prod.fst = m.entries.map Prod.fst := by
      simp [Function.comp_def]
    rw [this]; exact m.nodup⟩

@[simp] theorem keys_map (f : ν → ω) (m : IndexMap κ ν) : (m.map f).keys = m.keys := by
  simp [keys, map, Function.comp_def]

/-- Applies `f` to every value and its key. -/
def mapWithKey (f : κ → ν → ω) (m : IndexMap κ ν) : IndexMap κ ω :=
  ⟨m.entries.map fun e => (e.1, f e.1 e.2), by
    have : (m.entries.map fun e => (e.1, f e.1 e.2)).map Prod.fst = m.entries.map Prod.fst := by
      simp [Function.comp_def]
    rw [this]; exact m.nodup⟩

theorem nodup_keys (m : IndexMap κ ν) : m.keys.Nodup := m.nodup

variable [DecidableEq κ]

/-- The value under `k`. -/
def get? (m : IndexMap κ ν) (k : κ) : Option ν := Entries.get? k m.entries

/-- Puts `v` under `k`, in place if `k` has been inserted before. -/
def insert (m : IndexMap κ ν) (k : κ) (v : ν) : IndexMap κ ν :=
  ⟨Entries.insert k v m.entries, by
    rw [Entries.keys_insert]
    split
    · exact m.nodup
    · rw [← List.concat_eq_append]; exact m.nodup.concat ‹_›⟩

/-- The values, in the order of their keys. -/
def values (m : IndexMap κ ν) : List ν := m.entries.map Prod.snd

/-- Takes `k` out; what came after it moves up. -/
def shiftRemove (m : IndexMap κ ν) (k : κ) : IndexMap κ ν :=
  ⟨m.entries.filter fun e => e.1 ≠ k, m.nodup.sublist (List.filter_sublist.map _)⟩

@[simp] theorem get?_empty (k : κ) : (empty : IndexMap κ ν).get? k = none := rfl

@[simp] theorem get?_insert (m : IndexMap κ ν) (k j : κ) (v : ν) :
    (m.insert k v).get? j = if j = k then some v else m.get? j :=
  Entries.get?_insert k j v m.entries

@[simp] theorem get?_map (f : ν → ω) (m : IndexMap κ ν) (k : κ) :
    (m.map f).get? k = (m.get? k).map f :=
  Entries.get?_map f k m.entries

@[simp] theorem get?_mapWithKey (f : κ → ν → ω) (m : IndexMap κ ν) (k : κ) :
    (m.mapWithKey f).get? k = (m.get? k).map (f k) :=
  Entries.get?_mapWithKey f k m.entries

@[simp] theorem get?_shiftRemove (m : IndexMap κ ν) (k j : κ) :
    (m.shiftRemove k).get? j = if j = k then none else m.get? j :=
  Entries.get?_filter_ne k j m.entries

theorem keys_insert (m : IndexMap κ ν) (k : κ) (v : ν) :
    (m.insert k v).keys = if k ∈ m.keys then m.keys else m.keys ++ [k] :=
  Entries.keys_insert k v m.entries

theorem mem_keys {m : IndexMap κ ν} {k : κ} : k ∈ m.keys ↔ (m.get? k).isSome := by
  rw [Option.isSome_iff_ne_none]
  exact (not_iff_comm.1 (Entries.get?_eq_none (l := m.entries)).symm).symm

theorem mem_entries {m : IndexMap κ ν} {k : κ} {v : ν} :
    (k, v) ∈ m.entries ↔ m.get? k = some v :=
  ⟨Entries.get?_eq_some_of_mem m.nodup, Entries.mem_of_get?_eq_some⟩

theorem keys_insert_of_mem {m : IndexMap κ ν} {k : κ} (v : ν) (h : (m.get? k).isSome) :
    (m.insert k v).keys = m.keys := by
  rw [keys_insert, if_pos (mem_keys.2 h)]

theorem entries_insert_of_notMem {m : IndexMap κ ν} {k : κ} (v : ν) (h : k ∉ m.keys) :
    (m.insert k v).entries = m.entries ++ [(k, v)] := Entries.insert_of_notMem h

theorem values_insert_of_notMem {m : IndexMap κ ν} {k : κ} (v : ν) (h : k ∉ m.keys) :
    (m.insert k v).values = m.values ++ [v] := by
  rw [values, entries_insert_of_notMem v h, List.map_append, List.map_singleton, values]

/-- The order of the keys and what is under them make up the map. -/
theorem ext_get? {m m' : IndexMap κ ν} (hkeys : m.keys = m'.keys)
    (hget : ∀ k, m.get? k = m'.get? k) : m = m' := by
  have hentries : ∀ m : IndexMap κ ν,
      m.entries = m.keys.filterMap fun k => (m.get? k).map fun v => (k, v) := by
    intro m
    rw [keys, List.filterMap_map]
    conv_lhs => rw [← List.filterMap_some (l := m.entries)]
    refine List.filterMap_congr fun e he => ?_
    simp [mem_entries.1 he]
  have heq : m.entries = m'.entries := by
    rw [hentries m, hentries m', hkeys]
    exact List.filterMap_congr fun k _ => by rw [hget]
  cases m
  cases m'
  rw [mk.injEq]
  exact heq

/-- Writing back what is there changes nothing. -/
theorem insert_of_get? {m : IndexMap κ ν} {k : κ} {v : ν} (h : m.get? k = some v) :
    m.insert k v = m := by
  cases m
  simp only [insert, mk.injEq]
  exact Entries.insert_of_get? h

/-- Keys are never reordered: an insertion can only add one at the end. -/
theorem keys_prefix_keys_insert (m : IndexMap κ ν) (k : κ) (v : ν) :
    m.keys <+: (m.insert k v).keys := by
  rw [keys_insert]
  split
  · exact List.prefix_rfl
  · exact List.prefix_append _ _

end IndexMap
