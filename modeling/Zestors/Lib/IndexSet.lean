import Mathlib.Data.List.Nodup
import Mathlib.Data.List.Perm.Basic
import Mathlib.Tactic.Common

/-!
# Insertion-ordered sets

`IndexSet α` is a set that remembers an order: its elements as a list, each once. `insert` appends,
`swapRemove` fills the hole with the last element, so it keeps the elements but not their order.
-/

universe u

namespace List
variable {α : Type u} [DecidableEq α]

/-- Takes `a` out of the list and puts the last element in its place. -/
def swapRemove (a : α) : List α → List α
  | [] => []
  | b :: l => if b = a then l.getLast?.toList ++ l.dropLast else b :: swapRemove a l

theorem swapRemove_perm_erase (a : α) (l : List α) : (l.swapRemove a).Perm (l.erase a) := by
  induction l with
  | nil => rfl
  | cons b l ih =>
    by_cases h : b = a
    · subst h
      rw [swapRemove, if_pos rfl, erase_cons_head]
      rcases eq_nil_or_concat l with rfl | ⟨l', z, rfl⟩
      · simp
      · simpa using (perm_append_singleton z l').symm
    · rw [swapRemove, if_neg h, erase_cons_tail (by simpa using h)]
      exact ih.cons b

end List

/-- A set that remembers the order of insertion. -/
structure IndexSet (α : Type u) where
  toList : List α
  nodup : toList.Nodup
deriving DecidableEq

namespace IndexSet
variable {α : Type u}

/-- The empty set. -/
def empty : IndexSet α := ⟨[], List.nodup_nil⟩

instance : Membership α (IndexSet α) := ⟨fun s a => a ∈ s.toList⟩

instance [DecidableEq α] (a : α) (s : IndexSet α) : Decidable (a ∈ s) :=
  inferInstanceAs (Decidable (a ∈ s.toList))

/-- Whether the set has no element. -/
def isEmpty (s : IndexSet α) : Bool := s.toList.isEmpty

@[simp] theorem mem_toList {a : α} {s : IndexSet α} : a ∈ s.toList ↔ a ∈ s := Iff.rfl

@[simp] theorem not_mem_empty (a : α) : a ∉ (empty : IndexSet α) := List.not_mem_nil

@[simp] theorem isEmpty_iff {s : IndexSet α} : s.isEmpty = true ↔ ∀ a, a ∉ s := by
  simp only [isEmpty, List.isEmpty_iff]
  exact List.eq_nil_iff_forall_not_mem

theorem isEmpty_eq_false {s : IndexSet α} : s.isEmpty = false ↔ ∃ a, a ∈ s := by
  rw [Bool.eq_false_iff, Ne, isEmpty_iff, not_forall]
  simp

theorem eq_empty {s : IndexSet α} (h : ∀ a, a ∉ s) : s = empty := by
  obtain ⟨l, hl⟩ := s
  obtain rfl : l = [] := List.eq_nil_iff_forall_not_mem.2 h
  rfl

variable [DecidableEq α]

/-- Adds `a` at the end, unless it is there already. -/
def insert (s : IndexSet α) (a : α) : IndexSet α :=
  if h : a ∈ s.toList then s
  else ⟨s.toList ++ [a], by
    rw [← List.concat_eq_append]; exact s.nodup.concat h⟩

/-- Takes `a` out, filling the hole with the last element. -/
def swapRemove (s : IndexSet α) (a : α) : IndexSet α :=
  ⟨s.toList.swapRemove a, (List.swapRemove_perm_erase a _).nodup_iff.2 (s.nodup.erase a)⟩

/-- Adds every element of a list. -/
def extend (s : IndexSet α) (l : List α) : IndexSet α := l.foldl insert s

/-- The set of the elements of a list, in the order of their first occurrence. -/
def ofList (l : List α) : IndexSet α := empty.extend l

@[simp] theorem mem_insert {s : IndexSet α} {a b : α} : b ∈ s.insert a ↔ b ∈ s ∨ b = a := by
  unfold insert
  split
  · exact ⟨.inl, fun h => h.elim id fun e => e ▸ ‹_›⟩
  · exact List.mem_append.trans (or_congr Iff.rfl List.mem_singleton)

@[simp] theorem mem_swapRemove {s : IndexSet α} {a b : α} :
    b ∈ s.swapRemove a ↔ b ≠ a ∧ b ∈ s :=
  (List.swapRemove_perm_erase a _).mem_iff.trans s.nodup.mem_erase_iff

@[simp] theorem mem_extend {s : IndexSet α} {l : List α} {b : α} :
    b ∈ s.extend l ↔ b ∈ s ∨ b ∈ l := by
  induction l generalizing s with
  | nil => simp [extend]
  | cons a l ih =>
    rw [extend, List.foldl_cons, ← extend, ih]
    simp [or_assoc]

@[simp] theorem mem_ofList {l : List α} {b : α} : b ∈ ofList l ↔ b ∈ l := by simp [ofList]

/-- Without `a` the set is empty exactly when it held nothing but `a`. -/
theorem isEmpty_swapRemove {s : IndexSet α} {a : α} :
    (s.swapRemove a).isEmpty = true ↔ ∀ b ∈ s, b = a := by
  simp only [isEmpty_iff, mem_swapRemove, ne_eq, not_and]
  exact ⟨fun h b hb => by_contra fun e => h b e hb, fun h b e hb => e (h b hb)⟩

/-- Taking out `a` leaves somebody if there was somebody, and not only `a`. -/
theorem isEmpty_swapRemove_eq_false {s : IndexSet α} {a : α} (h : s.isEmpty = false)
    (ha : a ∈ s → ∃ b ∈ s, b ≠ a) : (s.swapRemove a).isEmpty = false := by
  rw [isEmpty_eq_false] at h ⊢
  obtain ⟨b, hb⟩ := h
  by_cases hab : b = a
  · obtain ⟨c, hc, hne⟩ := ha (hab ▸ hb)
    exact ⟨c, mem_swapRemove.2 ⟨hne, hc⟩⟩
  · exact ⟨b, mem_swapRemove.2 ⟨hab, hb⟩⟩

end IndexSet
