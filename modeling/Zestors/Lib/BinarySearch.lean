import Mathlib.Order.Lattice
import Mathlib.Tactic.Common

/-!
# Binary search

`binarySearch l x` halves a range of `l` down to one place and compares what is there with `x`, as
Rust's `slice::binary_search` does. On a sorted list it finds exactly what is in the list
(`binarySearch_isOk`).
-/

universe u

variable {α : Type u} [LinearOrder α]

/-- The place that is left of the `size` places from `base` on. -/
def bisect (l : List α) (x : α) (base size : ℕ) : ℕ :=
  if 1 < size then
    let half := size / 2
    let mid := base + half
    match l[mid]? with
    | some y => bisect l x (if x < y then base else mid) (size - half)
    | none => base
  else base
termination_by size

/-- The place of an `x`, or the place where it could be inserted. -/
def binarySearch (l : List α) (x : α) : Except ℕ ℕ :=
  let base := bisect l x 0 l.length
  match l[base]? with
  | some y => if y = x then .ok base else .error (if y < x then base + 1 else base)
  | none => .error 0

section
variable {l : List α} {x : α}

/-- If there is an `x` in the range, the search ends at one. -/
theorem getElem?_bisect (hl : l.Pairwise (· ≤ ·)) (base size : ℕ) (hsize : base + size ≤ l.length)
    (hx : ∃ k, base ≤ k ∧ k < base + size ∧ l[k]? = some x) : l[bisect l x base size]? = some x := by
  induction size using Nat.strongRecOn generalizing base with
  | ind size ih =>
    obtain ⟨k, hbase, hk, hkx⟩ := hx
    unfold bisect
    split_ifs with hone
    swap
    · obtain rfl : k = base := by omega
      exact hkx
    have hmid : base + size / 2 < l.length := by omega
    simp only [List.getElem?_eq_getElem hmid]
    obtain ⟨hklt, hkx'⟩ := List.getElem?_eq_some_iff.1 hkx
    have hsorted := List.pairwise_iff_getElem.1 hl
    split_ifs with hlt
    · refine ih _ (by omega) _ (by omega) ⟨k, hbase, ?_, hkx⟩
      -- what is at `mid` or after it is greater
      by_contra hge
      have hle : l[base + size / 2] ≤ l[k] := by
        rcases Nat.lt_or_eq_of_le (show base + size / 2 ≤ k by omega) with h | h
        · exact hsorted _ _ hmid hklt h
        · simp only [h, le_refl]
      rw [hkx'] at hle
      exact absurd hlt (not_lt.2 hle)
    · by_cases hbefore : k < base + size / 2
      · have hle := hsorted k (base + size / 2) hklt hmid hbefore
        rw [hkx'] at hle
        refine ih _ (by omega) _ (by omega) ⟨base + size / 2, Nat.le_refl _, by omega, ?_⟩
        rw [List.getElem?_eq_getElem hmid, le_antisymm (not_lt.1 hlt) hle]
      · exact ih _ (by omega) _ (by omega) ⟨k, by omega, by omega, hkx⟩

theorem binarySearch_isOk (hl : l.Pairwise (· ≤ ·)) : (binarySearch l x).isOk = true ↔ x ∈ l := by
  unfold binarySearch
  dsimp only
  constructor
  · intro h
    cases hy : l[bisect l x 0 l.length]? with
    | none =>
      rw [hy] at h
      cases h
    | some y =>
      rw [hy] at h
      dsimp only at h
      split_ifs at h with heq
      · exact heq ▸ List.mem_of_getElem? hy
      all_goals cases h
  · intro h
    obtain ⟨k, hk⟩ := List.mem_iff_getElem?.1 h
    obtain ⟨hlt, -⟩ := List.getElem?_eq_some_iff.1 hk
    have hbisect := getElem?_bisect hl 0 l.length (by omega)
      ⟨k, by omega, by omega, hk⟩
    rw [hbisect]
    simp [Except.isOk, Except.toBool]

end
