import Mathlib.Algebra.GroupWithZero.Nat
import Mathlib.Data.List.Destutter
import Mathlib.Data.List.DropRight
import Mathlib.Data.List.Forall2
import Mathlib.Data.List.Perm.Basic
import Mathlib.Data.List.Sort
import Mathlib.Tactic.Common

/-!
# Lists sorted by a key

Removing neighbouring duplicates from a list that is sorted by an injective key removes all
duplicates and nothing else; slices of a duplicate-free list in terms of positions; lists of
lists of which one is replaced; and lists that agree entry by entry.
-/

universe u v

namespace List

section Replace
variable {α : Type u} {β : Type v} {l : List α} {f : α → List β} {a b : α}

/-- If all lists but one are empty, that one is all there is. -/
theorem flatMap_eq_of_eraseIdx {i : ℕ} (h : l[i]? = some a) (hnil : ∀ c ∈ l.eraseIdx i, f c = []) :
    l.flatMap f = f a := by
  induction l generalizing i with
  | nil => cases h
  | cons c l ih =>
    cases i with
    | zero =>
      cases h
      have hnil : ∀ c ∈ l, f c = [] := hnil
      rw [flatMap_cons, flatMap_eq_nil_iff.2 hnil, append_nil]
    | succ i =>
      rw [eraseIdx_cons_succ, forall_mem_cons] at hnil
      rw [flatMap_cons, hnil.1, nil_append, ih (by simpa using h) hnil.2]

theorem flatMap_set {i : ℕ} (h : l[i]? = some a) :
    (l.set i b).flatMap f = (l.take i).flatMap f ++ (f b ++ (l.drop (i + 1)).flatMap f) := by
  rw [set_eq_take_append_cons_drop, if_pos (getElem?_eq_some_iff.1 h).1, flatMap_append, flatMap_cons]

theorem flatMap_eq_of_getElem? {i : ℕ} (h : l[i]? = some a) :
    l.flatMap f = (l.take i).flatMap f ++ (f a ++ (l.drop (i + 1)).flatMap f) := by
  obtain ⟨hi, rfl⟩ := getElem?_eq_some_iff.1 h
  rw [← flatMap_set h, set_getElem_self]

theorem flatMap_set_of_eq {i : ℕ} (h : l[i]? = some a) (hf : f b = f a) :
    (l.set i b).flatMap f = l.flatMap f := by
  rw [flatMap_set h, flatMap_eq_of_getElem? h, hf]

theorem map_set_of_eq {γ : Type*} {f : α → γ} {i : ℕ} (h : l[i]? = some a) (hf : f b = f a) :
    (l.set i b).map f = l.map f := by
  obtain ⟨hlt, rfl⟩ := getElem?_eq_some_iff.1 h
  rw [map_set, hf, ← getElem_map f (h := by rwa [length_map]), set_getElem_self]

theorem flatMap_set_sublist {i : ℕ} (h : l[i]? = some a) (hsub : (f b).Sublist (f a)) :
    ((l.set i b).flatMap f).Sublist (l.flatMap f) := by
  induction l generalizing i with
  | nil => cases h
  | cons c l ih =>
    cases i with
    | zero => cases h; exact hsub.append (Sublist.refl _)
    | succ i => exact (Sublist.refl _).append (ih (by simpa using h))

theorem eq_or_mem_eraseIdx_of_mem_set {i : ℕ} (h : a ∈ l.set i b) : a = b ∨ a ∈ l.eraseIdx i := by
  obtain ⟨k, hk⟩ := mem_iff_getElem?.1 h
  by_cases hki : k = i
  · subst hki
    exact .inl ((mem_or_eq_of_mem_set h).elim (fun _ => by
      rw [getElem?_set_self'] at hk
      obtain ⟨_, _, hk⟩ := Option.map_eq_some_iff.1 hk
      exact hk.symm) id)
  · rw [getElem?_set_ne (Ne.symm hki)] at hk
    exact .inr (mem_eraseIdx_iff_getElem?.2 ⟨k, hki, hk⟩)

theorem mem_iff_of_getElem? {i : ℕ} (h : l[i]? = some a) : b ∈ l ↔ b = a ∨ b ∈ l.eraseIdx i := by
  obtain ⟨hlt, rfl⟩ := getElem?_eq_some_iff.1 h
  rw [← (getElem_cons_eraseIdx_perm hlt).mem_iff, mem_cons]

theorem mem_set_iff_of_getElem? {c : α} {i : ℕ} (h : l[i]? = some a) :
    c ∈ l.set i b ↔ c = b ∨ c ∈ l.eraseIdx i := by
  have hset : (l.set i b)[i]? = some b := by rw [getElem?_set_self (getElem?_eq_some_iff.1 h).1]
  rw [mem_iff_of_getElem? hset, eraseIdx_set_eq]

theorem filterMap_perm_of_getElem? {f : α → Option β} {i : ℕ} (h : l[i]? = some a) :
    (l.filterMap f).Perm ((f a).toList ++ (l.eraseIdx i).filterMap f) := by
  obtain ⟨hlt, rfl⟩ := getElem?_eq_some_iff.1 h
  refine ((getElem_cons_eraseIdx_perm hlt).symm.filterMap f).trans ?_
  cases hf : f l[i] <;> simp [hf]

theorem filterMap_set_perm {f : α → Option β} {i : ℕ} (h : l[i]? = some a) :
    ((l.set i b).filterMap f).Perm ((f b).toList ++ (l.eraseIdx i).filterMap f) := by
  have hset : (l.set i b)[i]? = some b := by rw [getElem?_set_self (getElem?_eq_some_iff.1 h).1]
  rw [← eraseIdx_set_eq (a := b)]
  exact filterMap_perm_of_getElem? hset

theorem sum_map_of_getElem? {f : α → ℕ} {i : ℕ} (h : l[i]? = some a) :
    (l.map f).sum = f a + ((l.eraseIdx i).map f).sum := by
  obtain ⟨hlt, rfl⟩ := getElem?_eq_some_iff.1 h
  rw [← ((getElem_cons_eraseIdx_perm hlt).map f).sum_nat, map_cons, sum_cons]

theorem sum_map_set {f : α → ℕ} {i : ℕ} (h : l[i]? = some a) :
    ((l.set i b).map f).sum = f b + ((l.eraseIdx i).map f).sum := by
  have hset : (l.set i b)[i]? = some b := by rw [getElem?_set_self (getElem?_eq_some_iff.1 h).1]
  rw [sum_map_of_getElem? hset, eraseIdx_set_eq]

theorem sum_map_set_add {f : α → ℕ} {i : ℕ} (h : l[i]? = some a) :
    ((l.set i b).map f).sum + f a = (l.map f).sum + f b := by
  rw [sum_map_set h, sum_map_of_getElem? h]
  omega

theorem sum_map_mapIdx_le {f : ℕ → α → α} {g : α → ℕ} (h : ∀ i a, g (f i a) ≤ g a) :
    ((l.mapIdx f).map g).sum ≤ (l.map g).sum := by
  induction l generalizing f with
  | nil => exact le_rfl
  | cons a l ih =>
    rw [mapIdx_cons, map_cons, sum_cons, map_cons, sum_cons]
    exact Nat.add_le_add (h 0 a) (ih fun i a => h (i + 1) a)

theorem getElem?_set_of_getElem? {i j : ℕ} (h : l[i]? = some a) :
    (l.set i b)[j]? = if i = j then some b else l[j]? := by
  rw [getElem?_set, if_pos (getElem?_eq_some_iff.1 h).1]

theorem getElem?_concat_eq_some {i : ℕ} :
    (l ++ [b])[i]? = some a ↔ l[i]? = some a ∨ (i = l.length ∧ b = a) := by
  rw [getElem?_append]
  split
  · have hne : i ≠ l.length := by omega
    simp [hne]
  · rename_i hlt
    have hnone : l[i]? = none := getElem?_eq_none_iff.2 (by omega)
    by_cases hi : i = l.length
    · simp [hi]
    · have hpos : i - l.length ≠ 0 := by omega
      simp [hnone, hi, hpos]

theorem count_eraseIdx_of_getElem? [DecidableEq α] {i : ℕ} (h : l[i]? = some a) (b : α) :
    l.count b = (l.eraseIdx i).count b + if a = b then 1 else 0 := by
  obtain ⟨hlt, rfl⟩ := getElem?_eq_some_iff.1 h
  rw [← (getElem_cons_eraseIdx_perm hlt).count_eq b, count_cons]
  simp

/-- Without the one occurrence of an element, a duplicate-free list has the others. -/
theorem Nodup.mem_eraseIdx_of_getElem? (hn : l.Nodup) {i : ℕ} (h : l[i]? = some a) :
    b ∈ l.eraseIdx i ↔ b ≠ a ∧ b ∈ l := by
  obtain ⟨hlt, rfl⟩ := getElem?_eq_some_iff.1 h
  have hperm := getElem_cons_eraseIdx_perm hlt
  have hnot : l[i] ∉ l.eraseIdx i := (nodup_cons.1 (hperm.nodup_iff.2 hn)).1
  rw [← hperm.mem_iff, mem_cons]
  constructor
  · intro hb
    exact ⟨fun heq => hnot (heq ▸ hb), .inr hb⟩
  · rintro ⟨hne, hb⟩
    exact hb.resolve_left hne

/-- An increasing list of numbers below `n` is a sublist of the first `n`. -/
theorem sublist_range {l : List ℕ} {n : ℕ} (hl : l.Pairwise (· < ·)) (hn : ∀ m ∈ l, m < n) :
    l.Sublist (range n) :=
  sublist_of_subperm_of_pairwise
    (subperm_of_subset (hl.imp fun h => Nat.ne_of_lt h) fun m hm => mem_range.2 (hn m hm))
    hl pairwise_lt_range

/-- Where what is dropped lies at the front, dropping from the front is filtering. -/
theorem dropWhile_eq_filter {α : Type u} {l : List α} {r : α → α → Prop} {p : α → Bool}
    (hl : l.Pairwise r) (hp : ∀ a b, r a b → p b = true → p a = true) :
    l.dropWhile p = l.filter fun a => !p a := by
  induction l with
  | nil => rfl
  | cons a l ih =>
    rw [pairwise_cons] at hl
    cases ha : p a with
    | true => rw [dropWhile_cons_of_pos ha, ih hl.2, filter_cons_of_neg (by simp [ha])]
    | false =>
      have hrest : ∀ b ∈ l, (!p b) = true := by
        intro b hb
        cases hpb : p b with
        | false => rfl
        | true => exact absurd (hp a b (hl.1 b hb) hpb) (by simp [ha])
      rw [dropWhile_cons_of_neg (by simp [ha]), filter_cons_of_pos (by simp [ha]),
        filter_eq_self.2 hrest]

end Replace

variable {α : Type u} [DecidableEq α] {l l₁ l₂ : List α} {a b : α}

theorem mem_destutter'_ne : b ∈ l.destutter' (· ≠ ·) a ↔ b = a ∨ b ∈ l := by
  induction l generalizing a with
  | nil => simp
  | cons c l ih =>
    by_cases h : a = c
    · subst h
      rw [destutter'_cons_neg _ (by simp), ih, mem_cons, or_self_left]
    · rw [destutter'_cons_pos _ h, mem_cons, ih, mem_cons]

/-- Removing neighbouring duplicates keeps the members. -/
theorem mem_destutter_ne : b ∈ l.destutter (· ≠ ·) ↔ b ∈ l := by
  cases l with
  | nil => simp
  | cons a l => rw [destutter_cons', mem_destutter'_ne, mem_cons]

/-- In a list sorted by a key that tells its members apart, duplicates are neighbours. -/
theorem nodup_destutter_ne (key : α → ℕ) (hs : l.Pairwise fun a b => key a ≤ key b)
    (hinj : ∀ a ∈ l, ∀ b ∈ l, key a = key b → a = b) : (l.destutter (· ≠ ·)).Nodup := by
  have hsub := destutter_sublist (· ≠ ·) l
  have hlt : (l.destutter (· ≠ ·)).IsChain fun a b => key a < key b := by
    have hchain := isChain_destutter (· ≠ ·) l
    have hle : (l.destutter (· ≠ ·)).IsChain fun a b => key a ≤ key b := (hs.sublist hsub).isChain
    rw [isChain_iff_getElem] at hchain hle ⊢
    intro i hi
    refine lt_of_le_of_ne (hle i hi) fun he => hchain i hi ?_
    exact hinj _ (hsub.subset (getElem_mem _)) _ (hsub.subset (getElem_mem _)) he
  have : Trans (fun a b => key a < key b) (fun a b => key a < key b)
      (fun a b : α => key a < key b) := ⟨fun h h' => lt_trans h h'⟩
  exact (isChain_iff_pairwise.1 hlt).imp fun h e => by simp [e] at h

/-- The members of a slice are those whose positions lie inside it. -/
theorem mem_drop_take (hn : l.Nodup) {i j : ℕ} (hj : j ≤ l.length) :
    a ∈ (l.take j).drop i ↔ i ≤ l.idxOf a ∧ l.idxOf a < j := by
  constructor
  · intro h
    obtain ⟨k, hk, rfl⟩ := mem_iff_getElem.1 h
    simp only [getElem_drop, getElem_take, length_drop, length_take] at hk ⊢
    rw [hn.idxOf_getElem]
    omega
  · rintro ⟨hi, hlt⟩
    have hlen : l.idxOf a < l.length := lt_of_lt_of_le hlt hj
    refine mem_iff_getElem.2 ⟨l.idxOf a - i, by simp; omega, ?_⟩
    have hidx : i + (l.idxOf a - i) = l.idxOf a := by omega
    simp only [getElem_drop, getElem_take, hidx]
    exact getElem_idxOf hlen

/-- In a duplicate-free list positions increase. -/
theorem pairwise_idxOf_lt (hn : l.Nodup) : l.Pairwise fun a b => l.idxOf a < l.idxOf b := by
  rw [pairwise_iff_getElem]
  intro i j hi hj hij
  rwa [hn.idxOf_getElem i hi, hn.idxOf_getElem j hj]

/-- Two members of a duplicate-free list come in one order only. -/
theorem Nodup.not_sublist_swap (hn : l.Nodup) (h : [a, b].Sublist l) : ¬ [b, a].Sublist l := by
  intro h'
  have hlt := pairwise_cons.1 ((pairwise_idxOf_lt hn).sublist h)
  have hlt' := pairwise_cons.1 ((pairwise_idxOf_lt hn).sublist h')
  exact lt_asymm (hlt.1 b mem_cons_self) (hlt'.1 a mem_cons_self)

/-- Whatever comes after a member of a duplicate-free list is behind it. -/
theorem mem_of_idxOf_lt (hn : (l₁ ++ a :: l₂).Nodup) (hb : b ∈ l₁ ++ a :: l₂)
    (hlt : (l₁ ++ a :: l₂).idxOf a < (l₁ ++ a :: l₂).idxOf b) : b ∈ l₂ := by
  have ha : a ∉ l₁ := fun ha => (nodup_append.1 hn).2.2 a ha a mem_cons_self rfl
  rcases mem_append.1 hb with hb | hb
  · rw [idxOf_append_of_notMem ha, idxOf_append_of_mem hb] at hlt
    have := idxOf_lt_length_of_mem hb
    omega
  · rcases mem_cons.1 hb with rfl | hb
    · exact absurd hlt (lt_irrefl _)
    · exact hb

/-- Prepending a member that comes before the others keeps the order. -/
theorem cons_sublist_of_idxOf_lt (hn : l.Nodup) (ha : a ∈ l) (hsub : l₁.Sublist l)
    (hlt : ∀ b ∈ l₁, l.idxOf a < l.idxOf b) : (a :: l₁).Sublist l := by
  obtain ⟨before, after, rfl, hbefore⟩ := eq_append_cons_of_mem ha
  refine Sublist.trans (Sublist.cons_cons a ?_) (sublist_append_right before (a :: after))
  obtain ⟨k₁, k₂, rfl, h₁, h₂⟩ := sublist_append_iff.1 hsub
  have hidx : (before ++ a :: after).idxOf a = before.length := by
    rw [idxOf_append_of_notMem hbefore, idxOf_cons_self, Nat.add_zero]
  -- Nobody of the others is before `a`, and none of them is `a`.
  obtain rfl : k₁ = [] := by
    refine eq_nil_iff_forall_not_mem.2 fun b hb => ?_
    have := hlt b (mem_append_left _ hb)
    rw [hidx, idxOf_append_of_mem (h₁.subset hb)] at this
    have := idxOf_lt_length_of_mem (h₁.subset hb)
    omega
  rcases sublist_cons_iff.1 h₂ with h₂ | ⟨k, rfl, -⟩
  · simpa using h₂
  · exact absurd (hlt a (by simp)) (lt_irrefl _)

section Latest
variable {α : Type u} {l : List α} {n : ℕ}

theorem length_rtake (l : List α) (n : ℕ) : (l.rtake n).length = min n l.length := by
  rw [rtake, length_drop]
  omega

/-- A list that is cut when it is longer than `n`, before one more is pushed, keeps the latest `n + 1`. -/
theorem rtake_push (l : List α) (n : ℕ) (a : α) :
    (if (l.rtake (n + 1)).length > n then (l.rtake (n + 1)).tail else l.rtake (n + 1)) ++ [a] =
      (l ++ [a]).rtake (n + 1) := by
  rw [rtake_concat_succ, length_rtake]
  congr 1
  split
  · simp only [rtake, tail_drop]
    congr 1
    omega
  · simp only [rtake]
    congr 1
    omega

theorem rtake_succ_eq_iff : l.rtake (n + 1) = l.rtake n ↔ l.length ≤ n := by
  constructor
  · intro h
    have hlength := congrArg length h
    rw [length_rtake, length_rtake] at hlength
    omega
  · intro h
    simp only [rtake]
    congr 1
    omega

/-- An entry that maps to nothing, with nothing behind it that does not, is replaced by one that maps to
something. -/
theorem filterMap_set_of_none {β : Type v} {f : α → Option β} {i : ℕ} {a a' : α} {b : β}
    (hi : l[i]? = some a) (ha : f a = none) (ha' : f a' = some b)
    (hdrop : ∀ c ∈ l.drop (i + 1), f c = none) : (l.set i a').filterMap f = l.filterMap f ++ [b] := by
  obtain ⟨hlt, hget⟩ := getElem?_eq_some_iff.1 hi
  have hnil : (l.drop (i + 1)).filterMap f = [] := filterMap_eq_nil_iff.2 hdrop
  have hl : l = l.take i ++ a :: l.drop (i + 1) := by
    rw [← hget, ← drop_eq_getElem_cons hlt, take_append_drop]
  have hbefore : l.filterMap f = (l.take i).filterMap f := by
    conv_lhs => rw [hl, filterMap_append, filterMap_cons, ha, hnil]
    exact append_nil _
  rw [set_eq_take_append_cons_drop, if_pos hlt, filterMap_append, filterMap_cons, ha', hnil, hbefore]

end Latest

section Forall2
variable {α : Type u} {β : Type v} {γ : Type u} {R : α → β → Prop} {P : α → Prop} {l : List α} {l' : List β}

theorem Forall₂.forall_mem_iff {P' : β → Prop} (h : Forall₂ R l l') (hR : ∀ a b, R a b → (P' b ↔ P a)) :
    (∀ b ∈ l', P' b) ↔ ∀ a ∈ l, P a := by
  induction h with
  | nil => simp
  | cons hab h ih => rw [forall_mem_cons, forall_mem_cons, hR _ _ hab, ih]

theorem Forall₂.map_eq_map_iff {f : α → γ} {g : β → γ} (h : Forall₂ R l l')
    (hR : ∀ a b, R a b → (g b = f a ↔ P a)) : l'.map g = l.map f ↔ ∀ a ∈ l, P a := by
  induction h with
  | nil => simp
  | cons hab h ih => rw [map_cons, map_cons, cons.injEq, forall_mem_cons, hR _ _ hab, ih]

end Forall2

end List
