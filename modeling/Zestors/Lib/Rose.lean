import Mathlib.Data.List.Basic
import Mathlib.Data.Set.Card
import Mathlib.Data.Set.Finite.Lattice
import Mathlib.Tactic.Common

/-!
# Rose trees, and walks over them by a worklist

A position in a tree is the list of indices on the way there from the root. `walk` takes positions from
the front of a queue, replaces the node at each one, and puts the positions of its children at the back.
What comes of that is what one gets by visiting a node and then its children (`Visited`), in whatever
order: `Visited.walks`.
-/

universe u v

inductive Rose (α : Type u)
  | node (label : α) (children : List (Rose α))

namespace Rose
variable {α : Type u} {β : Type v}

def label : Rose α → α
  | node a _ => a

def children : Rose α → List (Rose α)
  | node _ cs => cs

@[simp] theorem label_node (a : α) (cs : List (Rose α)) : (node a cs).label = a := rfl

@[simp] theorem children_node (a : α) (cs : List (Rose α)) : (node a cs).children = cs := rfl

@[elab_as_elim, induction_eliminator]
theorem induct {motive : Rose α → Prop} (node : ∀ a cs, (∀ c ∈ cs, motive c) → motive (node a cs)) :
    ∀ t, motive t
  | .node a cs => node a cs fun c _ => induct node c

def map (f : α → β) : Rose α → Rose β
  | node a cs => node (f a) (cs.map fun c => map f c)

@[simp] theorem map_node (f : α → β) (a : α) (cs : List (Rose α)) :
    (node a cs).map f = node (f a) (cs.map (map f)) := by
  rw [map]

/-! ## Positions -/

/-- The subtree at a position. -/
def get? : Rose α → List ℕ → Option (Rose α)
  | t, [] => some t
  | node _ cs, i :: p => cs[i]?.bind fun c => c.get? p

/-- Puts a subtree at a position. -/
def set : Rose α → List ℕ → Rose α → Rose α
  | _, [], s => s
  | node a cs, i :: p, s => node a (cs.modify i fun c => c.set p s)

/-- The positions of the children of `t`, which is at `p`. -/
def childPositions (p : List ℕ) (t : Rose α) : List (List ℕ) :=
  (List.range t.children.length).map fun i => p ++ [i]

/-- Every subtree satisfies `P`. -/
def All (P : Rose α → Prop) (t : Rose α) : Prop := ∀ p s, t.get? p = some s → P s

theorem get?_cons_eq_some {a : α} {cs : List (Rose α)} {i : ℕ} {p : List ℕ} {s : Rose α} :
    (node a cs).get? (i :: p) = some s ↔ ∃ c, cs[i]? = some c ∧ c.get? p = some s := by
  rw [get?, Option.bind_eq_some_iff]

theorem mem_childPositions {p q : List ℕ} {t : Rose α} :
    q ∈ t.childPositions p ↔ ∃ i, i < t.children.length ∧ q = p ++ [i] := by
  simp [childPositions, eq_comm]

theorem nodup_childPositions (p : List ℕ) (t : Rose α) : (t.childPositions p).Nodup := by
  apply List.Nodup.map _ List.nodup_range
  intro i j hij
  simpa using hij

theorem all_node {P : Rose α → Prop} {a : α} {cs : List (Rose α)} :
    All P (node a cs) ↔ P (node a cs) ∧ ∀ c ∈ cs, All P c := by
  constructor
  · intro h
    refine ⟨h [] _ rfl, fun c hc p s hs => ?_⟩
    obtain ⟨i, hi⟩ := List.mem_iff_getElem?.1 hc
    exact h (i :: p) s (get?_cons_eq_some.2 ⟨c, hi, hs⟩)
  · rintro ⟨hroot, hcs⟩ p s hs
    cases p with
    | nil => exact Option.some.inj hs ▸ hroot
    | cons i p =>
      obtain ⟨c, hc, hs⟩ := get?_cons_eq_some.1 hs
      exact hcs c (List.mem_of_getElem? hc) p s hs

theorem finite_positions (t : Rose α) : {p | (t.get? p).isSome}.Finite := by
  induction t with
  | node a cs ih =>
    have hsub : {p | ((node a cs).get? p).isSome} ⊆
        {[]} ∪ ⋃ i ∈ {i | i < cs.length}, (i :: ·) '' {p | (cs[i]?.bind fun c => c.get? p).isSome} := by
      intro p hp
      cases p with
      | nil => exact .inl rfl
      | cons i p =>
        obtain ⟨s, hs⟩ := Option.isSome_iff_exists.1 hp
        obtain ⟨c, hc, -⟩ := get?_cons_eq_some.1 hs
        exact .inr (Set.mem_biUnion (List.getElem?_eq_some_iff.1 hc).1 ⟨p, hp, rfl⟩)
    refine Set.Finite.subset ((Set.finite_singleton _).union (Set.Finite.biUnion (Set.finite_lt_nat _) ?_)) hsub
    intro i hi
    have hc := List.getElem?_eq_getElem (l := cs) hi
    simp only [hc, Option.bind_some]
    exact (ih _ (List.getElem_mem hi)).image _

/-! ## Walks -/

/-- What is to be visited after a visit at `p`, which says what the node there becomes and whether its
children are visited too. -/
def next (r : Rose α × Bool) (p : List ℕ) : List (List ℕ) := if r.2 then r.1.childPositions p else []

/-- The walk itself, with `fuel` visits at most. -/
def walk (visit : Rose α → Rose α × Bool) : ℕ → List (List ℕ) → Rose α → Option (Rose α)
  | _, [], t => some t
  | 0, _ :: _, _ => none
  | fuel + 1, p :: queue, t =>
    match t.get? p with
    | none => none
    | some s => walk visit fuel (queue ++ next (visit s) p) (t.set p (visit s).1)

theorem mem_next {r : Rose α × Bool} {p q : List ℕ} :
    q ∈ next r p ↔ r.2 = true ∧ ∃ i, i < r.1.children.length ∧ q = p ++ [i] := by
  unfold next
  split_ifs with h
  · rw [mem_childPositions, and_iff_right h]
  · simp [h]

theorem nodup_next (r : Rose α × Bool) (p : List ℕ) : (next r p).Nodup := by
  unfold next
  split_ifs
  · exact nodup_childPositions p r.1
  · exact List.nodup_nil

theorem cons_mem_next {r : Rose α × Bool} {i j : ℕ} {p q : List ℕ} :
    j :: q ∈ next r (i :: p) ↔ j = i ∧ q ∈ next r p := by
  simp only [mem_next, List.cons_append, List.cons.injEq]
  tauto

/-- What becomes of a tree when its root is visited, and then its children, and so on. -/
inductive Visited (visit : Rose α → Rose α × Bool) : Rose α → Rose α → Prop
  | leave {t t' : Rose α} (h : visit t = (t', false)) : Visited visit t t'
  | descend {t : Rose α} {a : α} {cs cs' : List (Rose α)} (h : visit t = (node a cs, true))
      (hlen : cs.length = cs'.length)
      (hcs : ∀ (i : ℕ) (c c' : Rose α), cs[i]? = some c → cs'[i]? = some c' → Visited visit c c') :
      Visited visit t (node a cs')

/-- `t` becomes `t'` when the subtrees at the positions `Q` have been visited. -/
inductive Pending (visit : Rose α → Rose α × Bool) : (List ℕ → Prop) → Rose α → Rose α → Prop
  | atRoot {Q : List ℕ → Prop} {t t' : Rose α} (hQ : ∀ p, Q p ↔ p = []) (h : Visited visit t t') :
      Pending visit Q t t'
  | inside {Q : List ℕ → Prop} {a : α} {cs cs' : List (Rose α)} (hnil : ¬ Q [])
      (hlt : ∀ i p, Q (i :: p) → i < cs.length) (hlen : cs.length = cs'.length)
      (hcs : ∀ (i : ℕ) (c c' : Rose α), cs[i]? = some c → cs'[i]? = some c' →
        Pending visit (fun p => Q (i :: p)) c c') :
      Pending visit Q (node a cs) (node a cs')

theorem exists_getElem?_of_length_eq {cs cs' : List (Rose α)} {i : ℕ} (hlen : cs.length = cs'.length)
    (hi : i < cs.length) : ∃ c c', cs[i]? = some c ∧ cs'[i]? = some c' :=
  ⟨_, _, List.getElem?_eq_getElem hi, List.getElem?_eq_getElem (by omega)⟩

namespace Pending
variable {visit : Rose α → Rose α × Bool} {Q : List ℕ → Prop} {t t' : Rose α}

theorem congr {Q' : List ℕ → Prop} (h : Pending visit Q t t') (hQ : ∀ p, Q p ↔ Q' p) :
    Pending visit Q' t t' := by
  have heq : Q = Q' := funext fun p => propext (hQ p)
  rwa [heq] at h

/-- Where nothing is to be visited, nothing changes. -/
theorem refl (hQ : ∀ p, ¬ Q p) (t : Rose α) : Pending visit Q t t := by
  induction t generalizing Q with
  | node a cs ih =>
    refine .inside (hQ []) (fun i p h => absurd h (hQ _)) rfl ?_
    intro i c c' hc hc'
    rw [hc] at hc'
    cases hc'
    exact ih c (List.mem_of_getElem? hc) fun p => hQ (i :: p)

theorem eq_of_forall_not (h : Pending visit Q t t') (hQ : ∀ p, ¬ Q p) : t = t' := by
  induction h with
  | atRoot hQ' _ => exact absurd ((hQ' []).2 rfl) (hQ [])
  | @inside Q a cs cs' hnil hlt hlen hcs ih =>
    have hcs' : cs = cs' := by
      apply List.ext_getElem? fun i => ?_
      by_cases hi : i < cs.length
      · obtain ⟨c, c', hc, hc'⟩ := exists_getElem?_of_length_eq hlen hi
        rw [hc, hc']
        exact congrArg some (ih i c c' hc hc' fun p => hQ (i :: p))
      · rw [List.getElem?_eq_none (by omega), List.getElem?_eq_none (by omega)]
    rw [hcs']

theorem isSome_get? (h : Pending visit Q t t') {p : List ℕ} (hp : Q p) :
    (t.get? p).isSome ∧ (t'.get? p).isSome := by
  induction h generalizing p with
  | atRoot hQ _ => rw [(hQ p).1 hp]; exact ⟨rfl, rfl⟩
  | @inside Q a cs cs' hnil hlt hlen hcs ih =>
    cases p with
    | nil => exact absurd hp hnil
    | cons i p =>
      obtain ⟨c, c', hc, hc'⟩ := exists_getElem?_of_length_eq hlen (hlt i p hp)
      rw [get?, get?, hc, hc']
      exact ih i c c' hc hc' hp

/-- No position that is to be visited is above another. -/
theorem eq_of_isPrefix (h : Pending visit Q t t') {p q : List ℕ} (hp : Q p) (hq : Q q) (hpq : p <+: q) :
    p = q := by
  induction h generalizing p q with
  | atRoot hQ _ => rw [(hQ p).1 hp, (hQ q).1 hq]
  | @inside Q a cs cs' hnil hlt hlen hcs ih =>
    cases p with
    | nil => exact absurd hp hnil
    | cons i p =>
      cases q with
      | nil => exact absurd hq hnil
      | cons j q =>
        obtain ⟨rfl, htail⟩ := List.cons_prefix_cons.1 hpq
        obtain ⟨c, c', hc, hc'⟩ := exists_getElem?_of_length_eq hlen (hlt i p hp)
        rw [ih i c c' hc hc' hp hq htail]

/-- A visit of the node at `p` leaves its children to be visited, if it goes on to them. -/
theorem step {p : List ℕ} {s : Rose α} (h : Pending visit Q t t') (hp : Q p) (hs : t.get? p = some s) :
    Pending visit (fun q => Q q ∧ q ≠ p ∨ q ∈ next (visit s) p) (t.set p (visit s).1) t' := by
  induction h generalizing p with
  | @atRoot Q t t' hQ h =>
    obtain rfl := (hQ p).1 hp
    cases hs
    cases h with
    | leave h =>
      rw [h]
      exact refl (fun q => by simp [hQ, next]) t'
    | @descend _ a cs cs' h hlen hcs =>
      rw [h]
      refine .inside ?_ ?_ hlen fun i c c' hc hc' => .atRoot (fun q => ?_) (hcs i c c' hc hc')
      · simp [mem_next]
      · simp +contextual [hQ, mem_next]
      · have hi := (List.getElem?_eq_some_iff.1 hc).1
        simp [hQ, mem_next, hi]
  | @inside Q a cs cs' hnil hlt hlen hcs ih =>
    cases p with
    | nil => exact absurd hp hnil
    | cons i p =>
      obtain ⟨c, hc, hs⟩ := get?_cons_eq_some.1 hs
      refine .inside ?_ ?_ ?_ fun j d c' hd hc' => ?_
      · simp [hnil, mem_next]
      · rintro j q (⟨hq, -⟩ | hq)
        · rw [List.length_modify]
          exact hlt j q hq
        · rw [List.length_modify, (cons_mem_next.1 hq).1]
          exact hlt i p hp
      · rw [List.length_modify, hlen]
      · by_cases hij : i = j
        · subst hij
          rw [List.getElem?_modify_eq, hc] at hd
          cases hd
          refine (ih i c c' hc hc' hp hs).congr fun q => ?_
          simp [cons_mem_next]
        · rw [List.getElem?_modify_ne _ _ hij] at hd
          refine (hcs j d c' hd hc').congr fun q => ?_
          simp [cons_mem_next, Ne.symm hij]

end Pending

/-- The positions at which something is still to be visited, in the tree that comes out. -/
def ahead (queue : List (List ℕ)) (t' : Rose α) : Set (List ℕ) :=
  {q | (t'.get? q).isSome ∧ ∃ p ∈ queue, p <+: q}

theorem finite_ahead (queue : List (List ℕ)) (t' : Rose α) : (ahead queue t').Finite :=
  t'.finite_positions.subset fun _ h => h.1

theorem walk_eq_some_of_pending {visit : Rose α → Rose α × Bool} {queue : List (List ℕ)} {t t' : Rose α}
    {fuel : ℕ} (h : Pending visit (· ∈ queue) t t') (hn : queue.Nodup)
    (hfuel : (ahead queue t').ncard ≤ fuel) : walk visit fuel queue t = some t' := by
  induction fuel generalizing queue t with
  | zero =>
    cases queue with
    | nil => rw [walk, h.eq_of_forall_not fun p => List.not_mem_nil]
    | cons p queue =>
      have hp := (h.isSome_get? (p := p) List.mem_cons_self).2
      have hempty := (Set.ncard_eq_zero (finite_ahead _ t')).1 (Nat.le_zero.1 hfuel)
      exact absurd (show p ∈ ahead (p :: queue) t' from ⟨hp, p, List.mem_cons_self, List.prefix_rfl⟩)
        (hempty ▸ Set.notMem_empty p)
  | succ fuel ih =>
    cases queue with
    | nil => rw [walk, h.eq_of_forall_not fun p => List.not_mem_nil]
    | cons p queue =>
      obtain ⟨hpq, hn⟩ := List.nodup_cons.1 hn
      have hp : p ∈ p :: queue := List.mem_cons_self
      obtain ⟨s, hs⟩ := Option.isSome_iff_exists.1 (h.isSome_get? hp).1
      -- the children of the node at `p` were below it, and are not in the queue yet
      have hbelow : ∀ q ∈ next (visit s) p, q ≠ p ∧ p <+: q := by
        intro q hq
        obtain ⟨-, i, -, rfl⟩ := mem_next.1 hq
        exact ⟨by simp, List.prefix_append p [i]⟩
      have hnew : ∀ q ∈ next (visit s) p, q ∉ queue := by
        intro q hq hqueue
        have heq := h.eq_of_isPrefix hp (List.mem_cons_of_mem p hqueue) (hbelow q hq).2
        exact (hbelow q hq).1 heq.symm
      have hstep : Pending visit (· ∈ queue ++ next (visit s) p) (t.set p (visit s).1) t' := by
        refine (h.step hp hs).congr fun q => ?_
        rw [List.mem_append]
        refine or_congr_left ?_
        constructor
        · rintro ⟨hq, hne⟩
          exact (List.mem_cons.1 hq).resolve_left hne
        · intro hq
          exact ⟨List.mem_cons_of_mem p hq, fun heq => hpq (heq ▸ hq)⟩
      rw [walk, hs]
      refine ih hstep (hn.append (nodup_next _ _) fun q hq hq' => hnew q hq' hq) ?_
      have hlt : (ahead (queue ++ next (visit s) p) t').ncard < (ahead (p :: queue) t').ncard := by
        refine Set.ncard_lt_ncard ⟨fun q hq => ?_, fun hsub => ?_⟩ (finite_ahead _ t')
        · obtain ⟨r, hr, hrq⟩ := hq.2
          rcases List.mem_append.1 hr with hr | hr
          · exact ⟨hq.1, r, List.mem_cons_of_mem p hr, hrq⟩
          · exact ⟨hq.1, p, hp, (hbelow r hr).2.trans hrq⟩
        · obtain ⟨-, r, hr, hrp⟩ := hsub ⟨(h.isSome_get? hp).2, p, hp, List.prefix_rfl⟩
          rcases List.mem_append.1 hr with hr | hr
          · exact hpq (h.eq_of_isPrefix (List.mem_cons_of_mem p hr) hp hrp ▸ hr)
          · exact (hbelow r hr).1 (hrp.eq_of_length_le (hbelow r hr).2.length_le)
      omega

theorem walk_mono {visit : Rose α → Rose α × Bool} {queue : List (List ℕ)} {t t' : Rose α}
    {fuel fuel' : ℕ} (h : walk visit fuel queue t = some t') (hle : fuel ≤ fuel') :
    walk visit fuel' queue t = some t' := by
  induction fuel generalizing fuel' queue t with
  | zero =>
    cases queue with
    | nil => rw [walk] at h ⊢; exact h
    | cons p queue => cases h
  | succ fuel ih =>
    cases queue with
    | nil => rw [walk] at h ⊢; exact h
    | cons p queue =>
      obtain ⟨fuel', rfl⟩ : ∃ n, fuel' = n + 1 := ⟨fuel' - 1, by omega⟩
      rw [walk] at h ⊢
      cases hs : t.get? p with
      | none => rw [hs] at h; cases h
      | some s =>
        rw [hs] at h
        exact ih h (by omega)

/-- The walk over `t` comes to its end, with `t'`. -/
def Walks (visit : Rose α → Rose α × Bool) (t t' : Rose α) : Prop :=
  ∃ n, ∀ fuel, n ≤ fuel → walk visit fuel [[]] t = some t'

theorem walks_of_walk {visit : Rose α → Rose α × Bool} {t t' : Rose α} {n : ℕ}
    (h : walk visit n [[]] t = some t') : Walks visit t t' :=
  ⟨n, fun _ hn => walk_mono h hn⟩

/-- What the visits make of a tree is what the walk over it comes to. -/
theorem Visited.walks {visit : Rose α → Rose α × Bool} {t t' : Rose α} (h : Visited visit t t') :
    Walks visit t t' :=
  walks_of_walk (walk_eq_some_of_pending (.atRoot (fun _ => List.mem_singleton) h)
    (List.nodup_singleton _) le_rfl)

theorem exists_visited {visit : Rose α → Rose α × Bool} {t : Rose α} {a : α} {cs : List (Rose α)}
    (h : visit t = (node a cs, true)) (hcs : ∀ c ∈ cs, ∃ c', Visited visit c c') :
    ∃ t', Visited visit t t' := by
  choose! f hf using hcs
  refine ⟨node a (cs.map f), .descend h (List.length_map f).symm fun i c c' hc hc' => ?_⟩
  rw [List.getElem?_map, hc] at hc'
  cases hc'
  exact hf c (List.mem_of_getElem? hc)

end Rose
