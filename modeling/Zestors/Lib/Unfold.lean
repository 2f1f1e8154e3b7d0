import Mathlib.Data.Finset.Card
import Mathlib.Logic.Relation
import Zestors.Lib.Rose

/-!
# Drawing a graph as trees

`look` says what the label of a node is and which nodes are below it, if the node is there. `unfold`
draws what is below a node as a tree, by going down from it again and again: it ends if and only if
there is no cycle on the way (`exists_unfold_iff`). In the tree, each node has what is below it as its
children (`all_of_unfold`), so that it shows exactly the nodes that are below (`mem_labels_iff`), each of
them once if no node has two parents (`nodup_labels`).
-/

universe u v

namespace Rose
variable {α : Type u} {β : Type v}

/-- All the labels, a node before its children. -/
def labels : Rose α → List α
  | node a cs => a :: cs.flatMap fun c => labels c

@[simp] theorem labels_node (a : α) (cs : List (Rose α)) :
    (node a cs).labels = a :: cs.flatMap labels := by
  rw [labels]

/-- Draws each of the nodes that is there. -/
def forest (f : α → Option (Option (Rose β))) : List α → Option (List (Rose β))
  | [] => some []
  | a :: as => do
    let t ← f a
    let ts ← forest f as
    some (t.toList ++ ts)

/-- Draws what is below `a`, at most `fuel` levels deep. -/
def unfold (look : α → Option (β × List α)) : ℕ → α → Option (Option (Rose β))
  | 0, _ => none
  | fuel + 1, a =>
    match look a with
    | none => some none
    | some (b, next) => (forest (unfold look fuel) next).map fun ts => some (node b ts)

section Forest
variable {f g : α → Option (Option (Rose β))} {as : List α} {ts : List (Rose β)}

theorem forest_cons_eq_some {a : α} : forest f (a :: as) = some ts ↔
    ∃ t ts', f a = some t ∧ forest f as = some ts' ∧ ts = t.toList ++ ts' := by
  simp only [forest, Option.bind_eq_bind, Option.bind_eq_some_iff, Option.some.injEq]
  constructor
  · rintro ⟨t, ht, ts', hts', rfl⟩
    exact ⟨t, ts', ht, hts', rfl⟩
  · rintro ⟨t, ts', ht, hts', rfl⟩
    exact ⟨t, ht, ts', hts', rfl⟩

theorem forest_mono (h : forest f as = some ts) (hfg : ∀ a ∈ as, ∀ r, f a = some r → g a = some r) :
    forest g as = some ts := by
  induction as generalizing ts with
  | nil => exact h
  | cons a as ih =>
    obtain ⟨t, ts', ht, hts', rfl⟩ := forest_cons_eq_some.1 h
    exact forest_cons_eq_some.2 ⟨t, ts', hfg a List.mem_cons_self t ht,
      ih hts' fun b hb => hfg b (List.mem_cons_of_mem a hb), rfl⟩

theorem exists_forest_iff : (∃ ts, forest f as = some ts) ↔ ∀ a ∈ as, ∃ r, f a = some r := by
  induction as with
  | nil => simp [forest]
  | cons a as ih =>
    rw [List.forall_mem_cons, ← ih]
    constructor
    · rintro ⟨ts, h⟩
      obtain ⟨t, ts', ht, hts', -⟩ := forest_cons_eq_some.1 h
      exact ⟨⟨t, ht⟩, ts', hts'⟩
    · rintro ⟨⟨t, ht⟩, ts', hts'⟩
      exact ⟨_, forest_cons_eq_some.2 ⟨t, ts', ht, hts', rfl⟩⟩

theorem mem_forest_iff (h : forest f as = some ts) {t : Rose β} :
    t ∈ ts ↔ ∃ a ∈ as, f a = some (some t) := by
  induction as generalizing ts with
  | nil => cases h; simp
  | cons a as ih =>
    obtain ⟨t', ts', ht', hts', rfl⟩ := forest_cons_eq_some.1 h
    rw [List.mem_append, ih hts', List.exists_mem_cons_iff, ht']
    cases t' with
    | none => simp
    | some t' => simp [eq_comm]

/-- The trees of different nodes share nothing. -/
theorem nodup_forest {γ : Type*} {key : β → γ} (h : forest f as = some ts) (hn : as.Nodup)
    (hone : ∀ a ∈ as, ∀ t, f a = some (some t) → (t.labels.map key).Nodup)
    (hdisjoint : ∀ a ∈ as, ∀ b ∈ as, a ≠ b → ∀ t s, f a = some (some t) → f b = some (some s) →
      (t.labels.map key).Disjoint (s.labels.map key)) :
    ((ts.flatMap labels).map key).Nodup := by
  induction as generalizing ts with
  | nil => cases h; exact List.nodup_nil
  | cons a as ih =>
    obtain ⟨t, ts', ht, hts', rfl⟩ := forest_cons_eq_some.1 h
    obtain ⟨hnot, hn⟩ := List.nodup_cons.1 hn
    have hrest := ih hts' hn (fun b hb => hone b (List.mem_cons_of_mem a hb))
      fun b hb c hc => hdisjoint b (List.mem_cons_of_mem a hb) c (List.mem_cons_of_mem a hc)
    cases t with
    | none => exact hrest
    | some t =>
      rw [Option.toList_some, List.singleton_append, List.flatMap_cons, List.map_append]
      refine (hone a List.mem_cons_self t ht).append hrest fun x hx hx' => ?_
      obtain ⟨b, hb, rfl⟩ := List.mem_map.1 hx'
      obtain ⟨s, hs, hb⟩ := List.mem_flatMap.1 hb
      obtain ⟨c, hc, hfc⟩ := (mem_forest_iff hts').1 hs
      have hne : a ≠ c := fun heq => hnot (heq ▸ hc)
      exact hdisjoint a List.mem_cons_self c (List.mem_cons_of_mem a hc) hne t s ht hfc hx
        (List.mem_map_of_mem hb)

end Forest

/-! ### Below a node -/

section Below
variable (look : α → Option (β × List α))

/-- `c` is there, and is one of the nodes below `p`. -/
def IsParent (p c : α) : Prop := ∃ b next, look p = some (b, next) ∧ c ∈ next ∧ (look c).isSome = true

def Below : α → α → Prop := Relation.ReflTransGen (IsParent look)

def NoParent (r : α) : Prop := ∀ p, ¬ IsParent look p r

/-- `a` is on a cycle. -/
def OnCycle (a : α) : Prop := Relation.TransGen (IsParent look) a a

end Below

variable {look : α → Option (β × List α)} {fuel fuel' : ℕ} {a c : α} {t : Rose β}

theorem unfold_succ_eq_some {r : Option (Rose β)} : unfold look (fuel + 1) a = some r ↔
    (look a = none ∧ r = none) ∨
    ∃ b next ts, look a = some (b, next) ∧ forest (unfold look fuel) next = some ts ∧
      r = some (node b ts) := by
  rw [unfold]
  cases hlook : look a with
  | none => simp [eq_comm]
  | some entry =>
    obtain ⟨b, next⟩ := entry
    simp only [Option.map_eq_some_iff, reduceCtorEq, false_and, false_or, Option.some.injEq,
      Prod.mk.injEq]
    constructor
    · rintro ⟨ts, hts, rfl⟩
      exact ⟨b, next, ts, ⟨rfl, rfl⟩, hts, rfl⟩
    · rintro ⟨_, _, ts, ⟨rfl, rfl⟩, hts, rfl⟩
      exact ⟨ts, hts, rfl⟩

theorem unfold_mono {r : Option (Rose β)} (h : unfold look fuel a = some r) (hle : fuel ≤ fuel') :
    unfold look fuel' a = some r := by
  induction fuel generalizing fuel' a r with
  | zero => cases h
  | succ fuel ih =>
    obtain ⟨fuel', rfl⟩ : ∃ n, fuel' = n + 1 := ⟨fuel' - 1, by omega⟩
    rw [unfold_succ_eq_some] at h ⊢
    rcases h with h | ⟨b, next, ts, hlook, hts, rfl⟩
    · exact .inl h
    · exact .inr ⟨b, next, ts, hlook, forest_mono hts fun c _ r hr => ih hr (by omega), rfl⟩

/-- A tree is drawn of a node that is there. -/
theorem look_of_unfold (h : unfold look fuel a = some (some t)) :
    ∃ next, look a = some (t.label, next) := by
  cases fuel with
  | zero => cases h
  | succ fuel =>
    rcases unfold_succ_eq_some.1 h with ⟨-, hnone⟩ | ⟨b, next, ts, hlook, -, heq⟩
    · cases hnone
    · cases heq
      exact ⟨next, hlook⟩

/-- Only what is not there is not drawn. -/
theorem exists_tree_of_unfold {r : Option (Rose β)} (h : unfold look fuel a = some r)
    (ha : (look a).isSome = true) : ∃ t, r = some t := by
  cases fuel with
  | zero => cases h
  | succ fuel =>
    rcases unfold_succ_eq_some.1 h with ⟨hnone, -⟩ | ⟨_, _, _, -, -, rfl⟩
    · rw [hnone] at ha
      cases ha
    · exact ⟨_, rfl⟩

/-- If a drawing ends, so does every way down. -/
theorem acc_of_unfold {r : Option (Rose β)} (h : unfold look fuel a = some r) :
    Acc (Function.swap (IsParent look)) a := by
  induction fuel generalizing a r with
  | zero => cases h
  | succ fuel ih =>
    refine ⟨a, ?_⟩
    rintro c ⟨b, next, hlook, hc, -⟩
    rcases unfold_succ_eq_some.1 h with ⟨hnone, -⟩ | ⟨b', next', ts, hlook', hts, -⟩
    · rw [hlook] at hnone
      cases hnone
    · rw [hlook] at hlook'
      cases hlook'
      obtain ⟨r, hr⟩ := exists_forest_iff.1 ⟨ts, hts⟩ c hc
      exact ih hr

/-- As much as the deepest of several drawings takes. -/
theorem exists_fuel {as : List α} (h : ∀ a ∈ as, ∃ fuel r, unfold look fuel a = some r) :
    ∃ fuel, ∀ a ∈ as, ∃ r, unfold look fuel a = some r := by
  induction as with
  | nil => exact ⟨0, fun a ha => absurd ha List.not_mem_nil⟩
  | cons a as ih =>
    obtain ⟨n, r, hr⟩ := h a List.mem_cons_self
    obtain ⟨m, hm⟩ := ih fun c hc => h c (List.mem_cons_of_mem a hc)
    refine ⟨max n m, List.forall_mem_cons.2 ⟨⟨r, unfold_mono hr (le_max_left n m)⟩, ?_⟩⟩
    intro c hc
    obtain ⟨r, hr⟩ := hm c hc
    exact ⟨r, unfold_mono hr (le_max_right n m)⟩

theorem exists_unfold_of_acc (h : Acc (Function.swap (IsParent look)) a) :
    ∃ fuel r, unfold look fuel a = some r := by
  induction h with
  | intro a _ ih =>
    cases hlook : look a with
    | none => exact ⟨1, none, unfold_succ_eq_some.2 (.inl ⟨hlook, rfl⟩)⟩
    | some entry =>
      obtain ⟨b, next⟩ := entry
      have hnext : ∀ c ∈ next, ∃ fuel r, unfold look fuel c = some r := by
        intro c hc
        cases hc' : look c with
        | none => exact ⟨1, none, unfold_succ_eq_some.2 (.inl ⟨hc', rfl⟩)⟩
        | some entry => exact ih c ⟨b, next, hlook, hc, by rw [hc']; rfl⟩
      obtain ⟨fuel, hfuel⟩ := exists_fuel hnext
      obtain ⟨ts, hts⟩ := exists_forest_iff.2 hfuel
      exact ⟨fuel + 1, some (node b ts), unfold_succ_eq_some.2 (.inr ⟨b, next, ts, hlook, hts, rfl⟩)⟩

theorem not_onCycle_of_acc (h : Acc (Function.swap (IsParent look)) a) (hbelow : Below look a c) :
    ¬ OnCycle look c := by
  have hc : Acc (Function.swap (IsParent look)) c := by
    induction hbelow with
    | refl => exact h
    | tail _ hp ih => exact ih.inv hp
  intro hcycle
  have hself : Relation.TransGen (Function.swap (IsParent look)) c c := Relation.transGen_swap.2 hcycle
  have htrans := hc.transGen
  clear h hbelow hc hcycle
  induction htrans with
  | intro x _ ih => exact ih x hself hself

section Finite
variable {nodes : Finset α}

/-- Among finitely many nodes, whoever cannot come back to where it was comes to an end. -/
theorem acc_of_not_onCycle (hnodes : ∀ x, (look x).isSome = true → x ∈ nodes)
    (h : ∀ c, Below look a c → ¬ OnCycle look c) : Acc (Function.swap (IsParent look)) a := by
  classical
  induction hn : (nodes.filter fun x => Relation.TransGen (IsParent look) a x).card
    using Nat.strongRecOn generalizing a with
  | ind n ih =>
    refine ⟨a, fun c hac => ?_⟩
    have hac : IsParent look a c := hac
    refine ih _ ?_ (fun x hx => h x (.head hac hx)) rfl
    rw [← hn]
    refine Finset.card_lt_card (Finset.ssubset_iff_of_subset ?_ |>.2 ⟨c, ?_, ?_⟩)
    · intro x hx
      obtain ⟨hx, hcx⟩ := Finset.mem_filter.1 hx
      exact Finset.mem_filter.2 ⟨hx, .head hac hcx⟩
    · obtain ⟨b, next, -, -, hc⟩ := id hac
      exact Finset.mem_filter.2 ⟨hnodes c hc, .single hac⟩
    · intro hc
      exact h c (.single hac) (Finset.mem_filter.1 hc).2

/-- A drawing ends if and only if there is no cycle on the way down. -/
theorem exists_unfold_iff (hnodes : ∀ x, (look x).isSome = true → x ∈ nodes) :
    (∃ fuel r, unfold look fuel a = some r) ↔ ∀ c, Below look a c → ¬ OnCycle look c := by
  constructor
  · rintro ⟨fuel, r, h⟩ c hc
    exact not_onCycle_of_acc (acc_of_unfold h) hc
  · exact fun h => exists_unfold_of_acc (acc_of_not_onCycle hnodes h)

/-- Going up from a node that is below no cycle, one comes to a node without a parent. -/
theorem exists_noParent (hnodes : ∀ x, (look x).isSome = true → x ∈ nodes)
    (h : ∀ p, Below look p a → ¬ OnCycle look p) : ∃ r, NoParent look r ∧ Below look r a := by
  classical
  induction hn : (nodes.filter fun x => Relation.TransGen (IsParent look) x a).card
    using Nat.strongRecOn generalizing a with
  | ind n ih =>
    by_cases hroot : NoParent look a
    · exact ⟨a, hroot, .refl⟩
    · obtain ⟨p, hpa⟩ := not_forall_not.1 hroot
      obtain ⟨r, hr, hrp⟩ : ∃ r, NoParent look r ∧ Below look r p := by
        refine ih _ ?_ (fun x hx => h x (.tail hx hpa)) rfl
        rw [← hn]
        refine Finset.card_lt_card (Finset.ssubset_iff_of_subset ?_ |>.2 ⟨p, ?_, ?_⟩)
        · intro x hx
          obtain ⟨hx, hxp⟩ := Finset.mem_filter.1 hx
          exact Finset.mem_filter.2 ⟨hx, .tail hxp hpa⟩
        · obtain ⟨b, next, hp, -, -⟩ := id hpa
          exact Finset.mem_filter.2 ⟨hnodes p (by rw [hp]; rfl), .single hpa⟩
        · intro hp
          exact h p (.single hpa) (Finset.mem_filter.1 hp).2
      exact ⟨r, hr, .tail hrp hpa⟩

end Finite

/-! ### What a tree shows -/

/-- A tree shows the nodes that are below its root. -/
theorem mem_labels_iff (h : unfold look fuel a = some (some t)) {b : β} :
    b ∈ t.labels ↔ ∃ c next, Below look a c ∧ look c = some (b, next) := by
  induction fuel generalizing a t b with
  | zero => cases h
  | succ fuel ih =>
    rcases unfold_succ_eq_some.1 h with ⟨-, hnone⟩ | ⟨b', next, ts, hlook, hts, heq⟩
    · cases hnone
    cases heq
    rw [labels_node, List.mem_cons, List.mem_flatMap]
    constructor
    · rintro (rfl | ⟨s, hs, hb⟩)
      · exact ⟨a, next, .refl, hlook⟩
      · obtain ⟨c, hc, hcs⟩ := (mem_forest_iff hts).1 hs
        obtain ⟨d, next', hcd, hd⟩ := (ih hcs).1 hb
        obtain ⟨next'', hc'⟩ := look_of_unfold hcs
        exact ⟨d, next', .head ⟨b', next, hlook, hc, by rw [hc']; rfl⟩ hcd, hd⟩
    · rintro ⟨d, next', had, hd⟩
      rcases Relation.ReflTransGen.cases_head had with rfl | ⟨c, ⟨b'', next'', hlook', hc, hsome⟩, hcd⟩
      · rw [hlook] at hd
        cases hd
        exact .inl rfl
      · rw [hlook] at hlook'
        cases hlook'
        obtain ⟨r, hr⟩ := exists_forest_iff.1 ⟨ts, hts⟩ c hc
        obtain ⟨s, rfl⟩ := exists_tree_of_unfold hr hsome
        exact .inr ⟨s, (mem_forest_iff hts).2 ⟨c, hc, hr⟩, (ih hr).2 ⟨d, next', hcd, hd⟩⟩

/-- No node has two parents, or is twice below one. -/
def Tame (look : α → Option (β × List α)) : Prop :=
  (∀ p q c, IsParent look p c → IsParent look q c → p = q) ∧ ∀ a b next, look a = some (b, next) → next.Nodup

theorem Tame.below_or (ht : Tame look) {b c x : α} (hb : Below look b x) (hc : Below look c x) :
    Below look b c ∨ Below look c b := by
  have hunique : Relator.RightUnique (Function.swap (IsParent look)) := fun x p q hp hq => ht.1 p q x hp hq
  rcases Relation.ReflTransGen.total_of_right_unique hunique (Relation.reflTransGen_swap.2 hb)
    (Relation.reflTransGen_swap.2 hc) with h | h
  · exact .inr (Relation.reflTransGen_swap.1 h)
  · exact .inl (Relation.reflTransGen_swap.1 h)

/-- Where one node is below the other although both have the same parent, that is on a cycle. -/
theorem Tame.onCycle (ht : Tame look) {d : α} (hc : IsParent look a c) (hd : IsParent look a d) (hne : c ≠ d)
    (hcd : Below look c d) : OnCycle look a := by
  rcases Relation.ReflTransGen.cases_tail hcd with rfl | ⟨p, hcp, hpd⟩
  · exact absurd rfl hne
  · obtain rfl := ht.1 p a d hpd hd
    exact .head' hc hcp

section Keys
variable {key : β → α}

/-- A tree for each node that is there, in their order. -/
theorem keys_of_forest (hkey : ∀ a b next, look a = some (b, next) → key b = a) {as : List α}
    {ts : List (Rose β)}
    (h : forest (unfold look fuel) as = some ts) :
    ts.map (fun t => key t.label) = as.filter fun a => (look a).isSome := by
  induction as generalizing ts with
  | nil => cases h; rfl
  | cons a as ih =>
    obtain ⟨t, ts', ht, hts', rfl⟩ := forest_cons_eq_some.1 h
    rw [List.map_append, ih hts']
    cases ha : look a with
    | none =>
      rw [List.filter_cons_of_neg (by simp [ha])]
      cases t with
      | none => rfl
      | some t =>
        obtain ⟨next, ha'⟩ := look_of_unfold ht
        rw [ha] at ha'
        cases ha'
    | some entry =>
      have hsome : (look a).isSome = true := by rw [ha]; rfl
      obtain ⟨t, rfl⟩ := exists_tree_of_unfold ht hsome
      obtain ⟨next, ha'⟩ := look_of_unfold ht
      rw [List.filter_cons, if_pos hsome, Option.toList_some, List.map_singleton, hkey a _ next ha',
        List.singleton_append]

/-- Everywhere in a tree, what is below a node is drawn as its children. -/
theorem all_of_unfold (hkey : ∀ a b next, look a = some (b, next) → key b = a)
    (h : unfold look fuel a = some (some t)) : t.All fun s => ∃ next, look (key s.label) = some (s.label, next) ∧
      s.children.map (fun c => key c.label) = next.filter fun c => (look c).isSome := by
  induction fuel generalizing a t with
  | zero => cases h
  | succ fuel ih =>
    rcases unfold_succ_eq_some.1 h with ⟨-, hnone⟩ | ⟨b, next, ts, hlook, hts, heq⟩
    · cases hnone
    cases heq
    refine all_node.2 ⟨⟨next, ?_, keys_of_forest hkey hts⟩, fun s hs => ?_⟩
    · rw [label_node, hkey a b next hlook]
      exact hlook
    · obtain ⟨c, -, hcs⟩ := (mem_forest_iff hts).1 hs
      exact ih hcs

theorem mem_keys_iff (hkey : ∀ a b next, look a = some (b, next) → key b = a)
    (h : unfold look fuel a = some (some t)) {x : α} : x ∈ t.labels.map key ↔ Below look a x := by
  rw [List.mem_map]
  constructor
  · rintro ⟨b, hb, rfl⟩
    obtain ⟨c, next, hac, hc⟩ := (mem_labels_iff h).1 hb
    rwa [hkey c b next hc]
  · intro hax
    obtain ⟨⟨b, next⟩, hx⟩ : ∃ entry, look x = some entry := by
      rcases Relation.ReflTransGen.cases_tail hax with rfl | ⟨p, -, b, next, -, -, hx⟩
      · obtain ⟨next, ha⟩ := look_of_unfold h
        exact ⟨_, ha⟩
      · exact Option.isSome_iff_exists.1 hx
    exact ⟨b, (mem_labels_iff h).2 ⟨x, next, hax, hx⟩, hkey x b next hx⟩

/-- Each node is shown once, if none has two parents. -/
theorem nodup_labels (hkey : ∀ a b next, look a = some (b, next) → key b = a) (ht : Tame look)
    (h : unfold look fuel a = some (some t)) : (t.labels.map key).Nodup := by
  induction fuel generalizing a t with
  | zero => cases h
  | succ fuel ih =>
    have hacyclic := not_onCycle_of_acc (acc_of_unfold h) .refl
    rcases unfold_succ_eq_some.1 h with ⟨-, hnone⟩ | ⟨b, next, ts, hlook, hts, heq⟩
    · cases hnone
    cases heq
    have hparent : ∀ c ∈ next, ∀ s, unfold look fuel c = some (some s) → IsParent look a c := by
      intro c hc s hs
      obtain ⟨next', hc'⟩ := look_of_unfold hs
      exact ⟨b, next, hlook, hc, by rw [hc']; rfl⟩
    rw [labels_node, List.map_cons, List.nodup_cons, hkey a b next hlook]
    refine ⟨fun hmem => ?_, nodup_forest hts (ht.2 a b next hlook) (fun c _ s hs => ih hs) ?_⟩
    · obtain ⟨e, he, hea⟩ := List.mem_map.1 hmem
      obtain ⟨s, hs, he⟩ := List.mem_flatMap.1 he
      obtain ⟨c, hc, hcs⟩ := (mem_forest_iff hts).1 hs
      have hca := (mem_keys_iff hkey hcs).1 (List.mem_map_of_mem he)
      rw [hea] at hca
      exact hacyclic (.head' (hparent c hc s hcs) hca)
    · intro c hc d hd hne s s' hs hs' x hx hx'
      have hpc := hparent c hc s hs
      have hpd := hparent d hd s' hs'
      rcases ht.below_or ((mem_keys_iff hkey hs).1 hx) ((mem_keys_iff hkey hs').1 hx') with hcd | hdc
      · exact hacyclic (ht.onCycle hpc hpd hne hcd)
      · exact hacyclic (ht.onCycle hpd hpc (Ne.symm hne) hdc)

/-- The same of a drawing of several nodes without a parent. -/
theorem nodup_roots (hkey : ∀ a b next, look a = some (b, next) → key b = a) (ht : Tame look)
    {roots : List α} {ts : List (Rose β)} (h : forest (unfold look fuel) roots = some ts)
    (hn : roots.Nodup) (hroots : ∀ r ∈ roots, NoParent look r) : ((ts.flatMap labels).map key).Nodup := by
  refine nodup_forest h hn (fun r _ t ht' => nodup_labels hkey ht ht') ?_
  have hapart : ∀ r ∈ roots, ∀ q, Below look q r → q = r := by
    intro r hr q hqr
    rcases Relation.ReflTransGen.cases_tail hqr with heq | ⟨p, -, hpr⟩
    · exact heq.symm
    · exact absurd hpr (hroots r hr p)
  intro r hr q hq hne t s ht' hs x hx hx'
  rcases ht.below_or ((mem_keys_iff hkey ht').1 hx) ((mem_keys_iff hkey hs).1 hx') with hrq | hqr
  · exact hne (hapart q hq r hrq)
  · exact hne (hapart r hr q hqr).symm

end Keys

end Rose
