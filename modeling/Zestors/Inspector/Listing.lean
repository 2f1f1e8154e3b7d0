import Zestors.Inspector.ProcessMap

/-!
# From the listing to the drawing

What the API server lists has a tree behind it, as long as every child that a supervisor names is
registered when the server looks: each process is in one layer, below the one supervisor that named it.
So when the inspector has forgotten everything else, it draws that tree, with each listed process once
(`tree_of_listing`).
-/

namespace Zestors.ApiServer
variable {sys : ActorSystem} {root : Name} {results results' : IndexMap Name Process}

/-- Whatever child is named is registered when it is looked up. -/
def Steady (sys : ActorSystem) : Prop :=
  ∀ k j name, ∀ child ∈ getChildren sys k name, sys.registered k j child.name = true

/-- A process comes from a layer, with the names of the children that it replied. -/
def Listed (sys : ActorSystem) (root : Name) (name : Name) (process : Process) : Prop :=
  ∃ n i desc, (layer sys root n).2[i]? = some desc ∧ desc.name = name ∧
    process.children = (getChildren sys ((layer sys root n).1 + i) name).map ChildDescription.name

theorem collect_values {k : ℕ} {pending children : List ChildDescription}
    (h : collect sys k (newChildren sys k pending) results = .ok (results', children)) (name : Name)
    (process : Process) (hget : results'.get? name = some process) :
    results.get? name = some process ∨ ∃ i desc, pending[i]? = some desc ∧ desc.name = name ∧
      process.children = (getChildren sys (k + i) name).map ChildDescription.name := by
  induction pending generalizing k results children with
  | nil => cases h; exact .inl hget
  | cons desc pending ih =>
    rw [newChildren, collect] at h
    cases hdesc : results.get? desc.name with
    | some existing => rw [hdesc] at h; cases h
    | none =>
      simp only [hdesc] at h
      cases hrest : collect sys (k + 1) (newChildren sys (k + 1) pending) (results.insert desc.name
          ⟨desc.cfg, sys.status k desc.name, (getChildren sys k desc.name).map ChildDescription.name⟩) with
      | error e => rw [hrest] at h; cases h
      | ok r =>
        rw [hrest] at h
        cases h
        rcases ih hrest with hget | ⟨i, desc', hi, hname, hchildren⟩
        · rw [IndexMap.get?_insert] at hget
          split_ifs at hget with heq
          · cases hget
            exact .inr ⟨0, desc, rfl, heq.symm, by rw [heq]; rfl⟩
          · exact .inl hget
        · refine .inr ⟨i + 1, desc', hi, hname, ?_⟩
          rw [hchildren, Nat.add_right_comm, Nat.add_assoc]

theorem traverse_values {fuel n : ℕ}
    (h : traverse sys fuel (layer sys root n).1 (layer sys root n).2 results = some (.ok results'))
    (hlisted : ∀ name process, results.get? name = some process → Listed sys root name process) :
    ∀ name process, results'.get? name = some process → Listed sys root name process := by
  induction fuel generalizing n results with
  | zero =>
    cases hlayer : (layer sys root n).2 with
    | nil => rw [hlayer] at h; cases h; exact hlisted
    | cons desc pending => rw [hlayer] at h; cases h
  | succ fuel ih =>
    cases hlayer : (layer sys root n).2 with
    | nil => rw [hlayer] at h; cases h; exact hlisted
    | cons desc pending =>
      rw [hlayer, traverse] at h
      rcases collect_newChildren (layer sys root n).1 (desc :: pending) results with
        ⟨results'', hok, -⟩ | ⟨process, herr, -⟩
      · rw [hok] at h
        have hnext : layer sys root (n + 1) = ((layer sys root n).1 + (desc :: pending).length,
            nextLayer sys (layer sys root n).1 (desc :: pending)) := by
          rw [layer, hlayer]
        refine ih (n := n + 1) (by rw [hnext]; exact h) fun name process hget => ?_
        rcases collect_values hok name process hget with hget | ⟨i, desc', hi, hname, hchildren⟩
        · exact hlisted name process hget
        · exact ⟨n, i, desc', by rw [hlayer]; exact hi, hname, hchildren⟩
      · rw [herr] at h
        cases h

/-! ## The tree behind a listing -/

theorem push_of_registered {k j : ℕ} {children : List ChildDescription}
    (h : ∀ j, ∀ child ∈ children, sys.registered k j child.name = true) : push sys k j children = children := by
  induction children generalizing j with
  | nil => rfl
  | cons child children ih =>
    rw [push, if_pos (h j child List.mem_cons_self), ih fun j c hc => h j c (List.mem_cons_of_mem child hc)]

theorem nextLayer_cons (h : Steady sys) (k : ℕ) (desc : ChildDescription) (pending : List ChildDescription) :
    nextLayer sys k (desc :: pending) = getChildren sys k desc.name ++ nextLayer sys (k + 1) pending := by
  rw [nextLayer, push_of_registered fun j => h k j desc.name]

theorem mem_nextLayer (h : Steady sys) {k : ℕ} {pending : List ChildDescription} {c : ChildDescription} :
    c ∈ nextLayer sys k pending ↔
      ∃ i desc, pending[i]? = some desc ∧ c ∈ getChildren sys (k + i) desc.name := by
  induction pending generalizing k with
  | nil => simp [nextLayer]
  | cons desc pending ih =>
    rw [nextLayer_cons h, List.mem_append, ih]
    constructor
    · rintro (hc | ⟨i, desc', hi, hc⟩)
      · exact ⟨0, desc, rfl, hc⟩
      · exact ⟨i + 1, desc', hi, by rwa [Nat.add_right_comm, Nat.add_assoc] at hc⟩
    · rintro ⟨i, desc', hi, hc⟩
      cases i with
      | zero => cases hi; exact .inl hc
      | succ i => exact .inr ⟨i, desc', hi, by rwa [Nat.add_right_comm, Nat.add_assoc]⟩

theorem children_sublist (h : Steady sys) {k i : ℕ} {pending : List ChildDescription} {desc : ChildDescription}
    (hi : pending[i]? = some desc) : (getChildren sys (k + i) desc.name).Sublist (nextLayer sys k pending) := by
  induction pending generalizing k i with
  | nil => cases hi
  | cons desc' pending ih =>
    rw [nextLayer_cons h]
    cases i with
    | zero => cases hi; exact List.sublist_append_left _ _
    | succ i =>
      rw [Nat.add_comm i 1, ← Nat.add_assoc]
      exact (ih (k := k + 1) hi).trans (List.sublist_append_right _ _)

theorem children_append_sublist (h : Steady sys) {k i j : ℕ} {pending : List ChildDescription}
    {desc desc' : ChildDescription} (hij : i < j) (hi : pending[i]? = some desc)
    (hj : pending[j]? = some desc') :
    (getChildren sys (k + i) desc.name ++ getChildren sys (k + j) desc'.name).Sublist
      (nextLayer sys k pending) := by
  induction pending generalizing k i j with
  | nil => cases hi
  | cons first pending ih =>
    rw [nextLayer_cons h]
    obtain ⟨j, rfl⟩ : ∃ n, j = n + 1 := ⟨j - 1, by omega⟩
    have hshift : ∀ n, k + (n + 1) = k + 1 + n := fun n => by omega
    cases i with
    | zero =>
      cases hi
      rw [hshift j]
      exact (List.Sublist.refl _).append (children_sublist h hj)
    | succ i =>
      rw [hshift i, hshift j]
      exact (ih (k := k + 1) (by omega) hi hj).trans (List.sublist_append_right _ _)

/-- `c` is one of the children that `p` names where it stands in the layers. -/
def Names (sys : ActorSystem) (root p c : Name) (n i : ℕ) : Prop :=
  ∃ desc, (layer sys root n).2[i]? = some desc ∧ desc.name = p ∧
    c ∈ (getChildren sys ((layer sys root n).1 + i) p).map ChildDescription.name

/-- Where the layers have no name twice. -/
structure Tree (sys : ActorSystem) (root : Name) (m : ℕ) : Prop where
  steady : Steady sys
  last : (layer sys root m).2 = []
  nodup : (reached sys root m).Nodup

namespace Tree
variable {m n n' i i' : ℕ} {p q c : Name}

theorem lt_of_mem (h : Tree sys root m) (hp : p ∈ (layer sys root n).2.map ChildDescription.name) : n < m := by
  by_contra hle
  have hnil := layer_add_eq_nil h.last (n - m)
  rw [Nat.add_sub_cancel' (by omega)] at hnil
  rw [hnil] at hp
  cases hp

theorem nodup_layer (h : Tree sys root m) (n : ℕ) : ((layer sys root n).2.map ChildDescription.name).Nodup := by
  by_cases hlt : n < m
  · exact (List.nodup_flatMap.1 h.nodup).1 n (List.mem_range.2 hlt)
  · have hnil := layer_add_eq_nil h.last (n - m)
    rw [Nat.add_sub_cancel' (by omega)] at hnil
    rw [hnil]
    exact List.nodup_nil

theorem depth_unique (h : Tree sys root m) (hp : p ∈ (layer sys root n).2.map ChildDescription.name)
    (hp' : p ∈ (layer sys root n').2.map ChildDescription.name) : n = n' := by
  have hpairwise := (List.nodup_flatMap.1 h.nodup).2
  rcases Nat.lt_trichotomy n n' with hlt | heq | hlt
  · have hdisjoint := List.pairwise_iff_getElem.1 hpairwise n n' (by simpa using h.lt_of_mem hp)
      (by simpa using h.lt_of_mem hp') hlt
    exact absurd hp' (hdisjoint (by simpa using hp) <| by simpa using ·)
  · exact heq
  · have hdisjoint := List.pairwise_iff_getElem.1 hpairwise n' n (by simpa using h.lt_of_mem hp')
      (by simpa using h.lt_of_mem hp) hlt
    exact absurd hp (hdisjoint (by simpa using hp') <| by simpa using ·)

theorem mem_of_names (h : Tree sys root m) (hc : Names sys root p c n i) :
    p ∈ (layer sys root n).2.map ChildDescription.name ∧
      c ∈ (layer sys root (n + 1)).2.map ChildDescription.name := by
  obtain ⟨desc, hi, rfl, hc⟩ := hc
  refine ⟨List.mem_map_of_mem (List.mem_of_getElem? hi), ?_⟩
  exact ((children_sublist h.steady hi).map _).subset hc

theorem parent_unique (h : Tree sys root m) (hp : Names sys root p c n i) (hq : Names sys root q c n' i') :
    p = q := by
  obtain rfl : n = n' := by
    have := h.depth_unique (h.mem_of_names hp).2 (h.mem_of_names hq).2
    omega
  obtain ⟨desc, hi, rfl, hc⟩ := hp
  obtain ⟨desc', hi', rfl, hc'⟩ := hq
  have hnodup : ((nextLayer sys (layer sys root n).1 (layer sys root n).2).map ChildDescription.name).Nodup :=
    h.nodup_layer (n + 1)
  rcases Nat.lt_trichotomy i i' with hlt | rfl | hlt
  · have hsub := (children_append_sublist h.steady (k := (layer sys root n).1) hlt hi hi').map
      ChildDescription.name
    rw [List.map_append] at hsub
    exact absurd hc' (List.disjoint_of_nodup_append (hnodup.sublist hsub) hc)
  · rw [hi] at hi'
    cases hi'
    rfl
  · have hsub := (children_append_sublist h.steady (k := (layer sys root n).1) hlt hi' hi).map
      ChildDescription.name
    rw [List.map_append] at hsub
    exact absurd hc (List.disjoint_of_nodup_append (hnodup.sublist hsub) hc')

/-- Whoever is in a later layer has been named in the one before. -/
theorem exists_names (h : Tree sys root m) (hc : c ∈ (layer sys root (n + 1)).2.map ChildDescription.name) :
    ∃ p i, Names sys root p c n i := by
  obtain ⟨child, hchild, rfl⟩ := List.mem_map.1 hc
  obtain ⟨i, desc, hi, hchild⟩ := (mem_nextLayer h.steady).1 hchild
  exact ⟨desc.name, i, desc, hi, rfl, List.mem_map_of_mem hchild⟩

end Tree

/-- A listing has the layers of a tree, up to the first one that is empty. -/
theorem exists_tree_of_getProcesses {fuel : ℕ} (hsteady : Steady sys)
    (h : getProcesses sys root fuel = some (.ok results)) :
    (∃ m, Tree sys root m ∧ results.keys = reached sys root m) ∧
      ∀ name process, results.get? name = some process → Listed sys root name process := by
  rw [getProcesses] at h
  by_cases hroot : sys.registered 0 0 root = true
  swap
  · rw [if_neg hroot] at h
    cases h
  rw [if_pos hroot] at h
  refine ⟨?_, traverse_values (n := 0) h fun name process hempty => by cases hempty⟩
  have hlong := traverse_mono h (Nat.le_add_right fuel (sys.names.card + 1))
  have hcard : sys.names.card <
      fuel + (sys.names.card + 1) + (IndexMap.empty : IndexMap Name Process).keys.length := by omega
  rcases traverse_layer (n := 0) hroot rfl hcard with ⟨results', m, hrun, hnil, hkeys⟩ | ⟨process, m, hrun, -⟩
  · cases hlong.symm.trans hrun
    exact ⟨m, ⟨hsteady, hnil, hkeys ▸ results.nodup_keys⟩, hkeys⟩
  · cases hlong.symm.trans hrun

end Zestors.ApiServer

namespace Zestors.Inspector

open ApiServer

variable {sys : ActorSystem} {root : Name} {m : ℕ} {look : Name → Option (ProcessMapEntry × List Name)}

/-- The entries that are there are those of the layers, each with the children that it has there. -/
structure Draws (sys : ActorSystem) (root : Name) (m : ℕ)
    (look : Name → Option (ProcessMapEntry × List Name)) : Prop where
  tree : Tree sys root m
  isSome : ∀ name, (look name).isSome = true ↔ name ∈ reached sys root m
  children : ∀ name entry next, look name = some (entry, next) → ∃ n i desc,
    (layer sys root n).2[i]? = some desc ∧ desc.name = name ∧
    next = (getChildren sys ((layer sys root n).1 + i) name).map ChildDescription.name

namespace Draws
variable {p c : Name}

theorem names_of_isParent (h : Draws sys root m look) (hp : Rose.IsParent look p c) :
    ∃ n i, Names sys root p c n i := by
  obtain ⟨entry, next, hlook, hc, -⟩ := hp
  obtain ⟨n, i, desc, hi, hname, rfl⟩ := h.children p entry next hlook
  exact ⟨n, i, desc, hi, hname, hc⟩

theorem tame (h : Draws sys root m look) : Rose.Tame look := by
  refine ⟨fun p q c hp hq => ?_, fun name entry next hlook => ?_⟩
  · obtain ⟨n, i, hp⟩ := h.names_of_isParent hp
    obtain ⟨n', i', hq⟩ := h.names_of_isParent hq
    exact h.tree.parent_unique hp hq
  · obtain ⟨n, i, desc, hi, rfl, rfl⟩ := h.children name entry next hlook
    exact (h.tree.nodup_layer (n + 1)).sublist ((children_sublist h.tree.steady hi).map _)

theorem depth_lt (h : Draws sys root m look) (hpc : Relation.TransGen (Rose.IsParent look) p c) :
    ∃ n n', n < n' ∧ p ∈ (layer sys root n).2.map ChildDescription.name ∧
      c ∈ (layer sys root n').2.map ChildDescription.name := by
  induction hpc with
  | single hp =>
    obtain ⟨n, i, hp⟩ := h.names_of_isParent hp
    exact ⟨n, n + 1, Nat.lt_succ_self n, h.tree.mem_of_names hp⟩
  | tail _ hp ih =>
    obtain ⟨n, n', hlt, hroot, hq⟩ := ih
    obtain ⟨n'', i, hp⟩ := h.names_of_isParent hp
    obtain ⟨hq', hc⟩ := h.tree.mem_of_names hp
    obtain rfl := h.tree.depth_unique hq hq'
    exact ⟨n, n' + 1, by omega, hroot, hc⟩

theorem not_onCycle (h : Draws sys root m look) (c : Name) : ¬ Rose.OnCycle look c := by
  intro hcycle
  obtain ⟨n, n', hlt, hn, hn'⟩ := h.depth_lt hcycle
  have := h.tree.depth_unique hn hn'
  omega

/-- Only the root is nobody's child. -/
theorem eq_root (h : Draws sys root m look) (hsome : (look c).isSome = true) (hroot : Rose.NoParent look c) :
    c = root := by
  obtain ⟨n, -, hc⟩ := List.mem_flatMap.1 ((h.isSome c).1 hsome)
  cases n with
  | zero => exact List.mem_singleton.1 hc
  | succ n =>
    obtain ⟨p, i, hp⟩ := h.tree.exists_names hc
    have hpmem := (h.tree.mem_of_names hp).1
    obtain ⟨⟨entry, next⟩, hlook⟩ := Option.isSome_iff_exists.1 ((h.isSome p).2
      (List.mem_flatMap.2 ⟨n, List.mem_range.2 (h.tree.lt_of_mem hpmem), hpmem⟩))
    refine absurd ?_ (hroot p)
    obtain ⟨n', i', desc', hi', hname', rfl⟩ := h.children p entry next hlook
    obtain ⟨desc, hi, hname, hcm⟩ := hp
    have hmem' : p ∈ (layer sys root n').2.map ChildDescription.name :=
      hname' ▸ List.mem_map_of_mem (List.mem_of_getElem? hi')
    obtain rfl := h.tree.depth_unique hmem' hpmem
    have hlt := (List.getElem?_eq_some_iff.1 hi).1
    have hlt' := (List.getElem?_eq_some_iff.1 hi').1
    obtain rfl : i' = i := by
      have hnodup := h.tree.nodup_layer n'
      have hlen : i' < ((layer sys root n').2.map ChildDescription.name).length := by simpa using hlt'
      have hlen' : i < ((layer sys root n').2.map ChildDescription.name).length := by simpa using hlt
      refine (@List.Nodup.getElem_inj_iff _ _ hnodup i' hlen i hlen').1 ?_
      rw [List.getElem_map, List.getElem_map, (List.getElem?_eq_some_iff.1 hi).2,
        (List.getElem?_eq_some_iff.1 hi').2, hname, hname']
    exact ⟨entry, _, hlook, hcm, hsome⟩

theorem noParent_root (h : Draws sys root m look) : Rose.NoParent look root := by
  intro p hp
  obtain ⟨n, i, hp⟩ := h.names_of_isParent hp
  have hzero : root ∈ (layer sys root 0).2.map ChildDescription.name := List.mem_singleton_self root
  have := h.tree.depth_unique hzero (h.tree.mem_of_names hp).2
  omega

theorem isSome_root (h : Draws sys root m look) : (look root).isSome = true := by
  have hzero : root ∈ (layer sys root 0).2.map ChildDescription.name := List.mem_singleton_self root
  exact (h.isSome root).2 (List.mem_flatMap.2 ⟨0, List.mem_range.2 (h.tree.lt_of_mem hzero), hzero⟩)

/-- All there is is below the root. -/
theorem below_root_iff (h : Draws sys root m look) {nodes : Finset Name}
    (hnodes : ∀ x, (look x).isSome = true → x ∈ nodes) :
    Rose.Below look root c ↔ (look c).isSome = true := by
  constructor
  · intro hbelow
    rcases Relation.ReflTransGen.cases_tail hbelow with rfl | ⟨p, -, _, _, -, -, hc⟩
    · exact h.isSome_root
    · exact hc
  · intro hsome
    obtain ⟨r, hr, hbelow⟩ := Rose.exists_noParent hnodes fun p (_ : Rose.Below look p c) => h.not_onCycle p
    have hrsome : (look r).isSome = true := by
      rcases Relation.ReflTransGen.cases_head hbelow with rfl | ⟨d, ⟨_, _, hr', -⟩, -⟩
      · exact hsome
      · rw [hr']
        rfl
    rwa [h.eq_root hrsome hr] at hbelow

end Draws

namespace MyApp
variable {results : IndexMap Name Process} {msgs : List ApiMessage} {clock : Name → Instant} {now : Instant}

/-- What the inspector shows once it has forgotten what the last listing does not have. -/
theorem draws_of_listing (htree : Tree sys root m) (hkeys : results.keys = reached sys root m)
    (hlisted : ∀ name process, results.get? name = some process → Listed sys root name process)
    (hgone : ∀ name entry, (run (msgs ++ [.processesUpdate clock (.ok results)])).map.get? name = some entry →
      results.get? name = none → entry.isVisible now = false) :
    Draws sys root m (shown (msgs ++ [.processesUpdate clock (.ok results)]) now) := by
  have hmap : (run (msgs ++ [.processesUpdate clock (.ok results)])).map =
      (run msgs).map.merge clock results := by
    rw [run_concat]
    rfl
  have hentry : ∀ name process, results.get? name = some process → ∃ entry,
      shown (msgs ++ [.processesUpdate clock (.ok results)]) now name = some (entry, process.children) := by
    intro name process hget
    obtain ⟨entry, hm, hsince, ⟨-, -, hchildren⟩, -⟩ :=
      ProcessMap.get?_merge_of_some (run msgs).map clock hget
    refine ⟨entry, ProcessMap.look_eq_some.2 ⟨by rw [hmap]; exact hm, ?_, hchildren⟩⟩
    unfold ProcessMapEntry.isVisible
    rw [hsince]
  have hresult : ∀ name, (shown (msgs ++ [.processesUpdate clock (.ok results)]) now name).isSome = true →
      ∃ process, results.get? name = some process := by
    intro name hsome
    obtain ⟨⟨entry, next⟩, hlook⟩ := Option.isSome_iff_exists.1 hsome
    obtain ⟨hm, hvisible, -⟩ := ProcessMap.look_eq_some.1 hlook
    cases hget : results.get? name with
    | some process => exact ⟨process, rfl⟩
    | none =>
      rw [hgone name entry hm hget] at hvisible
      cases hvisible
  refine ⟨htree, fun name => ⟨fun hsome => ?_, fun hmem => ?_⟩, fun name entry next hlook => ?_⟩
  · obtain ⟨process, hget⟩ := hresult name hsome
    rw [← hkeys, IndexMap.mem_keys, hget]
    rfl
  · rw [← hkeys, IndexMap.mem_keys] at hmem
    obtain ⟨process, hget⟩ := Option.isSome_iff_exists.1 hmem
    obtain ⟨entry, hlook⟩ := hentry name process hget
    rw [hlook]
    rfl
  · obtain ⟨process, hget⟩ := hresult name (by rw [hlook]; rfl)
    obtain ⟨entry', hlook'⟩ := hentry name process hget
    rw [hlook] at hlook'
    cases hlook'
    obtain ⟨n, i, desc, hi, hname, hchildren⟩ := hlisted name process hget
    exact ⟨n, i, desc, hi, hname, hchildren⟩

theorem roots_of_draws (h : Draws sys root m (shown msgs now)) : (run msgs).map.roots now = [root] := by
  refine List.perm_singleton.1 ((List.perm_ext_iff_of_nodup (ProcessMap.nodup_roots _ now)
    (List.nodup_singleton root)).2 fun r => ?_)
  rw [ProcessMap.mem_roots, List.mem_singleton]
  constructor
  · rintro ⟨hsome, hr⟩
    exact h.eq_root hsome hr
  · rintro rfl
    exact ⟨h.isSome_root, h.noParent_root⟩

/-- The server lists the processes, with every child registered when it looks, and the inspector merges the
listing. Once it has forgotten what is not there any more, it draws one tree: that of the root, in which
each listed process is shown once. -/
theorem tree_of_listing {fuel : ℕ} (hlisting : getProcesses sys root fuel = some (.ok results))
    (hsteady : Steady sys)
    (hgone : ∀ name entry, (run (msgs ++ [.processesUpdate clock (.ok results)])).map.get? name = some entry →
      results.get? name = none → entry.isVisible now = false) :
    ∃ fuel t, (run (msgs ++ [.processesUpdate clock (.ok results)])).map.tree now fuel = some [t] ∧
      t.label.name = root ∧ (t.labels.map ProcessMapEntry.name).Perm results.keys := by
  obtain ⟨⟨m, htree, hkeys⟩, hlisted⟩ := exists_tree_of_getProcesses hsteady hlisting
  have hdraws := draws_of_listing htree hkeys hlisted hgone
  generalize msgs ++ [.processesUpdate clock (.ok results)] = msgs' at hdraws ⊢
  obtain ⟨fuel', ts, hts⟩ := ProcessMap.exists_tree_iff.2 fun r c _ _ => hdraws.not_onCycle c
  have hforest := hts
  rw [ProcessMap.tree, ProcessMap.buildTree_eq_unfold, roots_of_draws hdraws] at hforest
  obtain ⟨result, ts', hresult, hnil, rfl⟩ := Rose.forest_cons_eq_some.1 hforest
  cases hnil
  obtain ⟨t, rfl⟩ := Rose.exists_tree_of_unfold hresult hdraws.isSome_root
  obtain ⟨next, hlook⟩ := Rose.look_of_unfold hresult
  refine ⟨fuel', t, hts, name_of_shown hlook, ?_⟩
  have hnodup := Rose.nodup_labels (fun _ _ _ hlook => name_of_shown hlook) hdraws.tame hresult
  refine (List.perm_ext_iff_of_nodup hnodup results.nodup_keys).2 fun x => ?_
  rw [Rose.mem_keys_iff (fun _ _ _ hlook => name_of_shown hlook) hresult, hkeys, ← hdraws.isSome]
  exact hdraws.below_root_iff fun x => ProcessMap.mem_keys_of_look

def sampleNames : List Name := [⟨"root"⟩, ⟨"a"⟩, ⟨"b"⟩]

/-- A root supervisor with two children, the second of which does not answer. -/
def sampleReply (name : Name) : Option (List ChildDescription) :=
  if name = ⟨"root"⟩ then some [⟨⟨"a"⟩, defaultConfig⟩, ⟨⟨"b"⟩, defaultConfig⟩]
  else if name = ⟨"a"⟩ then some []
  else none

def sampleSystem : ActorSystem where
  names := sampleNames.toFinset
  registered _ _ name := sampleNames.contains name
  mem_names _ _ _ h := List.mem_toFinset.2 (List.contains_iff_mem.1 h)
  status _ _ := .running
  reply _ name := sampleReply name

theorem steady_sampleSystem : Steady sampleSystem := by
  intro k j name child hchild
  have hchild : child ∈ (sampleReply name).getD [] := hchild
  show sampleNames.contains child.name = true
  unfold sampleReply at hchild
  split_ifs at hchild
  · simp only [Option.getD_some, List.mem_cons, List.not_mem_nil, or_false] at hchild
    rcases hchild with rfl | rfl <;> decide
  · cases hchild
  · cases hchild

/-- What the server listed before: a process that is gone by now. -/
def sampleEarlier : ApiMessage :=
  .processesUpdate (fun _ => 0) (.ok (IndexMap.empty.insert ⟨"c"⟩ ⟨defaultConfig, .running, []⟩))

/-- A process that the second listing does not have is drawn for ten seconds. -/
theorem tree_of_listing_sampleSystem : ∃ results : IndexMap Name Process,
    getProcesses sampleSystem ⟨"root"⟩ 4 = some (.ok results) ∧
    results.keys = [⟨"root"⟩, ⟨"a"⟩, ⟨"b"⟩] ∧
    (run ([sampleEarlier] ++ [.processesUpdate (fun _ => 5) (.ok results)])).map.keys =
      [⟨"c"⟩, ⟨"root"⟩, ⟨"a"⟩, ⟨"b"⟩] ∧
    ∃ fuel t,
      (run ([sampleEarlier] ++ [.processesUpdate (fun _ => 5) (.ok results)])).map.tree 10000000006 fuel =
        some [t] ∧
      t.label.name = ⟨"root"⟩ ∧ (t.labels.map ProcessMapEntry.name).Perm results.keys := by
  obtain ⟨results, hlisting, hkeys, hmap⟩ : ∃ results : IndexMap Name Process,
      getProcesses sampleSystem ⟨"root"⟩ 4 = some (.ok results) ∧
        results.keys = [⟨"root"⟩, ⟨"a"⟩, ⟨"b"⟩] ∧
        (run ([sampleEarlier] ++ [.processesUpdate (fun _ => 5) (.ok results)])).map.keys =
          [⟨"c"⟩, ⟨"root"⟩, ⟨"a"⟩, ⟨"b"⟩] := by
    have hrun : ((getProcesses sampleSystem ⟨"root"⟩ 4).map fun r => r.toOption.map fun results =>
        (results.keys, (run ([sampleEarlier] ++ [.processesUpdate (fun _ => 5) (.ok results)])).map.keys)) =
        some (some ([⟨"root"⟩, ⟨"a"⟩, ⟨"b"⟩], [⟨"c"⟩, ⟨"root"⟩, ⟨"a"⟩, ⟨"b"⟩])) := by decide +kernel
    obtain ⟨outcome, houtcome, hkeys⟩ := Option.map_eq_some_iff.1 hrun
    cases outcome with
    | error e => cases hkeys
    | ok results =>
      obtain ⟨hkeys, hmap⟩ := Prod.mk.inj (Option.some.inj hkeys)
      exact ⟨results, houtcome, hkeys, hmap⟩
  refine ⟨results, hlisting, hkeys, hmap, tree_of_listing hlisting steady_sampleSystem ?_⟩
  intro name entry hentry hnone
  have hentry : ((run [sampleEarlier]).map.merge (fun _ => 5) results).get? name = some entry := hentry
  rw [ProcessMap.get?_merge_of_none hnone] at hentry
  obtain ⟨old, hold, rfl⟩ := Option.map_eq_some_iff.1 hentry
  have hold : old.outdatedSince = none := by
    have hget : (ProcessMap.put .empty ⟨"c"⟩ ⟨defaultConfig, .running, []⟩).get? name = some old := hold
    rw [ProcessMap.get?_put] at hget
    split_ifs at hget
    · cases hget
      rfl
    · cases hget
  unfold ProcessMapEntry.isVisible
  simp only [hold]
  decide

end MyApp

end Zestors.Inspector
