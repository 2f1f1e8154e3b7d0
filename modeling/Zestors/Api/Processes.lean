import Mathlib.Data.Finset.Card
import Zestors.ActorStatus
import Zestors.Lib.IndexMap
import Zestors.Supervisor.Supervisee

/-!
# The list of processes

`get_processes` asks the root supervisor for its children, then those for theirs, layer by layer, and
gives up when it comes to a name again. Whatever the supervisors say, and whenever they change their
mind, it ends after at most one layer more than there are registered names, with the names that it
reached, each of them once, or with an error (`getProcesses_spec`).
-/

namespace Zestors.ApiServer

/-- What the traversal meets. The queries are numbered from 1 on, and what is looked up in the registry
after one of them is numbered from 0 on; the lookup of the root comes before them. Any of it may change
from one time to the next, but only finitely many names can be registered. -/
structure ActorSystem where
  names : Finset Name
  registered : ℕ → ℕ → Name → Bool
  mem_names : ∀ k j name, registered k j name = true → name ∈ names
  status : ℕ → Name → ActorStatus
  /-- The reply to a `GetChildren`, unless it fails or times out. -/
  reply : ℕ → Name → Option (List ChildDescription)

/-- What the result has under a name. -/
structure Process where
  cfg : ChildConfig
  status : ActorStatus
  children : List Name
deriving DecidableEq

inductive ProcessesError
  /-- "Root supervisor not found in registry" -/
  | rootNotFound
  /-- "Supervision tree is circular or changed during traversal." -/
  | circular (duplicateProcess : Process)
deriving DecidableEq

/-- `ChildConfig::default`. -/
def defaultConfig : ChildConfig := ⟨.always, none, 5000000000, 5000000000, 5000000000⟩

section
variable (sys : ActorSystem)

def getChildren (k : ℕ) (name : Name) : List ChildDescription := (sys.reply k name).getD []

/-- `new_children`: the pending processes, in order, with what they reply. -/
def newChildren : ℕ → List ChildDescription → List (ChildDescription × List ChildDescription)
  | _, [] => []
  | k, desc :: pending => (desc, getChildren sys k desc.name) :: newChildren (k + 1) pending

/-- The children that are registered. -/
def push (k : ℕ) : ℕ → List ChildDescription → List ChildDescription
  | _, [] => []
  | j, child :: children =>
    if sys.registered k j child.name then child :: push k (j + 1) children else push k (j + 1) children

/-- Puts the answers into the results. What comes out besides is pending. -/
def collect : ℕ → List (ChildDescription × List ChildDescription) → IndexMap Name Process →
    Except ProcessesError (IndexMap Name Process × List ChildDescription)
  | _, [], results => .ok (results, [])
  | k, (desc, children) :: answers, results =>
    match results.get? desc.name with
    | some existing => .error (.circular existing)
    | none =>
      (collect (k + 1) answers (results.insert desc.name
        ⟨desc.cfg, sys.status k desc.name, children.map ChildDescription.name⟩)).map
          fun r => (r.1, push sys k 0 children ++ r.2)

/-- The loop, with `fuel` layers at most. -/
def traverse : ℕ → ℕ → List ChildDescription → IndexMap Name Process →
    Option (Except ProcessesError (IndexMap Name Process))
  | _, _, [], results => some (.ok results)
  | 0, _, _ :: _, _ => none
  | fuel + 1, k, desc :: pending, results =>
    match collect sys k (newChildren sys k (desc :: pending)) results with
    | .error e => some (.error e)
    | .ok (results, children) => traverse fuel (k + (desc :: pending).length) children results

def getProcesses (root : Name) (fuel : ℕ) : Option (Except ProcessesError (IndexMap Name Process)) :=
  if sys.registered 0 0 root then traverse sys fuel 1 [⟨root, defaultConfig⟩] .empty
  else some (.error .rootNotFound)

/-! ## What is reached -/

/-- The registered children of these processes. -/
def nextLayer : ℕ → List ChildDescription → List ChildDescription
  | _, [] => []
  | k, desc :: layer => push sys k 0 (getChildren sys k desc.name) ++ nextLayer (k + 1) layer

/-- The processes that are `n` steps away from the root, and the number of the first query for them. -/
def layer (root : Name) : ℕ → ℕ × List ChildDescription
  | 0 => (1, [⟨root, defaultConfig⟩])
  | n + 1 =>
    ((layer root n).1 + (layer root n).2.length, nextLayer sys (layer root n).1 (layer root n).2)

/-- The names that are reached in the first `n` layers, as often as they are. -/
def reached (root : Name) (n : ℕ) : List Name :=
  (List.range n).flatMap fun i => (layer sys root i).2.map ChildDescription.name

end

variable {sys : ActorSystem} {root : Name} {results : IndexMap Name Process}

theorem reached_succ (n : ℕ) :
    reached sys root (n + 1) = reached sys root n ++ (layer sys root n).2.map ChildDescription.name := by
  rw [reached, List.range_succ, List.flatMap_append, List.flatMap_singleton, reached]

theorem layer_add_eq_nil {n : ℕ} (h : (layer sys root n).2 = []) (j : ℕ) :
    (layer sys root (n + j)).2 = [] := by
  induction j with
  | zero => exact h
  | succ j ih =>
    change nextLayer sys _ (layer sys root (n + j)).2 = []
    rw [ih, nextLayer]

theorem mem_names_of_push {k j : ℕ} {children : List ChildDescription} :
    ∀ child ∈ push sys k j children, child.name ∈ sys.names := by
  induction children generalizing j with
  | nil =>
    intro child h
    cases h
  | cons child children ih =>
    rw [push]
    split_ifs with hreg
    · exact List.forall_mem_cons.2 ⟨sys.mem_names k j child.name hreg, ih⟩
    · exact ih

theorem mem_names_of_nextLayer {k : ℕ} {pending : List ChildDescription} :
    ∀ child ∈ nextLayer sys k pending, child.name ∈ sys.names := by
  induction pending generalizing k with
  | nil =>
    intro child h
    cases h
  | cons desc pending ih => exact List.forall_mem_append.2 ⟨mem_names_of_push, ih⟩

theorem mem_names_of_layer (hroot : sys.registered 0 0 root = true) (n : ℕ) :
    ∀ desc ∈ (layer sys root n).2, desc.name ∈ sys.names := by
  cases n with
  | zero => exact List.forall_mem_singleton.2 (sys.mem_names 0 0 root hroot)
  | succ n => exact mem_names_of_nextLayer

theorem mem_names_of_reached (hroot : sys.registered 0 0 root = true) (n : ℕ) :
    ∀ name ∈ reached sys root n, name ∈ sys.names := by
  intro name hname
  obtain ⟨i, -, hname⟩ := List.mem_flatMap.1 hname
  obtain ⟨desc, hdesc, rfl⟩ := List.mem_map.1 hname
  exact mem_names_of_layer hroot i desc hdesc

/-- A layer is put into the results, and the next one is pending, unless one of its names is there. -/
theorem collect_newChildren (k : ℕ) (pending : List ChildDescription) (results : IndexMap Name Process) :
    (∃ results', collect sys k (newChildren sys k pending) results = .ok (results', nextLayer sys k pending) ∧
      results'.keys = results.keys ++ pending.map ChildDescription.name) ∨
    ∃ process, collect sys k (newChildren sys k pending) results = .error (.circular process) ∧
      ¬ (results.keys ++ pending.map ChildDescription.name).Nodup := by
  induction pending generalizing k results with
  | nil => exact .inl ⟨results, rfl, (List.append_nil _).symm⟩
  | cons desc pending ih =>
    rw [newChildren, collect, List.map_cons]
    cases hget : results.get? desc.name with
    | some existing =>
      have hmem : desc.name ∈ results.keys := IndexMap.mem_keys.2 (by rw [hget]; rfl)
      refine .inr ⟨existing, rfl, fun hn => ?_⟩
      exact List.disjoint_of_nodup_append hn hmem List.mem_cons_self
    | none =>
      have hmem : desc.name ∉ results.keys := by
        rw [IndexMap.mem_keys, hget]
        exact Bool.false_ne_true
      have hkeys : ∀ process, (results.insert desc.name process).keys = results.keys ++ [desc.name] := by
        intro process
        rw [IndexMap.keys_insert, if_neg hmem]
      dsimp only
      rcases ih (k + 1) (results.insert desc.name ⟨desc.cfg, sys.status k desc.name,
        (getChildren sys k desc.name).map ChildDescription.name⟩) with ⟨results', hok, hkeys'⟩ | ⟨p, herr, hdup⟩
      · refine .inl ⟨results', ?_, ?_⟩
        · rw [hok]
          rfl
        · rw [hkeys', hkeys, List.append_assoc, List.singleton_append]
      · refine .inr ⟨p, ?_, ?_⟩
        · rw [herr]
          rfl
        · rwa [hkeys, List.append_assoc, List.singleton_append] at hdup

/-- With what the first `n` layers brought, the loop ends before there are more names than there can
be: every layer that is not empty brings another one. -/
theorem traverse_layer (hroot : sys.registered 0 0 root = true) {fuel n : ℕ}
    (hkeys : results.keys = reached sys root n) (hfuel : sys.names.card < fuel + results.keys.length) :
    (∃ results' m, traverse sys fuel (layer sys root n).1 (layer sys root n).2 results = some (.ok results') ∧
      (layer sys root m).2 = [] ∧ results'.keys = reached sys root m) ∨
    ∃ process m, traverse sys fuel (layer sys root n).1 (layer sys root n).2 results =
      some (.error (.circular process)) ∧ ¬ (reached sys root m).Nodup := by
  induction fuel generalizing n results with
  | zero =>
    have hcard : results.keys.length ≤ sys.names.card := by
      rw [← List.toFinset_card_of_nodup results.nodup_keys]
      refine Finset.card_le_card fun name hname => ?_
      rw [List.mem_toFinset, hkeys] at hname
      exact mem_names_of_reached hroot n name hname
    omega
  | succ fuel ih =>
    cases hlayer : (layer sys root n).2 with
    | nil => exact .inl ⟨results, n, rfl, hlayer, hkeys⟩
    | cons desc pending =>
      have hsucc : reached sys root (n + 1) = _ := reached_succ n
      rw [hlayer, ← hkeys] at hsucc
      have hnext : (layer sys root (n + 1)) =
          ((layer sys root n).1 + (desc :: pending).length,
            nextLayer sys (layer sys root n).1 (desc :: pending)) := by
        rw [layer, hlayer]
      rw [traverse]
      rcases collect_newChildren (layer sys root n).1 (desc :: pending) results with
        ⟨results', hok, hkeys'⟩ | ⟨process, herr, hdup⟩
      · have hlonger : results.keys.length < results'.keys.length := by
          rw [hkeys', List.length_append, List.map_cons, List.length_cons]
          omega
        have hrest := ih (hkeys'.trans hsucc.symm) (by omega)
        rw [hnext] at hrest
        rw [hok]
        exact hrest
      · rw [herr]
        exact .inr ⟨process, n + 1, rfl, hsucc ▸ hdup⟩

theorem traverse_mono {fuel fuel' k : ℕ} {pending : List ChildDescription}
    {outcome : Except ProcessesError (IndexMap Name Process)}
    (h : traverse sys fuel k pending results = some outcome) (hle : fuel ≤ fuel') :
    traverse sys fuel' k pending results = some outcome := by
  induction fuel generalizing fuel' k pending results with
  | zero =>
    cases pending with
    | nil => rw [traverse] at h ⊢; exact h
    | cons desc pending => cases h
  | succ fuel ih =>
    cases pending with
    | nil => rw [traverse] at h ⊢; exact h
    | cons desc pending =>
      obtain ⟨fuel', rfl⟩ : ∃ n, fuel' = n + 1 := ⟨fuel' - 1, by omega⟩
      rw [traverse] at h ⊢
      cases hcollect : collect sys k (newChildren sys k (desc :: pending)) results with
      | error e => rw [hcollect] at h; exact h
      | ok r =>
        rw [hcollect] at h
        exact ih h (by omega)

/-- After a layer without processes, the names that were reached are all there are. -/
theorem mem_reached_iff {m : ℕ} (h : (layer sys root m).2 = []) (name : Name) :
    name ∈ reached sys root m ↔ ∃ n, ∃ desc ∈ (layer sys root n).2, desc.name = name := by
  rw [reached, List.mem_flatMap]
  constructor
  · rintro ⟨n, -, hname⟩
    exact ⟨n, List.mem_map.1 hname⟩
  · rintro ⟨n, desc, hdesc, hname⟩
    refine ⟨n, List.mem_range.2 ?_, List.mem_map.2 ⟨desc, hdesc, hname⟩⟩
    by_contra hle
    have hnil := layer_add_eq_nil h (n - m)
    rw [Nat.add_sub_cancel' (by omega)] at hnil
    rw [hnil] at hdesc
    cases hdesc

/-- The traversal ends. It has the names that were reached, all of them and each once, or it fails: on a
name that was reached twice, or on a root that is not registered. -/
theorem getProcesses_spec (sys : ActorSystem) (root : Name) :
    ∃ outcome, (∀ fuel, sys.names.card < fuel → getProcesses sys root fuel = some outcome) ∧
      ((∃ results m, outcome = .ok results ∧ (layer sys root m).2 = [] ∧ results.keys = reached sys root m ∧
        ∀ name, name ∈ results.keys ↔ ∃ n, ∃ desc ∈ (layer sys root n).2, desc.name = name) ∨
      (∃ process m, outcome = .error (.circular process) ∧ ¬ (reached sys root m).Nodup) ∨
      outcome = .error .rootNotFound ∧ sys.registered 0 0 root = false) := by
  cases hroot : sys.registered 0 0 root with
  | false =>
    refine ⟨.error .rootNotFound, fun fuel _ => ?_, .inr (.inr ⟨rfl, rfl⟩)⟩
    rw [getProcesses, hroot, if_neg Bool.false_ne_true]
  | true =>
    have hget : ∀ fuel, getProcesses sys root fuel =
        traverse sys fuel (layer sys root 0).1 (layer sys root 0).2 .empty := by
      intro fuel
      rw [getProcesses, if_pos hroot, layer]
    have hkeys : (IndexMap.empty : IndexMap Name Process).keys = reached sys root 0 := rfl
    have hcard : sys.names.card < sys.names.card + 1 + (IndexMap.empty : IndexMap Name Process).keys.length := by
      omega
    rcases traverse_layer hroot hkeys hcard with
      ⟨results, m, hrun, hnil, hkeys⟩ | ⟨process, m, hrun, hdup⟩
    · refine ⟨.ok results, fun fuel hfuel => (hget fuel).trans (traverse_mono hrun hfuel), .inl ?_⟩
      refine ⟨results, m, rfl, hnil, hkeys, fun name => ?_⟩
      rw [hkeys]
      exact mem_reached_iff hnil name
    · refine ⟨.error (.circular process), fun fuel hfuel => (hget fuel).trans (traverse_mono hrun hfuel), ?_⟩
      exact .inr (.inl ⟨process, m, rfl, hdup⟩)

/-- Nothing is registered. -/
def emptySystem : ActorSystem where
  names := ∅
  registered _ _ _ := false
  mem_names _ _ _ h := absurd h Bool.false_ne_true
  status _ _ := .running
  reply _ _ := none

theorem not_listed_or_circular :
    ¬ ∀ sys root, ∃ outcome, (∃ fuel, getProcesses sys root fuel = some outcome) ∧
      ((∃ results m, outcome = .ok results ∧ results.keys = reached sys root m) ∨
        ∃ process m, outcome = .error (.circular process) ∧ ¬ (reached sys root m).Nodup) := by
  intro h
  obtain ⟨outcome, ⟨fuel, hrun⟩, houtcome⟩ := h emptySystem ⟨"root"⟩
  cases hrun
  rcases houtcome with ⟨results, m, hok, -⟩ | ⟨process, m, herr, -⟩
  · cases hok
  · cases herr

end Zestors.ApiServer
