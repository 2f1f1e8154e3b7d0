import Mathlib.Data.List.Sort
import Zestors.Lib.BinarySearch
import Zestors.Lib.IndexMap
import Zestors.Messaging.Receiving

/-!
# The messages that a node accepts

`Handlers` has two indexes: by the id of a message, and by its Rust type. Two queries tell which messages
an actor accepts, and both go through `registered_ids`: one returns that list, and the other searches
it by bisection. They agree, whatever was registered before (`accepts_answers_agree`): an id in the
list is the id of a type in the second index, and what is there was put there by `insert`.
-/

namespace Zestors.Messaging

/-- A handler, and the type it was registered for. -/
structure Registered (τ : Type) where
  handler : HandlerKind
  typeId : τ

/-- `τ` are the message types and `ι` the ids, of which the order is all that matters here. -/
structure Handlers (τ ι : Type) where
  byId : IndexMap ι (Registered τ)
  byType : IndexMap τ ι

/-- The panic of `Handlers::claim`: the id, and the two types that claim it. -/
structure ClaimedByTwo (τ ι : Type) where
  id : ι
  taken : τ
  type : τ
deriving DecidableEq

/-- `insert::<M>()` or `insert_op::<M>()`. -/
inductive Registration (τ : Type)
  | insert (type : τ)
  | insertOp (type : τ)
deriving DecidableEq

def Registration.type {τ : Type} : Registration τ → τ
  | insert type | insertOp type => type

namespace Handlers
variable {τ ι : Type} [DecidableEq τ] [LinearOrder ι] (stableId : τ → ι)

def empty : Handlers τ ι := ⟨.empty, .empty⟩

def claim (h : Handlers τ ι) (type : τ) (handler : HandlerKind) :
    Except (ClaimedByTwo τ ι) (Handlers τ ι) :=
  match h.byId.get? (stableId type) with
  | some registered =>
    if registered.typeId = type then
      .ok { h with byId := h.byId.insert (stableId type) ⟨handler, type⟩ }
    else .error ⟨stableId type, registered.typeId, type⟩
  | none => .ok { h with byId := h.byId.insert (stableId type) ⟨handler, type⟩ }

def insert (h : Handlers τ ι) (type : τ) : Except (ClaimedByTwo τ ι) (Handlers τ ι) := do
  let h ← h.claim stableId type .typed
  .ok { h with byType := h.byType.insert type (stableId type) }

def insertOp (h : Handlers τ ι) (type : τ) : Except (ClaimedByTwo τ ι) (Handlers τ ι) :=
  h.claim stableId type .builtin

def register (h : Handlers τ ι) : Registration τ → Except (ClaimedByTwo τ ι) (Handlers τ ι)
  | .insert type => h.insert stableId type
  | .insertOp type => h.insertOp stableId type

def registerAll (h : Handlers τ ι) :
    List (Registration τ) → Except (ClaimedByTwo τ ι) (Handlers τ ι)
  | [] => .ok h
  | r :: rs => do
    let h ← h.register stableId r
    h.registerAll rs

/-- `Handlers::new`, where `ops` are the operations that `ops::register` puts in. -/
def new (ops : List τ) : Except (ClaimedByTwo τ ι) (Handlers τ ι) :=
  empty.registerAll stableId (ops.map .insertOp)

def get (h : Handlers τ ι) (id : ι) : Option HandlerKind := (h.byId.get? id).map Registered.handler

/-- `members` are the types that the actor's interface has. -/
def registeredIds (h : Handlers τ ι) (members : List τ) : List ι :=
  (members.filterMap h.byType.get?).mergeSort fun a b => decide (a ≤ b)

def acceptedIds (h : Handlers τ ι) (members : List τ) : List ι := h.registeredIds members

def acceptsIds (h : Handlers τ ι) (members : List τ) (ids : List ι) : Bool :=
  let accepted := h.registeredIds members
  ids.all fun id => (binarySearch accepted id).isOk

/-! ## What the indexes hold -/

/-- What the two indexes hold after the registrations `rs`. -/
structure Indexed (rs : List (Registration τ)) (h : Handlers τ ι) : Prop where
  held : ∀ r ∈ rs, ∃ taken, h.byId.get? (stableId r.type) = some taken ∧ taken.typeId = r.type
  holder : ∀ id taken, h.byId.get? id = some taken →
    stableId taken.typeId = id ∧ ∃ r ∈ rs, r.type = taken.typeId
  listed : ∀ type id, h.byType.get? type = some id ↔ .insert type ∈ rs ∧ stableId type = id

variable {stableId} {h h' : Handlers τ ι} {rs rs' : List (Registration τ)} {r : Registration τ}

theorem indexed_empty : Indexed stableId [] (empty : Handlers τ ι) where
  held r hr := by cases hr
  holder id taken h := by cases h
  listed type id := by
    refine ⟨fun h => ?_, fun h => ?_⟩
    · cases h
    · cases h.1

/-- A claim that does not panic puts the type under its id, which no other type had. -/
theorem claim_ok {type : τ} {handler : HandlerKind} (hclaim : h.claim stableId type handler = .ok h') :
    h' = { h with byId := h.byId.insert (stableId type) ⟨handler, type⟩ } ∧
    ∀ taken, h.byId.get? (stableId type) = some taken → taken.typeId = type := by
  unfold claim at hclaim
  split at hclaim
  · next taken htaken =>
    split_ifs at hclaim with htype
    cases hclaim
    refine ⟨rfl, fun taken' htaken' => ?_⟩
    rw [htaken] at htaken'
    cases htaken'
    exact htype
  · next hnone =>
    cases hclaim
    refine ⟨rfl, fun taken htaken => ?_⟩
    rw [hnone] at htaken
    cases htaken

theorem register_ok (hr : h.register stableId r = .ok h') :
    (∃ handler, h'.byId = h.byId.insert (stableId r.type) ⟨handler, r.type⟩) ∧
    (∀ taken, h.byId.get? (stableId r.type) = some taken → taken.typeId = r.type) ∧
    ∀ type id, h'.byType.get? type = some id ↔
      r = .insert type ∧ stableId type = id ∨ r ≠ .insert type ∧ h.byType.get? type = some id := by
  cases r with
  | insert type =>
    simp only [register, insert] at hr
    cases hclaim : h.claim stableId type .typed with
    | error e =>
      rw [hclaim] at hr
      cases hr
    | ok h₁ =>
      rw [hclaim] at hr
      obtain ⟨rfl, hfree⟩ := claim_ok hclaim
      cases hr
      refine ⟨⟨.typed, rfl⟩, hfree, fun other id => ?_⟩
      rw [IndexMap.get?_insert, Registration.insert.injEq]
      by_cases heq : other = type
      · simp [heq]
      · simp [heq, Ne.symm heq]
  | insertOp type =>
    obtain ⟨rfl, hfree⟩ := claim_ok hr
    exact ⟨⟨.builtin, rfl⟩, hfree, fun other id => by simp⟩

theorem Indexed.register (hi : Indexed stableId rs h) (hr : h.register stableId r = .ok h') :
    Indexed stableId (rs ++ [r]) h' := by
  obtain ⟨⟨handler, hbyId⟩, hfree, hbyType⟩ := register_ok hr
  refine ⟨fun q hq => ?_, fun id taken htaken => ?_, fun type id => ?_⟩
  · rw [hbyId, IndexMap.get?_insert]
    split_ifs with heq
    · refine ⟨_, rfl, ?_⟩
      rcases List.mem_append.1 hq with hq | hq
      · obtain ⟨taken, htaken, htype⟩ := hi.held q hq
        rw [heq] at htaken
        rw [← htype, hfree taken htaken]
      · rw [List.mem_singleton.1 hq]
    · rcases List.mem_append.1 hq with hq | hq
      · exact hi.held q hq
      · exact absurd (List.mem_singleton.1 hq ▸ rfl) heq
  · rw [hbyId, IndexMap.get?_insert] at htaken
    split_ifs at htaken with heq
    · cases htaken
      exact ⟨heq.symm, r, List.mem_append_right _ List.mem_cons_self, rfl⟩
    · obtain ⟨hid, q, hq, htype⟩ := hi.holder id taken htaken
      exact ⟨hid, q, List.mem_append_left _ hq, htype⟩
  · rw [hbyType, hi.listed, List.mem_append, List.mem_singleton]
    by_cases heq : r = .insert type
    · simp [heq]
    · simp [heq, Ne.symm heq]

theorem Indexed.registerAll (hi : Indexed stableId rs h) (hrun : h.registerAll stableId rs' = .ok h') :
    Indexed stableId (rs ++ rs') h' := by
  induction rs' generalizing rs h with
  | nil =>
    cases hrun
    rwa [List.append_nil]
  | cons r rs' ih =>
    rw [Handlers.registerAll] at hrun
    cases hr : h.register stableId r with
    | error e =>
      rw [hr] at hrun
      cases hrun
    | ok h₁ =>
      rw [hr] at hrun
      have := ih (hi.register hr) hrun
      rwa [List.append_assoc] at this

theorem Indexed.type_eq (hi : Indexed stableId rs h) {r r' : Registration τ} (hr : r ∈ rs)
    (hr' : r' ∈ rs) (hid : stableId r.type = stableId r'.type) : r.type = r'.type := by
  obtain ⟨taken, htaken, htype⟩ := hi.held r hr
  obtain ⟨taken', htaken', htype'⟩ := hi.held r' hr'
  rw [hid, htaken'] at htaken
  cases htaken
  rw [← htype, htype']

/-! ## The two queries -/

theorem pairwise_registeredIds (h : Handlers τ ι) (members : List τ) :
    (h.registeredIds members).Pairwise (· ≤ ·) := by
  have htrans : ∀ a b c : ι, decide (a ≤ b) = true → decide (b ≤ c) = true → decide (a ≤ c) = true := by
    intro a b c hab hbc
    exact decide_eq_true (le_trans (of_decide_eq_true hab) (of_decide_eq_true hbc))
  have htotal : ∀ a b : ι, (decide (a ≤ b) || decide (b ≤ a)) = true := by
    intro a b
    simpa using le_total a b
  have hsorted := List.pairwise_mergeSort htrans htotal (members.filterMap h.byType.get?)
  exact hsorted.imp of_decide_eq_true

theorem acceptsIds_iff (h : Handlers τ ι) (members : List τ) (ids : List ι) :
    h.acceptsIds members ids = true ↔ ∀ id ∈ ids, id ∈ h.acceptedIds members := by
  simp only [acceptsIds, List.all_eq_true, acceptedIds]
  exact forall₂_congr fun id _ => binarySearch_isOk (pairwise_registeredIds h members)

theorem Indexed.perm_acceptedIds (hi : Indexed stableId rs h) (members : List τ) :
    (h.acceptedIds members).Perm ((members.filter fun type => .insert type ∈ rs).map stableId) := by
  refine (List.mergeSort_perm _ _).trans (List.Perm.of_eq ?_)
  induction members with
  | nil => rfl
  | cons type members ih =>
    by_cases hmem : .insert type ∈ rs
    · rw [List.filterMap_cons_some ((hi.listed type _).2 ⟨hmem, rfl⟩), ih,
        List.filter_cons_of_pos (by simpa using hmem), List.map_cons]
    · have hnone : h.byType.get? type = none := by
        rw [Option.eq_none_iff_forall_ne_some]
        exact fun id hid => hmem ((hi.listed type id).1 hid).1
      rw [List.filterMap_cons_none hnone, ih, List.filter_cons_of_neg (by simpa using hmem)]

theorem Indexed.mem_acceptedIds (hi : Indexed stableId rs h) {members : List τ} {id : ι} :
    id ∈ h.acceptedIds members ↔ ∃ type ∈ members, .insert type ∈ rs ∧ stableId type = id := by
  rw [(hi.perm_acceptedIds members).mem_iff]
  simp [and_assoc]

theorem Indexed.nodup_acceptedIds (hi : Indexed stableId rs h) {members : List τ}
    (hmembers : members.Nodup) : (h.acceptedIds members).Nodup := by
  rw [(hi.perm_acceptedIds members).nodup_iff]
  refine List.Nodup.map_on (fun a ha b hb hab => ?_) (hmembers.filter _)
  exact hi.type_eq (of_decide_eq_true (List.mem_filter.1 ha).2)
    (of_decide_eq_true (List.mem_filter.1 hb).2) hab

/-- The handlers of a node on which `regs` were registered after the built-in operations. -/
def build (stableId : τ → ι) (ops : List τ) (regs : List (Registration τ)) :
    Except (ClaimedByTwo τ ι) (Handlers τ ι) := do
  let h ← new stableId ops
  h.registerAll stableId regs

theorem indexed_build {ops : List τ} (hbuild : build stableId ops rs = .ok h) :
    Indexed stableId (ops.map .insertOp ++ rs) h := by
  unfold build at hbuild
  cases hnew : (new stableId ops : Except _ (Handlers τ ι)) with
  | error e =>
    rw [hnew] at hbuild
    cases hbuild
  | ok h₀ =>
    rw [hnew] at hbuild
    exact (indexed_empty.registerAll hnew).registerAll hbuild

end Handlers

/-- Where the actor of a `ClusterAddress` is: on the node that asks, or on one with other handlers. -/
inductive ActorTarget (τ ι : Type)
  | here (members : List τ)
  | remote (peer : Handlers τ ι) (members : List τ)

/-! The queries of `ClusterActorOps`. For a remote actor `InfoOp`, or `AcceptsOp`, is carried out by the
node that it is on. -/

namespace ActorTarget
variable {τ ι : Type} [DecidableEq τ] [LinearOrder ι]

def members (node : Handlers τ ι) : ActorTarget τ ι → List ι
  | here members => node.acceptedIds members
  | remote peer members => peer.acceptedIds members

def acceptsId (node : Handlers τ ι) (id : ι) : ActorTarget τ ι → Bool
  | here members => node.acceptsIds members [id]
  | remote peer members => peer.acceptsIds members [id]

def isSupersetOf (node : Handlers τ ι) (ids : List ι) : ActorTarget τ ι → Bool
  | here members => node.acceptsIds members ids
  | remote peer members => peer.acceptsIds members ids

/-- Wherever the actor is, the narrow queries answer as its whole list does. -/
theorem isSupersetOf_iff (node : Handlers τ ι) (ids : List ι) (target : ActorTarget τ ι) :
    target.isSupersetOf node ids = true ↔ ∀ id ∈ ids, target.acceptsId node id = true := by
  cases target <;> simp [isSupersetOf, acceptsId, Handlers.acceptsIds_iff]

theorem acceptsId_iff (node : Handlers τ ι) (id : ι) (target : ActorTarget τ ι) :
    target.acceptsId node id = true ↔ id ∈ target.members node := by
  cases target <;> simp [acceptsId, members, Handlers.acceptsIds_iff]

end ActorTarget

/-- Whatever is registered without a panic, and whatever types an actor has: it accepts a list of ids
exactly if all of them are in its list; the list has the ids of those of its types that were passed to
`insert`, sorted, and none that was registered by `insert_op` alone; and no two types have one id. -/
theorem accepts_answers_agree {τ ι : Type} [DecidableEq τ] [LinearOrder ι] (stableId : τ → ι)
    (ops : List τ) (regs : List (Registration τ)) (h : Handlers τ ι)
    (hbuild : Handlers.build stableId ops regs = .ok h) (members : List τ) :
    (∀ ids, h.acceptsIds members ids = true ↔ ∀ id ∈ ids, id ∈ h.acceptedIds members) ∧
    (h.acceptedIds members).Pairwise (· ≤ ·) ∧
    (h.acceptedIds members).Perm ((members.filter fun type => .insert type ∈ regs).map stableId) ∧
    (members.Nodup → (h.acceptedIds members).Nodup) ∧
    (∀ id, (∀ type, .insert type ∈ regs → stableId type ≠ id) → id ∉ h.acceptedIds members) ∧
    (∀ id taken, h.byId.get? id = some taken → ∀ r ∈ ops.map .insertOp ++ regs,
      stableId r.type = id → r.type = taken.typeId) ∧
    ∀ r ∈ ops.map .insertOp ++ regs, ∀ r' ∈ ops.map .insertOp ++ regs,
      stableId r.type = stableId r'.type → r.type = r'.type := by
  have hi := Handlers.indexed_build hbuild
  have hinsert : ∀ type, .insert type ∈ ops.map .insertOp ++ regs ↔ .insert type ∈ regs := by
    intro type
    simp
  refine ⟨h.acceptsIds_iff members, h.pairwise_registeredIds members, ?_,
    fun hmembers => hi.nodup_acceptedIds hmembers, fun id hid hmem => ?_, ?_, ?_⟩
  · have hperm := hi.perm_acceptedIds members
    simpa only [hinsert] using hperm
  · obtain ⟨type, -, htype, rfl⟩ := hi.mem_acceptedIds.1 hmem
    exact hid type ((hinsert type).1 htype) rfl
  · intro id taken htaken r hr hid
    obtain ⟨taken', htaken', htype⟩ := hi.held r hr
    rw [hid, htaken] at htaken'
    cases htaken'
    exact htype.symm
  · intro r hr r' hr' hid
    exact hi.type_eq hr hr' hid

/-- Type `1` is registered twice, and type `2` as an operation. -/
def sampleRegistrations : List (Registration ℕ) := [.insert 3, .insert 1, .insertOp 2, .insert 1]

def sampleHandlers : Handlers ℕ ℕ where
  byId := ⟨[(107, ⟨.builtin, 7⟩), (103, ⟨.typed, 3⟩), (101, ⟨.typed, 1⟩), (102, ⟨.builtin, 2⟩)], by
    decide⟩
  byType := ⟨[(3, 103), (1, 101)], by decide⟩

theorem accepts_answers_agree_on_sample :
    (sampleHandlers.acceptedIds [1, 2, 3, 4]).Perm [101, 103] := by
  have h := accepts_answers_agree (100 + ·) [7] sampleRegistrations sampleHandlers rfl [1, 2, 3, 4]
  exact h.2.2.1.trans (List.Perm.of_eq (by decide))

end Zestors.Messaging
