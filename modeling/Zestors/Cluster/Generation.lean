import Mathlib.Data.List.DropRight
import Zestors.Cluster.MemberList
import Zestors.Lib.Lts

/-!
# The generation of a node

How a node picks its generation when it starts, and how the generation grows when the failure detector
renews the identity of the node. A run takes in any number of runs of the node, in one process or in
several, with any reading of the clock at each start, and other nodes of the process.

What a start hands out is recorded, in the process and in the store; what a renewal hands out is not.
The generations grow in exactly the runs in which each start has a clock or a record past the renewals
before it (`grow_iff_renewalsPassed`).
-/

namespace Zestors

/-! ## The store -/

namespace Generation
variable {generation now floor u : UInt64}

/-- The largest `u64`. -/
def MAX : UInt64 := 18446744073709551615

def saturatingSucc (u : UInt64) : UInt64 := if u = MAX then MAX else u + 1

/-- The current time, unless that is not past `floor`. -/
def pick (now floor : UInt64) : UInt64 := max now (saturatingSucc floor)

/-- `char::is_whitespace`. -/
def isWhitespace (c : Char) : Bool :=
  let n := c.toNat
  9 ≤ n && n ≤ 13 || n = 0x20 || n = 0x85 || n = 0xA0 || n = 0x1680 || 0x2000 ≤ n && n ≤ 0x200A ||
    n = 0x2028 || n = 0x2029 || n = 0x202F || n = 0x205F || n = 0x3000

def trim (text : List Char) : List Char := (text.dropWhile isWhitespace).rdropWhile isWhitespace

/-- `u64::from_str`. -/
def parse (text : List Char) : Option UInt64 :=
  let digits := if text.head? = some '+' then text.tail else text
  if digits ≠ [] ∧ digits.all Char.isDigit ∧ Nat.ofDigitChars 10 digits 0 < UInt64.size then
    some (.ofNat (Nat.ofDigitChars 10 digits 0))
  else none

/-- What the file holds; 0 if there is none yet. -/
def read : Option (List Char) → Option UInt64
  | none => some 0
  | some text => parse (trim text)

def write (generation : UInt64) : List Char := Nat.toDigits 10 generation.toNat

theorem lt_max_iff : u < max now floor ↔ u < now ∨ u < floor := by
  have hmax : max now floor = if now ≤ floor then floor else now := rfl
  rw [hmax]
  grind

theorem le_max_iff : u ≤ max now floor ↔ u ≤ now ∨ u ≤ floor := by
  have hmax : max now floor = if now ≤ floor then floor else now := rfl
  rw [hmax]
  grind

theorem lt_saturatingSucc : u < saturatingSucc floor ↔ u ≤ floor ∧ u ≠ MAX := by
  unfold saturatingSucc MAX
  grind

/-- A pick is past what is before the clock or has been recorded. -/
theorem lt_pick : u < pick now floor ↔ u < now ∨ u ≤ floor ∧ u ≠ MAX := by
  rw [pick, lt_max_iff, lt_saturatingSucc]

theorem le_saturatingSucc : floor ≤ saturatingSucc floor := by
  unfold saturatingSucc MAX
  grind

theorem le_pick (h : u ≤ floor) : u ≤ pick now floor :=
  le_max_iff.2 (.inr (UInt64.le_trans h le_saturatingSucc))

theorem isWhitespace_of_isDigit {c : Char} (h : c.isDigit) : isWhitespace c = false := by
  obtain ⟨hlo, hhi⟩ := Char.isDigit_iff_toNat.1 h
  have hlo : 48 ≤ c.toNat := hlo
  have hhi : c.toNat ≤ 57 := hhi
  simp only [isWhitespace]
  grind

theorem isDigit_of_mem_write {c : Char} (h : c ∈ write generation) : c.isDigit :=
  Nat.isDigit_of_mem_toDigits (by decide) (by decide) h

theorem trim_write : trim (write generation) = write generation := by
  have hdrop : (write generation).dropWhile isWhitespace = write generation := by
    refine List.dropWhile_eq_self_iff.2 fun h => ?_
    rw [isWhitespace_of_isDigit (isDigit_of_mem_write (List.getElem_mem h))]
    decide
  rw [trim, hdrop, List.rdropWhile_eq_self_iff]
  intro h
  rw [isWhitespace_of_isDigit (isDigit_of_mem_write (List.getLast_mem h))]
  decide

theorem read_write : read (some (write generation)) = some generation := by
  have hne : write generation ≠ [] := Nat.toDigits_ne_nil
  have hsign : (write generation).head? ≠ some '+' := fun h => by
    have hdigit := isDigit_of_mem_write (List.mem_of_head? h)
    revert hdigit
    decide
  have hvalue : Nat.ofDigitChars 10 (write generation) 0 = generation.toNat :=
    Nat.ofDigitChars_ten_toDigits
  have hall : (write generation).all Char.isDigit :=
    List.all_eq_true.2 fun c hc => isDigit_of_mem_write hc
  have hsize : generation.toNat < UInt64.size := generation.toNat_lt_size
  simp only [read, trim_write, parse, hsign, if_false, hvalue]
  rw [if_pos ⟨hne, hall, hsize⟩, UInt64.ofNat_toNat]

end Generation

/-! ## Runs -/

/-- A generation that the node has had: from a start, or in the place of the one before. -/
inductive HandedGeneration
  | started (generation : UInt64)
  | renewed (before after : UInt64)
deriving DecidableEq

namespace HandedGeneration
open Generation

def generation : HandedGeneration → UInt64
  | .started generation | .renewed _ generation => generation

/-- A start is past all that was handed out; a renewal does not wrap and is new. -/
def Fresh (before : List HandedGeneration) : HandedGeneration → Prop
  | .started generation => ∀ h ∈ before, h.generation < generation
  | .renewed old generation => old < generation ∧ ∀ h ∈ before, h.generation ≠ generation

instance (before : List HandedGeneration) (h : HandedGeneration) : Decidable (h.Fresh before) := by
  cases h <;> unfold Fresh <;> infer_instance

/-- A start at `now` with the record `floor` is past it, if it was recorded. -/
def PassedBy (now floor : UInt64) : HandedGeneration → Prop
  | .started generation => generation ≠ MAX
  | .renewed _ generation => generation ≠ MAX ∧ (generation < now ∨ generation ≤ floor)

instance (now floor : UInt64) (h : HandedGeneration) : Decidable (h.PassedBy now floor) := by
  cases h <;> unfold PassedBy <;> infer_instance

/-- The newest comes first. -/
def Grow : List HandedGeneration → Prop
  | [] => True
  | h :: before => h.Fresh before ∧ Grow before

instance (handed : List HandedGeneration) : Decidable (Grow handed) := by
  induction handed with
  | nil => exact isTrue trivial
  | cons h before ih => exact instDecidableAnd

theorem Grow.of_suffix {before handed : List HandedGeneration} (h : before <:+ handed)
    (hgrow : Grow handed) : Grow before := by
  obtain ⟨newer, rfl⟩ := h
  induction newer with
  | nil => exact hgrow
  | cons g newer ih => exact ih hgrow.2

end HandedGeneration

/-- A node with a store file, and its process. `store` is the text of the file, `last` the `LAST` of
the process, and `handed` has all the generations that the node has had, the newest first. -/
structure Generations where
  name : NodeName
  store : Option (List Char)
  last : UInt64
  localMember : Option Member
  handed : List HandedGeneration

namespace Generations
open Generation HandedGeneration

inductive Event
  /-- The node starts at the time `now`, when the store can be read or not, and be written or not. -/
  | start (addr : NodeAddr) (now : UInt64) (readable written : Bool)
  /-- The failure detector renews the identity of the node. -/
  | rejoin
  | stop
  /-- The process ends, and another one begins. -/
  | exit
  /-- Another node of the process starts, which has `stored` in its store. -/
  | other (now stored : UInt64)

variable {s s' : Generations} {e : Event} {now : UInt64} {addr : NodeAddr} {readable written : Bool}

/-- What the process and the store record. -/
def floor (s : Generations) : Option UInt64 := (read s.store).map (max s.last)

/-- `generation::next`: a start that cannot be recorded fails, but the process keeps what it has picked. -/
def start (s : Generations) (addr : NodeAddr) (now : UInt64) (readable written : Bool) : Generations :=
  if readable then
    match s.floor with
    | none => s
    | some floor =>
      let generation := pick now floor
      if written then { s with
        store := some (write generation)
        last := generation
        localMember := some ⟨s.name, addr, generation⟩
        handed := .started generation :: s.handed }
      else { s with last := generation }
  else s

def step (s : Generations) : Event → Option Generations
  | .start addr now readable written =>
    if s.localMember = none then some (s.start addr now readable written) else none
  | .rejoin => do
    let member ← s.localMember
    some { s with
      localMember := some member.renew
      handed := .renewed member.generation member.renew.generation :: s.handed }
  | .stop => some { s with localMember := none }
  | .exit => some { s with localMember := none, last := 0 }
  | .other now stored => some { s with last := pick now (max s.last stored) }

/-- The node has not run, and its store may hold anything. -/
def new (name : NodeName) (store : Option (List Char)) : Generations := ⟨name, store, 0, none, []⟩

def runs : Lts Generations Event := Lts.ofFun (fun s => ∃ name store, s = new name store) step

/-- The clock or the record is past each renewal when the node starts, and nothing is past the largest
generation. -/
def RenewalsPassed (s : Generations) : Event → Prop
  | .start _ now true true => ∀ floor ∈ s.floor, ∀ h ∈ s.handed, h.PassedBy now floor
  | .rejoin => ∀ member ∈ s.localMember, member.generation ≠ MAX
  | _ => True

instance (s : Generations) (e : Event) : Decidable (s.RenewalsPassed e) :=
  match e with
  | .start _ now true true =>
    inferInstanceAs (Decidable (∀ floor ∈ s.floor, ∀ h ∈ s.handed, h.PassedBy now floor))
  | .rejoin => inferInstanceAs (Decidable (∀ member ∈ s.localMember, member.generation ≠ MAX))
  | .start _ _ true false | .start _ _ false _ | .stop | .exit | .other _ _ => .isTrue trivial

/-! ## Steps -/

theorem start_cases (s : Generations) (addr : NodeAddr) (now : UInt64) (readable written : Bool) :
    (s.start addr now readable written).handed = s.handed ∧
      (s.start addr now readable written).store = s.store ∧
      (s.start addr now readable written).localMember = s.localMember ∧
      (readable ∧ written → s.floor = none) ∨
    (readable ∧ written) ∧ ∃ floor ∈ s.floor, s.start addr now readable written = { s with
      store := some (write (pick now floor))
      last := pick now floor
      localMember := some ⟨s.name, addr, pick now floor⟩
      handed := .started (pick now floor) :: s.handed } := by
  unfold start
  split
  · rename_i hread
    cases hfloor : s.floor with
    | none => exact .inl ⟨rfl, rfl, rfl, fun _ => rfl⟩
    | some floor =>
      dsimp only
      split
      · rename_i hwritten
        exact .inr ⟨⟨hread, hwritten⟩, floor, rfl, rfl⟩
      · rename_i hwritten
        exact .inl ⟨rfl, rfl, rfl, fun h => absurd h.2 hwritten⟩
  · rename_i hread
    exact .inl ⟨rfl, rfl, rfl, fun h => absurd h.1 hread⟩

/-- The store has what the starts have handed out. -/
def Recorded (s : Generations) : Prop :=
  ∀ generation, .started generation ∈ s.handed → ∃ stored ∈ read s.store, generation ≤ stored

/-- The node has the last generation that was handed out. -/
def Latest (s : Generations) : Prop :=
  ∀ member ∈ s.localMember, ∀ h ∈ s.handed, h.generation ≤ member.generation

structure Growing (s : Generations) : Prop where
  recorded : s.Recorded
  latest : s.Latest
  grow : Grow s.handed

theorem growing_new (name : NodeName) (store : Option (List Char)) : (new name store).Growing where
  recorded := by simp [Recorded, new]
  latest := by simp [Latest, new]
  grow := trivial

theorem lt_succ {generation : UInt64} (h : generation ≠ MAX) : generation < generation + 1 := by
  unfold MAX at h
  grind

theorem not_lt_succ_MAX : ¬ MAX < MAX + 1 := by decide

theorem ne_MAX_of_lt {generation generation' : UInt64} (h : generation < generation') :
    generation ≠ MAX := by
  unfold MAX
  grind

theorem Recorded.le_floor (h : s.Recorded) {floor generation : UInt64} (hfloor : floor ∈ s.floor)
    (hg : .started generation ∈ s.handed) : generation ≤ floor := by
  obtain ⟨stored, hread, hle⟩ := h generation hg
  rw [Generations.floor, hread] at hfloor
  cases hfloor
  exact le_max_iff.2 (.inr hle)

/-- A start is past all that was handed out exactly if it is past the renewals. -/
theorem Recorded.lt_pick_iff (h : s.Recorded) {floor : UInt64} (hfloor : floor ∈ s.floor) :
    (∀ g ∈ s.handed, g.generation < pick now floor) ↔ ∀ g ∈ s.handed, g.PassedBy now floor := by
  refine forall₂_congr fun g hg => ?_
  rw [lt_pick]
  cases g with
  | started generation =>
    constructor
    · rintro (hlt | ⟨-, hne⟩)
      · exact ne_MAX_of_lt hlt
      · exact hne
    · exact fun hne => .inr ⟨h.le_floor hfloor hg, hne⟩
  | renewed old generation =>
    constructor
    · rintro (hlt | ⟨hle, hne⟩)
      · exact ⟨ne_MAX_of_lt hlt, .inl hlt⟩
      · exact ⟨hne, .inr hle⟩
    · rintro ⟨hne, hlt | hle⟩
      · exact .inl hlt
      · exact .inr ⟨hle, hne⟩

theorem Latest.fresh_renewed_iff (h : s.Latest) {member : Member} (hm : s.localMember = some member) :
    Fresh s.handed (.renewed member.generation member.renew.generation) ↔ member.generation ≠ MAX := by
  constructor
  · rintro ⟨hlt, -⟩ hmax
    have hlt : member.generation < member.generation + 1 := hlt
    rw [hmax] at hlt
    exact not_lt_succ_MAX hlt
  · intro hne
    refine ⟨lt_succ hne, fun g hg heq => ?_⟩
    have hle : g.generation ≤ member.generation := h member hm g hg
    rw [heq] at hle
    exact UInt64.not_lt.2 hle (lt_succ hne)

/-- One step keeps the generations growing exactly if it meets the condition. -/
theorem Growing.grow_step_iff (h : s.Growing) (hs : s.step e = some s') :
    Grow s'.handed ↔ s.RenewalsPassed e := by
  cases e with
  | start addr now readable written =>
    simp only [step] at hs
    split at hs
    · cases hs
      rcases start_cases s addr now readable written with
        ⟨hhanded, -, -, hfloor⟩ | ⟨⟨rfl, rfl⟩, floor, hfloor, heq⟩
      · rw [hhanded]
        refine iff_of_true h.grow ?_
        cases readable with
        | false => trivial
        | true =>
          cases written with
          | false => trivial
          | true =>
            intro floor hsome
            rw [hfloor ⟨rfl, rfl⟩] at hsome
            cases hsome
      · rw [heq]
        have hpassed : RenewalsPassed s (.start addr now true true) ↔
            ∀ g ∈ s.handed, g.PassedBy now floor := by
          have hsome : s.floor = some floor := hfloor
          simp [RenewalsPassed, hsome]
        rw [hpassed, ← h.recorded.lt_pick_iff hfloor]
        exact ⟨fun hgrow => hgrow.1, fun hlt => ⟨hlt, h.grow⟩⟩
    · cases hs
  | rejoin =>
    obtain ⟨member, hm, hs⟩ := Option.bind_eq_some_iff.1 hs
    cases hs
    simp only [Grow, h.grow, and_true, h.latest.fresh_renewed_iff hm, RenewalsPassed, hm]
    simp
  | stop | exit | other now stored =>
    cases hs
    exact iff_of_true h.grow trivial

theorem Growing.started (h : s.Growing) {floor : UInt64} (hfloor : floor ∈ s.floor)
    (hlt : ∀ g ∈ s.handed, g.generation < pick now floor) : Growing { s with
      store := some (write (pick now floor))
      last := pick now floor
      localMember := some ⟨s.name, addr, pick now floor⟩
      handed := .started (pick now floor) :: s.handed } where
  recorded := by
    intro generation hg
    refine ⟨pick now floor, read_write, ?_⟩
    rcases List.mem_cons.1 hg with heq | hg
    · cases heq
      exact UInt64.le_refl _
    · exact le_pick (h.recorded.le_floor hfloor hg)
  latest := by
    intro m hmem g hg
    cases hmem
    rcases List.mem_cons.1 hg with rfl | hg
    · exact UInt64.le_refl _
    · exact UInt64.le_of_lt (hlt g hg)
  grow := ⟨hlt, h.grow⟩

theorem Growing.renewed (h : s.Growing) {member : Member} (hm : s.localMember = some member)
    (hne : member.generation ≠ MAX) : Growing { s with
      localMember := some member.renew
      handed := .renewed member.generation member.renew.generation :: s.handed } where
  recorded := by
    intro generation hg
    rcases List.mem_cons.1 hg with heq | hg
    · cases heq
    · exact h.recorded generation hg
  latest := by
    intro m hmem g hg
    cases hmem
    rcases List.mem_cons.1 hg with rfl | hg
    · exact UInt64.le_refl _
    · exact UInt64.le_trans (h.latest member hm g hg) (UInt64.le_of_lt (lt_succ hne))
  grow := ⟨(h.latest.fresh_renewed_iff hm).2 hne, h.grow⟩

theorem Growing.of_eq (h : s.Growing) (hhanded : s'.handed = s.handed) (hstore : s'.store = s.store)
    (hlocal : ∀ member ∈ s'.localMember, s.localMember = some member) : s'.Growing where
  recorded := by
    unfold Recorded
    rw [hhanded, hstore]
    exact h.recorded
  latest := by
    intro member hm
    rw [hhanded]
    exact h.latest member (hlocal member hm)
  grow := by
    rw [hhanded]
    exact h.grow

theorem Growing.step (h : s.Growing) (hok : s.RenewalsPassed e) (hs : s.step e = some s') :
    s'.Growing := by
  have hgrow := (h.grow_step_iff hs).2 hok
  cases e with
  | start addr now readable written =>
    simp only [Generations.step] at hs
    split at hs
    · cases hs
      rcases start_cases s addr now readable written with ⟨hhanded, hstore, hlocal, -⟩ | ⟨-, floor, hfloor, heq⟩
      · exact h.of_eq hhanded hstore fun member hm => hlocal ▸ hm
      · rw [heq] at hgrow ⊢
        exact h.started hfloor hgrow.1
    · cases hs
  | rejoin =>
    obtain ⟨member, hm, hs⟩ := Option.bind_eq_some_iff.1 hs
    cases hs
    exact h.renewed hm (hok member hm)
  | stop | exit =>
    cases hs
    exact h.of_eq rfl rfl fun _ hm => by cases hm
  | other now stored =>
    cases hs
    exact h.of_eq rfl rfl fun _ hm => hm

/-- Nothing that was handed out is taken back. -/
theorem suffix_step (hs : s.step e = some s') : s.handed <:+ s'.handed := by
  cases e with
  | start addr now readable written =>
    simp only [step] at hs
    split at hs
    · cases hs
      rcases start_cases s addr now readable written with ⟨hhanded, -⟩ | ⟨-, floor, -, heq⟩
      · rw [hhanded]
      · rw [heq]
        exact List.suffix_cons _ _
    · cases hs
  | rejoin =>
    obtain ⟨member, -, hs⟩ := Option.bind_eq_some_iff.1 hs
    cases hs
    exact List.suffix_cons _ _
  | stop | exit | other now stored =>
    cases hs
    exact List.suffix_refl _

/-! ## The generations of every run -/

theorem growing (h : (runs.guard RenewalsPassed).Reachable s) : s.Growing := by
  refine h.guard_invariant (I := Growing) ?_ fun s e s' hi hok hs => hi.step hok hs
  rintro _ ⟨name, store, rfl⟩
  exact growing_new name store

/-- The generations grow in the runs in which every start is past the renewals before it, and in no
other run. -/
theorem grow_iff_renewalsPassed (h : runs.Reachable s) :
    Grow s.handed ↔ (runs.guard RenewalsPassed).Reachable s := by
  refine ⟨fun hgrow => ?_, fun h => (growing h).grow⟩
  induction h with
  | init h₀ => exact .init h₀
  | step _ hs ih =>
    have hreach := ih (Grow.of_suffix (suffix_step hs) hgrow)
    exact .step hreach ⟨hs, ((growing hreach).grow_step_iff hs).1 hgrow⟩

/-- A node without a store file. -/
def sample : Generations := new "a" none

/-- A node is renewed in its first run, and begins its second one later, in another process. -/
theorem grow_iff_renewalsPassed_later : ∃ s, runs.Reachable s ∧
    s.handed = [.started 200, .renewed 100 101, .started 100] ∧
    (Grow s.handed ↔ (runs.guard RenewalsPassed).Reachable s) := by
  obtain ⟨s, hs, h⟩ : ∃ s, runs.Reachable s ∧
      s.handed = [.started 200, .renewed 100 101, .started 100] :=
    Lts.exists_reachable_of_exec (s := sample) ⟨_, _, rfl⟩
      [.start "a:7000" 100 true true, .rejoin, .exit, .start "a:7000" 200 true true]
      (by decide +kernel)
  exact ⟨s, hs, h, grow_iff_renewalsPassed hs⟩

/-- The clock stands still: the second run begins in the generation that the first one was renewed to. -/
theorem not_grow : (∃ s, runs.Reachable s ∧
      s.handed = [.started 101, .renewed 100 101, .started 100]) ∧
    ¬ ∀ s, runs.Reachable s → Grow s.handed := by
  obtain ⟨s, hs, h⟩ : ∃ s, runs.Reachable s ∧
      s.handed = [.started 101, .renewed 100 101, .started 100] :=
    Lts.exists_reachable_of_exec (s := sample) ⟨_, _, rfl⟩
      [.start "a:7000" 100 true true, .rejoin, .exit, .start "a:7000" 100 true true]
      (by decide +kernel)
  refine ⟨⟨s, hs, h⟩, fun hall => ?_⟩
  have hgrow := hall s hs
  rw [h] at hgrow
  revert hgrow
  decide

end Generations
end Zestors
