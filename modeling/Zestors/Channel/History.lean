import Zestors.Channel.Snapshot
import Zestors.Lib.ListOrder

/-!
# The history of an actor

The spawns and the exits that a channel keeps a record of, over the life of its actor. The status changes
first, and the record of it is made afterwards, under another lock: others may come in between, and make
theirs first.

The channel is to keep the latest `keepNSpawns` spawns and the latest `keepNExits` exits, in the order in
which the status machine has let them through. It looks at the length before it pushes, and so keeps one
more of each; where the records are made in that order, the history is as it should be as long as there
were no more of them than that (`boundedHistory_iff`).
-/

namespace Zestors

/-- An exit that the status machine has let through, and when it was recorded. -/
structure Exit where
  reason : Except ExitError Unit
  recordedAt : Option Instant

/-- As the channel records it. -/
def Exit.record (exit : Exit) : Option (Instant × Except ExitError Unit) :=
  exit.recordedAt.map (·, exit.reason)

/-- A channel, and all the spawns and exits that its status machine has let through, in its order; a spawn
is `none` while the record of it is still to be made. -/
structure ActorHistory where
  data : ChannelHistory
  now : Instant
  spawns : List (Option Instant)
  exits : List Exit

namespace ActorHistory

/-- `Channel::new`. -/
def new (name : String) (now : Instant) : ActorHistory :=
  ⟨⟨name, .exited .normal, 0, 0, [], [], now⟩, now, [], []⟩

inductive Event
  | tick (elapsed : Duration)
  | registerSpawned
  /-- The record of the `i`-th spawn. -/
  | recordSpawn (i : ℕ)
  | registerExited (reason : Except ExitError Unit)
  | recordExit (i : ℕ)
  | registerInitialized
  | registerSuspended
  | registerResumed
  | registerExiting

variable {s s' : ActorHistory} {e : Event} {i : ℕ}

def setStatus (s : ActorHistory) (status : ActorStatus) : ActorHistory :=
  { s with data := { s.data with status := status } }

def step (s : ActorHistory) : Event → Option ActorHistory
  | .tick elapsed => some { s with now := s.now + elapsed }
  | .registerSpawned =>
    match s.data.status.registerSpawned with
    | (status, .ok _) => some { s.setStatus status with spawns := s.spawns ++ [none] }
    | (_, .error _) => some s
  | .recordSpawn i =>
    match s.spawns[i]? with
    | some none => some { s with
        data := s.data.recordSpawn s.now
        spawns := s.spawns.set i (some s.now) }
    | _ => none
  | .registerExited reason =>
    match s.data.status.registerExited reason with
    | (status, true) => some { s.setStatus status with exits := s.exits ++ [⟨reason, none⟩] }
    | (_, false) => some s
  | .recordExit i =>
    match s.exits[i]? with
    | some ⟨reason, none⟩ => some { s with
        data := s.data.recordExit s.now reason
        exits := s.exits.set i ⟨reason, some s.now⟩ }
    | _ => none
  | .registerInitialized => some (s.setStatus s.data.status.registerInitialized.1)
  | .registerSuspended => some (s.setStatus s.data.status.registerSuspended.1)
  | .registerResumed => some (s.setStatus s.data.status.registerResumed.1)
  | .registerExiting => some (s.setStatus s.data.status.registerExiting.1)

/-- Every interleaving of spawns, exits and the other changes of the status. -/
def runs : Lts ActorHistory Event := Lts.ofFun (fun s => ∃ name now, s = new name now) step

/-- The records that have been made, in the order of what they are records of; where none is still to be
made they are the records of all there was. -/
def spawned (s : ActorHistory) : List Instant := s.spawns.filterMap id

def exited (s : ActorHistory) : List (Instant × Except ExitError Unit) := s.exits.filterMap Exit.record

/-- The channel keeps the latest `keepNSpawns` spawns and the latest `keepNExits` exits, in order. -/
structure BoundedHistory (s : ActorHistory) : Prop where
  spawns : s.data.spawns = s.spawned.rtake ChannelHistory.keepNSpawns
  exits : s.data.exits = s.exited.rtake ChannelHistory.keepNExits

/-- Where a record is made, there is none yet of anything later. -/
def InOrder (s : ActorHistory) : Event → Prop
  | .recordSpawn i => ∀ spawn ∈ s.spawns.drop (i + 1), spawn = none
  | .recordExit i => ∀ exit ∈ s.exits.drop (i + 1), exit.recordedAt = none
  | _ => True

instance (s : ActorHistory) (e : Event) : Decidable (s.InOrder e) := by
  cases e <;> unfold InOrder <;> infer_instance

/-! ## The invariant -/

/-- What the channel keeps: one record more. -/
structure Kept (s : ActorHistory) : Prop where
  spawns : s.data.spawns = s.spawned.rtake (ChannelHistory.keepNSpawns + 1)
  exits : s.data.exits = s.exited.rtake (ChannelHistory.keepNExits + 1)

theorem kept_new (name : String) (now : Instant) : (new name now).Kept := ⟨rfl, rfl⟩

theorem Kept.setStatus (h : s.Kept) (status : ActorStatus) : (s.setStatus status).Kept :=
  ⟨h.spawns, h.exits⟩

theorem Kept.recordSpawn (h : s.Kept) (hin : s.InOrder (.recordSpawn i))
    (hs : s.step (.recordSpawn i) = some s') : s'.Kept := by
  simp only [step] at hs
  split at hs
  · rename_i hi
    cases hs
    refine ⟨?_, h.exits⟩
    have hspawned : (s.spawns.set i (some s.now)).filterMap id = s.spawned ++ [s.now] :=
      List.filterMap_set_of_none hi rfl rfl fun spawn hspawn => hin spawn hspawn
    simp only [ChannelHistory.recordSpawn, h.spawns]
    exact (List.rtake_push _ _ _).trans (congrArg (List.rtake · _) hspawned.symm)
  · cases hs

theorem Kept.recordExit (h : s.Kept) (hin : s.InOrder (.recordExit i))
    (hs : s.step (.recordExit i) = some s') : s'.Kept := by
  simp only [step] at hs
  split at hs
  · rename_i reason hi
    cases hs
    refine ⟨h.spawns, ?_⟩
    have hexited : (s.exits.set i ⟨reason, some s.now⟩).filterMap Exit.record =
        s.exited ++ [(s.now, reason)] :=
      List.filterMap_set_of_none hi rfl rfl fun exit hexit => by
        rw [Exit.record, hin exit hexit]
        rfl
    simp only [ChannelHistory.recordExit, h.exits]
    exact (List.rtake_push _ _ _).trans (congrArg (List.rtake · _) hexited.symm)
  · cases hs

theorem Kept.step (h : s.Kept) (hin : s.InOrder e) (hs : s.step e = some s') : s'.Kept := by
  cases e with
  | tick elapsed =>
    cases hs
    exact ⟨h.spawns, h.exits⟩
  | registerSpawned =>
    simp only [ActorHistory.step] at hs
    split at hs <;> cases hs
    · refine ⟨h.spawns.trans ?_, h.exits⟩
      simp only [spawned, List.filterMap_append]
      exact congrArg (List.rtake · _) (List.append_nil _).symm
    · exact h
  | recordSpawn i => exact h.recordSpawn hin hs
  | registerExited reason =>
    simp only [ActorHistory.step] at hs
    split at hs <;> cases hs
    · refine ⟨h.spawns, h.exits.trans ?_⟩
      simp only [exited, List.filterMap_append]
      exact congrArg (List.rtake · _) (List.append_nil _).symm
    · exact h
  | recordExit i => exact h.recordExit hin hs
  | registerInitialized | registerSuspended | registerResumed | registerExiting =>
    cases hs
    exact h.setStatus _

theorem kept_of_inOrder (h : (runs.guard InOrder).Reachable s) : s.Kept := by
  refine h.guard_invariant (I := Kept) ?_ fun s e s' hs hin hstep => hs.step hin hstep
  rintro _ ⟨name, now, rfl⟩
  exact kept_new name now

/-! ## Runs -/

/-- Over every run that makes its records in order, the history is the latest spawns and exits exactly as
long as no more of them are recorded than the channel is to keep. -/
theorem boundedHistory_iff (h : (runs.guard InOrder).Reachable s) : s.BoundedHistory ↔
    s.spawned.length ≤ ChannelHistory.keepNSpawns ∧ s.exited.length ≤ ChannelHistory.keepNExits := by
  have hkept := kept_of_inOrder h
  constructor
  · intro hbounded
    have hspawns := hkept.spawns.symm.trans hbounded.spawns
    have hexits := hkept.exits.symm.trans hbounded.exits
    exact ⟨List.rtake_succ_eq_iff.1 hspawns, List.rtake_succ_eq_iff.1 hexits⟩
  · rintro ⟨hspawns, hexits⟩
    constructor
    · rw [hkept.spawns, List.rtake_succ_eq_iff.2 hspawns]
    · rw [hkept.exits, List.rtake_succ_eq_iff.2 hexits]

/-- An actor that runs once, for the `i`-th time. -/
def life (i : ℕ) : List Event := [.registerSpawned, .recordSpawn i, .registerInitialized, .tick 3,
  .registerExited (.ok ()), .recordExit i]

/-- Of five incarnations everything is kept. -/
theorem boundedHistory_five : ∃ s, (runs.guard InOrder).Reachable s ∧
    (s.data.spawns = [0, 3, 6, 9, 12] ∧ s.data.exits.map Prod.fst = [3, 6, 9, 12, 15]) ∧
      s.BoundedHistory := by
  obtain ⟨s, hs, h, hlen⟩ : ∃ s, (runs.guard InOrder).Reachable s ∧
      (s.data.spawns = [0, 3, 6, 9, 12] ∧ s.data.exits.map Prod.fst = [3, 6, 9, 12, 15]) ∧
      s.spawned.length ≤ ChannelHistory.keepNSpawns ∧ s.exited.length ≤ ChannelHistory.keepNExits :=
    Lts.exists_guard_reachable_of_exec (f := step) (s := new "a" 0) ⟨"a", 0, rfl⟩ ((List.range 5).flatMap life)
      (by decide +kernel)
  exact ⟨s, hs, h, (boundedHistory_iff hs).2 hlen⟩

/-- Of six incarnations six spawns and six exits are kept; and the exits of two are kept in the order in
which they were recorded, which is not that of the incarnations. -/
theorem not_boundedHistory : (∃ s, runs.Reachable s ∧ s.data.spawns.length = 6 ∧
      s.data.exits.length = 6) ∧
    (∃ s, runs.Reachable s ∧ s.exits.map Exit.reason = [.ok (), .error .panicked] ∧
      s.data.exits.map Prod.snd = [.error .panicked, .ok ()]) ∧
    ¬ ∀ s, runs.Reachable s → s.BoundedHistory := by
  have hsix : ∃ s, runs.Reachable s ∧ s.data.spawns.length = 6 ∧ s.data.exits.length = 6 :=
    Lts.exists_reachable_of_exec (s := new "a" 0) ⟨"a", 0, rfl⟩ ((List.range 6).flatMap life)
      (by decide +kernel)
  refine ⟨hsix, ?_, fun hall => ?_⟩
  · exact Lts.exists_reachable_of_exec (s := new "a" 0) ⟨"a", 0, rfl⟩
      [.registerSpawned, .recordSpawn 0, .registerExited (.ok ()), .registerSpawned, .recordSpawn 1,
        .registerExited (.error .panicked), .recordExit 1, .recordExit 0]
      (by decide +kernel)
  · obtain ⟨s, hs, hspawns, -⟩ := hsix
    rw [(hall s hs).spawns, List.length_rtake] at hspawns
    have hkeep : ChannelHistory.keepNSpawns = 5 := rfl
    omega

end ActorHistory

end Zestors
