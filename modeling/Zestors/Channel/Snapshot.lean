import Mathlib.Data.Int.Notation
import Mathlib.Data.List.Forall2
import Zestors.ActorStatus
import Zestors.Lib.Lts
import Zestors.RestartLimiter

/-!
# Snapshots of a channel

`ActorOps::snapshot` turns the monotonic instants at which a channel was created, spawned and exited
into times of the wall clock. `Clock::timestamp_at` takes the difference from the wrong side, and it
saturates: every instant before the snapshot is reported as the time of the snapshot
(`snapshot_keeps_distances_iff`).
-/

namespace Zestors

/-- A `jiff::Timestamp`, in nanoseconds since the epoch. -/
structure Timestamp where
  nanos : ℤ
  inRange : -377705023201000000000 ≤ nanos ∧ nanos ≤ 253402207200999999999

/-- `Timestamp + SignedDuration`, which panics out of range. -/
def Timestamp.add (timestamp : Timestamp) (duration : ℤ) : Option Timestamp :=
  if h : -377705023201000000000 ≤ timestamp.nanos + duration ∧
      timestamp.nanos + duration ≤ 253402207200999999999 then some ⟨timestamp.nanos + duration, h⟩
  else none

structure Clock where
  instant : Instant
  timestamp : Timestamp

namespace Clock

/-- `Clock::timestamp_at`, with the cast `as_nanos() as i64`. -/
def timestampAt (clock : Clock) (instant : Instant) : Option Timestamp :=
  let elapsed := instant.durationSince clock.instant
  clock.timestamp.add ((elapsed : ℤ).bmod 18446744073709551616)

/-- `Clock::zoned_at`. The time zone is UTC. -/
def zonedAt (clock : Clock) (instant : Instant) : Option Timestamp := clock.timestampAt instant

end Clock

/-- What a snapshot reads of a channel. -/
structure ChannelHistory where
  name : String
  status : ActorStatus
  signalLen : ℕ
  msgLen : ℕ
  spawns : List Instant
  exits : List (Instant × Except ExitError Unit)
  createdAt : Instant

structure ChannelSnapshot where
  name : String
  status : ActorStatus
  signalLen : ℕ
  msgLen : ℕ
  spawns : List Timestamp
  exits : List (Timestamp × ExitStatus)
  createdAt : Timestamp

namespace ChannelHistory

/-- `ActorOps::snapshot`. -/
def snapshot (data : ChannelHistory) (clock : Clock) : Option ChannelSnapshot := do
  let spawns ← data.spawns.mapM clock.zonedAt
  let exits ← data.exits.mapM fun (instant, res) =>
    (clock.zonedAt instant).map fun time => (time, ExitStatus.fromResult res)
  let createdAt ← clock.zonedAt data.createdAt
  some ⟨data.name, data.status, data.signalLen, data.msgLen, spawns, exits, createdAt⟩

def keepNSpawns : ℕ := 5

def keepNExits : ℕ := 5

/-- The record of a spawn, in `Channel::register_spawned`. -/
def recordSpawn (data : ChannelHistory) (now : Instant) : ChannelHistory :=
  let spawns := if data.spawns.length > keepNSpawns then data.spawns.tail else data.spawns
  { data with spawns := spawns ++ [now] }

/-- The record of an exit, in `Channel::register_exited`. -/
def recordExit (data : ChannelHistory) (now : Instant) (reason : Except ExitError Unit) : ChannelHistory :=
  let exits := if data.exits.length > keepNExits then data.exits.tail else data.exits
  { data with exits := exits ++ [(now, reason)] }

/-- All the instants that are recorded. -/
def instants (data : ChannelHistory) : List Instant :=
  data.createdAt :: data.spawns ++ data.exits.map Prod.fst

end ChannelHistory

/-- The times of a snapshot, in the order of `ChannelHistory.instants`. -/
def ChannelSnapshot.times (snapshot : ChannelSnapshot) : List ℤ :=
  (snapshot.createdAt :: snapshot.spawns ++ snapshot.exits.map Prod.fst).map Timestamp.nanos

/-- The past instants of a history are reported as far from each other, and from the time of the
snapshot, as they are. -/
def KeepsDistances (clock : Clock) (data : ChannelHistory) (snapshot : ChannelSnapshot) : Prop :=
  (∀ p ∈ data.instants.zip snapshot.times, p.1 ≤ clock.instant →
    p.2 = clock.timestamp.nanos - ((clock.instant : ℤ) - p.1)) ∧
  ∀ p ∈ data.instants.zip snapshot.times, ∀ q ∈ data.instants.zip snapshot.times,
    p.1 ≤ clock.instant → q.1 ≤ clock.instant →
    q.2 - p.2 = (q.1 : ℤ) - p.1 ∧ (p.2 ≤ q.2 ↔ p.1 ≤ q.1)

theorem Timestamp.add_zero (timestamp : Timestamp) : timestamp.add 0 = some timestamp := by
  have h := timestamp.inRange
  unfold add
  rw [dif_pos (by omega)]
  congr 2
  omega

theorem Clock.timestampAt_of_le {clock : Clock} {instant : Instant} (h : instant ≤ clock.instant) :
    clock.timestampAt instant = some clock.timestamp := by
  have helapsed : instant.durationSince clock.instant = 0 := Nat.sub_eq_zero_of_le h
  simp only [timestampAt, helapsed]
  exact clock.timestamp.add_zero

theorem forall₂_of_mapM {α β : Type} {f : α → Option β} {l : List α} {l' : List β}
    (h : l.mapM f = some l') : List.Forall₂ (fun a b => f a = some b) l l' := by
  induction l generalizing l' with
  | nil =>
    rw [List.mapM_nil] at h
    cases h
    exact .nil
  | cons a l ih =>
    rw [List.mapM_cons] at h
    obtain ⟨b, hb, h⟩ := Option.bind_eq_some_iff.mp h
    obtain ⟨bs, hbs, h⟩ := Option.bind_eq_some_iff.mp h
    cases h
    exact .cons hb (ih hbs)

namespace ChannelHistory
variable {data : ChannelHistory} {clock : Clock} {snapshot : ChannelSnapshot}

theorem reports (h : data.snapshot clock = some snapshot) :
    List.Forall₂ (fun i time => ∃ timestamp : Timestamp,
      clock.timestampAt i = some timestamp ∧ timestamp.nanos = time) data.instants snapshot.times := by
  obtain ⟨spawns, hspawns, h⟩ := Option.bind_eq_some_iff.mp h
  obtain ⟨exits, hexits, h⟩ := Option.bind_eq_some_iff.mp h
  obtain ⟨createdAt, hcreated, h⟩ := Option.bind_eq_some_iff.mp h
  cases h
  unfold instants ChannelSnapshot.times
  rw [List.forall₂_map_right_iff]
  have hrel : ∀ {i : Instant} {timestamp : Timestamp}, clock.zonedAt i = some timestamp →
      ∃ timestamp', clock.timestampAt i = some timestamp' ∧ timestamp'.nanos = timestamp.nanos :=
    fun h => ⟨_, h, rfl⟩
  refine .cons (hrel hcreated) (List.rel_append ?_ ?_)
  · exact (forall₂_of_mapM hspawns).imp fun _ _ h => hrel h
  · rw [List.forall₂_map_left_iff, List.forall₂_map_right_iff]
    refine (forall₂_of_mapM hexits).imp fun p time h => ?_
    obtain ⟨timestamp, htimestamp, rfl⟩ := Option.map_eq_some_iff.mp h
    exact hrel htimestamp

/-- Everything in the past is reported as the time of the snapshot itself. -/
theorem reported_past (h : data.snapshot clock = some snapshot) {p : Instant × ℤ}
    (hp : p ∈ data.instants.zip snapshot.times) (hpast : p.1 ≤ clock.instant) :
    p.2 = clock.timestamp.nanos := by
  obtain ⟨timestamp, htimestamp, htime⟩ := List.forall₂_zip (reports h) hp
  rw [Clock.timestampAt_of_le hpast] at htimestamp
  cases htimestamp
  exact htime.symm

theorem exists_report (h : data.snapshot clock = some snapshot) {i : Instant} (hi : i ∈ data.instants) :
    ∃ time, (i, time) ∈ data.instants.zip snapshot.times := by
  have hlength := (reports h).length_eq
  rw [← List.map_fst_zip (Nat.le_of_eq hlength)] at hi
  obtain ⟨⟨_, time⟩, hp, rfl⟩ := List.mem_map.mp hi
  exact ⟨time, hp⟩

end ChannelHistory

/-- A snapshot keeps the distances exactly if nothing that it reports was recorded before its clock was
read. -/
theorem snapshot_keeps_distances_iff (data : ChannelHistory) (clock : Clock) (snapshot : ChannelSnapshot)
    (h : data.snapshot clock = some snapshot) :
    KeepsDistances clock data snapshot ↔ ∀ i ∈ data.instants, clock.instant ≤ i := by
  constructor
  · intro hkeeps i hi
    obtain ⟨time, hp⟩ := ChannelHistory.exists_report h hi
    by_contra hle
    have hlt := Nat.lt_of_not_le hle
    have hreported := ChannelHistory.reported_past h hp (Nat.le_of_lt hlt)
    have hclaimed := hkeeps.1 _ hp (Nat.le_of_lt hlt)
    dsimp only at hreported hclaimed
    omega
  · intro hall
    have hreported : ∀ p ∈ data.instants.zip snapshot.times, p.1 ≤ clock.instant →
        p.1 = clock.instant ∧ p.2 = clock.timestamp.nanos := by
      intro p hp hpast
      have hle := hall p.1 (List.of_mem_zip hp).1
      exact ⟨Nat.le_antisymm hpast hle, ChannelHistory.reported_past h hp hpast⟩
    refine ⟨fun p hp hpast => ?_, fun p hp q hq hpast hpast' => ?_⟩
    · obtain ⟨hinstant, htime⟩ := hreported p hp hpast
      rw [htime, hinstant]
      omega
    · obtain ⟨hinstant, htime⟩ := hreported p hp hpast
      obtain ⟨hinstant', htime'⟩ := hreported q hq hpast'
      rw [htime, htime', hinstant, hinstant']
      simp

/-- An actor that was spawned two seconds after its channel was created, and exited two seconds later. -/
def sampleHistory : ChannelHistory :=
  ⟨"sample", .exited .normal, 0, 0, [3000000000], [(5000000000, .ok ())], 1000000000⟩

def sampleClock : Clock := ⟨6000000000, ⟨1700000000000000000, by omega⟩⟩

/-- All its times are the time of the snapshot, which is taken a second later. -/
def sampleSnapshot : ChannelSnapshot :=
  ⟨"sample", .exited .normal, 0, 0, [sampleClock.timestamp], [(sampleClock.timestamp, .normal)],
    sampleClock.timestamp⟩

theorem sample_keeps_distances_iff :
    KeepsDistances sampleClock sampleHistory sampleSnapshot ↔
      ∀ i ∈ sampleHistory.instants, sampleClock.instant ≤ i :=
  snapshot_keeps_distances_iff sampleHistory sampleClock sampleSnapshot rfl

theorem sample_loses_distances :
    ¬ ∀ data clock snapshot, ChannelHistory.snapshot data clock = some snapshot →
      KeepsDistances clock data snapshot := by
  intro h
  have hcreated := (h sampleHistory sampleClock sampleSnapshot rfl).1
    (1000000000, 1700000000000000000) List.mem_cons_self (by decide)
  revert hcreated
  decide

/-! ## The histories that come about -/

theorem mapM_of_forall {α β : Type} {f : α → Option β} {g : α → β} {l : List α}
    (h : ∀ a ∈ l, f a = some (g a)) : l.mapM f = some (l.map g) := by
  induction l with
  | nil => rfl
  | cons a l ih =>
    rw [List.mapM_cons, h a List.mem_cons_self, ih fun b hb => h b (List.mem_cons_of_mem _ hb)]
    rfl

namespace ChannelHistory

inductive Event
  | tick (elapsed : Duration)
  | spawn
  | exit (reason : Except ExitError Unit)

def step (s : ChannelHistory × Instant) : Event → Option (ChannelHistory × Instant)
  | .tick elapsed => some (s.1, s.2 + elapsed)
  | .spawn => some (s.1.recordSpawn s.2, s.2)
  | .exit reason => some (s.1.recordExit s.2 reason, s.2)

/-- A channel from its creation on, and the monotonic clock. -/
def runs : Lts (ChannelHistory × Instant) Event :=
  Lts.ofFun (fun s => s.1.spawns = [] ∧ s.1.exits = [] ∧ s.1.createdAt = s.2) step

variable {s : ChannelHistory × Instant} {data : ChannelHistory} {now i : Instant}

theorem mem_instants_recordSpawn (h : i ∈ (data.recordSpawn now).instants) :
    i ∈ data.instants ∨ i = now := by
  simp only [instants, recordSpawn, List.cons_append, List.mem_cons, List.mem_append] at h ⊢
  rcases h with h | (h | h | h) | h
  · exact .inl (.inl h)
  · split at h
    · exact .inl (.inr (.inl (List.mem_of_mem_tail h)))
    · exact .inl (.inr (.inl h))
  · exact .inr h
  · cases h
  · exact .inl (.inr (.inr h))

theorem mem_instants_recordExit {reason : Except ExitError Unit}
    (h : i ∈ (data.recordExit now reason).instants) : i ∈ data.instants ∨ i = now := by
  simp only [instants, recordExit, List.cons_append, List.mem_cons, List.mem_append, List.map_append,
    List.map_cons, List.map_nil] at h ⊢
  rcases h with h | h | h | h | h
  · exact .inl (.inl h)
  · exact .inl (.inr (.inl h))
  · split at h
    · rw [List.map_tail] at h
      exact .inl (.inr (.inr (List.mem_of_mem_tail h)))
    · exact .inl (.inr (.inr h))
  · exact .inr h
  · cases h

theorem instants_le_now (h : runs.Reachable s) : ∀ i ∈ s.1.instants, i ≤ s.2 := by
  refine h.invariant (I := fun s => ∀ i ∈ s.1.instants, i ≤ s.2) ?_ ?_
  · rintro ⟨data, now⟩ ⟨hspawns, hexits, hcreated⟩ i hi
    dsimp only at hspawns hexits hcreated
    simp only [instants, hspawns, hexits, hcreated, List.map_nil, List.append_nil,
      List.mem_singleton] at hi
    exact Nat.le_of_eq hi
  · rintro ⟨data, now⟩ e s' ih hs i hi
    cases e with
    | tick elapsed =>
      cases hs
      exact Nat.le_add_right_of_le (ih i hi)
    | spawn =>
      cases hs
      rcases mem_instants_recordSpawn hi with hi | rfl
      · exact ih i hi
      · exact Nat.le_refl _
    | exit reason =>
      cases hs
      rcases mem_instants_recordExit hi with hi | rfl
      · exact ih i hi
      · exact Nat.le_refl _

/-- In every run, a snapshot gives all that it reports one time. -/
theorem snapshot_of_reachable (h : runs.Reachable s) (timestamp : Timestamp) :
    ∃ snapshot, s.1.snapshot ⟨s.2, timestamp⟩ = some snapshot ∧
      ∀ time ∈ snapshot.times, time = timestamp.nanos := by
  obtain ⟨data, now⟩ := s
  have hpast : ∀ i ∈ data.instants, Clock.zonedAt ⟨now, timestamp⟩ i = some timestamp :=
    fun i hi => Clock.timestampAt_of_le (instants_le_now h i hi)
  have hspawns := mapM_of_forall (g := fun _ => timestamp) fun i (hi : i ∈ data.spawns) =>
    hpast i (List.mem_append_left _ (List.mem_cons_of_mem _ hi))
  have hexits := mapM_of_forall (l := data.exits)
    (g := fun p => (timestamp, ExitStatus.fromResult p.2)) (f := fun p =>
      (Clock.zonedAt ⟨now, timestamp⟩ p.1).map fun time => (time, ExitStatus.fromResult p.2))
    fun p hp => by
      rw [hpast p.1 (List.mem_append_right _ (List.mem_map_of_mem hp))]
      rfl
  refine ⟨_, by simp only [snapshot, hspawns, hexits, hpast _ List.mem_cons_self]; rfl, ?_⟩
  intro time htime
  simp only [ChannelSnapshot.times, List.map_append, List.map_map, List.mem_append, List.mem_map,
    List.map_cons, List.mem_cons] at htime
  rcases htime with (rfl | ⟨_, _, rfl⟩) | ⟨_, _, rfl⟩ <;> rfl

end ChannelHistory

end Zestors
