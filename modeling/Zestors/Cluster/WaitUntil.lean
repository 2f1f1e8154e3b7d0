import Mathlib.Data.Multiset.Basic
import Zestors.Cluster.Replay
import Zestors.Lib.ListOrder
import Zestors.Lib.Notify

/-!
# Waiting for the members

`Cluster::wait_until`: it begins with a snapshot and a subscription, and looks at the members again
whenever there is an event, or when it fell behind. The members come in no particular order.

It does not sleep while its condition holds (`waits_of_reachable`), whatever the mutators do between its
looks, since each change of the members is followed by an event; and it returns soon if the condition
stays true (`done_within`).
-/

namespace Zestors

namespace MemberList
variable {l : MemberList}

/-- `Cluster::members`. -/
def all (l : MemberList) : Multiset Member := l.snapshot.members

theorem all_eq_of_get? {l' : MemberList} (h : ∀ node, l'.get? node = l.get? node) : l'.all = l.all := by
  have hperm : l'.members.entries.Perm l.members.entries := by
    refine (List.perm_ext_iff_of_nodup l'.members.nodupKeys.nodup l.members.nodupKeys.nodup).2 fun e => ?_
    have hiff : ∀ l : MemberList, e ∈ l.members.entries ↔ l.get? e.1 = some e.2 := fun l =>
      (AList.mem_lookup_iff (s := l.members)).symm
    rw [hiff, hiff, h]
  exact Multiset.coe_eq_coe.2 (hperm.map _)

/-- A mutator that publishes nothing leaves the members as they are. -/
theorem all_mutate {op : Mutation} (h : (l.mutate op).2 = []) : (l.mutate op).1.all = l.all := by
  cases op with
  | up member =>
    simp only [mutate, memberUp] at h ⊢
    split at h
    · cases h
    · rename_i heq
      rw [if_neg heq]
      refine all_eq_of_get? fun node => ?_
      rw [get?_insert]
      split
      · rename_i hname
        rw [hname]
        exact (not_not.1 heq).symm
      · rfl
  | unreachable node =>
    simp only [mutate, memberUnreachable] at h ⊢
    split
    · rfl
    · split <;> rfl
  | reachable node =>
    simp only [mutate, memberReachable] at h ⊢
    split
    · rfl
    · split <;> rfl
  | left node generation =>
    simp only [mutate, memberLeft] at h ⊢
    split at h
    · rfl
    · split at h
      · rename_i hgen
        rw [if_pos hgen]
      · cases h
  | failed member =>
    simp only [mutate, memberFailed] at h ⊢
    split at h
    · cases h
    · rename_i hget
      rw [if_neg hget]
  | renamed before after =>
    simp only [mutate, memberRenamed] at h ⊢
    split at h
    · cases h
    · rename_i hget
      rw [if_neg hget]

end MemberList

inductive MemberWaiterStage
  | check
  | recv
  | members
  | done
deriving DecidableEq

/-- A call of `wait_until`: its receiver, and the members that it has looked at last. -/
structure MemberWaiter where
  condition : Multiset Member → Bool
  sub : Subscriber
  members : Multiset Member
  stage : MemberWaiterStage

/-- The members of a cluster, and the calls that wait for them. -/
structure AwaitedCluster where
  cluster : Cluster
  waiters : List MemberWaiter

namespace AwaitedCluster
variable {s s' : AwaitedCluster} {w w' : MemberWaiter}

def new : AwaitedCluster := ⟨.new, []⟩

inductive Event
  /-- The mutators, and other subscribers. -/
  | cluster (e : Cluster.Event)
  /-- `subscribe_with_snapshot` returns to `wait_until`. -/
  | waitUntil (k : ℕ) (condition : Multiset Member → Bool)
  /-- The `i`-th call goes on. -/
  | step (i : ℕ)

variable {e : Event}

def stepWaiter (c : Cluster) (w : MemberWaiter) : Option MemberWaiter :=
  match w.stage with
  | .check => some { w with stage := if w.condition w.members then .done else .recv }
  | .recv => (c.recv w.sub).map fun sub => { w with sub := sub, stage := .members }
  -- `members` takes the read lock.
  | .members => if c.writing = none then some { w with members := c.list.all, stage := .check } else none
  | .done => none

def step (s : AwaitedCluster) : Event → Option AwaitedCluster
  | .cluster e => (s.cluster.step e).map fun c => { s with cluster := c }
  | .waitUntil k condition =>
    match s.cluster.reading[k]? with
    | some (some position) => some {
        cluster := { s.cluster with reading := s.cluster.reading.eraseIdx k }
        waiters := s.waiters ++ [{
          condition := condition
          sub := ⟨s.cluster.list.snapshot, position, [], false⟩
          members := s.cluster.list.all
          stage := .check }] }
    | _ => none
  | .step i => do
    let w ← s.waiters[i]?
    let w' ← stepWaiter s.cluster w
    some { s with waiters := s.waiters.set i w' }

/-- Every interleaving of the mutators and the calls. -/
def runs : Lts AwaitedCluster Event := Lts.ofFun (fun s => s = new) step

/-- The events that a mutator has yet to publish. -/
def pending (c : Cluster) : List ClusterEvent := c.writing.getD []

/-- How many events there are, the announced ones included. -/
def version (c : Cluster) : ℕ := c.log.length + (pending c).length

/-- The call waits for an event, and there is none. -/
def Sleeps (c : Cluster) (w : MemberWaiter) : Prop := w.stage = .recv ∧ c.recv w.sub = none

/-- What a call knows in each of its stages. -/
structure Knows (c : Cluster) (w : MemberWaiter) : Prop where
  position : w.sub.position ≤ c.log.length
  looked : w.stage = .check ∨ w.stage = .recv →
    Fresh w.sub.position (version c) w.members c.list.all
  recv : w.stage = .recv → w.condition w.members = false
  done : w.stage = .done → w.condition w.members = true

theorem Knows.of_le {c c' : Cluster} (h : Knows c w) (hlog : c.log.length ≤ c'.log.length)
    (hversion : version c ≤ version c') (hall : version c' = version c → c'.list.all = c.list.all) :
    Knows c' w where
  position := h.position.trans hlog
  looked hstage := (h.looked hstage).change hversion hall
  recv := h.recv
  done := h.done

theorem Knows.cluster {c c' : Cluster} {e : Cluster.Event} (h : Knows c w) (hs : c.step e = some c') :
    Knows c' w := by
  cases e with
  | mutate op =>
    simp only [Cluster.step] at hs
    split at hs
    · rename_i hfree
      cases hs
      have hwriting : pending c = [] := by simp [pending, hfree.1]
      refine h.of_le le_rfl ?_ fun heq => MemberList.all_mutate ?_
      · simp [version, hwriting]
      · rw [version, version, hwriting] at heq
        refine List.length_eq_zero_iff.1 (Nat.add_left_cancel heq)
    · cases hs
  | publish =>
    simp only [Cluster.step] at hs
    split at hs
    · rename_i event events hw
      cases hs
      refine h.of_le (by simp) ?_ fun _ => rfl
      simp only [version, pending, hw, Option.getD_some, List.length_append, List.length_cons,
        List.length_nil]
      omega
    · cases hs
  | unlock =>
    simp only [Cluster.step] at hs
    split at hs
    · rename_i hw
      cases hs
      refine h.of_le le_rfl ?_ fun _ => rfl
      simp [version, pending, hw]
    · cases hs
  | read =>
    simp only [Cluster.step] at hs
    split at hs
    · cases hs
      exact h.of_le le_rfl le_rfl fun _ => rfl
    · cases hs
  | subscribe k | snapshot k =>
    simp only [Cluster.step] at hs
    split at hs
    · cases hs
      exact h.of_le le_rfl le_rfl fun _ => rfl
    · cases hs
  | recv i =>
    obtain ⟨sub, hi, hs⟩ := Option.bind_eq_some_iff.1 hs
    obtain ⟨sub', hrecv, hs⟩ := Option.bind_eq_some_iff.1 hs
    cases hs
    exact h.of_le le_rfl le_rfl fun _ => rfl

theorem position_recv {c : Cluster} {sub sub' : Subscriber} (hs : c.recv sub = some sub') :
    sub'.position ≤ c.log.length := by
  unfold Cluster.recv at hs
  split at hs
  · cases hs
    exact Nat.sub_le _ _
  · obtain ⟨event, hevent, rfl⟩ := Option.map_eq_some_iff.1 hs
    exact (List.getElem?_eq_some_iff.1 hevent).1

theorem position_of_recv_eq_none {c : Cluster} {sub : Subscriber} (hle : sub.position ≤ c.log.length)
    (hs : c.recv sub = none) : sub.position = c.log.length := by
  unfold Cluster.recv at hs
  split at hs
  · cases hs
  · have hnone := List.getElem?_eq_none_iff.1 (Option.map_eq_none_iff.1 hs)
    omega

theorem Knows.stepWaiter {c : Cluster} (h : Knows c w) (hs : stepWaiter c w = some w') : Knows c w' := by
  unfold AwaitedCluster.stepWaiter at hs
  cases hstage : w.stage with
  | check =>
    simp only [hstage, Option.some.injEq] at hs
    subst hs
    cases hcond : w.condition w.members with
    | true => exact ⟨h.position, by simp, nofun, fun _ => hcond⟩
    | false => exact ⟨h.position, fun _ => h.looked (.inl hstage), fun _ => hcond, nofun⟩
  | recv =>
    simp only [hstage] at hs
    obtain ⟨sub, hrecv, rfl⟩ := Option.map_eq_some_iff.1 hs
    exact ⟨position_recv hrecv, by simp, nofun, nofun⟩
  | members =>
    simp only [hstage] at hs
    split at hs
    · cases hs
      refine ⟨h.position, fun _ => .look ?_, nofun, nofun⟩
      exact h.position.trans (Nat.le_add_right _ _)
    · cases hs
  | done =>
    simp only [hstage] at hs
    cases hs

/-- The invariant of the runs. -/
structure Sound (s : AwaitedCluster) : Prop where
  synced : s.cluster.Synced
  knows : ∀ w ∈ s.waiters, Knows s.cluster w

theorem Sound.waitUntil (h : s.Sound) {k position : ℕ} {condition : Multiset Member → Bool}
    (hk : s.cluster.reading[k]? = some (some position)) : Sound {
      cluster := { s.cluster with reading := s.cluster.reading.eraseIdx k }
      waiters := s.waiters ++ [{
        condition := condition
        sub := ⟨s.cluster.list.snapshot, position, [], false⟩
        members := s.cluster.list.all
        stage := .check }] } := by
  have hmem := List.mem_of_getElem? hk
  have hw := h.synced.locked (List.ne_nil_of_mem hmem)
  obtain rfl := h.synced.reading position hmem
  refine ⟨⟨h.synced.marks, fun _ => hw, fun p hp => h.synced.reading p (List.mem_of_mem_eraseIdx hp),
    h.synced.subscribers⟩, fun w hmem => ?_⟩
  rcases List.mem_append.1 hmem with hmem | hmem
  · exact (h.knows w hmem).of_le le_rfl le_rfl fun _ => rfl
  · cases List.mem_singleton.1 hmem
    exact ⟨le_rfl, fun _ => .look (Nat.le_add_right _ _), nofun, nofun⟩

theorem Sound.step (h : s.Sound) (hs : s.step e = some s') : s'.Sound := by
  cases e with
  | cluster e =>
    obtain ⟨c, hc, rfl⟩ := Option.map_eq_some_iff.1 hs
    exact ⟨h.synced.step hc, fun w hw => (h.knows w hw).cluster hc⟩
  | waitUntil k condition =>
    simp only [AwaitedCluster.step] at hs
    split at hs
    · rename_i position hk
      cases hs
      exact h.waitUntil hk
    · cases hs
  | step i =>
    obtain ⟨w, hw, hs⟩ := Option.bind_eq_some_iff.1 hs
    obtain ⟨w', hw', hs⟩ := Option.bind_eq_some_iff.1 hs
    cases hs
    refine ⟨h.synced, fun t ht => ?_⟩
    rcases List.mem_or_eq_of_mem_set ht with ht | rfl
    · exact h.knows t ht
    · exact (h.knows w (List.mem_of_getElem? hw)).stepWaiter hw'

theorem sound_of_reachable (h : runs.Reachable s) : s.Sound :=
  h.invariant (by rintro _ rfl; exact ⟨Cluster.synced_new, nofun⟩) fun _ _ _ hI hs => hI.step hs

theorem Knows.eq_of_sleeps {c : Cluster} (h : Knows c w) (hsleeps : Sleeps c w) (hpending : pending c = []) :
    w.members = c.list.all := by
  refine (h.looked (.inr hsleeps.1)).2 ?_
  rw [version, hpending, List.length_nil, Nat.add_zero]
  exact position_of_recv_eq_none h.position hsleeps.2

/-- A call that sleeps waits for members that there are not, once the events of the last change are out;
and a call that is done has seen those that it waited for. -/
theorem waits_of_reachable (h : runs.Reachable s) (hw : w ∈ s.waiters) :
    (Sleeps s.cluster w → pending s.cluster = [] → w.condition s.cluster.list.all = false) ∧
      (w.stage = .done → w.condition w.members = true) := by
  have hknows := (sound_of_reachable h).knows w hw
  refine ⟨fun hsleeps hpending => ?_, hknows.done⟩
  rw [← hknows.eq_of_sleeps hsleeps hpending]
  exact hknows.recv hsleeps.1

/-- A member comes up after the first look. -/
def joinRun : List Event :=
  [.cluster .read, .cluster (.subscribe 0), .waitUntil 0 (fun members => members.card = 1), .step 0,
    .cluster (.mutate (.up ⟨"b", "b:1", 1⟩))]

theorem waits_of_reachable_join : ∃ (s : AwaitedCluster) (w : MemberWaiter), w ∈ s.waiters ∧
    Sleeps s.cluster w ∧
    ((Sleeps s.cluster w → pending s.cluster = [] → w.condition s.cluster.list.all = false) ∧
      (w.stage = .done → w.condition w.members = true)) := by
  obtain ⟨s, hs, hlength, hsleeps⟩ : ∃ s, runs.Reachable s ∧ s.waiters.length = 1 ∧
      s.waiters.all (fun w => w.stage = .recv ∧ (s.cluster.recv w.sub).isNone) = true :=
    Lts.exists_reachable_of_exec (s := new) rfl joinRun (by decide +kernel)
  obtain ⟨w, hw⟩ := List.length_eq_one_iff.1 hlength
  have hmem : w ∈ s.waiters := by
    rw [hw]
    exact List.mem_singleton.2 rfl
  have hw := of_decide_eq_true (List.all_eq_true.1 hsleeps w hmem)
  exact ⟨s, w, hmem, ⟨hw.1, Option.isNone_iff_eq_none.1 hw.2⟩, waits_of_reachable hs hmem⟩

/-! ## A call comes to its end -/

def Event.isStep (i : ℕ) : Event → Bool
  | .step j => i = j
  | .cluster _ | .waitUntil _ _ => false

/-- How far a call is from its end, if its condition holds of the members. -/
def distance (w : MemberWaiter) : ℕ :=
  match w.stage with
  | .check => if w.condition w.members then 1 else 4
  | .recv => 3
  | .members => 2
  | .done => 0

theorem distance_le (w : MemberWaiter) : distance w ≤ 4 := by
  unfold distance
  split
  · split <;> omega
  · omega
  · omega
  · omega

theorem condition_stepWaiter {c : Cluster} (hs : stepWaiter c w = some w') : w'.condition = w.condition := by
  unfold stepWaiter at hs
  split at hs
  · cases hs
    rfl
  · obtain ⟨sub, -, rfl⟩ := Option.map_eq_some_iff.1 hs
    rfl
  · split at hs
    · cases hs
      rfl
    · cases hs
  · cases hs

theorem distance_stepWaiter {c : Cluster} (hholds : w.condition c.list.all = true)
    (hs : stepWaiter c w = some w') : distance w' < distance w := by
  unfold stepWaiter at hs
  unfold distance
  cases hstage : w.stage with
  | check =>
    simp only [hstage, Option.some.injEq] at hs
    subst hs
    cases hcond : w.condition w.members <;> simp
  | recv =>
    simp only [hstage] at hs
    obtain ⟨sub, -, rfl⟩ := Option.map_eq_some_iff.1 hs
    simp
  | members =>
    simp only [hstage] at hs
    split at hs
    · cases hs
      simp [hholds]
    · cases hs
  | done =>
    simp only [hstage] at hs
    cases hs

/-- The `i`-th call is there, and waits for what `condition` tells. -/
structure Waits (i : ℕ) (condition : Multiset Member → Bool) (s : AwaitedCluster) : Prop where
  sound : s.Sound
  waiter : ∃ w, s.waiters[i]? = some w ∧ w.condition = condition

def distanceOf (i : ℕ) (s : AwaitedCluster) : ℕ := (s.waiters[i]?).elim 0 distance

theorem Waits.step {i : ℕ} {condition : Multiset Member → Bool} (h : s.Waits i condition)
    (hholds : condition s.cluster.list.all = true) (hs : s.step e = some s') : s'.Waits i condition ∧
      s'.distanceOf i + (if e.isStep i then 1 else 0) ≤ s.distanceOf i := by
  have hsound := h.sound.step hs
  obtain ⟨w, hi, rfl⟩ := h.waiter
  cases e with
  | cluster e =>
    obtain ⟨c, -, rfl⟩ := Option.map_eq_some_iff.1 hs
    exact ⟨⟨hsound, w, hi, rfl⟩, le_rfl⟩
  | waitUntil k condition' =>
    simp only [AwaitedCluster.step] at hs
    split at hs
    · cases hs
      have hi' : ∀ w', (s.waiters ++ [w'])[i]? = some w := fun _ => List.getElem?_concat_eq_some.2 (.inl hi)
      refine ⟨⟨hsound, w, hi' _, rfl⟩, ?_⟩
      simp only [distanceOf, hi, hi', Event.isStep, Bool.false_eq_true, if_false]
      exact le_rfl
    · cases hs
  | step j =>
    obtain ⟨w₁, hj, hs⟩ := Option.bind_eq_some_iff.1 hs
    obtain ⟨w', hw', hs⟩ := Option.bind_eq_some_iff.1 hs
    cases hs
    by_cases hij : i = j
    · subst hij
      rw [hi] at hj
      cases hj
      have hi' : (s.waiters.set i w')[i]? = some w' :=
        List.getElem?_set_self (List.getElem?_eq_some_iff.1 hi).1
      refine ⟨⟨hsound, w', hi', condition_stepWaiter hw'⟩, ?_⟩
      simp only [distanceOf, hi, hi', Event.isStep, decide_true, if_true, Option.elim_some]
      exact distance_stepWaiter hholds hw'
    · have hi' : (s.waiters.set j w')[i]? = some w := by
        rw [List.getElem?_set_ne (Ne.symm hij)]
        exact hi
      refine ⟨⟨hsound, w, hi', rfl⟩, ?_⟩
      simp only [distanceOf, hi, hi', Event.isStep, hij, decide_false, Bool.false_eq_true, if_false]
      exact le_rfl

/-- What keeps a call from going on is a mutator that holds the lock, which can go on itself. -/
theorem Knows.exists_step {c : Cluster} (h : Knows c w) (hholds : w.condition c.list.all = true)
    (hnot : w.stage ≠ .done) : (∃ w', AwaitedCluster.stepWaiter c w = some w') ∨
      ∃ e c', (e = .publish ∨ e = .unlock) ∧ c.step e = some c' := by
  cases hw : c.writing with
  | some events =>
    right
    cases events with
    | nil => exact ⟨.unlock, { c with writing := none }, .inr rfl, by simp [Cluster.step, hw]⟩
    | cons event events =>
      refine ⟨.publish, { c with log := c.log ++ [event], writing := some events }, .inl rfl, ?_⟩
      simp [Cluster.step, hw]
  | none =>
    left
    unfold AwaitedCluster.stepWaiter
    cases hstage : w.stage with
    | check => exact ⟨_, rfl⟩
    | members =>
      rw [hw]
      exact ⟨_, if_pos rfl⟩
    | done => exact absurd hstage hnot
    | recv =>
      cases hrecv : c.recv w.sub with
      | some sub => exact ⟨_, rfl⟩
      | none =>
        -- It has looked at the members as they are.
        have heq := h.eq_of_sleeps ⟨hstage, hrecv⟩ (by simp [pending, hw])
        have hfalse := h.recv hstage
        rw [heq, hholds] at hfalse
        cases hfalse

/-- From now on there are only members that a call waits for: whatever happens meanwhile, it returns within
four steps of its own, and can take them as soon as no mutator is at work. -/
theorem done_within {i : ℕ} {es : List Event} (h : runs.Reachable s) (hi : s.waiters[i]? = some w)
    (hholds : ∀ k t, Lts.exec step s (es.take k) = some t → w.condition t.cluster.list.all = true)
    (hs : Lts.exec step s es = some s') : ∃ w', s'.waiters[i]? = some w' ∧
      (w'.stage ≠ .done → es.countP (Event.isStep i) < 4 ∧
        ∃ e s'', (e = .step i ∨ e = .cluster .publish ∨ e = .cluster .unlock) ∧ s'.step e = some s'') := by
  obtain ⟨⟨hsound, w', hi', hcond⟩, hle⟩ := Lts.exec_bound (f := step) (I := Waits i w.condition)
    (distanceOf i) (fun _ _ _ => Waits.step) ⟨sound_of_reachable h, w, hi, rfl⟩ hholds hs
  refine ⟨w', hi', fun hnot => ⟨?_, ?_⟩⟩
  · have hstart : s.distanceOf i ≤ 4 := by
      rw [distanceOf, hi]
      exact distance_le w
    have hend : 0 < s'.distanceOf i := by
      rw [distanceOf, hi', Option.elim_some, distance]
      split
      · split <;> omega
      · omega
      · omega
      · contradiction
    omega
  · have hnow := hholds es.length s' (by rw [List.take_length]; exact hs)
    rw [← hcond] at hnow
    rcases (hsound.knows w' (List.mem_of_getElem? hi')).exists_step hnow hnot with ⟨w'', hw''⟩ | ⟨e, c, he, hc⟩
    · refine ⟨.step i, { s' with waiters := s'.waiters.set i w'' }, .inl rfl, ?_⟩
      simp only [step, hi', Option.bind_eq_bind, Option.bind_some, hw'']
    · refine ⟨.cluster e, { s' with cluster := c }, .inr ?_, by simp only [step, hc, Option.map_some]⟩
      exact he.imp (congrArg _) (congrArg _)

/-- The member's arrival is published, and the call goes on. -/
def arriveRun : List Event := [.cluster .publish, .step 0]

theorem done_within_join : ∃ (s s' : AwaitedCluster) (w : MemberWaiter), s.waiters[0]? = some w ∧
    Sleeps s.cluster w ∧ Lts.exec step s arriveRun = some s' ∧ ∃ w', s'.waiters[0]? = some w' ∧
      (w'.stage ≠ .done → arriveRun.countP (Event.isStep 0) < 4 ∧
        ∃ e s'', (e = .step 0 ∨ e = .cluster .publish ∨ e = .cluster .unlock) ∧ s'.step e = some s'') := by
  obtain ⟨s, hs, hall, hexec⟩ : ∃ s, runs.Reachable s ∧
      (s.waiters[0]?.any fun w => w.stage = .recv ∧ (s.cluster.recv w.sub).isNone ∧
        (List.range (arriveRun.length + 1)).all fun k => (Lts.exec step s (arriveRun.take k)).all fun t =>
          w.condition t.cluster.list.all) = true ∧ (Lts.exec step s arriveRun).isSome = true :=
    Lts.exists_reachable_of_exec (s := new) rfl joinRun (by decide +kernel)
  obtain ⟨w, hi, hall⟩ := (Option.any_eq_true _ _).1 hall
  obtain ⟨hstage, hnone, hall⟩ := of_decide_eq_true hall
  obtain ⟨s', hs'⟩ := Option.isSome_iff_exists.1 hexec
  have hsleeps : Sleeps s.cluster w := ⟨hstage, Option.isNone_iff_eq_none.1 hnone⟩
  exact ⟨s, s', w, hi, hsleeps, hs', done_within hs hi (Lts.forall_exec_of_all hall) hs'⟩

end AwaitedCluster
end Zestors
