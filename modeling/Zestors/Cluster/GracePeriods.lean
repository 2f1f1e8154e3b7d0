import Zestors.Cluster.Driver

/-!
# Grace periods

The keys that the driver keeps of the failures it has still to report, against the queue that they wait
in. A queue gives an entry any key that none of its entries has, also one that it has given before.

The keys and the queue always match, and what becomes of a down notice does not outlive a later word of
the node: a grace period only ends when the node was not reported up again since its down notice and has
not said goodbye (`gracePeriods_kept`).
-/

namespace Zestors

namespace Driver
variable {s s' : Driver} {e : Event} {node : NodeName} {member : Member} {key : ℕ}

/-- A key is kept for a name exactly if the queue has one entry for it, which has that key; for a name
without a key there is none. -/
structure KeysMatch (s : Driver) : Prop where
  key : ∀ name key, s.pendingKeys.lookup name = some key ↔
    ∃ member, s.pendingDown.filter (·.2.name = name) = [(key, member)]
  noKey : ∀ name, s.pendingKeys.lookup name = none ↔ s.pendingDown.filter (·.2.name = name) = []

/-- Whom the input reports up, or whose goodbye is accepted. -/
def returns (s : Driver) : Event → Option NodeName
  | .notify (.memberUp member) => some member.name
  | .notify (.rename _ after) => some after.name
  | .departure node generation => (s.list.memberLeft node generation).2.2.map (·.name)
  | _ => none

/-- The failure detector replaces a member by another one with the same address, which is its name. -/
def KeepsNames : Event → Prop
  | .notify (.rename before after) => after.name = before.name
  | _ => True

instance : (e : Event) → Decidable (KeepsNames e)
  | .notify (.rename before after) => inferInstanceAs (Decidable (after.name = before.name))
  | .notify (.memberUp _) | .notify (.memberDown _) | .notify (.rejoin _) | .notify .active
  | .notify .idle | .notify .defunct => isTrue trivial
  | .departure _ _ | .expire _ | .peer _ | .leave => isTrue trivial

/-! ## Keys -/

/-- The invariant. -/
structure Matched (s : Driver) : Prop where
  lookup : ∀ p ∈ s.pendingDown, s.pendingKeys.lookup p.2.name = some p.1
  entry : ∀ name key, s.pendingKeys.lookup name = some key → ∃ p ∈ s.pendingDown, p.1 = key ∧ p.2.name = name
  nodup : (s.pendingDown.map Prod.fst).Nodup

theorem matched_new (localMember : Member) : (new localMember).Matched where
  lookup p hp := by cases hp
  entry name key hkey := by cases hkey
  nodup := List.nodup_nil

theorem Matched.eq_of_key (h : s.Matched) {p q : ℕ × Member} (hp : p ∈ s.pendingDown)
    (hq : q ∈ s.pendingDown) (hkey : p.1 = q.1) : p = q :=
  List.inj_on_of_nodup_map h.nodup hp hq hkey

theorem Matched.keysMatch (h : s.Matched) : s.KeysMatch := by
  have hnone : ∀ name, s.pendingKeys.lookup name = none ↔
      s.pendingDown.filter (·.2.name = name) = [] := by
    intro name
    rw [List.filter_eq_nil_iff]
    constructor
    · intro hlookup p hp hname
      have hkey := h.lookup p hp
      rw [of_decide_eq_true hname, hlookup] at hkey
      cases hkey
    · intro hall
      refine Option.eq_none_iff_forall_ne_some.2 fun key hkey => ?_
      obtain ⟨p, hp, -, hname⟩ := h.entry name key hkey
      exact hall p hp (decide_eq_true hname)
  refine ⟨fun name key => ⟨fun hlookup => ?_, ?_⟩, hnone⟩
  · obtain ⟨p, hp, rfl, hname⟩ := h.entry name key hlookup
    refine ⟨p.2, ?_⟩
    -- every entry of the name has its key, and so is this one
    have hall : ∀ q ∈ s.pendingDown.filter (·.2.name = name), q = p := by
      intro q hq
      obtain ⟨hq, hqname⟩ := List.mem_filter.1 hq
      have hkey := h.lookup q hq
      rw [of_decide_eq_true hqname, hlookup] at hkey
      exact h.eq_of_key hq hp (Option.some.inj hkey).symm
    have hmem : p ∈ s.pendingDown.filter (·.2.name = name) :=
      List.mem_filter.2 ⟨hp, decide_eq_true hname⟩
    have hnodup : (s.pendingDown.filter (·.2.name = name)).Nodup := h.nodup.of_map.filter _
    exact List.perm_singleton.1 ((List.perm_ext_iff_of_nodup hnodup (List.nodup_singleton p)).2
      fun q => ⟨fun hq => List.mem_singleton.2 (hall q hq), fun hq => List.mem_singleton.1 hq ▸ hmem⟩)
  · rintro ⟨member, hfilter⟩
    have hmem : (key, member) ∈ s.pendingDown.filter (·.2.name = name) := by
      rw [hfilter]
      exact List.mem_singleton_self _
    obtain ⟨hp, hname⟩ := List.mem_filter.1 hmem
    have hkey := h.lookup _ hp
    rwa [of_decide_eq_true hname] at hkey

theorem Matched.of_eq (h : s.Matched) (hkeys : s'.pendingKeys = s.pendingKeys)
    (hdown : s'.pendingDown = s.pendingDown) : s'.Matched where
  lookup := by
    rw [hkeys, hdown]
    exact h.lookup
  entry := by
    rw [hkeys, hdown]
    exact h.entry
  nodup := by
    rw [hdown]
    exact h.nodup

theorem Matched.remove (h : s.Matched) {p : ℕ × Member} (hp : p ∈ s.pendingDown)
    (hkeys : s'.pendingKeys = s.pendingKeys.erase p.2.name)
    (hdown : s'.pendingDown = s.pendingDown.filter (·.1 ≠ p.1)) : s'.Matched := by
  refine ⟨fun q hq => ?_, fun name key hkey => ?_, ?_⟩
  · rw [hdown] at hq
    obtain ⟨hq, hne⟩ := List.mem_filter.1 hq
    have hname : q.2.name ≠ p.2.name := by
      intro hname
      have hlookup := h.lookup q hq
      rw [hname, h.lookup p hp] at hlookup
      exact of_decide_eq_true hne (Option.some.inj hlookup).symm
    rw [hkeys, AList.lookup_erase_ne hname]
    exact h.lookup q hq
  · rw [hkeys] at hkey
    by_cases hname : name = p.2.name
    · subst hname
      rw [AList.lookup_erase] at hkey
      cases hkey
    · rw [AList.lookup_erase_ne hname] at hkey
      obtain ⟨q, hq, rfl, hqname⟩ := h.entry name key hkey
      refine ⟨q, ?_, rfl, hqname⟩
      rw [hdown]
      refine List.mem_filter.2 ⟨hq, decide_eq_true fun hsame => hname ?_⟩
      rw [← hqname, h.eq_of_key hq hp hsame]
  · rw [hdown]
    exact h.nodup.sublist (List.filter_sublist.map _)

/-- The entry of a name, if it has one, is taken out, and one with a new key is put in. -/
theorem Matched.delayDown (h : s.Matched) (hfree : ∀ p ∈ s.pendingDown, p.1 ≠ s.nextKey) :
    (s.delayDown member).Matched := by
  -- an entry that stays is that of another name
  have hstay : ∀ p ∈ s.pendingDown, s.pendingKeys.lookup member.name ≠ some p.1 ↔
      p.2.name ≠ member.name := by
    intro p hp
    rw [not_iff_not]
    constructor
    · intro hlookup
      obtain ⟨q, hq, hkey, hname⟩ := h.entry _ _ hlookup
      rwa [h.eq_of_key hp hq hkey.symm]
    · intro hname
      rw [← hname]
      exact h.lookup p hp
  refine ⟨fun p hp => ?_, fun name key hkey => ?_, ?_⟩
  · show (s.pendingKeys.insert member.name s.nextKey).lookup p.2.name = some p.1
    rcases List.mem_append.1 hp with hp | hp
    · obtain ⟨hp, hne⟩ := List.mem_filter.1 hp
      rw [AList.lookup_insert_ne ((hstay p hp).1 (of_decide_eq_true hne))]
      exact h.lookup p hp
    · obtain rfl := List.mem_singleton.1 hp
      exact AList.lookup_insert _
  · have hkey : (s.pendingKeys.insert member.name s.nextKey).lookup name = some key := hkey
    by_cases hname : name = member.name
    · subst hname
      rw [AList.lookup_insert] at hkey
      cases hkey
      exact ⟨_, List.mem_append_right _ (List.mem_singleton_self _), rfl, rfl⟩
    · rw [AList.lookup_insert_ne hname] at hkey
      obtain ⟨p, hp, rfl, rfl⟩ := h.entry name key hkey
      exact ⟨p, List.mem_append_left _ (List.mem_filter.2
        ⟨hp, decide_eq_true ((hstay p hp).2 hname)⟩), rfl, rfl⟩
  · show (List.map Prod.fst (_ ++ [(s.nextKey, member)])).Nodup
    rw [List.map_append]
    refine List.nodup_append.2 ⟨h.nodup.sublist (List.filter_sublist.map _), List.nodup_singleton _,
      fun a ha b hb => ?_⟩
    obtain ⟨p, hp, rfl⟩ := List.mem_map.1 ha
    obtain rfl := List.mem_singleton.1 hb
    exact hfree p (List.mem_of_mem_filter hp)

theorem cancelPending_cases (h : s.Matched) (node : NodeName) :
    s.cancelPending node = s ∧ (∀ p ∈ s.pendingDown, p.2.name ≠ node) ∨
      ∃ p ∈ s.pendingDown, p.2.name = node ∧ s.cancelPending node = { s with
        pendingKeys := s.pendingKeys.erase p.2.name
        pendingDown := s.pendingDown.filter (·.1 ≠ p.1) } := by
  unfold cancelPending
  cases hlookup : s.pendingKeys.lookup node with
  | none =>
    refine .inl ⟨rfl, fun p hp hname => ?_⟩
    have hkey := h.lookup p hp
    rw [hname, hlookup] at hkey
    cases hkey
  | some key =>
    obtain ⟨p, hp, rfl, rfl⟩ := h.entry node key hlookup
    exact .inr ⟨p, hp, rfl, rfl⟩

theorem Matched.cancelPending (h : s.Matched) (node : NodeName) : (s.cancelPending node).Matched := by
  rcases cancelPending_cases h node with ⟨heq, -⟩ | ⟨p, hp, -, heq⟩
  · rw [heq]
    exact h
  · rw [heq]
    exact h.remove hp rfl rfl

/-- Nothing is pending for the node any more, and for the others what was. -/
theorem mem_cancelPending (h : s.Matched) {p : ℕ × Member} (hp : p ∈ (s.cancelPending node).pendingDown) :
    p ∈ s.pendingDown ∧ p.2.name ≠ node := by
  rcases cancelPending_cases h node with ⟨heq, hnone⟩ | ⟨q, hq, rfl, heq⟩
  · rw [heq] at hp
    exact ⟨hp, hnone p hp⟩
  · rw [heq] at hp
    obtain ⟨hp, hne⟩ := List.mem_filter.1 hp
    refine ⟨hp, fun hname => of_decide_eq_true hne ?_⟩
    have hkey := h.lookup p hp
    rw [hname, h.lookup q hq] at hkey
    exact (Option.some.inj hkey).symm

/-! ## Steps of the driver -/

theorem matched_setStatus (h : s.Matched) (next : NodeStatus) : (s.setStatus next).Matched := by
  unfold setStatus
  split
  · exact h
  · exact h
  · exact h.of_eq rfl rfl

theorem Matched.notify (h : s.Matched) (hfree : ∀ p ∈ s.pendingDown, p.1 ≠ s.nextKey)
    (notification : Notification) : (s.notify notification).Matched := by
  cases notification with
  | memberUp member => exact (h.cancelPending member.name).of_eq rfl rfl
  | memberDown member =>
    simp only [Driver.notify]
    split
    · exact h.delayDown hfree
    · exact h
  | rename before after => exact (h.cancelPending before.name).of_eq rfl rfl
  | rejoin identity => exact h.of_eq rfl rfl
  | active | idle => exact h
  | defunct =>
    simp only [Driver.notify]
    split
    · exact h
    · exact matched_setStatus h _

theorem Matched.onDeparture (h : s.Matched) (node : NodeName) (generation : UInt64) :
    (s.onDeparture node generation).Matched := by
  have hchange : (s.change ((s.list.memberLeft node generation).1,
      (s.list.memberLeft node generation).2.1)).Matched := h.of_eq rfl rfl
  unfold Driver.onDeparture
  dsimp only
  split
  · exact hchange.cancelPending _
  · exact hchange

theorem onExpired_eq_some (hs : s.onExpired key = some s') : ∃ p ∈ s.pendingDown,
    s'.pendingKeys = s.pendingKeys.erase p.2.name ∧
    s'.pendingDown = s.pendingDown.filter (·.1 ≠ p.1) := by
  obtain ⟨p, hfind, hs⟩ := Option.bind_eq_some_iff.1 hs
  cases hs
  have hfound := List.find?_some hfind
  have hkey : p.1 = key := of_decide_eq_true hfound
  exact ⟨p, List.mem_of_find?_eq_some hfind, rfl, hkey ▸ rfl⟩

theorem Matched.onPeerEvent (h : s.Matched) (event : PeerEvent) : (s.onPeerEvent event).Matched := by
  cases event with
  | unreachable node | reachable node => exact h.of_eq rfl rfl
  | disconnected node generation => exact h

theorem Matched.step (h : s.Matched) (hfree : ∀ p ∈ s.pendingDown, p.1 ≠ s.nextKey)
    (hs : s.step e = some s') : s'.Matched := by
  cases e with
  | notify notification =>
    cases hs
    exact h.notify hfree notification
  | departure node generation =>
    simp only [Driver.step] at hs
    split at hs
    · cases hs
    · cases hs
      exact h.onDeparture node generation
  | expire key =>
    simp only [Driver.step] at hs
    split at hs
    · cases hs
    · obtain ⟨p, hp, hkeys, hdown⟩ := onExpired_eq_some hs
      exact h.remove hp hkeys hdown
  | peer event =>
    simp only [Driver.step] at hs
    split at hs
    · cases hs
    · cases hs
      exact h.onPeerEvent event
  | leave =>
    simp only [Driver.step] at hs
    split at hs
    · cases hs
    · cases hs
      have hsame : Matched { s with leaving := true } := h.of_eq rfl rfl
      exact matched_setStatus hsame _

@[simp] theorem pendingDown_setStatus (s : Driver) (next : NodeStatus) :
    (s.setStatus next).pendingDown = s.pendingDown := by
  unfold setStatus
  split <;> rfl

/-- What waits after a step has waited before it, and not for a node that has returned, or it is new. -/
def Waits (s : Driver) (e : Event) (p : ℕ × Member) : Prop :=
  (p ∈ s.pendingDown ∧ ∀ node ∈ s.returns e, p.2.name ≠ node) ∨ p.1 = s.nextKey ∧ s.returns e = none

theorem waits_of_notify (h : s.Matched) {notification : Notification}
    (hkeeps : KeepsNames (.notify notification)) {p : ℕ × Member}
    (hp : p ∈ (s.notify notification).pendingDown) : s.Waits (.notify notification) p := by
  cases notification with
  | memberUp member =>
    obtain ⟨hbefore, hname⟩ := mem_cancelPending h hp
    exact .inl ⟨hbefore, fun node hnode => Option.some.inj hnode ▸ hname⟩
  | memberDown member =>
    simp only [Driver.notify] at hp
    split at hp
    · rcases List.mem_append.1 hp with hp | hp
      · exact .inl ⟨List.mem_of_mem_filter hp, fun node hnode => by cases hnode⟩
      · obtain rfl := List.mem_singleton.1 hp
        exact .inr ⟨rfl, rfl⟩
    · exact .inl ⟨hp, fun node hnode => by cases hnode⟩
  | rename before after =>
    obtain ⟨hbefore, hname⟩ := mem_cancelPending h hp
    have hkeeps : after.name = before.name := hkeeps
    refine .inl ⟨hbefore, fun node hnode => ?_⟩
    rw [← Option.some.inj hnode, hkeeps]
    exact hname
  | rejoin identity | active | idle => exact .inl ⟨hp, fun node hnode => by cases hnode⟩
  | defunct =>
    refine .inl ⟨?_, fun node hnode => by cases hnode⟩
    simp only [Driver.notify] at hp
    split at hp
    · exact hp
    · rwa [pendingDown_setStatus] at hp

theorem waits_of_onDeparture (h : s.Matched) {generation : UInt64} {p : ℕ × Member}
    (hp : p ∈ (s.onDeparture node generation).pendingDown) : s.Waits (.departure node generation) p := by
  have hchange : (s.change ((s.list.memberLeft node generation).1,
      (s.list.memberLeft node generation).2.1)).Matched := h.of_eq rfl rfl
  unfold Driver.onDeparture at hp
  dsimp only at hp
  cases hleft : (s.list.memberLeft node generation).2.2 with
  | none =>
    rw [hleft] at hp
    refine .inl ⟨hp, fun name hname => ?_⟩
    simp only [returns, hleft] at hname
    cases hname
  | some member =>
    rw [hleft] at hp
    obtain ⟨hbefore, hne⟩ := mem_cancelPending hchange hp
    refine .inl ⟨hbefore, fun name hname => ?_⟩
    simp only [returns, hleft] at hname
    cases hname
    exact hne

theorem waits_of_step (h : s.Matched) (hkeeps : KeepsNames e) (hs : s.step e = some s')
    {p : ℕ × Member} (hp : p ∈ s'.pendingDown) : s.Waits e p := by
  have hstay : ∀ {q : ℕ × Member}, q ∈ s.pendingDown → s.returns e = none → s.Waits e q := by
    intro q hq hnone
    refine .inl ⟨hq, fun node hnode => ?_⟩
    rw [hnone] at hnode
    cases hnode
  cases e with
  | notify notification =>
    cases hs
    exact waits_of_notify h hkeeps hp
  | departure node generation =>
    simp only [Driver.step] at hs
    split at hs
    · cases hs
    · cases hs
      exact waits_of_onDeparture h hp
  | expire key =>
    simp only [Driver.step] at hs
    split at hs
    · cases hs
    · obtain ⟨q, -, -, hdown⟩ := onExpired_eq_some hs
      rw [hdown] at hp
      exact hstay (List.mem_of_mem_filter hp) rfl
  | peer event =>
    simp only [Driver.step] at hs
    split at hs
    · cases hs
    · cases hs
      cases event with
      | unreachable node | reachable node | disconnected node generation => exact hstay hp rfl
  | leave =>
    simp only [Driver.step] at hs
    split at hs
    · cases hs
    · cases hs
      rw [pendingDown_setStatus] at hp
      exact hstay hp rfl

end Driver

/-! ## Runs -/

/-- A grace period that was over: when the down notice came, and when the node was last reported up, or
said goodbye. -/
structure GraceEnd where
  member : Member
  noticed : ℕ
  returned : Option ℕ
deriving DecidableEq

/-- A driver after so many inputs. `noticed` has, for each key, when it was last given, and `returned` when
each node was last reported up, or said goodbye; `ended` are all the grace periods that have ended. -/
structure GracePeriods where
  driver : Driver
  time : ℕ
  noticed : ℕ → ℕ
  returned : NodeName → Option ℕ
  ended : List GraceEnd

namespace GracePeriods
variable {s s' : GracePeriods}

def new (localMember : Member) : GracePeriods := ⟨.new localMember, 0, fun _ => 0, fun _ => none, []⟩

/-- The grace period that an input ends. -/
def endedBy (s : GracePeriods) : Driver.Event → Option GraceEnd
  | .expire key => (s.driver.pendingDown.find? (·.1 = key)).map fun p =>
      ⟨p.2, s.noticed p.1, s.returned p.2.name⟩
  | _ => none

/-- An input, and the key that the queue gives if an entry is put in. -/
def step (s : GracePeriods) (e : Driver.Event × ℕ) : Option GracePeriods :=
  if e.2 ∈ s.driver.pendingDown.map Prod.fst then none
  else do
    let driver ← { s.driver with nextKey := e.2 }.step e.1
    some {
      driver := driver
      time := s.time + 1
      noticed := Function.update s.noticed e.2 s.time
      returned := (s.driver.returns e.1).elim s.returned fun node =>
        Function.update s.returned node (some s.time)
      ended := s.ended ++ (s.endedBy e.1).toList }

/-- Every sequence of inputs, whatever keys the queue gives. -/
def runs : Lts GracePeriods (Driver.Event × ℕ) :=
  Lts.ofFun (fun s => ∃ localMember, s = new localMember) step

/-- Where a grace period has ended, the down notice has come after all that is known of the node. -/
def NoneStale (s : GracePeriods) : Prop := ∀ g ∈ s.ended, ∀ time ∈ g.returned, time < g.noticed

/-- The invariant. -/
structure Fresh (s : GracePeriods) : Prop where
  noneStale : s.NoneStale
  waiting : ∀ p ∈ s.driver.pendingDown, ∀ time ∈ s.returned p.2.name, time < s.noticed p.1
  past : ∀ node, ∀ time ∈ s.returned node, time < s.time

theorem fresh_new (localMember : Member) : (new localMember).Fresh where
  noneStale g hg := by cases hg
  waiting p hp := by cases hp
  past node time htime := by cases htime

theorem step_eq_some {e : Driver.Event × ℕ} (hs : s.step e = some s') :
    (∀ p ∈ s.driver.pendingDown, p.1 ≠ e.2) ∧
      Driver.step { s.driver with nextKey := e.2 } e.1 = some s'.driver ∧
      s'.time = s.time + 1 ∧ s'.noticed = Function.update s.noticed e.2 s.time ∧
      s'.returned = ((s.driver.returns e.1).elim s.returned fun node =>
        Function.update s.returned node (some s.time)) ∧
      s'.ended = s.ended ++ (s.endedBy e.1).toList := by
  unfold step at hs
  split at hs
  · cases hs
  · rename_i hfree
    obtain ⟨driver, hdriver, hs⟩ := Option.bind_eq_some_iff.1 hs
    cases hs
    exact ⟨fun p hp hkey => hfree (List.mem_map.2 ⟨p, hp, hkey⟩), hdriver, rfl, rfl, rfl, rfl⟩

theorem matched_step {e : Driver.Event × ℕ} (h : s.driver.Matched) (hs : s.step e = some s') :
    s'.driver.Matched := by
  obtain ⟨hfree, hdriver, -⟩ := step_eq_some hs
  have hsame : Driver.Matched { s.driver with nextKey := e.2 } := h.of_eq rfl rfl
  exact hsame.step hfree hdriver

theorem Fresh.step (h : s.Fresh) (hmatched : s.driver.Matched) {e : Driver.Event × ℕ}
    (hkeeps : Driver.KeepsNames e.1) (hs : s.step e = some s') : s'.Fresh := by
  obtain ⟨hfree, hdriver, htime, hnoticed, hreturned, hended⟩ := step_eq_some hs
  have hsame : Driver.Matched { s.driver with nextKey := e.2 } := hmatched.of_eq rfl rfl
  refine ⟨fun g hg => ?_, fun p hp time hlast => ?_, fun node time hlast => ?_⟩
  · rw [hended] at hg
    rcases List.mem_append.1 hg with hg | hg
    · exact h.noneStale g hg
    · obtain ⟨event, key⟩ := e
      cases event with
      | expire expired =>
        obtain ⟨p, hfind, rfl⟩ := Option.map_eq_some_iff.1 (Option.mem_toList.1 hg)
        exact h.waiting p (List.mem_of_find?_eq_some hfind)
      | notify _ | departure _ _ | peer _ | leave => cases hg
  · rw [hnoticed]
    rcases Driver.waits_of_step hsame hkeeps hdriver hp with ⟨hbefore, hnot⟩ | ⟨hkey, hnone⟩
    · rw [Function.update_of_ne (hfree p hbefore)]
      refine h.waiting p hbefore time ?_
      rw [hreturned] at hlast
      cases hreturns : s.driver.returns e.1 with
      | none =>
        rw [hreturns] at hlast
        exact hlast
      | some node =>
        rw [hreturns] at hlast
        have hlast : time ∈ Function.update s.returned node (some s.time) p.2.name := hlast
        rwa [Function.update_of_ne (hnot node hreturns)] at hlast
    · have hkey : p.1 = e.2 := hkey
      rw [hkey, Function.update_self]
      rw [hreturned, show s.driver.returns e.1 = none from hnone] at hlast
      exact h.past _ _ hlast
  · rw [htime]
    rw [hreturned] at hlast
    cases hreturns : s.driver.returns e.1 with
    | none =>
      rw [hreturns] at hlast
      exact Nat.lt_succ_of_lt (h.past node time hlast)
    | some returned =>
      rw [hreturns] at hlast
      have hlast : time ∈ Function.update s.returned returned (some s.time) node := hlast
      by_cases hnode : node = returned
      · subst hnode
        rw [Function.update_self] at hlast
        cases hlast
        exact Nat.lt_succ_self _
      · rw [Function.update_of_ne hnode] at hlast
        exact Nat.lt_succ_of_lt (h.past node time hlast)

theorem matched_of_reachable (h : runs.Reachable s) : s.driver.Matched := by
  refine h.invariant (I := fun s => s.driver.Matched) ?_ fun s e s' hs hstep => matched_step hs hstep
  rintro _ ⟨localMember, rfl⟩
  exact Driver.matched_new localMember

/-- Over every sequence of inputs the keys match the queue; and where members are only replaced under
their own names, no grace period ends whose down notice came before its node was reported up again, or
said goodbye. -/
theorem gracePeriods_kept : (∀ s, runs.Reachable s → s.driver.KeysMatch) ∧
    ∀ s, (runs.guard fun _ e => Driver.KeepsNames e.1).Reachable s → s.NoneStale := by
  refine ⟨fun s h => (matched_of_reachable h).keysMatch, fun s h => ?_⟩
  have hboth : s.driver.Matched ∧ s.Fresh := by
    refine h.guard_invariant (I := fun s => s.driver.Matched ∧ s.Fresh) ?_ ?_
    · rintro _ ⟨localMember, rfl⟩
      exact ⟨Driver.matched_new localMember, fresh_new localMember⟩
    · intro s e s' hs hkeeps hstep
      exact ⟨matched_step hs.1 hstep, hs.2.step hs.1 hkeeps hstep⟩
  exact hboth.2.noneStale

/-- A node is held to be down, comes back, and goes down for good, under the same key. Another one says
goodbye during its grace period. -/
theorem gracePeriods_kept_again : ∃ s, (runs.guard fun _ e => Driver.KeepsNames e.1).Reachable s ∧
    (s.ended = [⟨⟨"b", "b:7000", 1⟩, 3, some 2⟩] ∧ s.driver.pendingDown = [] ∧
      s.driver.published = [.up ⟨"b", "b:7000", 1⟩, .up ⟨"c", "c:7000", 1⟩, .left ⟨"c", "c:7000", 1⟩,
        .failed ⟨"b", "b:7000", 1⟩]) ∧ s.driver.KeysMatch ∧ s.NoneStale := by
  obtain ⟨s, hs, h⟩ : ∃ s, (runs.guard fun _ e => Driver.KeepsNames e.1).Reachable s ∧ _ :=
    Lts.exists_guard_reachable_of_exec (f := step)
      (p := fun s => s.ended = [⟨⟨"b", "b:7000", 1⟩, 3, some 2⟩] ∧ s.driver.pendingDown = [] ∧
        s.driver.published = [.up ⟨"b", "b:7000", 1⟩, .up ⟨"c", "c:7000", 1⟩,
          .left ⟨"c", "c:7000", 1⟩, .failed ⟨"b", "b:7000", 1⟩])
      (s := new ⟨"a", "a:7000", 1⟩) ⟨_, rfl⟩
      [(.notify (.memberUp ⟨"b", "b:7000", 1⟩), 0), (.notify (.memberDown ⟨"b", "b:7000", 1⟩), 0),
        (.notify (.memberUp ⟨"b", "b:7000", 1⟩), 1), (.notify (.memberDown ⟨"b", "b:7000", 1⟩), 0),
        (.notify (.memberUp ⟨"c", "c:7000", 1⟩), 1), (.notify (.memberDown ⟨"c", "c:7000", 1⟩), 1),
        (.departure "c" 1, 2), (.expire 0, 2)]
      (by decide +kernel)
  exact ⟨s, hs, h, gracePeriods_kept.1 s hs.of_guard, gracePeriods_kept.2 s hs⟩

end GracePeriods

end Zestors
