import Zestors.Lib.ListOrder
import Zestors.Messaging.Communication

/-!
# Calls do not outlive their nodes

No entry of the table of pending calls outlives the loss of its node, or the end of messaging
(`NothingOutlives`), in the runs in which an entry is inserted only while what ends it is still to
come (`nothingOutlives_of_insertsInTime`).
-/

namespace Zestors

namespace Communication
variable {s s' : Communication} {e : Event} {k i r : ℕ} {x : Sending} {node : NodeName} {id : UInt64}

/-- The last loss of the node has been handled, and it has not come back. -/
def IsLost (s : Communication) (node : NodeName) : Prop :=
  s.members node = false ∧ node ∉ s.reports ∧ node ∉ s.missed ∧ ∀ sweep, s.lost ≠ some (node, sweep)

/-- When no send is half done, there is no entry once messaging has stopped, and none for a node that
is lost; and an entry that is not there any more was answered or failed, unless whoever made it took
it out. -/
def NothingOutlives (s : Communication) : Prop :=
  (s.sends = [] → (s.messaging = .stopped → ∀ id, s.pending.get? id = none) ∧
    ∀ node, s.IsLost node → ∀ id call, s.pending.get? id = some call → call.node ≠ node) ∧
  ∀ r ∈ s.inserted, s.isPending r = true ∨ r ∈ s.answers.map (·.1) ∨ r ∈ s.letGo

/-- What fails the calls to the node is still to come: its loss, or the report of it, and the end of
messaging. -/
def StillEnds (s : Communication) (node : NodeName) : Prop :=
  (s.members node = true ∨ node ∈ s.reports ∨ node ∈ s.missed) ∧
    match s.messaging with
    | .running | .taken => True
    | .failing _ | .stopped => False

instance (s : Communication) (node : NodeName) : Decidable (s.StillEnds node) := by
  unfold StillEnds
  exact match s.messaging with
  | .running => inferInstance
  | .taken => inferInstance
  | .failing _ => inferInstance
  | .stopped => inferInstance

/-- The numbers of those who have an entry, or may still take it out. -/
def holders (s : Communication) : List ℕ := s.waiting.map (·.reply) ++ s.sends.flatMap Sending.held

/-- An entry is inserted while what ends it is still to come, and under an id that nobody else has. -/
def InsertsInTime (s : Communication) : Event → Prop
  | .exportRequest k | .expect k => ∀ x ∈ s.sends[k]?, ∀ r ∈ x.drawn,
      s.StillEnds x.node ∧ ∀ r' ∈ s.holders, callId r' ≠ callId r
  | _ => True

instance (s : Communication) (e : Event) : Decidable (s.InsertsInTime e) := by
  cases e <;> unfold InsertsInTime <;> infer_instance

/-- What will end the entry: it is met by the sweep under way, or by one that is still to come. -/
def Ends (s : Communication) (id : UInt64) (node : NodeName) : Prop :=
  (s.members node = true ∨ node ∈ s.reports ∨ node ∈ s.missed ∨
    ∃ sweep, s.lost = some (node, sweep) ∧ id ∈ sweep.ids) ∧
  match s.messaging with
  | .running | .taken => True
  | .failing sweep => id ∈ sweep.ids
  | .stopped => False

/-- Somebody waits for the answer, or will once the message is in the lane. -/
def Awaited (s : Communication) (r : ℕ) : Prop :=
  (∃ w ∈ s.waiting, w.reply = r) ∨ ∃ x ∈ s.sends, x.call = some r

/-- Where every call stands: its entry is there under its own id, somebody waits, and something will
end it, or it is over. -/
structure Kept (s : Communication) : Prop where
  entry : ∀ id call, s.pending.get? id = some call →
    id = callId call.reply ∧ s.Awaited call.reply ∧ s.Ends id call.node
  distinct : ∀ r ∈ s.holders, ∀ r' ∈ s.holders, callId r = callId r' → r = r'
  account : ∀ r ∈ s.inserted, s.isPending r = true ∨ r ∈ s.answers.map (·.1) ∨ r ∈ s.letGo

theorem kept_new : new.Kept := ⟨nofun, nofun, nofun⟩

theorem isPending_iff :
    s.isPending r = true ↔ ∃ call, s.pending.get? (callId r) = some call ∧ call.reply = r := by
  simp [isPending, Option.any_eq_true]

theorem Kept.nothingOutlives (h : s.Kept) : s.NothingOutlives := by
  refine ⟨fun _ => ⟨fun hstop id => ?_, fun node hlost id call hcall hnode => ?_⟩, h.account⟩
  · refine Option.eq_none_iff_forall_ne_some.2 fun call hcall => ?_
    have hends := (h.entry id call hcall).2.2.2
    rw [hstop] at hends
    exact hends
  · obtain ⟨hmember, hreports, hmissed, hsweep⟩ := hlost
    rcases (h.entry id call hcall).2.2.1 with hm | hr | hm | ⟨sweep, hs, -⟩
    · rw [hnode, hmember] at hm
      cases hm
    · exact hreports (hnode ▸ hr)
    · exact hmissed (hnode ▸ hm)
    · exact hsweep sweep (hnode ▸ hs)

/-! ## Steps -/

theorem mem_holders :
    r ∈ s.holders ↔ (∃ w ∈ s.waiting, w.reply = r) ∨ ∃ x ∈ s.sends, r ∈ x.held := by
  simp only [holders, List.mem_append, List.mem_map, List.mem_flatMap]

theorem Awaited.mem_holders (h : s.Awaited r) : r ∈ s.holders := by
  refine Communication.mem_holders.2 (h.imp_right fun ⟨x, hx, hcall⟩ => ?_)
  exact ⟨x, hx, Sending.mem_held_of_call hcall⟩

/-- The general step: entries go, and whoever had one that went is accounted for. -/
theorem Kept.mono (h : s.Kept)
    (hentry : ∀ id call, s'.pending.get? id = some call → s.pending.get? id = some call ∧
      (s.Awaited call.reply → s'.Awaited call.reply) ∧ (s.Ends id call.node → s'.Ends id call.node))
    (hholders : ∀ r ∈ s'.holders, r ∈ s.holders) (hinserted : s'.inserted = s.inserted)
    (hgone : ∀ id call, s.pending.get? id = some call → s'.pending.get? id = some call ∨
      call.reply ∈ s'.answers.map (·.1) ∨ call.reply ∈ s'.letGo)
    (hanswers : ∀ r ∈ s.answers.map (·.1), r ∈ s'.answers.map (·.1))
    (hletGo : ∀ r ∈ s.letGo, r ∈ s'.letGo) : s'.Kept := by
  refine ⟨fun id call hcall => ?_, fun r hr r' hr' => h.distinct r (hholders r hr) r' (hholders r' hr'),
    fun r hr => ?_⟩
  · obtain ⟨hold, hheld, hends⟩ := hentry id call hcall
    obtain ⟨hid, hheld', hends'⟩ := h.entry id call hold
    exact ⟨hid, hheld hheld', hends hends'⟩
  · rcases h.account r (hinserted ▸ hr) with hp | ha | hl
    · obtain ⟨call, hcall, rfl⟩ := isPending_iff.1 hp
      exact (hgone _ call hcall).imp_left fun hcall' => isPending_iff.2 ⟨call, hcall', rfl⟩
    · exact .inr (.inl (hanswers r ha))
    · exact .inr (.inr (hletGo r hl))

/-- The table and what it accounts for are the same, and everything still ends. -/
theorem Kept.of_ends (h : s.Kept) (hp : s'.pending = s.pending) (hi : s'.inserted = s.inserted)
    (ha : s'.answers = s.answers) (hl : s'.letGo = s.letGo)
    (hawaited : ∀ r, s.Awaited r → s'.Awaited r) (hholders : ∀ r ∈ s'.holders, r ∈ s.holders)
    (hends : ∀ id call, s.pending.get? id = some call → s.Ends id call.node → s'.Ends id call.node) :
    s'.Kept := by
  refine h.mono (fun id call hcall => ?_) hholders hi (fun id call hcall => ?_)
    (fun r hr => ha ▸ hr) fun r hr => hl ▸ hr
  · rw [hp] at hcall
    exact ⟨hcall, hawaited call.reply, hends id call hcall⟩
  · rw [hp]
    exact .inl hcall

theorem Kept.sends (h : s.Kept) {sends : List Sending} (drawn : ℕ)
    (hheld : ∀ y ∈ sends, ∀ r ∈ y.held, ∃ x ∈ s.sends, r ∈ x.held)
    (hcall : ∀ x ∈ s.sends, ∀ r, x.call = some r → ∃ y ∈ sends, y.call = some r) :
    Kept { s with sends := sends, drawn := drawn } := by
  refine h.of_ends rfl rfl rfl rfl (fun r hr => ?_) (fun r hr => ?_) fun _ _ _ hends => hends
  · exact hr.imp_right fun ⟨x, hx, hcr⟩ => hcall x hx r hcr
  · exact mem_holders.2 ((mem_holders.1 hr).imp_right fun ⟨y, hy, hyr⟩ => hheld y hy r hyr)

theorem Kept.setStage (h : s.Kept) (hk : s.sends[k]? = some x) {stage : PrepareStage} (drawn : ℕ)
    (hheld : Sending.held { x with stage := stage } = x.held)
    (hcall : Sending.call { x with stage := stage } = x.call) :
    Kept { s.setStage k x stage with drawn := drawn } := by
  refine h.sends drawn (fun y hy r hr => ?_) fun y hy r hr => ?_
  · rcases (List.mem_set_iff_of_getElem? hk).1 hy with rfl | hy
    · exact ⟨x, List.mem_of_getElem? hk, hheld ▸ hr⟩
    · exact ⟨y, List.mem_of_mem_eraseIdx hy, hr⟩
  · rcases (List.mem_iff_of_getElem? hk).1 hy with rfl | hy
    · exact ⟨_, (List.mem_set_iff_of_getElem? hk).2 (.inl rfl), hcall.trans hr⟩
    · exact ⟨y, (List.mem_set_iff_of_getElem? hk).2 (.inr hy), hr⟩

theorem Kept.endSend (h : s.Kept) (hk : s.sends[k]? = some x) (hheld : x.held = []) :
    (s.endSend k).Kept := by
  refine h.sends s.drawn (fun y hy r hr => ⟨y, List.mem_of_mem_eraseIdx hy, hr⟩) fun y hy r hr => ?_
  rcases (List.mem_iff_of_getElem? hk).1 hy with rfl | hy
  · have hmem := Sending.mem_held_of_call hr
    rw [hheld] at hmem
    cases hmem
  · exact ⟨y, hy, hr⟩

/-- The entry is inserted for a send that has no call yet: its number has a holder more. -/
theorem mem_holders_insert (hk : s.sends[k]? = some x) {stage : PrepareStage} {waiting : List Waiter}
    (hheld : Sending.held { x with stage := stage } = x.held ++ [r])
    (hwaiting : ∀ w ∈ waiting, w.reply = r) {r' : ℕ} :
    r' ∈ (s.insert k x r stage waiting).holders ↔ r' = r ∨ r' ∈ s.holders := by
  simp only [mem_holders, Communication.insert, List.mem_append, List.mem_set_iff_of_getElem? hk,
    List.mem_iff_of_getElem? hk, or_and_right, exists_or, exists_eq_left, hheld, List.mem_singleton]
  constructor
  · rintro ((hw | ⟨w, hw, rfl⟩) | (hx | rfl) | hx)
    exacts [.inr (.inl hw), .inl (hwaiting w hw), .inr (.inr (.inl hx)), .inl rfl,
      .inr (.inr (.inr hx))]
  · rintro (rfl | hw | hx | hx)
    exacts [.inr (.inl (.inr rfl)), .inl (.inl hw), .inr (.inl (.inl hx)), .inr (.inr hx)]

theorem Awaited.insert (h : s.Awaited r) (hk : s.sends[k]? = some x) (hcall : x.call = none)
    (r' : ℕ) (stage : PrepareStage) (waiting : List Waiter) :
    (s.insert k x r' stage waiting).Awaited r := by
  rcases h with ⟨w, hw, hwr⟩ | ⟨y, hy, hyr⟩
  · exact .inl ⟨w, List.mem_append_left _ hw, hwr⟩
  · rcases (List.mem_iff_of_getElem? hk).1 hy with rfl | hy
    · rw [hcall] at hyr
      cases hyr
    · exact .inr ⟨y, (List.mem_set_iff_of_getElem? hk).2 (.inr hy), hyr⟩

theorem StillEnds.ends (h : s.StillEnds node) (id : UInt64) : s.Ends id node := by
  refine ⟨h.1.imp_right fun hr => hr.imp_right .inl, ?_⟩
  have hmessaging := h.2
  split <;> simp_all

theorem Kept.insert (h : s.Kept) (hk : s.sends[k]? = some x) {stage : PrepareStage}
    {waiting : List Waiter} (hcall : x.call = none)
    (hheld : Sending.held { x with stage := stage } = x.held ++ [r])
    (hwaiting : ∀ w ∈ waiting, w.reply = r) (hawaited : (s.insert k x r stage waiting).Awaited r)
    (hends : s.StillEnds x.node) (hfree : ∀ r' ∈ s.holders, callId r' ≠ callId r) :
    (s.insert k x r stage waiting).Kept := by
  have hnone : s.pending.get? (callId r) = none := by
    refine Option.eq_none_iff_forall_ne_some.2 fun call hcall => ?_
    obtain ⟨hid, hheld, -⟩ := h.entry _ call hcall
    exact hfree call.reply hheld.mem_holders hid.symm
  have hget : ∀ id, (s.insert k x r stage waiting).pending.get? id =
      if id = callId r then some ⟨x.node, r⟩ else s.pending.get? id := fun id =>
    s.pending.get?_insert (callId r) id x.node r
  refine ⟨fun id call hcall' => ?_, fun r₁ h₁ r₂ h₂ hid => ?_, fun r' hr' => ?_⟩
  · rw [hget] at hcall'
    split at hcall'
    · cases hcall'
      exact ⟨‹_›, hawaited, hends.ends id⟩
    · obtain ⟨hid, hawaits, hends⟩ := h.entry id call hcall'
      exact ⟨hid, hawaits.insert hk hcall r stage waiting, hends⟩
  · rw [mem_holders_insert hk hheld hwaiting] at h₁ h₂
    rcases h₁ with rfl | h₁ <;> rcases h₂ with rfl | h₂
    · rfl
    · exact absurd hid.symm (hfree r₂ h₂)
    · exact absurd hid (hfree r₁ h₁)
    · exact h.distinct r₁ h₁ r₂ h₂ hid
  · rcases List.mem_append.1 hr' with hr' | hr'
    · refine (h.account r' hr').imp_left fun hp => ?_
      obtain ⟨call, hcall, rfl⟩ := isPending_iff.1 hp
      refine isPending_iff.2 ⟨call, ?_, rfl⟩
      rw [hget, if_neg fun heq => ?_]
      · exact hcall
      · rw [heq, hnone] at hcall
        cases hcall
    · rw [List.mem_singleton] at hr'
      subst hr'
      exact .inl (isPending_iff.2 ⟨⟨x.node, r'⟩, by rw [hget, if_pos rfl], rfl⟩)

theorem Kept.release (h : s.Kept) {rs : List ℕ} {sends : List Sending} {waiting : List Waiter}
    (hrs : ∀ r ∈ rs, r ∈ s.holders)
    (hholders : ∀ r ∈ holders { s with sends := sends, waiting := waiting }, r ∈ s.holders)
    (hrest : ∀ id call, s.pending.get? id = some call → id ∉ rs.map callId →
      Awaited { s with sends := sends, waiting := waiting } call.reply) :
    Kept { s.release rs with sends := sends, waiting := waiting } := by
  refine h.mono (fun id call hcall => ?_) hholders rfl (fun id call hcall => ?_) (fun _ hr => hr)
    fun r hr => List.mem_append_left _ hr
  · have hget : (s.pending.removeAll (rs.map callId)).get? id = some call := hcall
    rw [Pending.get?_removeAll] at hget
    split at hget
    · cases hget
    · exact ⟨hget, fun _ => hrest id call hget ‹_›, fun hends => hends⟩
  · by_cases hmem : id ∈ rs.map callId
    · obtain ⟨r, hr, rfl⟩ := List.mem_map.1 hmem
      obtain ⟨hid, hheld, -⟩ := h.entry _ call hcall
      rw [← h.distinct r (hrs r hr) _ hheld.mem_holders hid]
      exact .inr (.inr (List.mem_append_right _ hr))
    · refine .inl ?_
      show (s.pending.removeAll (rs.map callId)).get? id = some call
      rw [Pending.get?_removeAll, if_neg hmem]
      exact hcall

theorem Kept.answer (h : s.Kept) {pending : Pending} {answer : Option (ℕ × Answer)}
    {messaging : Messaging} {lost : Option (NodeName × Sweep)}
    (hentry : ∀ id call, pending.get? id = some call → s.pending.get? id = some call ∧
      (s.Ends id call.node → Ends { s with messaging := messaging, lost := lost } id call.node))
    (hgone : ∀ id call, s.pending.get? id = some call → pending.get? id = some call ∨
      ∃ result, answer = some (call.reply, result)) :
    Kept { s with
      pending := pending
      answers := s.answers ++ answer.toList
      messaging := messaging
      lost := lost } := by
  refine h.mono (fun id call hcall => ?_) (fun _ hr => hr) rfl (fun id call hcall => ?_)
    (fun r hr => ?_) fun _ hr => hr
  · obtain ⟨hold, hends⟩ := hentry id call hcall
    exact ⟨hold, fun hheld => hheld, hends⟩
  · refine (hgone id call hcall).imp_right fun ⟨result, hresult⟩ => .inl ?_
    rw [hresult]
    simp
  · rw [List.map_append]
    exact List.mem_append_left _ hr

theorem Kept.reply (h : s.Kept) {result : Except RemoteError Bytes}
    (hs : s.step (.reply node id result) = some s') : s'.Kept := by
  simp only [Communication.step] at hs
  split at hs
  · cases hs
  · cases hs
    exact h.answer
      (fun id' call hcall => ⟨Pending.get?_complete hcall, fun hends => hends⟩)
      fun id' call hcall => Pending.complete_gone hcall

theorem Kept.failIf (h : s.Kept) (id : UInt64) (f : PendingCall → Bool) {messaging : Messaging}
    {lost : Option (NodeName × Sweep)}
    (hends : ∀ id' call, ¬ (id' = id ∧ f call = true) → s.Ends id' call.node →
      Ends { s with messaging := messaging, lost := lost } id' call.node) :
    Kept { s.failIf id f with messaging := messaging, lost := lost } := by
  refine h.answer (fun id' call hcall => ?_) fun id' call hcall => ?_
  · obtain ⟨hold, hnot⟩ := Pending.get?_removeIf.1 hcall
    exact ⟨hold, hends id' call hnot⟩
  · exact (Pending.removeIf_gone hcall).imp_right fun heq => ⟨_, by rw [heq]; rfl⟩

theorem Kept.beginSweep (h : s.Kept) {reports missed : List NodeName} (node : NodeName)
    (hlost : s.lost = none)
    (hreports : ∀ node', node' ≠ node → (node' ∈ s.reports → node' ∈ reports) ∧
      (node' ∈ s.missed → node' ∈ missed)) :
    Kept { s with
      reports := reports
      missed := missed
      lost := some (node, .of s.pending (·.node = node)) } := by
  refine h.of_ends rfl rfl rfl rfl (fun _ hr => hr) (fun _ hr => hr) fun id call hcall hends => ?_
  obtain ⟨hnode, hmessaging⟩ := hends
  refine ⟨?_, hmessaging⟩
  by_cases heq : call.node = node
  · refine .inr (.inr (.inr ⟨_, by rw [heq], ?_⟩))
    exact Pending.mem_idsOf (f := fun call => decide (call.node = node)) hcall (decide_eq_true heq)
  · rcases hnode with hm | hr | hm | ⟨sweep, hs, -⟩
    · exact .inl hm
    · exact .inr (.inl ((hreports call.node heq).1 hr))
    · exact .inr (.inr (.inl ((hreports call.node heq).2 hm)))
    · rw [hlost] at hs
      cases hs

theorem Kept.check (h : s.Kept) {stage next : PrepareStage} {ok : Sending → Bool}
    (hstage : ∀ x : Sending, x.stage = stage → x.held = [])
    (hnext : ∀ x : Sending, Sending.held { x with stage := next } = [])
    (hs : s.check k stage next ok = some s') : s'.Kept := by
  obtain ⟨x, hk, hs⟩ := Option.bind_eq_some_iff.1 hs
  split at hs
  · rename_i hx
    cases hs
    split
    · have hcall : ∀ y : Sending, y.held = [] → y.call = none := fun y hy =>
        Option.eq_none_iff_forall_ne_some.2 fun r hr => by
          have hmem := Sending.mem_held_of_call hr
          rw [hy] at hmem
          cases hmem
      exact h.setStage hk s.drawn ((hnext x).trans (hstage x hx).symm)
        ((hcall _ (hnext x)).trans (hcall x (hstage x hx)).symm)
    · exact h.endSend hk (hstage x hx)
  · cases hs

theorem Kept.exportRequest (h : s.Kept) (hok : s.InsertsInTime (.exportRequest k))
    (hs : s.step (.exportRequest k) = some s') : s'.Kept := by
  obtain ⟨x, hk, hs⟩ := Option.bind_eq_some_iff.1 hs
  split at hs
  · rename_i r exports hstage
    cases hs
    obtain ⟨hends, hfree⟩ := hok x hk r (by rw [Sending.drawn, hstage]; rfl)
    exact h.insert hk (by rw [Sending.call, hstage]) (by simp only [Sending.held, hstage]) (by simp)
      (.inl ⟨⟨r, true⟩, List.mem_append_right _ (List.mem_singleton_self _), rfl⟩) hends hfree
  · cases hs

theorem Kept.expect (h : s.Kept) (hok : s.InsertsInTime (.expect k))
    (hs : s.step (.expect k) = some s') : s'.Kept := by
  obtain ⟨x, hk, hs⟩ := Option.bind_eq_some_iff.1 hs
  split at hs
  · rename_i r exports _ hstage
    cases hs
    obtain ⟨hends, hfree⟩ := hok x hk r (by rw [Sending.drawn, hstage]; rfl)
    exact h.insert hk (by rw [Sending.call, hstage]) (by simp only [Sending.held, hstage, Option.toList])
      nofun (.inr ⟨_, (List.mem_set_iff_of_getElem? hk).2 (.inl rfl), rfl⟩) hends hfree
  · rename_i exports _ hstage
    cases hs
    exact h.setStage hk s.drawn (by simp [Sending.held, hstage]) (by simp [Sending.call, hstage])
  · cases hs

/-- Whoever sent a message that is in the lane waits for its call from here on. -/
theorem awaited_handOver (hk : s.sends[k]? = some x) {exports : List ℕ} {call : Option ℕ}
    (hstage : x.stage = .lane exports call) (h : s.Awaited r) :
    Awaited { s.endSend k with waiting := s.waiting ++ call.toList.map (⟨·, false⟩) } r := by
  rcases h with ⟨w, hw, hwr⟩ | ⟨y, hy, hyr⟩
  · exact .inl ⟨w, List.mem_append_left _ hw, hwr⟩
  · rcases (List.mem_iff_of_getElem? hk).1 hy with rfl | hy
    · rw [Sending.call, hstage] at hyr
      exact .inl ⟨⟨r, false⟩, List.mem_append_right _ (by simp [show call = some r from hyr]), rfl⟩
    · exact .inr ⟨y, hy, hyr⟩

theorem holders_handOver (hk : s.sends[k]? = some x) {exports : List ℕ} {call : Option ℕ}
    (hstage : x.stage = .lane exports call)
    (h : r ∈ holders { s.endSend k with waiting := s.waiting ++ call.toList.map (⟨·, false⟩) }) :
    r ∈ s.holders := by
  rcases mem_holders.1 h with ⟨w, hw, hwr⟩ | ⟨y, hy, hyr⟩
  · rcases List.mem_append.1 hw with hw | hw
    · exact mem_holders.2 (.inl ⟨w, hw, hwr⟩)
    · obtain ⟨r', hr', rfl⟩ := List.mem_map.1 hw
      refine mem_holders.2 (.inr ⟨x, List.mem_of_getElem? hk, ?_⟩)
      rw [Sending.held, hstage]
      exact List.mem_append_right _ (hwr ▸ hr')
  · exact mem_holders.2 (.inr ⟨y, List.mem_of_mem_eraseIdx hy, hyr⟩)

theorem Kept.handOver (h : s.Kept) (hs : s.step (.handOver k) = some s') : s'.Kept := by
  obtain ⟨x, hk, hs⟩ := Option.bind_eq_some_iff.1 hs
  split at hs
  · rename_i exports call hstage
    cases hs
    exact h.of_ends rfl rfl rfl rfl (fun r hr => awaited_handOver hk hstage hr)
      (fun r hr => holders_handOver hk hstage hr) fun _ _ _ hends => hends
  · cases hs

theorem Kept.abandon (h : s.Kept) (hs : s.step (.abandon k) = some s') : s'.Kept := by
  obtain ⟨x, hk, hs⟩ := Option.bind_eq_some_iff.1 hs
  have hrelease : ((s.release x.held).endSend k).Kept := by
    refine h.release (fun r hr => ?_)
      (fun r hr => ?_) fun id call hcall hnot => ?_
    · exact mem_holders.2 (.inr ⟨x, List.mem_of_getElem? hk, hr⟩)
    · refine mem_holders.2 ((mem_holders.1 hr).imp_right fun ⟨y, hy, hr⟩ => ?_)
      exact ⟨y, List.mem_of_mem_eraseIdx hy, hr⟩
    · obtain ⟨hid, hawaited, -⟩ := h.entry id call hcall
      refine hawaited.imp_right fun ⟨y, hy, hr⟩ => ?_
      rcases (List.mem_iff_of_getElem? hk).1 hy with rfl | hy
      · exact absurd (List.mem_map.2 ⟨_, Sending.mem_held_of_call hr, hid.symm⟩) hnot
      · exact ⟨y, hy, hr⟩
  split at hs
  · cases hs
    exact hrelease
  · cases hs
    exact hrelease
  · cases hs

theorem Kept.giveUp (h : s.Kept) (hs : s.step (.giveUp i) = some s') : s'.Kept := by
  obtain ⟨w, hi, hs⟩ := Option.bind_eq_some_iff.1 hs
  have hholders : ∀ r ∈ holders { s with waiting := s.waiting.eraseIdx i }, r ∈ s.holders := by
    intro r hr
    refine mem_holders.2 ((mem_holders.1 hr).imp_left fun ⟨w', hw, hr⟩ => ?_)
    exact ⟨w', List.mem_of_mem_eraseIdx hw, hr⟩
  have hawaited : ∀ r, r ≠ w.reply → s.Awaited r →
      Awaited { s with waiting := s.waiting.eraseIdx i } r := by
    rintro r hne (⟨w', hw, rfl⟩ | hsend)
    · rcases (List.mem_iff_of_getElem? hi).1 hw with rfl | hw
      · exact absurd rfl hne
      · exact .inl ⟨w', hw, rfl⟩
    · exact .inr hsend
  split at hs
  · rename_i hgone
    cases hs
    refine h.mono (fun id call hcall => ⟨hcall, hawaited _ fun heq => ?_, fun hends => hends⟩) hholders
      rfl (fun _ _ hcall => .inl hcall) (fun _ hr => hr) fun _ hr => hr
    obtain ⟨hid, -⟩ := h.entry id call hcall
    have hpending : s.isPending w.reply = true := isPending_iff.2 ⟨call, by rw [← heq, ← hid]; exact hcall, heq⟩
    rw [hpending] at hgone
    simp at hgone
  · cases hs
    refine h.release (fun r hr => ?_) hholders
      fun id call hcall hnot => ?_
    · rw [List.mem_singleton] at hr
      exact mem_holders.2 (.inl ⟨w, List.mem_of_getElem? hi, hr.symm⟩)
    · obtain ⟨hid, hawait, -⟩ := h.entry id call hcall
      refine hawaited _ (fun heq => hnot ?_) hawait
      rw [hid, heq]
      exact List.mem_singleton_self _

/-- The members, the reports and the sweeps change; everything that will end an entry still does. -/
theorem Kept.environment (h : s.Kept) {messaging : Messaging} {members unreachable : NodeName → Bool}
    {reports missed : List NodeName} {lost : Option (NodeName × Sweep)}
    (hends : ∀ id call, s.pending.get? id = some call → s.Ends id call.node → Ends { s with
      messaging := messaging, members := members, unreachable := unreachable, reports := reports,
      missed := missed, lost := lost } id call.node) :
    Kept { s with
      messaging := messaging
      members := members
      unreachable := unreachable
      reports := reports
      missed := missed
      lost := lost } :=
  h.of_ends rfl rfl rfl rfl (fun _ hr => hr) (fun _ hr => hr) hends

theorem Kept.handle (h : s.Kept) (hs : s.step .handle = some s') : s'.Kept := by
  simp only [Communication.step] at hs
  split at hs
  · rename_i node reports hlost hreports
    cases hs
    refine h.beginSweep node hlost fun node' hne => ⟨fun hr => ?_, fun hm => ?_⟩
    · rw [hreports] at hr
      exact (List.mem_cons.1 hr).resolve_left hne
    · exact List.mem_filter.2 ⟨hm, by simpa using hne⟩
  · cases hs

theorem Kept.lag (h : s.Kept) (hs : s.step .lag = some s') : s'.Kept := by
  simp only [Communication.step] at hs
  split at hs
  · rename_i node reports hreports
    cases hs
    refine h.environment fun id call _ ⟨hnode, hmessaging⟩ => ⟨?_, hmessaging⟩
    rcases hnode with hm | hr | hm | hsweep
    · exact .inl hm
    · rw [hreports] at hr
      rcases List.mem_cons.1 hr with heq | hr
      · exact .inr (.inr (.inl (heq ▸ List.mem_cons_self)))
      · exact .inr (.inl hr)
    · exact .inr (.inr (.inl (List.mem_cons_of_mem _ hm)))
    · exact .inr (.inr (.inr hsweep))
  · cases hs

theorem Kept.disconnected (h : s.Kept) (hs : s.step (.disconnected node) = some s') : s'.Kept := by
  simp only [Communication.step] at hs
  split at hs
  · cases hs
    exact h.beginSweep node ‹_› fun _ _ => ⟨fun hr => hr, fun hm => hm⟩
  · cases hs

theorem Kept.find (h : s.Kept) (hs : s.step (.find id) = some s') : s'.Kept := by
  obtain ⟨⟨node, sweep⟩, hlost, hs⟩ := Option.bind_eq_some_iff.1 hs
  obtain ⟨sweep', hfind, hs⟩ := Option.bind_eq_some_iff.1 hs
  cases hs
  refine h.environment fun id' call _ ⟨hnode, hmessaging⟩ => ⟨?_, hmessaging⟩
  refine hnode.imp_right fun hr => hr.imp_right fun hm => hm.imp_right fun ⟨sweep₀, hs, hid⟩ => ?_
  rw [hlost] at hs
  cases hs
  exact ⟨sweep', rfl, Sweep.mem_of_find hfind hid⟩

theorem Kept.fail (h : s.Kept) (hs : s.step .fail = some s') : s'.Kept := by
  simp only [Communication.step] at hs
  split at hs
  · rename_i node iterating id ids hlost
    cases hs
    refine h.failIf id _ fun id' call hnot ⟨hnode, hmessaging⟩ => ⟨?_, hmessaging⟩
    refine hnode.imp_right fun hr => hr.imp_right fun hm => hm.imp_right fun ⟨sweep, hs, hid⟩ => ?_
    rw [hlost] at hs
    simp only [Option.some.injEq, Prod.mk.injEq] at hs
    obtain ⟨hcall, rfl⟩ := hs
    refine ⟨_, by rw [hcall], (List.mem_cons.1 hid).resolve_left fun heq => hnot ⟨heq, ?_⟩⟩
    exact decide_eq_true hcall.symm
  · cases hs

theorem Kept.handled (h : s.Kept) (hs : s.step .handled = some s') : s'.Kept := by
  simp only [Communication.step] at hs
  split at hs
  · rename_i node iterating hlost
    cases hs
    refine h.environment fun id call _ ⟨hnode, hmessaging⟩ => ⟨?_, hmessaging⟩
    refine hnode.imp_right fun hr => hr.imp_right fun hm => hm.imp_right fun ⟨sweep, hs, hid⟩ => ?_
    rw [hlost] at hs
    cases hs
    cases hid
  · cases hs

theorem Kept.take (h : s.Kept) (hs : s.step .take = some s') : s'.Kept := by
  simp only [Communication.step] at hs
  split at hs
  · cases hs
    exact h.environment fun id call _ hends => ⟨hends.1, trivial⟩
  · cases hs

theorem Kept.failAll (h : s.Kept) (hs : s.step .failAll = some s') : s'.Kept := by
  simp only [Communication.step] at hs
  split at hs
  · cases hs
    refine h.environment fun id call hcall hends => ⟨hends.1, ?_⟩
    exact Pending.mem_idsOf (f := fun _ => true) hcall rfl
  · cases hs

theorem Kept.findAny (h : s.Kept) (hs : s.step (.findAny id) = some s') : s'.Kept := by
  simp only [Communication.step] at hs
  split at hs
  · rename_i sweep hmessaging
    obtain ⟨sweep', hfind, hs⟩ := Option.bind_eq_some_iff.1 hs
    cases hs
    refine h.environment fun id' call _ ⟨hnode, hid⟩ => ⟨hnode, ?_⟩
    rw [hmessaging] at hid
    exact Sweep.mem_of_find hfind hid
  · cases hs

theorem Kept.failAny (h : s.Kept) (hs : s.step .failAny = some s') : s'.Kept := by
  simp only [Communication.step] at hs
  split at hs
  · rename_i iterating id ids hmessaging
    cases hs
    refine h.failIf id _ fun id' call hnot ⟨hnode, hid⟩ => ⟨hnode, ?_⟩
    rw [hmessaging] at hid
    exact (List.mem_cons.1 hid).resolve_left fun heq => hnot ⟨heq, rfl⟩
  · cases hs

theorem Kept.stop (h : s.Kept) (hs : s.step .stop = some s') : s'.Kept := by
  simp only [Communication.step] at hs
  split at hs
  · rename_i iterating hmessaging
    cases hs
    refine h.environment fun id call _ ⟨hnode, hid⟩ => ?_
    rw [hmessaging] at hid
    cases hid
  · cases hs

theorem Kept.step (h : s.Kept) (hok : s.InsertsInTime e) (hs : s.step e = some s') : s'.Kept := by
  cases e with
  | up node =>
    cases hs
    refine h.environment fun id call _ ⟨hnode, hmessaging⟩ => ⟨hnode.imp_left fun hm => ?_, hmessaging⟩
    show Function.update s.members node true call.node = true
    by_cases heq : call.node = node
    · rw [heq, Function.update_self]
    · rw [Function.update_of_ne heq]
      exact hm
  | lose node =>
    simp only [Communication.step] at hs
    split at hs
    · cases hs
      refine h.environment fun id call _ ⟨hnode, hmessaging⟩ => ⟨?_, hmessaging⟩
      by_cases heq : call.node = node
      · exact .inr (.inl (List.mem_append_right _ (List.mem_singleton.2 heq)))
      · refine hnode.imp (fun hm => ?_) fun hr => hr.imp_left (List.mem_append_left _)
        exact (Function.update_of_ne heq _ _).trans hm
    · cases hs
  | renamed node =>
    simp only [Communication.step] at hs
    split at hs
    · cases hs
      refine h.environment fun id call _ ⟨hnode, hmessaging⟩ => ⟨?_, hmessaging⟩
      exact hnode.imp_right fun hr => hr.imp_left (List.mem_append_left _)
    · cases hs
  | unreachable node unreachable =>
    simp only [Communication.step] at hs
    split at hs
    · cases hs
      exact h.environment fun id call _ hends => hends
    · cases hs
  | send node replies =>
    cases hs
    refine h.sends s.drawn (fun y hy r hr => ?_) fun y hy r hr => ⟨y, List.mem_append_left _ hy, hr⟩
    rcases List.mem_append.1 hy with hy | hy
    · exact ⟨y, hy, hr⟩
    · rw [List.mem_singleton.1 hy] at hr
      cases hr
  | checkRunning k | checkMember k | checkReachable k =>
    exact h.check (fun x hx => by rw [Sending.held, hx]) (fun _ => rfl) hs
  | draw k =>
    obtain ⟨x, hk, hs⟩ := Option.bind_eq_some_iff.1 hs
    split at hs
    · rename_i exports hstage
      cases hs
      exact h.setStage hk _ (by simp only [Sending.held, hstage]) (by simp only [Sending.call, hstage])
    · cases hs
  | drawMonitor =>
    cases hs
    exact h.sends _ (fun y hy r hr => ⟨y, hy, hr⟩) fun y hy r hr => ⟨y, hy, hr⟩
  | exportRequest k => exact h.exportRequest hok hs
  | expect k => exact h.expect hok hs
  | handOver k => exact h.handOver hs
  | abandon k => exact h.abandon hs
  | giveUp i => exact h.giveUp hs
  | reply node id result => exact h.reply hs
  | handle => exact h.handle hs
  | lag => exact h.lag hs
  | disconnected node => exact h.disconnected hs
  | find id => exact h.find hs
  | fail => exact h.fail hs
  | handled => exact h.handled hs
  | take => exact h.take hs
  | failAll => exact h.failAll hs
  | findAny id => exact h.findAny hs
  | failAny => exact h.failAny hs
  | stop => exact h.stop hs

/-! ## Runs -/

/-- No entry outlives what ends it in the runs in which every entry is inserted in time. -/
theorem nothingOutlives_of_insertsInTime (h : (runs.guard InsertsInTime).Reachable s) :
    s.NothingOutlives := by
  refine (h.guard_invariant (I := Kept) ?_ fun s e s' hi hok hs => hi.step hok hs).nothingOutlives
  rintro _ rfl
  exact kept_new

/-- A call fails when its node is lost, and another one when messaging ends. -/
theorem nothingOutlives_of_insertsInTime_both : ∃ s, (runs.guard InsertsInTime).Reachable s ∧
    (s.sends = [] ∧ s.messaging = .stopped ∧ s.inserted = [0, 1] ∧
      s.answers = [(0, .error .disconnected), (1, .error .disconnected)]) ∧ s.NothingOutlives := by
  obtain ⟨s, hs, h⟩ : ∃ s, (runs.guard InsertsInTime).Reachable s ∧ _ :=
    Lts.exists_guard_reachable_of_exec (f := step)
      (p := fun s => s.sends = [] ∧ s.messaging = .stopped ∧ s.inserted = [0, 1] ∧
        s.answers = [(0, .error .disconnected), (1, .error .disconnected)])
      (s := new) rfl
      [.up "a", .up "b", .send "a" true, .checkRunning 0, .checkMember 0, .checkReachable 0, .draw 0,
        .lose "a", .expect 0, .handOver 0, .handle, .fail, .handled, .send "b" true, .checkRunning 0,
        .checkMember 0, .checkReachable 0, .take, .draw 0, .expect 0, .handOver 0, .failAll, .failAny,
        .stop]
      (by decide +kernel)
  exact ⟨s, hs, h, nothingOutlives_of_insertsInTime hs⟩

/-- A call that passed its checks before the loss of its node, or the end of messaging, is inserted
after that: it stays. -/
theorem not_nothingOutlives : (∃ s, runs.Reachable s ∧ s.sends = [] ∧ s.IsLost "a" ∧
      s.pending.get? 0 = some ⟨"a", 0⟩) ∧
    (∃ s, runs.Reachable s ∧ s.sends = [] ∧ s.messaging = .stopped ∧
      s.pending.get? 0 = some ⟨"a", 0⟩) ∧
    ¬ ∀ s, runs.Reachable s → s.NothingOutlives := by
  obtain ⟨s, hs, hsends, hstop, hget⟩ : ∃ s, runs.Reachable s ∧ s.sends = [] ∧
      s.messaging = .stopped ∧ s.pending.get? 0 = some ⟨"a", 0⟩ :=
    Lts.exists_reachable_of_exec (s := new) rfl
      [.up "a", .send "a" true, .checkRunning 0, .checkMember 0, .checkReachable 0, .draw 0, .take,
        .failAll, .stop, .expect 0, .handOver 0]
      (by decide +kernel)
  refine ⟨?_, ⟨s, hs, hsends, hstop, hget⟩, fun hall => ?_⟩
  · obtain ⟨s, hs, h⟩ : ∃ s, runs.Reachable s ∧ s.sends = [] ∧ s.pending.get? 0 = some ⟨"a", 0⟩ ∧
        s.members "a" = false ∧ s.reports = [] ∧ s.missed = [] ∧ s.lost = none :=
      Lts.exists_reachable_of_exec (s := new) rfl
        [.up "a", .send "a" true, .checkRunning 0, .checkMember 0, .checkReachable 0, .draw 0,
          .lose "a", .handle, .handled, .expect 0, .handOver 0]
        (by decide +kernel)
    obtain ⟨hsends, hget, hmember, hreports, hmissed, hlost⟩ := h
    refine ⟨s, hs, hsends, ⟨hmember, ?_, ?_, ?_⟩, hget⟩
    · rw [hreports]; exact List.not_mem_nil
    · rw [hmissed]; exact List.not_mem_nil
    · rw [hlost]; nofun
  · have hnone := ((hall s hs).1 hsends).1 hstop 0
    rw [hget] at hnone
    cases hnone

end Communication

end Zestors
