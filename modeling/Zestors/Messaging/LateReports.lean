import Zestors.Link.Disconnects
import Zestors.Messaging.Monitors

/-!
# Late reports of losses

The calls of a node to its peers and the monitors that it holds for them, next to the connections that
carry both. A loss is reported through a channel, and `serve` handles the report later: it fails the
calls to the node and drops the node's monitors by its name, whatever connection they came over and
whatever incarnation they are about.

A report touches only what belongs to the lost connection or incarnation (`OnlyOwn`) in the runs in
which nothing else of the node is there while the report is on its way (`onlyOwn_of_reportsTimely`).
-/

namespace Zestors

/-- What was lost: a connection, or a member in one of its generations. -/
inductive Loss
  | disconnected (report : Disconnected)
  | departed (node : NodeName) (generation : ℕ)
deriving DecidableEq

def Loss.node : Loss → NodeName
  | .disconnected report => report.node
  | .departed node _ => node

/-- The connection that something came over, and the generation of the peer on it. -/
structure Via where
  conn : ℕ
  generation : ℕ
deriving DecidableEq

def Via.isOf (via : Via) : Loss → Bool
  | .disconnected report => via.conn = report.conn
  | .departed _ generation => via.generation = generation

/-- A call to a member: the generation in which `prepare` found it, and the connection that its frame
was written to. -/
structure SentCall where
  node : NodeName
  generation : ℕ
  via : Option Via
deriving DecidableEq

/-- The call went to what was lost. One that has not been sent is to the incarnation it was made for. -/
def SentCall.isOf (call : SentCall) (loss : Loss) : Bool :=
  decide (call.node = loss.node) &&
    match call.via with
    | some via => via.isOf loss
    | none =>
      match loss with
      | .disconnected _ => false
      | .departed _ generation => call.generation = generation

/-- A monitor and the connection that its frame arrived on. -/
structure HeldMonitor where
  node : NodeName
  via : Via
deriving DecidableEq

def HeldMonitor.isOf (monitor : HeldMonitor) (loss : Loss) : Bool :=
  decide (monitor.node = loss.node) && monitor.via.isOf loss

/-- What handling a loss touches. -/
inductive Target
  | call (sent : Option SentCall)
  | monitor (held : Option HeldMonitor)
deriving DecidableEq

def Target.isOf (target : Target) (loss : Loss) : Bool :=
  match target with
  | .call sent => sent.any (·.isOf loss)
  | .monitor held => held.any (·.isOf loss)

/-- A node, its connections, its calls and the monitors it holds. `serve` has taken the first `handled`
of the reports about connections; `departures` are the members that left or failed, and wait to be
handled. `calls` and `held` are ghosts, which the entries of the two tables lead to, and `hits` is a
history: what each loss touched. -/
structure Traffic where
  links : Links
  handled : ℕ
  members : NodeName → Option ℕ
  departures : List (NodeName × ℕ)
  pending : Pending
  monitors : Monitors
  nextCall : ℕ
  calls : List SentCall
  held : List HeldMonitor
  hits : List (Loss × Target)

namespace Links
variable {s s' : Links} {e : Event}

theorem reports_unregister (s : Links) (peer : NodeName) (c : ℕ) :
    (s.unregister peer c).reports = s.reports := by
  unfold unregister
  split
  · split <;> rfl
  · rfl

theorem reports_forget (s : Links) (node : NodeName) (generation : ℕ) :
    (s.forget node generation).reports = s.reports := by
  unfold forget
  split
  · split <;> rfl
  · rfl

theorem reports_registerEnd (s : Links) (c : ℕ) (conn : Conn) :
    ∃ reports, (s.registerEnd c conn).reports = s.reports ++ reports := by
  have hregister : ∃ reports, (s.register conn.peer conn.generation c conn.dialer).1.reports =
      s.reports ++ reports := by
    unfold register
    dsimp only
    split
    · exact ⟨[], (List.append_nil _).symm⟩
    · split
      · exact ⟨[], (List.append_nil _).symm⟩
      · split
        · exact ⟨_, rfl⟩
        · exact ⟨[], (List.append_nil _).symm⟩
  unfold registerEnd
  dsimp only
  split <;> exact hregister

/-- Reports are only ever added. -/
theorem reports_of_step (hs : s.step e = some s') : ∃ reports, s'.reports = s.reports ++ reports := by
  have hsame : s'.reports = s.reports → ∃ reports, s'.reports = s.reports ++ reports := fun h =>
    ⟨[], by rw [h, List.append_nil]⟩
  cases e with
  | greeted peer generation dialer | close c =>
    cases hs
    exact hsame rfl
  | register c =>
    obtain ⟨conn, -, hs⟩ := Option.bind_eq_some_iff.1 hs
    split at hs
    · cases hs
      exact s.reports_registerEnd c conn
    · cases hs
  | received c =>
    obtain ⟨conn, -, hs⟩ := Option.bind_eq_some_iff.1 hs
    split at hs
    · cases hs
      exact hsame (s.reports_unregister conn.peer c)
    · cases hs
  | writeFailed node c =>
    cases hs
    exact hsame (s.reports_unregister node c)
  | forget node generation =>
    cases hs
    exact hsame (s.reports_forget node generation)
  | send i =>
    obtain ⟨report, -, hs⟩ := Option.bind_eq_some_iff.1 hs
    cases hs
    exact ⟨[report], rfl⟩

end Links

namespace Traffic

def new (name : NodeName) : Traffic :=
  ⟨.new name, 0, fun _ => none, [], .empty, .empty, 0, [], [], []⟩

inductive Event
  | links (event : Links.Event)
  | up (node : NodeName) (generation : ℕ)
  /-- The member left or failed. -/
  | depart (node : NodeName)
  /-- A new incarnation takes the place of the member. -/
  | renamed (node : NodeName) (generation : ℕ)
  | draw
  /-- `prepare` puts a call to the node in the table. -/
  | call (node : NodeName)
  /-- The frame of the call is written to the connection `c`. -/
  | write (reply c : ℕ)
  | reply (node : NodeName) (id : UInt64) (result : Except RemoteError Bytes)
  | remove (id : UInt64)
  /-- A monitor begins, whose frame arrived on the connection `c`. -/
  | begin (key : MonitorKey) (c : ℕ)
  | endFor (key : MonitorKey)
  | cancel (key : MonitorKey)
  /-- `serve` takes the next report about a connection, or drops it unread. -/
  | handleDisconnected
  | lagDisconnected
  /-- `serve` takes the next departure, or drops it unread. -/
  | handleDeparture
  | lagDeparture

variable {s s' : Traffic} {e : Event} {node : NodeName} {loss : Loss} {target : Target} {c r : ℕ}

/-- What there is of the node in the two tables. -/
def targets (s : Traffic) (node : NodeName) : List Target :=
  (s.pending.calls.entries.filter fun e => e.2.node = node).map (fun e => .call s.calls[e.2.reply]?) ++
    (s.monitors.live.entries.filter fun e => e.1.1 = node).map fun e => .monitor s.held[e.2]?

/-- The closure `lost` of `serve`. -/
def lost (s : Traffic) (loss : Loss) : Traffic :=
  { s with
    pending := (s.pending.failNode loss.node).1
    monitors := s.monitors.dropNode loss.node
    hits := s.hits ++ (s.targets loss.node).map (loss, ·) }

/-- The connection, as something that a frame goes over. -/
def via (s : Traffic) (node : NodeName) (c : ℕ) : Option Via := do
  let conn ← s.links.conns[c]?
  if conn.peer = node ∧ conn.Kept then some ⟨c, conn.generation⟩ else none

def depart (s : Traffic) (node : NodeName) (after : Option ℕ) : Option Traffic := do
  let generation ← s.members node
  some { s with
    members := Function.update s.members node after
    departures := s.departures ++ [(node, generation)] }

def step (s : Traffic) : Event → Option Traffic
  | .links event => (s.links.step event).map fun links => { s with links := links }
  | .up node generation => some { s with members := Function.update s.members node (some generation) }
  | .depart node => s.depart node none
  | .renamed node generation => s.depart node (some generation)
  | .draw => some { s with nextCall := s.nextCall + 1 }
  | .call node => do
    let generation ← s.members node
    some { s with
      pending := s.pending.insert (UInt64.ofNat s.nextCall) node s.calls.length
      nextCall := s.nextCall + 1
      calls := s.calls ++ [⟨node, generation, none⟩] }
  | .write reply c => do
    let call ← s.calls[reply]?
    let via ← s.via call.node c
    if call.via = none then
      some { s with calls := s.calls.set reply { call with via := some via } }
    else none
  | .reply node id result => some { s with pending := (s.pending.complete node id result).1 }
  | .remove id => some { s with pending := s.pending.remove id }
  | .begin key c => do
    let via ← s.via key.1 c
    some { s with
      monitors := s.monitors.begin key s.held.length
      held := s.held ++ [⟨key.1, via⟩] }
  | .endFor key => some { s with monitors := s.monitors.endFor key }
  | .cancel key => some { s with monitors := s.monitors.cancel key }
  | .handleDisconnected => do
    let report ← s.links.reports[s.handled]?
    some { s.lost (.disconnected report) with handled := s.handled + 1 }
  | .lagDisconnected => do
    let _ ← s.links.reports[s.handled]?
    some { s with handled := s.handled + 1 }
  | .handleDeparture =>
    match s.departures with
    | [] => none
    | (node, generation) :: rest => some { s.lost (.departed node generation) with departures := rest }
  | .lagDeparture =>
    match s.departures with
    | [] => none
    | _ :: rest => some { s with departures := rest }

/-- Every interleaving of the connections, the members, the traffic and `serve`. -/
def runs : Lts Traffic Event := Lts.ofFun (fun s => ∃ name, s = new name) step

/-- Whatever a loss touched went to, or came from, what was lost. -/
def OnlyOwn (s : Traffic) : Prop := ∀ hit ∈ s.hits, hit.2.isOf hit.1 = true

instance (s : Traffic) : Decidable s.OnlyOwn := by unfold OnlyOwn; infer_instance

/-- The losses that were reported, and not handled yet. -/
def reported (s : Traffic) : List Loss :=
  (s.links.reports.drop s.handled).map .disconnected ++ s.departures.map fun d => .departed d.1 d.2

/-- All that there is of the node went to, or came from, what is lost. -/
def AllOf (s : Traffic) (loss : Loss) : Prop := ∀ target ∈ s.targets loss.node, target.isOf loss = true

instance (s : Traffic) (loss : Loss) : Decidable (s.AllOf loss) := by unfold AllOf; infer_instance

/-- A loss is reported when all that there is of the node belongs to it, and whatever comes before the
report is handled does so too. -/
def ReportsTimely (s : Traffic) : Event → Prop
  | .links event => ∀ links ∈ s.links.step event, ∀ report ∈ links.reports.drop s.links.reports.length,
      s.AllOf (.disconnected report)
  | .depart node | .renamed node _ => ∀ generation ∈ s.members node, s.AllOf (.departed node generation)
  | .call node => ∀ generation ∈ s.members node, ∀ loss ∈ s.reported, loss.node = node →
      SentCall.isOf ⟨node, generation, none⟩ loss = true
  | .write reply c => ∀ call ∈ s.calls[reply]?, ∀ via ∈ s.via call.node c, ∀ loss ∈ s.reported,
      loss.node = call.node → .call (some call) ∈ s.targets loss.node → via.isOf loss = true
  | .begin key c => ∀ via ∈ s.via key.1 c, ∀ loss ∈ s.reported, loss.node = key.1 →
      via.isOf loss = true
  | _ => True

instance (s : Traffic) (e : Event) : Decidable (s.ReportsTimely e) := by
  cases e <;> unfold ReportsTimely <;> infer_instance

/-- What a report touches belongs to what was lost, now and when it is handled. -/
structure Own (s : Traffic) : Prop where
  hits : s.OnlyOwn
  reported : ∀ loss ∈ s.reported, s.AllOf loss
  calls : ∀ id call, s.pending.get? id = some call →
    ∃ sent, s.calls[call.reply]? = some sent ∧ sent.node = call.node
  held : ∀ key token, s.monitors.get? key = some token → token < s.held.length

theorem own_new {name : NodeName} : (new name).Own := ⟨nofun, nofun, nofun, nofun⟩

/-! ## Steps -/

theorem mem_targets : target ∈ s.targets node ↔
    (∃ id call, s.pending.get? id = some call ∧ call.node = node ∧
      target = .call s.calls[call.reply]?) ∨
    ∃ key token, s.monitors.get? key = some token ∧ key.1 = node ∧
      target = .monitor s.held[token]? := by
  simp only [targets, List.mem_append, List.mem_map, List.mem_filter, decide_eq_true_eq,
    Pending.get?_eq_some, Monitors.get?_eq_some]
  refine or_congr ⟨?_, ?_⟩ ⟨?_, ?_⟩
  · rintro ⟨⟨id, call⟩, ⟨hmem, hnode⟩, rfl⟩
    exact ⟨id, call, hmem, hnode, rfl⟩
  · rintro ⟨id, call, hmem, hnode, rfl⟩
    exact ⟨⟨id, call⟩, ⟨hmem, hnode⟩, rfl⟩
  · rintro ⟨⟨key, token⟩, ⟨hmem, hnode⟩, rfl⟩
    exact ⟨key, token, hmem, hnode, rfl⟩
  · rintro ⟨key, token, hmem, hnode, rfl⟩
    exact ⟨⟨key, token⟩, ⟨hmem, hnode⟩, rfl⟩

/-- Entries go, and every report that is new is about all that there is of its node. -/
theorem Own.shrink (h : s.Own) (hcalls : s'.calls = s.calls) (hheld : s'.held = s.held)
    (hhits : s'.OnlyOwn)
    (hpending : ∀ id call, s'.pending.get? id = some call → s.pending.get? id = some call)
    (hmonitors : ∀ key token, s'.monitors.get? key = some token → s.monitors.get? key = some token)
    (hreported : ∀ loss ∈ s'.reported, loss ∈ s.reported ∨ s.AllOf loss) : s'.Own := by
  refine ⟨hhits, fun loss hloss target ht => ?_, fun id call hcall => ?_, fun key token htoken => ?_⟩
  · have hall : s.AllOf loss := (hreported loss hloss).elim (h.reported loss) id
    refine hall target (mem_targets.2 ((mem_targets.1 ht).imp ?_ ?_))
    · rintro ⟨id, call, hcall, hnode, rfl⟩
      exact ⟨id, call, hpending id call hcall, hnode, by rw [hcalls]⟩
    · rintro ⟨key, token, htoken, hnode, rfl⟩
      exact ⟨key, token, hmonitors key token htoken, hnode, by rw [hheld]⟩
  · rw [hcalls]
    exact h.calls id call (hpending id call hcall)
  · rw [hheld]
    exact h.held key token (hmonitors key token htoken)

theorem Own.lost (h : s.Own) (hloss : loss ∈ s.reported) {handled : ℕ}
    {departures : List (NodeName × ℕ)}
    (hreported : ∀ loss ∈ Traffic.reported { s with handled := handled, departures := departures },
      loss ∈ s.reported) :
    Own { s.lost loss with handled := handled, departures := departures } := by
  refine h.shrink rfl rfl (fun hit hhit => ?_) (fun _ _ hcall => (Pending.get?_failNode hcall).1)
    (fun _ _ htoken => (Monitors.get?_dropNode.1 htoken).1) fun loss' hloss' => .inl (hreported _ hloss')
  rcases List.mem_append.1 hhit with hhit | hhit
  · exact h.hits hit hhit
  · obtain ⟨target, ht, rfl⟩ := List.mem_map.1 hhit
    exact h.reported loss hloss target ht

/-- A report may be dropped, and others may be sent that are about all that there is. -/
theorem Own.report (h : s.Own) {links : Links} {handled : ℕ} {members : NodeName → Option ℕ}
    {departures : List (NodeName × ℕ)}
    (hreported : ∀ loss ∈ Traffic.reported { s with
        links := links, handled := handled, departures := departures },
      loss ∈ s.reported ∨ s.AllOf loss) :
    Own { s with
      links := links
      handled := handled
      members := members
      departures := departures } :=
  h.shrink rfl rfl h.hits (fun _ _ hcall => hcall) (fun _ _ htoken => htoken) hreported

theorem mem_reported : loss ∈ s.reported ↔
    (∃ report ∈ s.links.reports.drop s.handled, loss = .disconnected report) ∨
      ∃ d ∈ s.departures, loss = .departed d.1 d.2 := by
  simp only [reported, List.mem_append, List.mem_map, eq_comm]

theorem Own.call (h : s.Own) {sent : SentCall} {id : UInt64} {nextCall : ℕ}
    (hsent : ∀ loss ∈ s.reported, loss.node = sent.node → sent.isOf loss = true) :
    Own { s with
      pending := s.pending.insert id sent.node s.calls.length
      nextCall := nextCall
      calls := s.calls ++ [sent] } := by
  have hget : ∀ id' call, (s.pending.insert id sent.node s.calls.length).get? id' = some call →
      (call = ⟨sent.node, s.calls.length⟩ ∧ (s.calls ++ [sent])[call.reply]? = some sent) ∨
        (s.pending.get? id' = some call ∧ (s.calls ++ [sent])[call.reply]? = s.calls[call.reply]?) := by
    intro id' call hcall
    rw [Pending.get?_insert] at hcall
    split at hcall
    · cases hcall
      exact .inl ⟨rfl, List.getElem?_concat_length⟩
    · obtain ⟨sent', hsent', -⟩ := h.calls id' call hcall
      exact .inr ⟨hcall, List.getElem?_append_left (List.getElem?_eq_some_iff.1 hsent').1⟩
  refine ⟨h.hits, fun loss hloss target ht => ?_, fun id' call hcall => ?_, h.held⟩
  · rcases mem_targets.1 ht with ⟨id', call, hcall, hnode, rfl⟩ | hmonitor
    · rcases hget id' call hcall with ⟨rfl, heq⟩ | ⟨hcall, heq⟩
      · rw [heq]
        exact hsent loss hloss hnode.symm
      · rw [heq]
        exact h.reported loss hloss _ (mem_targets.2 (.inl ⟨id', call, hcall, hnode, rfl⟩))
    · exact h.reported loss hloss _ (mem_targets.2 (.inr hmonitor))
  · rcases hget id' call hcall with ⟨rfl, heq⟩ | ⟨hcall, heq⟩
    · exact ⟨sent, heq, rfl⟩
    · rw [heq]
      exact h.calls id' call hcall

/-- A frame is written. If its call is still there, it belongs to all that was reported. -/
theorem Own.write (h : s.Own) {sent : SentCall} {via : Via} (hr : s.calls[r]? = some sent)
    (hvia : ∀ loss ∈ s.reported, loss.node = sent.node → .call (some sent) ∈ s.targets loss.node →
      via.isOf loss = true) :
    Own { s with calls := s.calls.set r { sent with via := some via } } := by
  have hget : ∀ k, (s.calls.set r { sent with via := some via })[k]? =
      if r = k then some { sent with via := some via } else s.calls[k]? := fun k =>
    List.getElem?_set_of_getElem? hr
  refine ⟨h.hits, fun loss hloss target ht => ?_, fun id call hcall => ?_, h.held⟩
  · rcases mem_targets.1 ht with ⟨id, call, hcall, hnode, rfl⟩ | hmonitor
    · have htarget : .call s.calls[call.reply]? ∈ s.targets loss.node :=
        mem_targets.2 (.inl ⟨id, call, hcall, hnode, rfl⟩)
      show Target.isOf (.call (s.calls.set r { sent with via := some via })[call.reply]?) loss = true
      rw [hget]
      split
      · rename_i hreply
        subst hreply
        obtain ⟨sent', hsent', hnode'⟩ := h.calls id call hcall
        rw [hr] at hsent'
        cases hsent'
        rw [hr] at htarget
        have hsame : sent.node = loss.node := hnode'.trans hnode
        exact Bool.and_eq_true_iff.2
          ⟨decide_eq_true hsame, hvia loss hloss hsame.symm htarget⟩
      · exact h.reported loss hloss _ htarget
    · exact h.reported loss hloss _ (mem_targets.2 (.inr hmonitor))
  · obtain ⟨sent', hsent', hnode⟩ := h.calls id call hcall
    by_cases hreply : r = call.reply
    · subst hreply
      rw [hr] at hsent'
      cases hsent'
      exact ⟨_, (hget _).trans (if_pos rfl), hnode⟩
    · exact ⟨sent', (hget _).trans ((if_neg hreply).trans hsent'), hnode⟩

theorem Own.begin (h : s.Own) {key : MonitorKey} {via : Via}
    (hvia : ∀ loss ∈ s.reported, loss.node = key.1 → via.isOf loss = true) :
    Own { s with
      monitors := s.monitors.begin key s.held.length
      held := s.held ++ [⟨key.1, via⟩] } := by
  have hget : ∀ key' token, (s.monitors.begin key s.held.length).get? key' = some token →
      (key' = key ∧ token = s.held.length) ∨ (s.monitors.get? key' = some token ∧ token < s.held.length) := by
    intro key' token htoken
    rw [Monitors.get?_begin] at htoken
    split at htoken
    · cases htoken
      exact .inl ⟨‹_›, rfl⟩
    · exact .inr ⟨htoken, h.held key' token htoken⟩
  refine ⟨h.hits, fun loss hloss target ht => ?_, h.calls, fun key' token htoken => ?_⟩
  · rcases mem_targets.1 ht with hcall | ⟨key', token, htoken, hnode, rfl⟩
    · exact h.reported loss hloss _ (mem_targets.2 (.inl hcall))
    · rcases hget key' token htoken with ⟨rfl, rfl⟩ | ⟨hold, hlt⟩
      · show Target.isOf (.monitor (s.held ++ [⟨key'.1, via⟩])[s.held.length]?) loss = true
        rw [List.getElem?_concat_length]
        exact Bool.and_eq_true_iff.2 ⟨decide_eq_true hnode, hvia loss hloss hnode.symm⟩
      · show Target.isOf (.monitor (s.held ++ [⟨key.1, via⟩])[token]?) loss = true
        rw [List.getElem?_append_left hlt]
        exact h.reported loss hloss _ (mem_targets.2 (.inr ⟨key', token, hold, hnode, rfl⟩))
  · rw [List.length_append, List.length_singleton]
    rcases hget key' token htoken with ⟨-, rfl⟩ | ⟨-, hlt⟩
    · exact Nat.lt_succ_self _
    · exact Nat.lt_succ_of_lt hlt

theorem Own.links (h : s.Own) {event : Links.Event} (hok : s.ReportsTimely (.links event))
    {links : Links} (hs : s.links.step event = some links) : Own { s with links := links } := by
  obtain ⟨reports, hreports⟩ := Links.reports_of_step hs
  refine h.report fun loss hloss => ?_
  rcases mem_reported.1 hloss with ⟨report, hreport, rfl⟩ | hdeparture
  · have hreport : report ∈ links.reports.drop s.handled := hreport
    rw [hreports, List.drop_append, List.mem_append] at hreport
    rcases hreport with hold | hnew
    · exact .inl (mem_reported.2 (.inl ⟨report, hold, rfl⟩))
    · refine .inr (hok links hs report ?_)
      rw [hreports, List.drop_left]
      exact List.mem_of_mem_drop hnew
  · exact .inl (mem_reported.2 (.inr hdeparture))

theorem Own.depart (h : s.Own) {after : Option ℕ}
    (hok : ∀ generation ∈ s.members node, s.AllOf (.departed node generation))
    (hs : s.depart node after = some s') : s'.Own := by
  obtain ⟨generation, hgeneration, hs⟩ := Option.bind_eq_some_iff.1 hs
  cases hs
  refine h.report fun loss hloss => ?_
  rcases mem_reported.1 hloss with hreport | ⟨d, hd, rfl⟩
  · exact .inl (mem_reported.2 (.inl hreport))
  · rcases List.mem_append.1 hd with hd | hd
    · exact .inl (mem_reported.2 (.inr ⟨d, hd, rfl⟩))
    · rw [List.mem_singleton.1 hd]
      exact .inr (hok generation hgeneration)

theorem mem_reported_of_next {report : Disconnected} (h : s.links.reports[s.handled]? = some report) :
    .disconnected report ∈ s.reported := by
  refine mem_reported.2 (.inl ⟨report, List.mem_of_getElem? (i := 0) ?_, rfl⟩)
  rw [List.getElem?_drop]
  exact h

theorem mem_reported_of_handled
    (h : loss ∈ Traffic.reported { s with handled := s.handled + 1 }) : loss ∈ s.reported := by
  refine mem_reported.2 ((mem_reported.1 h).imp_left fun ⟨report, hreport, heq⟩ => ?_)
  exact ⟨report, (List.drop_sublist_drop_left _ (Nat.le_succ _)).subset hreport, heq⟩

theorem mem_reported_of_departures {d : NodeName × ℕ} {rest : List (NodeName × ℕ)}
    (hd : s.departures = d :: rest) : .departed d.1 d.2 ∈ s.reported ∧
      ∀ loss ∈ Traffic.reported { s with departures := rest }, loss ∈ s.reported := by
  refine ⟨mem_reported.2 (.inr ⟨d, by rw [hd]; exact List.mem_cons_self, rfl⟩), fun loss hloss => ?_⟩
  refine mem_reported.2 ((mem_reported.1 hloss).imp_right fun ⟨d', hd', heq⟩ => ?_)
  exact ⟨d', by rw [hd]; exact List.mem_cons_of_mem _ hd', heq⟩

theorem Own.step (h : s.Own) (hok : s.ReportsTimely e) (hs : s.step e = some s') : s'.Own := by
  cases e with
  | links event =>
    obtain ⟨links, hlinks, rfl⟩ := Option.map_eq_some_iff.1 hs
    exact h.links hok hlinks
  | up node generation =>
    cases hs
    exact h.report fun _ => .inl
  | depart node => exact h.depart hok hs
  | renamed node generation => exact h.depart hok hs
  | draw =>
    cases hs
    exact h.shrink rfl rfl h.hits (fun _ _ hcall => hcall) (fun _ _ htoken => htoken) fun _ => .inl
  | call node =>
    obtain ⟨generation, hgeneration, hs⟩ := Option.bind_eq_some_iff.1 hs
    cases hs
    have hsent : ∀ loss ∈ s.reported, loss.node = SentCall.node ⟨node, generation, none⟩ →
        SentCall.isOf ⟨node, generation, none⟩ loss = true := hok generation hgeneration
    exact h.call hsent
  | write reply c =>
    obtain ⟨sent, hsent, hs⟩ := Option.bind_eq_some_iff.1 hs
    obtain ⟨via, hvia, hs⟩ := Option.bind_eq_some_iff.1 hs
    split at hs
    · cases hs
      exact h.write hsent (hok sent hsent via hvia)
    · cases hs
  | reply node id result =>
    cases hs
    exact h.shrink rfl rfl h.hits (fun _ _ => Pending.get?_complete) (fun _ _ htoken => htoken)
      fun _ => .inl
  | remove id =>
    cases hs
    exact h.shrink rfl rfl h.hits (fun _ _ => Pending.get?_of_remove) (fun _ _ htoken => htoken)
      fun _ => .inl
  | begin key c =>
    obtain ⟨via, hvia, hs⟩ := Option.bind_eq_some_iff.1 hs
    cases hs
    exact h.begin (hok via hvia)
  | endFor key =>
    cases hs
    exact h.shrink rfl rfl h.hits (fun _ _ hcall => hcall) (fun _ _ => Monitors.get?_of_endFor)
      fun _ => .inl
  | cancel key =>
    cases hs
    exact h.shrink rfl rfl h.hits (fun _ _ hcall => hcall) (fun _ _ => Monitors.get?_of_cancel)
      fun _ => .inl
  | handleDisconnected =>
    obtain ⟨report, hreport, hs⟩ := Option.bind_eq_some_iff.1 hs
    cases hs
    exact h.lost (mem_reported_of_next hreport) fun _ => mem_reported_of_handled
  | lagDisconnected =>
    obtain ⟨report, -, hs⟩ := Option.bind_eq_some_iff.1 hs
    cases hs
    exact h.report fun _ hloss => .inl (mem_reported_of_handled hloss)
  | handleDeparture =>
    simp only [Traffic.step] at hs
    split at hs
    · cases hs
    · rename_i node generation rest hdepartures
      cases hs
      obtain ⟨hloss, hrest⟩ := mem_reported_of_departures hdepartures
      exact h.lost hloss hrest
  | lagDeparture =>
    simp only [Traffic.step] at hs
    split at hs
    · cases hs
    · rename_i d rest hdepartures
      cases hs
      exact h.report fun loss hloss => .inl ((mem_reported_of_departures hdepartures).2 loss hloss)

/-! ## Runs -/

/-- Losses touch only their own in the runs in which they are reported in time. -/
theorem onlyOwn_of_reportsTimely (h : (runs.guard ReportsTimely).Reachable s) : s.OnlyOwn := by
  refine (h.guard_invariant (I := Own) ?_ fun s e s' hi hok hs => hi.step hok hs).hits
  rintro _ ⟨name, rfl⟩
  exact own_new

/-- A connection is lost with the call and the monitor on it, and the call that is made when that has
been handled goes to the next incarnation. -/
theorem onlyOwn_of_reportsTimely_lost : ∃ s, (runs.guard ReportsTimely).Reachable s ∧
    (s.hits = [(.disconnected ⟨"b", 1, 0⟩, .call (some ⟨"b", 1, some ⟨0, 1⟩⟩)),
        (.disconnected ⟨"b", 1, 0⟩, .monitor (some ⟨"b", ⟨0, 1⟩⟩))] ∧
      s.targets "b" = [.call (some ⟨"b", 2, some ⟨1, 2⟩⟩)]) ∧ s.OnlyOwn := by
  obtain ⟨s, hs, h⟩ : ∃ s, (runs.guard ReportsTimely).Reachable s ∧ _ :=
    Lts.exists_guard_reachable_of_exec (f := step)
      (p := fun s => s.hits = [(.disconnected ⟨"b", 1, 0⟩, .call (some ⟨"b", 1, some ⟨0, 1⟩⟩)),
          (.disconnected ⟨"b", 1, 0⟩, .monitor (some ⟨"b", ⟨0, 1⟩⟩))] ∧
        s.targets "b" = [.call (some ⟨"b", 2, some ⟨1, 2⟩⟩)]) (s := new "a") ⟨"a", rfl⟩
      [.links (.greeted "b" 1 "b"), .links (.register 0), .up "b" 1, .call "b", .write 0 0,
        .begin ("b", 7) 0, .links (.close 0), .links (.received 0), .links (.send 0),
        .handleDisconnected, .renamed "b" 2, .handleDeparture, .links (.greeted "b" 2 "b"),
        .links (.register 1), .call "b", .write 1 1]
      (by decide +kernel)
  exact ⟨s, hs, h, onlyOwn_of_reportsTimely hs⟩

/-- The peer dials again, and what is sent and asked for over the new connection goes down with the
report of the old one. The same happens to a new incarnation when the old one has failed. -/
theorem not_onlyOwn : (∃ s, runs.Reachable s ∧
      s.hits = [(.disconnected ⟨"b", 1, 0⟩, .call (some ⟨"b", 1, some ⟨1, 1⟩⟩)),
        (.disconnected ⟨"b", 1, 0⟩, .monitor (some ⟨"b", ⟨1, 1⟩⟩))]) ∧
    (∃ s, runs.Reachable s ∧
      s.hits = [(.departed "b" 1, .call (some ⟨"b", 2, some ⟨0, 2⟩⟩)),
        (.departed "b" 1, .monitor (some ⟨"b", ⟨0, 2⟩⟩))]) ∧
    ¬ ∀ s, runs.Reachable s → s.OnlyOwn := by
  obtain ⟨s, hs, hhits⟩ : ∃ s, runs.Reachable s ∧
      s.hits = [(.disconnected ⟨"b", 1, 0⟩, .call (some ⟨"b", 1, some ⟨1, 1⟩⟩)),
        (.disconnected ⟨"b", 1, 0⟩, .monitor (some ⟨"b", ⟨1, 1⟩⟩))] :=
    Lts.exists_reachable_of_exec (s := new "a") ⟨"a", rfl⟩
      [.links (.greeted "b" 1 "b"), .links (.register 0), .links (.greeted "b" 1 "b"),
        .links (.register 1), .up "b" 1, .call "b", .write 0 1, .begin ("b", 7) 1, .handleDisconnected]
      (by decide +kernel)
  refine ⟨⟨s, hs, hhits⟩, ?_, fun hall => ?_⟩
  · exact Lts.exists_reachable_of_exec (s := new "a") ⟨"a", rfl⟩
      [.up "b" 1, .renamed "b" 2, .links (.greeted "b" 2 "b"), .links (.register 0), .call "b",
        .write 0 0, .begin ("b", 7) 0, .handleDeparture]
      (by decide +kernel)
  · have hown := hall s hs
    rw [OnlyOwn, hhits] at hown
    exact absurd hown (by decide)

end Traffic

end Zestors
