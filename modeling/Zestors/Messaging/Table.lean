import Zestors.Messaging.Losses

/-!
# The table of pending calls

Calls and requests, with who each of them went to and what resolved it. The table has an entry for each
number that somebody still waits for and for no other one, each number is resolved once at most, by
whoever it went to or by a failure, and no two have one id (`Exact`).

All that is so until `next_call` wraps (`exact_of_drawn`): after 2^64 ids have been drawn, a number gets
the id of one that may still be waited for, and takes its entry.
-/

namespace Zestors

inductive Resolver
  | reply (node : NodeName)
  | failure
deriving DecidableEq

/-- What a step would resolve a call by. -/
def Communication.Event.resolver : Communication.Event → Resolver
  | .reply node _ _ => .reply node
  | _ => .failure

/-- A node, with the histories of its numbers: the node that each went to, and what has resolved it. -/
structure Ledger where
  comm : Communication
  sentTo : List (ℕ × NodeName)
  resolved : List (ℕ × Resolver)

namespace Ledger
open Communication (callId)

/-- The node that the message of a step goes to. -/
def sendNode (s : Ledger) : Communication.Event → Option NodeName
  | .exportRequest k | .expect k => s.comm.sends[k]?.map (·.node)
  | _ => none

def step (s : Ledger) (e : Communication.Event) : Option Ledger := do
  let comm ← s.comm.step e
  some {
    comm := comm
    sentTo := s.sentTo ++ (s.sendNode e).toList.flatMap fun node =>
      (comm.inserted.drop s.comm.inserted.length).map (·, node)
    resolved := s.resolved ++
      (comm.answers.drop s.comm.answers.length).map fun answer => (answer.1, e.resolver) }

def new : Ledger := ⟨.new, [], []⟩

/-- Every interleaving of the calls of a node and what ends them. -/
def runs : Lts Ledger Communication.Event := Lts.ofFun (fun s => s = new) step

end Ledger

namespace Communication

/-- The number was neither resolved nor taken out by whoever waited. -/
def Open (s : Communication) (r : ℕ) : Prop := r ∉ s.answers.map (·.1) ∧ r ∉ s.letGo

end Communication

namespace Ledger
open Communication (callId)

/-- What the table says. -/
structure Exact (s : Ledger) : Prop where
  /-- No two calls or requests have one id. -/
  unique : (s.comm.inserted.map callId).Nodup
  /-- An id is in the table when somebody waits for it, and only then. -/
  waited : ∀ id, s.comm.pending.get? id ≠ none ↔ ∃ r, s.comm.Awaited r ∧ callId r = id ∧ s.comm.Open r
  /-- The entry is the one of whoever waits, for the node that it went to. -/
  entry : ∀ id call, s.comm.pending.get? id = some call →
    id = callId call.reply ∧ (call.reply, call.node) ∈ s.sentTo
  once : (s.resolved.map (·.1)).Nodup
  answered : s.resolved.map (·.1) = s.comm.answers.map (·.1)
  replied : ∀ r node, (r, .reply node) ∈ s.resolved → (r, node) ∈ s.sentTo
  /-- A number that was resolved or let go has left no entry. -/
  gone : ∀ r ∈ s.comm.inserted, ¬ s.comm.Open r → s.comm.pending.get? (callId r) = none

end Ledger

namespace Communication
variable {s s' : Communication} {e : Event} {k i r : ℕ} {x : Sending} {node : NodeName} {id : UInt64}

/-! ## What one step does to the table -/

/-- The numbers in use: those with an entry, and those that were drawn for one. -/
def numbers (s : Communication) : List ℕ := s.inserted ++ s.sends.filterMap Sending.drawn

/-- No number comes into use but those that are drawn. -/
structure Draws (s s' : Communication) : Prop where
  le : s.drawn ≤ s'.drawn
  numbers : s'.numbers.Subperm (List.range' s.drawn (s'.drawn - s.drawn) ++ s.numbers)

/-- Nothing happens to the table. Whoever waits no more has no entry. -/
structure Quiet (s s' : Communication) : Prop where
  draws : Draws s s'
  pending : s'.pending = s.pending
  inserted : s'.inserted = s.inserted
  answers : s'.answers = s.answers
  letGo : s'.letGo = s.letGo
  sub : ∀ r ∈ s'.holders, r ∈ s.holders
  keep : ∀ r, s.Awaited r → s.isPending r = true → s'.Awaited r

/-- The number `r`, which the send `x` has drawn, gets its entry. -/
structure Inserts (s s' : Communication) (x : Sending) (r : ℕ) : Prop where
  draws : Draws s s'
  drawn : x.drawn = some r
  pending : s'.pending = s.pending.insert (callId r) x.node r
  inserted : s'.inserted = s.inserted ++ [r]
  answers : s'.answers = s.answers
  letGo : s'.letGo = s.letGo
  holders : ∀ r' ∈ s'.holders, r' = r ∨ r' ∈ s.holders
  awaited : s'.Awaited r
  keep : ∀ r', s.Awaited r' → s'.Awaited r'

/-- Holders take their entries out. -/
structure Releases (s s' : Communication) (rs : List ℕ) : Prop where
  draws : Draws s s'
  held : ∀ r ∈ rs, r ∈ s.holders
  pending : s'.pending = s.pending.removeAll (rs.map callId)
  inserted : s'.inserted = s.inserted
  answers : s'.answers = s.answers
  letGo : s'.letGo = s.letGo ++ rs
  sub : ∀ r ∈ s'.holders, r ∈ s.holders
  keep : ∀ r, s.Awaited r → s'.Awaited r ∨ r ∈ rs

/-- The entry of `id` is answered and goes, if it is there and fits. -/
structure Resolves (s s' : Communication) (id : UInt64) (f : PendingCall → Bool) (answer : Answer) :
    Prop where
  draws : Draws s s'
  pending : s'.pending = (s.pending.removeIf id f).1
  inserted : s'.inserted = s.inserted
  answers : s'.answers =
    s.answers ++ ((s.pending.removeIf id f).2.map fun call => (call.reply, answer)).toList
  letGo : s'.letGo = s.letGo
  sub : ∀ r ∈ s'.holders, r ∈ s.holders
  keep : ∀ r, s.Awaited r → s'.Awaited r

theorem draws_of_sublist (hle : s.drawn ≤ s'.drawn) (hnumbers : s'.numbers.Sublist s.numbers) :
    Draws s s' :=
  ⟨hle, (hnumbers.trans (List.sublist_append_right ..)).subperm⟩

theorem draws_of_eq (hdrawn : s'.drawn = s.drawn) (hinserted : s'.inserted = s.inserted)
    (hsends : s'.sends = s.sends) : Draws s s' := by
  refine draws_of_sublist hdrawn.ge ?_
  rw [numbers, numbers, hinserted, hsends]

theorem draws_endSend (hdrawn : s'.drawn = s.drawn) (hinserted : s'.inserted = s.inserted)
    (hsends : s'.sends = s.sends.eraseIdx k) : Draws s s' := by
  refine draws_of_sublist hdrawn.ge ?_
  rw [numbers, numbers, hinserted, hsends]
  exact ((List.eraseIdx_sublist s.sends k).filterMap _).append_left _

/-- The send goes on: what it has drawn and what it inserts, it had drawn before or draws now. -/
theorem draws_set (hk : s.sends[k]? = some x) {y : Sending} (rs : List ℕ) (hle : s.drawn ≤ s'.drawn)
    (hinserted : s'.inserted = s.inserted ++ rs) (hsends : s'.sends = s.sends.set k y)
    (hperm : (rs ++ y.drawn.toList).Subperm
      (List.range' s.drawn (s'.drawn - s.drawn) ++ x.drawn.toList)) : Draws s s' := by
  refine ⟨hle, ?_⟩
  have hnew : s'.numbers.Perm
      (rs ++ y.drawn.toList ++ (s.inserted ++ (s.sends.eraseIdx k).filterMap Sending.drawn)) := by
    rw [numbers, hinserted, hsends]
    refine ((List.filterMap_set_perm hk).append_left _).trans (List.perm_iff_count.2 fun a => ?_)
    simp only [List.count_append]
    omega
  have hold : s.numbers.Perm
      (x.drawn.toList ++ (s.inserted ++ (s.sends.eraseIdx k).filterMap Sending.drawn)) := by
    refine ((List.filterMap_perm_of_getElem? hk).append_left _).trans (List.perm_iff_count.2 fun a => ?_)
    simp only [List.count_append]
    omega
  refine hnew.subperm.trans (((List.subperm_append_right _).2 hperm).trans ?_)
  rw [List.append_assoc]
  exact (hold.symm.append_left _).subperm

theorem quiet_of_sends {sends : List Sending} {drawn : ℕ}
    (hdraws : Draws s { s with sends := sends, drawn := drawn })
    (hsub : ∀ y ∈ sends, ∀ r ∈ y.held, ∃ x ∈ s.sends, r ∈ x.held)
    (hkeep : ∀ x ∈ s.sends, ∀ r, x.call = some r → ∃ y ∈ sends, y.call = some r) :
    Quiet s { s with sends := sends, drawn := drawn } where
  draws := hdraws
  pending := rfl
  inserted := rfl
  answers := rfl
  letGo := rfl
  sub r hr := mem_holders.2 ((mem_holders.1 hr).imp_right fun ⟨y, hy, hyr⟩ => hsub y hy r hyr)
  keep r hr _ := hr.imp_right fun ⟨y, hy, hyr⟩ => hkeep y hy r hyr

theorem quiet_setStage (hk : s.sends[k]? = some x) {stage : PrepareStage} {drawn : ℕ}
    (hle : s.drawn ≤ drawn)
    (hdrawn : (Sending.drawn { x with stage := stage }).toList.Subperm
      (List.range' s.drawn (drawn - s.drawn) ++ x.drawn.toList))
    (hheld : Sending.held { x with stage := stage } = x.held)
    (hcall : Sending.call { x with stage := stage } = x.call) :
    Quiet s { s.setStage k x stage with drawn := drawn } := by
  refine quiet_of_sends (draws_set hk [] hle (List.append_nil _).symm rfl hdrawn) (fun y hy r hr => ?_)
    fun y hy r hr => ?_
  · rcases (List.mem_set_iff_of_getElem? hk).1 hy with rfl | hy
    · exact ⟨x, List.mem_of_getElem? hk, hheld ▸ hr⟩
    · exact ⟨y, List.mem_of_mem_eraseIdx hy, hr⟩
  · rcases (List.mem_iff_of_getElem? hk).1 hy with rfl | hy
    · exact ⟨_, (List.mem_set_iff_of_getElem? hk).2 (.inl rfl), hcall.trans hr⟩
    · exact ⟨y, (List.mem_set_iff_of_getElem? hk).2 (.inr hy), hr⟩

theorem call_of_held (h : x.held = []) : x.call = none :=
  Option.eq_none_iff_forall_ne_some.2 fun r hr => by
    have hmem := Sending.mem_held_of_call hr
    rw [h] at hmem
    cases hmem

theorem quiet_endSend (hk : s.sends[k]? = some x) (hheld : x.held = []) : Quiet s (s.endSend k) := by
  refine quiet_of_sends (draws_endSend rfl rfl rfl)
    (fun y hy r hr => ⟨y, List.mem_of_mem_eraseIdx hy, hr⟩) fun y hy r hr => ?_
  rcases (List.mem_iff_of_getElem? hk).1 hy with rfl | hy
  · rw [call_of_held hheld] at hr
    cases hr
  · exact ⟨y, hy, hr⟩

theorem quiet_check {stage next : PrepareStage} {ok : Sending → Bool}
    (hstage : ∀ x : Sending, x.stage = stage → x.held = [])
    (hnext : ∀ x : Sending, Sending.held { x with stage := next } = [])
    (hdrawn : ∀ x : Sending, Sending.drawn { x with stage := next } = none)
    (hs : s.check k stage next ok = some s') : Quiet s s' := by
  obtain ⟨x, hk, hs⟩ := Option.bind_eq_some_iff.1 hs
  split at hs
  · rename_i hx
    cases hs
    split
    · refine quiet_setStage hk (Nat.le_refl _) ?_ ((hnext x).trans (hstage x hx).symm)
        ((call_of_held (hnext x)).trans (call_of_held (hstage x hx)).symm)
      rw [hdrawn]
      exact List.nil_subperm
    · exact quiet_endSend hk (hstage x hx)
  · cases hs

theorem inserts_insert (hk : s.sends[k]? = some x) (hdrawn : x.drawn = some r) (hcall : x.call = none)
    {stage : PrepareStage} {waiting : List Waiter}
    (hnext : Sending.drawn { x with stage := stage } = none)
    (hheld : Sending.held { x with stage := stage } = x.held ++ [r])
    (hwaiting : ∀ w ∈ waiting, w.reply = r) (hawaited : (s.insert k x r stage waiting).Awaited r) :
    Inserts s (s.insert k x r stage waiting) x r where
  draws := by
    refine draws_set hk [r] (Nat.le_refl _) rfl rfl ?_
    rw [hnext, hdrawn]
    exact (List.sublist_append_right ..).subperm
  drawn := hdrawn
  pending := rfl
  inserted := rfl
  answers := rfl
  letGo := rfl
  holders _ := (mem_holders_insert hk hheld hwaiting).1
  awaited := hawaited
  keep _ h := h.insert hk hcall r stage waiting

theorem inserts_exportRequest (hs : s.step (.exportRequest k) = some s') :
    ∃ x r, s.sends[k]? = some x ∧ Inserts s s' x r := by
  obtain ⟨x, hk, hs⟩ := Option.bind_eq_some_iff.1 hs
  split at hs
  · rename_i r exports hstage
    cases hs
    refine ⟨x, r, hk, inserts_insert hk (by rw [Sending.drawn, hstage]) (by rw [Sending.call, hstage])
      rfl (by simp only [Sending.held, hstage]) (by simp) ?_⟩
    exact .inl ⟨⟨r, true⟩, List.mem_append_right _ (List.mem_singleton_self _), rfl⟩
  · cases hs

theorem effect_expect (hs : s.step (.expect k) = some s') :
    Quiet s s' ∨ ∃ x r, s.sends[k]? = some x ∧ Inserts s s' x r := by
  obtain ⟨x, hk, hs⟩ := Option.bind_eq_some_iff.1 hs
  split at hs
  · rename_i r exports _ hstage
    cases hs
    refine .inr ⟨x, r, hk, inserts_insert hk (by rw [Sending.drawn, hstage])
      (by rw [Sending.call, hstage]) rfl (by simp only [Sending.held, hstage, Option.toList]) nofun ?_⟩
    exact .inr ⟨_, (List.mem_set_iff_of_getElem? hk).2 (.inl rfl), rfl⟩
  · rename_i exports _ hstage
    cases hs
    exact .inl (quiet_setStage hk (Nat.le_refl _) List.nil_subperm (by simp [Sending.held, hstage])
      (by simp [Sending.call, hstage]))
  · cases hs

theorem quiet_handOver (hs : s.step (.handOver k) = some s') : Quiet s s' := by
  obtain ⟨x, hk, hs⟩ := Option.bind_eq_some_iff.1 hs
  split at hs
  · rename_i exports call hstage
    cases hs
    exact ⟨draws_endSend rfl rfl rfl, rfl, rfl, rfl, rfl,
      fun r hr => holders_handOver hk hstage hr, fun r hr _ => awaited_handOver hk hstage hr⟩
  · cases hs

theorem releases_abandon (hs : s.step (.abandon k) = some s') : ∃ rs, Releases s s' rs := by
  obtain ⟨x, hk, hs⟩ := Option.bind_eq_some_iff.1 hs
  have hreleases : Releases s ((s.release x.held).endSend k) x.held := by
    refine ⟨draws_endSend rfl rfl rfl,
      fun r hr => mem_holders.2 (.inr ⟨x, List.mem_of_getElem? hk, hr⟩), rfl, rfl, rfl, rfl,
      fun r hr => ?_, fun r hr => ?_⟩
    · refine mem_holders.2 ((mem_holders.1 hr).imp_right fun ⟨y, hy, hyr⟩ => ?_)
      exact ⟨y, List.mem_of_mem_eraseIdx hy, hyr⟩
    · rcases hr with hw | ⟨y, hy, hyr⟩
      · exact .inl (.inl hw)
      · rcases (List.mem_iff_of_getElem? hk).1 hy with rfl | hy
        · exact .inr (Sending.mem_held_of_call hyr)
        · exact .inl (.inr ⟨y, hy, hyr⟩)
  split at hs
  · cases hs
    exact ⟨_, hreleases⟩
  · cases hs
    exact ⟨_, hreleases⟩
  · cases hs

theorem effect_giveUp (hs : s.step (.giveUp i) = some s') : Quiet s s' ∨ ∃ rs, Releases s s' rs := by
  obtain ⟨w, hi, hs⟩ := Option.bind_eq_some_iff.1 hs
  have hsub : ∀ r ∈ holders { s with waiting := s.waiting.eraseIdx i }, r ∈ s.holders := by
    intro r hr
    refine mem_holders.2 ((mem_holders.1 hr).imp_left fun ⟨w', hw, hr⟩ => ?_)
    exact ⟨w', List.mem_of_mem_eraseIdx hw, hr⟩
  have hkeep : ∀ r, s.Awaited r → Awaited { s with waiting := s.waiting.eraseIdx i } r ∨
      r = w.reply := by
    rintro r (⟨w', hw, rfl⟩ | hsend)
    · rcases (List.mem_iff_of_getElem? hi).1 hw with rfl | hw
      · exact .inr rfl
      · exact .inl (.inl ⟨w', hw, rfl⟩)
    · exact .inl (.inr hsend)
  split at hs
  · rename_i hgone
    cases hs
    refine .inl ⟨draws_of_eq rfl rfl rfl, rfl, rfl, rfl, rfl, hsub, fun r hr hpending => ?_⟩
    refine (hkeep r hr).resolve_right ?_
    rintro rfl
    simp [hpending] at hgone
  · cases hs
    refine .inr ⟨[w.reply], draws_of_eq rfl rfl rfl, fun r hr => ?_, rfl, rfl, rfl, rfl, hsub, fun r hr => ?_⟩
    · rw [List.mem_singleton.1 hr]
      exact mem_holders.2 (.inl ⟨w, List.mem_of_getElem? hi, rfl⟩)
    · exact (hkeep r hr).imp_right List.mem_singleton.2

theorem complete_eq (p : Pending) (node : NodeName) (id : UInt64) (result : Except RemoteError Bytes) :
    p.complete node id result = ((p.removeIf id (·.node = node)).1,
      (p.removeIf id (·.node = node)).2.map fun call => (call.reply, result.mapError .remote)) := by
  unfold Pending.complete Pending.removeIf
  cases p.get? id with
  | none => rfl
  | some call =>
    by_cases hnode : call.node = node
    · simp only [hnode, if_true, decide_true, Option.map_some]
    · simp only [hnode, if_false, decide_false, Bool.false_eq_true, Option.map_none]

theorem resolves_failIf {id : UInt64} {f : PendingCall → Bool} {messaging : Messaging}
    {lost : Option (NodeName × Sweep)} :
    Resolves s { s.failIf id f with messaging := messaging, lost := lost } id f
      (.error .disconnected) :=
  ⟨draws_of_eq rfl rfl rfl, rfl, rfl, rfl, rfl, fun _ hr => hr, fun _ hr => hr⟩

theorem removeIf_cases (p : Pending) (id : UInt64) (f : PendingCall → Bool) :
    p.removeIf id f = (p, none) ∨
      ∃ call, p.get? id = some call ∧ f call = true ∧ p.removeIf id f = (p.remove id, some call) := by
  unfold Pending.removeIf
  cases hget : p.get? id with
  | none => exact .inl rfl
  | some call =>
    cases hf : f call with
    | true => exact .inr ⟨call, rfl, hf, by simp [hf]⟩
    | false => exact .inl (by simp [hf])

theorem step_effect (hs : s.step e = some s') :
    Quiet s s' ∨
    (∃ k x r, (e = .exportRequest k ∨ e = .expect k) ∧ s.sends[k]? = some x ∧ Inserts s s' x r) ∨
    (∃ rs, Releases s s' rs) ∨
    ∃ id f answer, Resolves s s' id f answer ∧
      ∀ node, e.resolver = .reply node → ∀ call, f call = true → call.node = node := by
  have henv : ∀ messaging members unreachable reports missed lost, Quiet s { s with
      messaging := messaging, members := members, unreachable := unreachable, reports := reports,
      missed := missed, lost := lost } := fun _ _ _ _ _ _ =>
    ⟨draws_of_eq rfl rfl rfl, rfl, rfl, rfl, rfl, fun _ hr => hr, fun _ hr _ => hr⟩
  cases e with
  | up node =>
    cases hs
    exact .inl (henv ..)
  | lose node | renamed node | unreachable node unreachable | handle | lag | disconnected node | handled
  | take | failAll | stop =>
    simp only [Communication.step] at hs
    split at hs
    · cases hs
      exact .inl (henv ..)
    · cases hs
  | send node replies =>
    cases hs
    refine .inl (quiet_of_sends (draws_of_sublist (Nat.le_refl _) ?_) (fun y hy r hr => ?_)
      fun y hy r hr => ⟨y, List.mem_append_left _ hy, hr⟩)
    · simp only [numbers, List.filterMap_append, List.filterMap_cons, List.filterMap_nil, Sending.drawn,
        List.append_nil, List.Sublist.refl]
    rcases List.mem_append.1 hy with hy | hy
    · exact ⟨y, hy, hr⟩
    · rw [List.mem_singleton.1 hy] at hr
      cases hr
  | checkRunning k | checkMember k | checkReachable k =>
    exact .inl (quiet_check (fun x hx => by rw [Sending.held, hx]) (fun _ => rfl) (fun _ => rfl) hs)
  | draw k =>
    obtain ⟨x, hk, hs⟩ := Option.bind_eq_some_iff.1 hs
    split at hs
    · rename_i exports hstage
      cases hs
      refine .inl (quiet_setStage hk (Nat.le_succ _) ?_ (by simp only [Sending.held, hstage])
        (by simp only [Sending.call, hstage]))
      rw [Nat.add_sub_cancel_left]
      exact (List.sublist_append_left ..).subperm
    · cases hs
  | drawMonitor =>
    cases hs
    exact .inl (quiet_of_sends (draws_of_sublist (Nat.le_succ _) (List.Sublist.refl _))
      (fun y hy r hr => ⟨y, hy, hr⟩) fun y hy r hr => ⟨y, hy, hr⟩)
  | exportRequest k =>
    obtain ⟨x, r, hk, hinserts⟩ := inserts_exportRequest hs
    exact .inr (.inl ⟨k, x, r, .inl rfl, hk, hinserts⟩)
  | expect k =>
    rcases effect_expect hs with hquiet | ⟨x, r, hk, hinserts⟩
    · exact .inl hquiet
    · exact .inr (.inl ⟨k, x, r, .inr rfl, hk, hinserts⟩)
  | handOver k => exact .inl (quiet_handOver hs)
  | abandon k => exact .inr (.inr (.inl (releases_abandon hs)))
  | giveUp i => exact (effect_giveUp hs).imp_right fun h => .inr (.inl h)
  | reply node id result =>
    simp only [Communication.step] at hs
    split at hs
    · cases hs
    · cases hs
      refine .inr (.inr (.inr ⟨id, (·.node = node), result.mapError .remote,
        ⟨draws_of_eq rfl rfl rfl, ?_, rfl, ?_, rfl, fun _ hr => hr, fun _ hr => hr⟩,
        fun node' heq call hcall => ?_⟩))
      · rw [complete_eq]
      · rw [complete_eq]
      · cases heq
        exact of_decide_eq_true hcall
  | find id =>
    obtain ⟨⟨node, sweep⟩, hlost, hs⟩ := Option.bind_eq_some_iff.1 hs
    obtain ⟨sweep', hfind, hs⟩ := Option.bind_eq_some_iff.1 hs
    cases hs
    exact .inl (henv ..)
  | fail | failAny =>
    simp only [Communication.step] at hs
    split at hs
    · cases hs
      exact .inr (.inr (.inr ⟨_, _, _, resolves_failIf, fun _ heq => by cases heq⟩))
    · cases hs
  | findAny id =>
    simp only [Communication.step] at hs
    split at hs
    · obtain ⟨sweep', hfind, hs⟩ := Option.bind_eq_some_iff.1 hs
      cases hs
      exact .inl (henv ..)
    · cases hs

/-! ## Numbers -/

/-- Every number in use was drawn, and is used once. -/
structure Numbered (s : Communication) : Prop where
  nodup : s.numbers.Nodup
  below : ∀ r ∈ s.numbers, r < s.drawn
  held : ∀ r ∈ s.holders, r ∈ s.inserted

theorem Numbered.mono (h : s.Numbered) (hdraws : Draws s s')
    (hheld : ∀ r ∈ s'.holders, r ∈ s'.inserted) : s'.Numbered := by
  obtain ⟨l, hperm, hsub⟩ := hdraws.numbers
  have hnodup : (List.range' s.drawn (s'.drawn - s.drawn) ++ s.numbers).Nodup := by
    refine List.nodup_append'.2 ⟨List.nodup_range', h.nodup, fun r hnew hold => ?_⟩
    exact absurd (h.below r hold) (List.mem_range'_1.1 hnew).1.not_gt
  refine ⟨hperm.nodup_iff.1 (hnodup.sublist hsub), fun r hr => ?_, hheld⟩
  rcases List.mem_append.1 (hsub.subset (hperm.mem_iff.2 hr)) with hnew | hold
  · have hlt := (List.mem_range'_1.1 hnew).2
    have hle := hdraws.le
    omega
  · exact (h.below r hold).trans_le hdraws.le

theorem Numbered.step (h : s.Numbered) (hs : s.step e = some s') : s'.Numbered ∧ s.drawn ≤ s'.drawn := by
  rcases step_effect hs with heff | ⟨k, x, r, -, -, heff⟩ | ⟨rs, heff⟩ | ⟨id, f, answer, heff, -⟩
  · refine ⟨h.mono heff.draws fun r hr => ?_, heff.draws.le⟩
    rw [heff.inserted]
    exact h.held r (heff.sub r hr)
  · refine ⟨h.mono heff.draws fun r' hr' => ?_, heff.draws.le⟩
    rw [heff.inserted]
    rcases heff.holders r' hr' with rfl | hr'
    · exact List.mem_append_right _ (List.mem_singleton_self _)
    · exact List.mem_append_left _ (h.held r' hr')
  · refine ⟨h.mono heff.draws fun r hr => ?_, heff.draws.le⟩
    rw [heff.inserted]
    exact h.held r (heff.sub r hr)
  · refine ⟨h.mono heff.draws fun r hr => ?_, heff.draws.le⟩
    rw [heff.inserted]
    exact h.held r (heff.sub r hr)

theorem numbered_new : new.Numbered := ⟨List.nodup_nil, nofun, nofun⟩

theorem Numbered.inserted_nodup (h : s.Numbered) : s.inserted.Nodup := (List.nodup_append'.1 h.nodup).1

theorem Numbered.lt_drawn (h : s.Numbered) (hr : r ∈ s.inserted) : r < s.drawn :=
  h.below r (List.mem_append_left _ hr)

/-- A number that was drawn for an entry has none yet. -/
theorem Numbered.fresh (h : s.Numbered) (hk : s.sends[k]? = some x) (hdrawn : x.drawn = some r) :
    r ∉ s.inserted ∧ r < s.drawn := by
  have hmem : r ∈ s.sends.filterMap Sending.drawn :=
    List.mem_filterMap.2 ⟨x, List.mem_of_getElem? hk, hdrawn⟩
  exact ⟨fun hr => (List.nodup_append'.1 h.nodup).2.2 hr hmem, h.below r (List.mem_append_right _ hmem)⟩

theorem callId_inj {r' : ℕ} (hr : r < UInt64.size) (hr' : r' < UInt64.size) :
    callId r = callId r' ↔ r = r' := by
  refine ⟨fun h => ?_, congrArg _⟩
  have hnat := congrArg UInt64.toNat h
  rwa [UInt64.toNat_ofNat_of_lt' hr, UInt64.toNat_ofNat_of_lt' hr'] at hnat

end Communication

namespace Ledger
open Communication (callId)
variable {s s' : Ledger} {e : Communication.Event} {r : ℕ} {id : UInt64}

/-! ## The table, while no id is drawn twice -/

/-- Which entries there are, and where every number stands. -/
structure Tabled (s : Ledger) : Prop where
  get? : ∀ id call, s.comm.pending.get? id = some call ↔
    id = callId call.reply ∧ (call.reply, call.node) ∈ s.sentTo ∧ s.comm.Open call.reply
  awaited : ∀ r ∈ s.comm.inserted, s.comm.Open r → s.comm.Awaited r
  sentTo : s.sentTo.map (·.1) = s.comm.inserted
  resolved : s.resolved.map (·.1) = s.comm.answers.map (·.1)
  once : (s.resolved.map (·.1)).Nodup
  replied : ∀ r node, (r, .reply node) ∈ s.resolved → (r, node) ∈ s.sentTo
  closed : ∀ r, ¬ s.comm.Open r → r ∈ s.comm.inserted

theorem Tabled.get?_of_open (h : s.Tabled) (hr : r ∈ s.comm.inserted) (hopen : s.comm.Open r) :
    ∃ node, s.comm.pending.get? (callId r) = some ⟨node, r⟩ := by
  rw [← h.sentTo] at hr
  obtain ⟨⟨r, node⟩, hmem, rfl⟩ := List.mem_map.1 hr
  exact ⟨node, (h.get? _ ⟨node, r⟩).2 ⟨rfl, hmem, hopen⟩⟩

theorem tabled_new : new.Tabled where
  get? id call := by simp [new, Communication.new]
  awaited := nofun
  sentTo := rfl
  resolved := rfl
  once := List.nodup_nil
  replied := nofun
  closed r h := absurd ⟨List.not_mem_nil, List.not_mem_nil⟩ h

theorem Tabled.quiet (h : s.Tabled) (heff : s.comm.Quiet s'.comm) (hsent : s'.sentTo = s.sentTo)
    (hresolved : s'.resolved = s.resolved) : s'.Tabled := by
  have hopen : ∀ r, s'.comm.Open r ↔ s.comm.Open r := fun r => by
    rw [Communication.Open, heff.answers, heff.letGo, Communication.Open]
  refine ⟨fun id call => ?_, fun r hr ho => ?_, ?_, ?_, ?_, fun r node hr => ?_, fun r ho => ?_⟩
  · rw [heff.pending, hsent, hopen, h.get?]
  · rw [heff.inserted] at hr
    rw [hopen] at ho
    refine heff.keep r (h.awaited r hr ho) (Communication.isPending_iff.2 ?_)
    obtain ⟨node, hget⟩ := h.get?_of_open hr ho
    exact ⟨_, hget, rfl⟩
  · rw [hsent, heff.inserted, h.sentTo]
  · rw [hresolved, heff.answers, h.resolved]
  · rw [hresolved]
    exact h.once
  · rw [hresolved] at hr
    exact hsent ▸ h.replied r node hr
  · rw [hopen] at ho
    exact heff.inserted ▸ h.closed r ho

theorem Tabled.inserts {x : Sending} (h : s.Tabled) (heff : s.comm.Inserts s'.comm x r)
    (hfresh : r ∉ s.comm.inserted) (hfree : ∀ r' ∈ s.comm.inserted, callId r' ≠ callId r)
    (hsent : s'.sentTo = s.sentTo ++ [(r, x.node)]) (hresolved : s'.resolved = s.resolved) :
    s'.Tabled := by
  have hopen : ∀ r, s'.comm.Open r ↔ s.comm.Open r := fun r => by
    rw [Communication.Open, heff.answers, heff.letGo, Communication.Open]
  refine ⟨fun id call => ?_, fun r' hr' ho => ?_, ?_, ?_, ?_, fun r' node hr' => ?_, fun r' ho => ?_⟩
  · rw [heff.pending, Pending.get?_insert, hsent, hopen, List.mem_append, List.mem_singleton]
    split
    · rename_i hid
      subst hid
      constructor
      · rintro ⟨⟩
        exact ⟨rfl, .inr rfl, not_not.1 fun ho => hfresh (h.closed r ho)⟩
      · rintro ⟨hid, hmem | hmem, -⟩
        · refine absurd hid.symm (hfree _ ?_)
          exact h.sentTo ▸ List.mem_map.2 ⟨_, hmem, rfl⟩
        · obtain ⟨node, reply⟩ := call
          cases hmem
          rfl
    · rename_i hid
      rw [h.get?]
      refine and_congr_right fun heq => and_congr_left fun _ => (or_iff_left fun hmem => hid ?_).symm
      rw [heq, (Prod.mk.inj hmem).1]
  · rw [hopen] at ho
    rw [heff.inserted, List.mem_append, List.mem_singleton] at hr'
    rcases hr' with hr' | rfl
    · exact heff.keep r' (h.awaited r' hr' ho)
    · exact heff.awaited
  · rw [hsent, heff.inserted, List.map_append, h.sentTo]
    rfl
  · rw [hresolved, heff.answers, h.resolved]
  · rw [hresolved]
    exact h.once
  · rw [hresolved] at hr'
    rw [hsent]
    exact List.mem_append_left _ (h.replied r' node hr')
  · rw [hopen] at ho
    rw [heff.inserted]
    exact List.mem_append_left _ (h.closed r' ho)

theorem Tabled.releases {rs : List ℕ} (h : s.Tabled) (heff : s.comm.Releases s'.comm rs)
    (hheld : ∀ r ∈ s.comm.holders, r ∈ s.comm.inserted)
    (hinj : ∀ r ∈ s.comm.inserted, ∀ r' ∈ s.comm.inserted, callId r = callId r' → r = r')
    (hsent : s'.sentTo = s.sentTo) (hresolved : s'.resolved = s.resolved) : s'.Tabled := by
  have hopen : ∀ r, s'.comm.Open r ↔ s.comm.Open r ∧ r ∉ rs := fun r => by
    rw [Communication.Open, heff.answers, heff.letGo, Communication.Open, List.mem_append, not_or,
      and_assoc]
  refine ⟨fun id call => ?_, fun r hr ho => ?_, ?_, ?_, ?_, fun r node hr => ?_, fun r ho => ?_⟩
  · rw [heff.pending, Pending.get?_removeAll, hsent, hopen]
    split
    · rename_i hmem
      simp only [reduceCtorEq, false_iff]
      rintro ⟨rfl, hsentTo, -, hnot⟩
      obtain ⟨r, hr, heq⟩ := List.mem_map.1 hmem
      have hin : call.reply ∈ s.comm.inserted := h.sentTo ▸ List.mem_map.2 ⟨_, hsentTo, rfl⟩
      exact hnot (hinj r (hheld r (heff.held r hr)) _ hin heq ▸ hr)
    · rename_i hmem
      rw [h.get?]
      refine and_congr_right fun heq => and_congr_right fun _ => (and_iff_left fun hr => hmem ?_).symm
      exact heq ▸ List.mem_map.2 ⟨_, hr, rfl⟩
  · rw [heff.inserted] at hr
    rw [hopen] at ho
    exact (heff.keep r (h.awaited r hr ho.1)).resolve_right ho.2
  · rw [hsent, heff.inserted, h.sentTo]
  · rw [hresolved, heff.answers, h.resolved]
  · rw [hresolved]
    exact h.once
  · rw [hresolved] at hr
    exact hsent ▸ h.replied r node hr
  · rw [hopen, not_and_or, not_not] at ho
    rw [heff.inserted]
    exact ho.elim (h.closed r) fun hr => hheld r (heff.held r hr)

theorem Tabled.resolves {f : PendingCall → Bool} {answer : Answer} {resolver : Resolver} (h : s.Tabled)
    (heff : s.comm.Resolves s'.comm id f answer)
    (hinj : ∀ r ∈ s.comm.inserted, ∀ r' ∈ s.comm.inserted, callId r = callId r' → r = r')
    (hreply : ∀ node, resolver = .reply node → ∀ call, f call = true → call.node = node)
    (hsent : s'.sentTo = s.sentTo)
    (hresolved : s'.resolved = s.resolved ++
      (s'.comm.answers.drop s.comm.answers.length).map fun answer => (answer.1, resolver)) :
    s'.Tabled := by
  rcases Communication.removeIf_cases s.comm.pending id f with heq | ⟨call, hget, hf, heq⟩
  · have hanswers : s'.comm.answers = s.comm.answers := by
      rw [heff.answers, heq]
      exact List.append_nil _
    refine h.quiet ⟨heff.draws, by rw [heff.pending, heq], heff.inserted, hanswers, heff.letGo, heff.sub,
      fun r hr _ => heff.keep r hr⟩ hsent ?_
    rw [hresolved, hanswers, List.drop_length, List.map_nil, List.append_nil]
  · have hanswers : s'.comm.answers = s.comm.answers ++ [(call.reply, answer)] := by
      rw [heff.answers, heq]
      rfl
    rw [hanswers, List.drop_left] at hresolved
    obtain ⟨hid, hmem, hcall⟩ := (h.get? id call).1 hget
    have hin : call.reply ∈ s.comm.inserted := h.sentTo ▸ List.mem_map.2 ⟨_, hmem, rfl⟩
    have hopen : ∀ r, s'.comm.Open r ↔ s.comm.Open r ∧ r ≠ call.reply := fun r => by
      rw [Communication.Open, hanswers, heff.letGo, Communication.Open, List.map_append, List.mem_append,
        not_or, and_right_comm]
      simp only [List.map_cons, List.map_nil, List.mem_singleton, ne_eq]
    refine ⟨fun id' call' => ?_, fun r hr ho => ?_, ?_, ?_, ?_, fun r node hr => ?_, fun r ho => ?_⟩
    · rw [heff.pending, heq, Pending.get?_remove, hsent, hopen]
      split
      · rename_i hsame
        simp only [reduceCtorEq, false_iff]
        rintro ⟨hid', hmem', -, hne⟩
        have hin' : call'.reply ∈ s.comm.inserted := h.sentTo ▸ List.mem_map.2 ⟨_, hmem', rfl⟩
        exact hne (hinj _ hin' _ hin (hid'.symm.trans (hsame.trans hid)))
      · rename_i hne
        rw [h.get?]
        refine and_congr_right fun hid' => and_congr_right fun _ => (and_iff_left fun hsame => hne ?_).symm
        rw [hid', hid, hsame]
    · rw [heff.inserted] at hr
      exact heff.keep r (h.awaited r hr ((hopen r).1 ho).1)
    · rw [hsent, heff.inserted, h.sentTo]
    · rw [hresolved, hanswers, List.map_append, List.map_append, h.resolved]
      rfl
    · rw [hresolved, List.map_append]
      refine List.nodup_append'.2 ⟨h.once, List.nodup_singleton _, ?_⟩
      rw [h.resolved]
      exact List.disjoint_singleton.2 hcall.1
    · rw [hresolved, List.mem_append] at hr
      rw [hsent]
      rcases hr with hr | hr
      · exact h.replied r node hr
      · obtain ⟨rfl, hnode⟩ := Prod.mk.inj (List.mem_singleton.1 hr)
        rw [← hreply node hnode.symm call hf]
        exact hmem
    · rw [hopen, not_and_or, not_not] at ho
      rw [heff.inserted]
      exact ho.elim (h.closed r) fun heq => heq ▸ hin

theorem Tabled.step (h : s.Tabled) (hn : s.comm.Numbered) (hdrawn : s.comm.drawn ≤ UInt64.size)
    (hs : s.step e = some s') : s'.Tabled := by
  have hlt : ∀ r ∈ s.comm.inserted, r < UInt64.size := fun r hr => (hn.lt_drawn hr).trans_le hdrawn
  have hinj : ∀ r ∈ s.comm.inserted, ∀ r' ∈ s.comm.inserted, callId r = callId r' → r = r' :=
    fun r hr r' hr' => (Communication.callId_inj (hlt r hr) (hlt r' hr')).1
  obtain ⟨comm, hcomm, hs⟩ := Option.bind_eq_some_iff.1 hs
  cases hs
  -- what the histories get when the step inserts, or answers, nothing
  have hsame : comm.inserted = s.comm.inserted → s.sentTo ++ (s.sendNode e).toList.flatMap (fun node =>
      (comm.inserted.drop s.comm.inserted.length).map (·, node)) = s.sentTo := fun heq => by
    rw [heq, List.drop_length]
    simp
  have hnone : comm.answers = s.comm.answers → s.resolved ++
      (comm.answers.drop s.comm.answers.length).map (fun answer => (answer.1, e.resolver)) =
      s.resolved := fun heq => by
    rw [heq, List.drop_length, List.map_nil, List.append_nil]
  rcases Communication.step_effect hcomm with heff | ⟨k, x, r, he, hk, heff⟩ | ⟨rs, heff⟩ |
    ⟨id, f, answer, heff, hreply⟩
  · exact h.quiet heff (hsame heff.inserted) (hnone heff.answers)
  · obtain ⟨hfresh, hr⟩ := hn.fresh hk heff.drawn
    refine h.inserts heff hfresh (fun r' hr' heq => hfresh ?_) ?_ (hnone heff.answers)
    · rwa [← (Communication.callId_inj (hlt r' hr') (hr.trans_le hdrawn)).1 heq]
    · have hnode : s.sendNode e = some x.node := by
        rcases he with rfl | rfl <;> simp only [sendNode, hk, Option.map_some]
      rw [hnode, heff.inserted, List.drop_left]
      rfl
  · exact h.releases heff hn.held hinj (hsame heff.inserted) (hnone heff.answers)
  · exact h.resolves heff hinj hreply (hsame heff.inserted) rfl

theorem Tabled.exact (h : s.Tabled) (hn : s.comm.Numbered) (hdrawn : s.comm.drawn ≤ UInt64.size) :
    s.Exact := by
  have hlt : ∀ r ∈ s.comm.inserted, r < UInt64.size := fun r hr => (hn.lt_drawn hr).trans_le hdrawn
  have hinj : ∀ r ∈ s.comm.inserted, ∀ r' ∈ s.comm.inserted, callId r = callId r' → r = r' :=
    fun r hr r' hr' => (Communication.callId_inj (hlt r hr) (hlt r' hr')).1
  have hin : ∀ r node, (r, node) ∈ s.sentTo → r ∈ s.comm.inserted := fun r node hmem =>
    h.sentTo ▸ List.mem_map.2 ⟨_, hmem, rfl⟩
  refine ⟨List.Nodup.map_on hinj hn.inserted_nodup, fun id => ?_, fun id call hget => ?_, h.once,
    h.resolved, h.replied, fun r hr hover => ?_⟩
  · rw [Option.ne_none_iff_exists']
    constructor
    · rintro ⟨call, hget⟩
      obtain ⟨hid, hmem, hopen⟩ := (h.get? id call).1 hget
      exact ⟨call.reply, h.awaited _ (hin _ _ hmem) hopen, hid.symm, hopen⟩
    · rintro ⟨r, hr, rfl, hopen⟩
      obtain ⟨node, hget⟩ := h.get?_of_open (hn.held r hr.mem_holders) hopen
      exact ⟨_, hget⟩
  · obtain ⟨hid, hmem, -⟩ := (h.get? id call).1 hget
    exact ⟨hid, hmem⟩
  · refine Option.eq_none_iff_forall_ne_some.2 fun call hget => hover ?_
    obtain ⟨hid, hmem, hopen⟩ := (h.get? _ call).1 hget
    rwa [hinj r hr _ (hin _ _ hmem) hid]

theorem numbered_of_reachable (h : runs.Reachable s) : s.comm.Numbered := by
  induction h with
  | init h₀ => exact h₀ ▸ Communication.numbered_new
  | step _ hs ih =>
    obtain ⟨comm, hcomm, heq⟩ := Option.bind_eq_some_iff.1 hs
    cases heq
    exact (ih.step hcomm).1

theorem tabled_of_drawn (h : runs.Reachable s) : s.comm.drawn ≤ UInt64.size → s.Tabled := by
  induction h with
  | init h₀ => exact fun _ => h₀ ▸ tabled_new
  | @step s s' e h hs ih =>
    intro hdrawn
    have hn := numbered_of_reachable h
    obtain ⟨comm, hcomm, heq⟩ := Option.bind_eq_some_iff.1 hs
    -- the counter only grows
    have hle : s.comm.drawn ≤ s'.comm.drawn := by
      cases heq
      exact (hn.step hcomm).2
    exact (ih (hle.trans hdrawn)).step hn (hle.trans hdrawn) hs

/-- As long as no more than 2^64 ids were drawn, the table is exact. -/
theorem exact_of_drawn (h : runs.Reachable s) (hdrawn : s.comm.drawn ≤ UInt64.size) : s.Exact :=
  (tabled_of_drawn h hdrawn).exact (numbered_of_reachable h) hdrawn

/-- A call that hands over a request, and is answered. -/
def answered : List Communication.Event :=
  [.up "b", .send "b" true, .checkRunning 0, .checkMember 0, .checkReachable 0, .draw 0,
    .exportRequest 0, .draw 0, .expect 0, .handOver 0, .reply "b" 1 (.ok [])]

theorem exact_of_drawn_answered : ∃ s, runs.Reachable s ∧ s.Exact ∧ s.comm.inserted = [0, 1] ∧
    s.resolved = [(1, .reply "b")] ∧ s.comm.pending.get? 0 = some ⟨"b", 0⟩ := by
  obtain ⟨s, hs, hdrawn, hrest⟩ : ∃ s, runs.Reachable s ∧ s.comm.drawn ≤ UInt64.size ∧
      s.comm.inserted = [0, 1] ∧ s.resolved = [(1, .reply "b")] ∧
      s.comm.pending.get? 0 = some ⟨"b", 0⟩ :=
    Lts.exists_reachable_of_exec rfl answered (by decide +kernel)
  exact ⟨s, hs, exact_of_drawn hs hdrawn, hrest⟩

/-! ## The table, once the counter has wrapped around -/

/-- The state in which `n` more ids have been drawn, for monitors. -/
def drawMonitors (s : Ledger) (n : ℕ) : Ledger :=
  { s with comm := { s.comm with drawn := s.comm.drawn + n } }

theorem reachable_drawMonitors (h : runs.Reachable s) (n : ℕ) :
    runs.Reachable (s.drawMonitors n) := by
  induction n with
  | zero => exact h
  | succ n ih =>
    refine .step (e := .drawMonitor) ih ?_
    show (s.drawMonitors n).step .drawMonitor = _
    simp [step, Communication.step, sendNode, drawMonitors, Nat.add_assoc]

/-- A call, and what is drawn for the one after it. -/
def call (node : NodeName) : List Communication.Event :=
  [.up node, .send node true, .checkRunning 0, .checkMember 0, .checkReachable 0, .draw 0, .expect 0,
    .handOver 0]

/-- While the first call waits, the counter wraps around: the second one has the same id. -/
theorem not_exact : ¬ ∀ s, runs.Reachable s → s.Exact := by
  intro hall
  obtain ⟨s, hs, hwrap⟩ : ∃ s, runs.Reachable s ∧
      ((Lts.exec step (s.drawMonitors (UInt64.size - 1)) (call "c")).any fun s' =>
        decide (¬ (s'.comm.inserted.map callId).Nodup)) = true :=
    Lts.exists_reachable_of_exec rfl (call "b") (by decide +kernel)
  obtain ⟨s', hs', htwice⟩ := (Option.any_eq_true _ _).1 hwrap
  exact of_decide_eq_true htwice (hall s' ((reachable_drawMonitors hs _).exec hs')).unique

end Ledger
end Zestors
