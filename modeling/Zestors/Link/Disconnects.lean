import Mathlib.Data.List.Perm.Basic
import Zestors.Link.Connections

/-!
# Reports of lost connections

The connections of one node to all its peers. One that is registered may be replaced by another one,
found closed by the task that receives on it, unregistered by a lane that cannot write to it, or
forgotten on purpose. Every connection that was lost or replaced, and not forgotten, is reported
exactly once (`ReportedOnce`) in the runs in which no connection takes the place of a closed one
(`reportedOnce_of_replacesOpen`): `Inner::register` overwrites a closed one without a report, and the
task that receives on it does not find it any more.
-/

namespace Zestors

/-- Where a connection is: the hellos are exchanged, it was registered and is received from, the task
that receives on it has ended, or `register` did not keep it. -/
inductive ConnStage
  | greeted
  | received
  | finished
  | refused
deriving DecidableEq

/-- A connection of a node. `generation` is that of the peer, from its hello. -/
structure Conn where
  peer : NodeName
  generation : ℕ
  dialer : NodeName
  stage : ConnStage
  isClosed : Bool
deriving DecidableEq

/-- The connection was registered at some time. -/
def Conn.Kept (conn : Conn) : Prop := conn.stage = .received ∨ conn.stage = .finished

instance (conn : Conn) : Decidable conn.Kept := by unfold Conn.Kept; infer_instance

/-- `PeerEvent::Disconnected`. `conn` is a ghost: the connection that it is about. -/
structure Disconnected where
  node : NodeName
  generation : ℕ
  conn : ℕ
deriving DecidableEq

/-- What `Inner` knows of its connections, `conns` being all that there ever were. `reports` are the
reports that were sent, and `reporting` those that are about to be; `forgotten` are the connections
that `forget` let go of. -/
structure Links where
  name : NodeName
  conns : List Conn
  registered : NodeName → Option Registered
  reporting : List Disconnected
  reports : List Disconnected
  forgotten : List ℕ

namespace Links

def new (name : NodeName) : Links := ⟨name, [], fun _ => none, [], [], []⟩

inductive Event
  /-- A connection is up and its hellos are exchanged. -/
  | greeted (peer : NodeName) (generation : ℕ) (dialer : NodeName)
  | register (c : ℕ)
  | close (c : ℕ)
  /-- The task that receives on the connection finds it closed. -/
  | received (c : ℕ)
  /-- A lane to `node` fails to write to the connection. -/
  | writeFailed (node : NodeName) (c : ℕ)
  | forget (node : NodeName) (generation : ℕ)
  /-- The `i`-th report is sent. -/
  | send (i : ℕ)

variable {s s' : Links} {e : Event} {c : ℕ} {conn : Conn} {peer : NodeName}

def isClosed (s : Links) (c : ℕ) : Bool := (s.conns[c]?).all (·.isClosed)

def close (s : Links) (c : ℕ) : Links :=
  { s with conns := s.conns.modify c fun conn => { conn with isClosed := true } }

def setStage (s : Links) (c : ℕ) (stage : ConnStage) : Links :=
  { s with conns := s.conns.modify c fun conn => { conn with stage := stage } }

def setRegistered (s : Links) (peer : NodeName) (registered : Option Registered) : Links :=
  { s with registered := Function.update s.registered peer registered }

/-- `Inner::register`, and whether the connection was kept. -/
def register (s : Links) (peer : NodeName) (generation c : ℕ) (dialer : NodeName) : Links × Bool :=
  let registered : Registered := ⟨c, generation, dialer⟩
  match s.registered peer with
  | none => (s.setRegistered peer (some registered), true)
  | some existing =>
    if s.isClosed existing.conn then (s.setRegistered peer (some registered), true)
    else if existing.keepNew s.name peer generation dialer then
      let report : Disconnected := ⟨peer, existing.generation, existing.conn⟩
      let reported : Links := { s with reports := s.reports ++ [report] }
      ((reported.close existing.conn).setRegistered peer (some registered), true)
    else (s, false)

/-- `Inner::unregister`. -/
def unregister (s : Links) (peer : NodeName) (c : ℕ) : Links :=
  match s.registered peer with
  | some registered =>
    if registered.conn = c then
      let report : Disconnected := ⟨peer, registered.generation, c⟩
      setRegistered { s with reporting := s.reporting ++ [report] } peer none
    else s
  | none => s

/-- `Links::forget`. -/
def forget (s : Links) (node : NodeName) (generation : ℕ) : Links :=
  match s.registered node with
  | some registered =>
    if registered.generation ≤ generation then
      (setRegistered { s with forgotten := registered.conn :: s.forgotten } node none).close
        registered.conn
    else s
  | none => s

/-- The end of `connection` and of `accept`: a connection that is kept is received from, and one that
is not is closed. -/
def registerEnd (s : Links) (c : ℕ) (conn : Conn) : Links :=
  let registered := s.register conn.peer conn.generation c conn.dialer
  if registered.2 then registered.1.setStage c .received
  else (registered.1.close c).setStage c .refused

def step (s : Links) : Event → Option Links
  | .greeted peer generation dialer =>
    some { s with conns := s.conns ++ [⟨peer, generation, dialer, .greeted, false⟩] }
  | .register c => do
    let conn ← s.conns[c]?
    if conn.stage = .greeted then some (s.registerEnd c conn) else none
  | .close c => some (s.close c)
  | .received c => do
    let conn ← s.conns[c]?
    if conn.stage = .received ∧ conn.isClosed = true then
      some ((s.unregister conn.peer c).setStage c .finished)
    else none
  | .writeFailed node c => some (s.unregister node c)
  | .forget node generation => some (s.forget node generation)
  | .send i => do
    let report ← s.reporting[i]?
    some { s with reporting := s.reporting.eraseIdx i, reports := s.reports ++ [report] }

/-- Every interleaving of registrations, closings, failed writes, forgettings and reports. -/
def runs : Lts Links Event := Lts.ofFun (fun s => ∃ name, s = new name) step

def IsRegistered (s : Links) (peer : NodeName) (c : ℕ) : Prop :=
  (s.registered peer).map Registered.conn = some c

instance (s : Links) (peer : NodeName) (c : ℕ) : Decidable (s.IsRegistered peer c) := by
  unfold IsRegistered; infer_instance

/-- Replaced or unregistered, or closed with nothing left for its receiving task to do. -/
def Lost (s : Links) (c : ℕ) (conn : Conn) : Prop :=
  ¬ s.IsRegistered conn.peer c ∨ (conn.isClosed = true ∧ conn.stage = .finished)

instance (s : Links) (c : ℕ) (conn : Conn) : Decidable (s.Lost c conn) := by
  unfold Lost; infer_instance

/-- The connection was registered and is lost, was not forgotten on purpose, and no report about it is
about to be sent. -/
def Settled (s : Links) (c : ℕ) (conn : Conn) : Prop :=
  conn.Kept ∧ s.Lost c conn ∧ c ∉ s.forgotten ∧ ∀ r ∈ s.reporting, r.conn ≠ c

instance (s : Links) (c : ℕ) (conn : Conn) : Decidable (s.Settled c conn) := by
  unfold Settled; infer_instance

/-- Every lost connection has been reported once, with the generation it was registered with. -/
def ReportedOnce (s : Links) : Prop :=
  ∀ c < s.conns.length, ∀ conn ∈ s.conns[c]?, s.Settled c conn →
    s.reports.filter (·.conn = c) = [⟨conn.peer, conn.generation, c⟩]

instance (s : Links) : Decidable s.ReportedOnce := by unfold ReportedOnce; infer_instance

/-- No connection is registered in the place of a closed one. -/
def ReplacesOpen (s : Links) : Event → Prop
  | .register c => ∀ conn ∈ s.conns[c]?, ∀ existing ∈ s.registered conn.peer,
      s.isClosed existing.conn = false
  | _ => True

instance (s : Links) (e : Event) : Decidable (s.ReplacesOpen e) := by
  cases e <;> unfold ReplacesOpen <;> infer_instance

/-! ## What is owed -/

/-- The reports about the connection, sent or about to be. -/
def about (s : Links) (c : ℕ) : List Disconnected :=
  (s.reports ++ s.reporting).filter (·.conn = c)

/-- The report that there has to be about the connection. -/
def owed (s : Links) (c : ℕ) : Option Disconnected := do
  let conn ← s.conns[c]?
  if conn.Kept ∧ ¬ s.IsRegistered conn.peer c ∧ c ∉ s.forgotten then
    some ⟨conn.peer, conn.generation, c⟩
  else none

/-- The registered connections are received from, and the reports are the ones that are owed. -/
structure Accounted (s : Links) : Prop where
  registered : ∀ peer r, s.registered peer = some r → r.conn ∉ s.forgotten ∧
    ∃ conn, s.conns[r.conn]? = some conn ∧ conn.peer = peer ∧ conn.generation = r.generation ∧
      conn.stage = .received
  forgotten : ∀ c ∈ s.forgotten, ∃ conn, s.conns[c]? = some conn ∧ conn.Kept
  about : ∀ c, s.about c = (s.owed c).toList

theorem accounted_new (name : NodeName) : (new name).Accounted := ⟨nofun, nofun, fun _ => rfl⟩

theorem Accounted.not_registered (h : s.Accounted) (hc : s.conns[c]? = some conn)
    (hstage : conn.stage ≠ .received) : ¬ s.IsRegistered peer c := by
  intro hreg
  obtain ⟨r, hr, rfl⟩ := Option.map_eq_some_iff.1 hreg
  obtain ⟨-, conn', hc', -, -, hreceived⟩ := h.registered peer r hr
  rw [hc] at hc'
  cases hc'
  exact hstage hreceived

theorem owed_eq_some (hc : s.conns[c]? = some conn) (hkept : conn.Kept)
    (hgone : ¬ s.IsRegistered conn.peer c) (hforgotten : c ∉ s.forgotten) :
    s.owed c = some ⟨conn.peer, conn.generation, c⟩ := by
  unfold owed
  rw [hc]
  exact if_pos ⟨hkept, hgone, hforgotten⟩

theorem Accounted.reportedOnce (h : s.Accounted) : s.ReportedOnce := by
  rintro c - conn hc ⟨hkept, hlost, hforgotten, hsent⟩
  have hgone : ¬ s.IsRegistered conn.peer c := by
    rcases hlost with hgone | ⟨-, hstage⟩
    · exact hgone
    · exact h.not_registered hc (by simp [hstage])
  have habout := h.about c
  have hnone : s.reporting.filter (·.conn = c) = [] :=
    List.filter_eq_nil_iff.2 fun r hr => by simpa using hsent r hr
  rw [owed_eq_some hc hkept hgone hforgotten, Links.about, List.filter_append, hnone,
    List.append_nil] at habout
  exact habout

/-! ## Steps -/

@[simp] theorem registered_setRegistered (registered : Option Registered) (p : NodeName) :
    (s.setRegistered peer registered).registered p = if p = peer then registered else s.registered p :=
  Function.update_apply _ _ _ _

/-- The connections may change as long as the registered ones are received from. -/
theorem Accounted.of_conns (h : s.Accounted) {conns : List Conn}
    (hold : ∀ c conn, s.conns[c]? = some conn → ∃ conn', conns[c]? = some conn' ∧
      conn'.peer = conn.peer ∧ conn'.generation = conn.generation ∧ (conn'.Kept ↔ conn.Kept) ∧
      (s.IsRegistered conn.peer c → conn'.stage = .received))
    (hnew : ∀ (c : ℕ) (conn' : Conn), s.conns[c]? = none → conns[c]? = some conn' → ¬ conn'.Kept) :
    Accounted { s with conns := conns } := by
  refine ⟨fun peer r hr => ?_, fun c hc => ?_, fun c => ?_⟩
  · obtain ⟨hforgotten, conn, hconn, rfl, hgen, -⟩ := h.registered peer r hr
    obtain ⟨conn', hconn', hpeer, hgen', -, hstage⟩ := hold _ _ hconn
    exact ⟨hforgotten, conn', hconn', hpeer, hgen'.trans hgen,
      hstage (Option.map_eq_some_iff.2 ⟨r, hr, rfl⟩)⟩
  · obtain ⟨conn, hconn, hkept⟩ := h.forgotten c hc
    obtain ⟨conn', hconn', -, -, hiff, -⟩ := hold _ _ hconn
    exact ⟨conn', hconn', hiff.2 hkept⟩
  · refine (h.about c).trans (congrArg Option.toList ?_)
    unfold owed IsRegistered
    cases hc : s.conns[c]? with
    | none =>
      cases hc' : conns[c]? with
      | none => rfl
      | some conn' => exact (if_neg fun hkept => hnew c conn' hc hc' hkept.1).symm
    | some conn =>
      obtain ⟨conn', hc', hpeer, hgen, hiff, -⟩ := hold c conn hc
      simp only [hc', Option.bind_eq_bind, Option.bind_some, hpeer, hgen, hiff]

theorem Accounted.received_of_registered (h : s.Accounted) (hc : s.conns[c]? = some conn)
    (hreg : s.IsRegistered peer c) : conn.stage = .received := by
  by_contra hstage
  exact h.not_registered hc hstage hreg

theorem Accounted.modify (h : s.Accounted) {k : ℕ} {f : Conn → Conn}
    (hf : ∀ conn, s.conns[k]? = some conn → (f conn).peer = conn.peer ∧
      (f conn).generation = conn.generation ∧ ((f conn).Kept ↔ conn.Kept) ∧
      (s.IsRegistered conn.peer k → (f conn).stage = .received)) :
    Accounted { s with conns := s.conns.modify k f } := by
  refine h.of_conns (fun c conn hc => ?_) fun c conn' hnone hsome => ?_
  · rw [List.getElem?_modify, hc]
    refine ⟨_, rfl, ?_⟩
    split
    · rename_i hk
      subst hk
      exact hf conn hc
    · exact ⟨rfl, rfl, Iff.rfl, h.received_of_registered hc⟩
  · rw [List.getElem?_modify, hnone] at hsome
    cases hsome

theorem Accounted.close (h : s.Accounted) (c : ℕ) : (s.close c).Accounted :=
  h.modify fun conn hc => ⟨rfl, rfl, Iff.rfl, fun hreg =>
    show conn.stage = .received from h.received_of_registered hc hreg⟩

theorem Accounted.greeted (h : s.Accounted) (hstage : conn.stage = .greeted) :
    Accounted { s with conns := s.conns ++ [conn] } := by
  refine h.of_conns (fun c conn' hc => ?_) fun c conn' hnone hsome => ?_
  · have hlt : c < s.conns.length := (List.getElem?_eq_some_iff.1 hc).1
    exact ⟨conn', (List.getElem?_append_left hlt).trans hc, rfl, rfl, Iff.rfl,
      h.received_of_registered hc⟩
  · rw [List.getElem?_append_right (List.getElem?_eq_none_iff.1 hnone)] at hsome
    rw [List.mem_singleton.1 (List.mem_of_getElem? hsome)]
    simp [Conn.Kept, hstage]

/-- A change of what is registered at a peer leaves the reports about other connections alone. -/
theorem owed_setRegistered (s : Links) (peer : NodeName) (registered : Option Registered) {k : ℕ}
    (hold : ∀ r, s.registered peer = some r → r.conn ≠ k)
    (hnew : ∀ r, registered = some r → r.conn ≠ k) :
    (s.setRegistered peer registered).owed k = s.owed k := by
  have hiff : ∀ p, (s.setRegistered peer registered).IsRegistered p k ↔ s.IsRegistered p k := by
    intro p
    unfold IsRegistered
    rw [registered_setRegistered]
    split
    · rename_i hp
      subst hp
      constructor <;> intro h <;> obtain ⟨r, hr, hk⟩ := Option.map_eq_some_iff.1 h
      · exact absurd hk (hnew r hr)
      · exact absurd hk (hold r hr)
    · exact Iff.rfl
  unfold owed
  simp only [hiff]
  rfl

theorem Accounted.conn_ne (h : s.Accounted) {r r' : Registered} {peer' : NodeName}
    (hr : s.registered peer = some r) (hr' : s.registered peer' = some r') (hne : peer' ≠ peer) :
    r'.conn ≠ r.conn := by
  intro heq
  obtain ⟨-, conn, hc, rfl, -⟩ := h.registered _ r hr
  obtain ⟨-, conn', hc', rfl, -⟩ := h.registered _ r' hr'
  rw [heq, hc] at hc'
  cases hc'
  exact hne rfl

theorem eq_toList_of_perm {α : Type*} {l : List α} {o : Option α} (h : l.Perm o.toList) :
    l = o.toList := by
  cases o with
  | none => exact List.perm_nil.1 h
  | some a => exact List.perm_singleton.1 h

theorem Accounted.leave (h : s.Accounted) {r : Registered} (hr : s.registered peer = some r)
    {reports reporting : List Disconnected}
    (hreports : (reports ++ reporting).Perm
      (s.reports ++ s.reporting ++ [⟨peer, r.generation, r.conn⟩])) :
    Accounted
      (setRegistered { s with reports := reports, reporting := reporting } peer none) := by
  obtain ⟨hforgotten, conn, hc, hpeer, hgen, hstage⟩ := h.registered peer r hr
  refine ⟨fun peer' r' hr' => ?_, h.forgotten, fun k => ?_⟩
  · rw [registered_setRegistered] at hr'
    split at hr'
    · cases hr'
    · exact h.registered peer' r' hr'
  · refine eq_toList_of_perm ?_
    show ((reports ++ reporting).filter (·.conn = k)).Perm
      ((s.setRegistered peer none).owed k).toList
    refine (hreports.filter _).trans ?_
    rw [List.filter_append, ← Links.about, h.about k]
    by_cases hk : r.conn = k
    · subst hk
      have hbefore : s.owed r.conn = none := by
        unfold owed
        rw [hc]
        exact if_neg fun h => h.2.1 (Option.map_eq_some_iff.2 ⟨r, hpeer ▸ hr, rfl⟩)
      have hafter : (s.setRegistered peer none).owed r.conn = some ⟨peer, r.generation, r.conn⟩ := by
        rw [← hpeer, ← hgen]
        refine owed_eq_some hc (.inl hstage) ?_ hforgotten
        simp [IsRegistered]
      rw [hbefore, hafter, List.filter_cons_of_pos (by simp), List.filter_nil]
      exact List.Perm.refl _
    · rw [List.filter_cons_of_neg (by simpa using hk), List.filter_nil, List.append_nil,
        s.owed_setRegistered peer none (fun r' hr' => ?_) fun _ hr' => by cases hr']
      rw [hr] at hr'
      cases hr'
      exact hk

theorem getElem?_close (s : Links) (c k : ℕ) : (s.close c).conns[k]? =
    (s.conns[k]?).map fun conn => if c = k then { conn with isClosed := true } else conn :=
  List.getElem?_modify _ _ _ _

theorem getElem?_setStage (s : Links) (c k : ℕ) (stage : ConnStage) :
    (s.setStage c stage).conns[k]? =
      (s.conns[k]?).map fun conn => if c = k then { conn with stage := stage } else conn :=
  List.getElem?_modify _ _ _ _

theorem Accounted.enter (h : s.Accounted) (hc : s.conns[c]? = some conn)
    (hstage : conn.stage = .greeted) (hfree : s.registered conn.peer = none) {r : Registered}
    (hr : r.conn = c) (hgen : r.generation = conn.generation) :
    ((s.setRegistered conn.peer (some r)).setStage c .received).Accounted := by
  subst hr
  have hnew : ¬ conn.Kept := by simp [Conn.Kept, hstage]
  have hne : ∀ peer r', s.registered peer = some r' → r'.conn ≠ r.conn := by
    intro peer r' hr' heq
    have hreg : s.IsRegistered peer r.conn := Option.map_eq_some_iff.2 ⟨r', hr', heq⟩
    exact h.not_registered hc (by simp [hstage]) hreg
  refine ⟨fun peer r' hr' => ?_, fun k hk => ?_, fun k => ?_⟩
  · have hr' : (s.setRegistered conn.peer (some r)).registered peer = some r' := hr'
    rw [registered_setRegistered] at hr'
    rw [getElem?_setStage]
    split at hr'
    · rename_i hpeer
      cases hr'
      refine ⟨fun hk => ?_, { conn with stage := .received }, ?_, hpeer.symm, hgen.symm, rfl⟩
      · obtain ⟨conn', hc', hkept⟩ := h.forgotten r.conn hk
        rw [hc] at hc'
        cases hc'
        exact hnew hkept
      · show (s.conns[r.conn]?).map _ = _
        rw [hc, Option.map_some, if_pos rfl]
    · obtain ⟨hforgotten, conn', hc', hrest⟩ := h.registered peer r' hr'
      refine ⟨hforgotten, conn', ?_, hrest⟩
      show (s.conns[r'.conn]?).map _ = _
      rw [hc', Option.map_some, if_neg (hne peer r' hr').symm]
  · obtain ⟨conn', hc', hkept⟩ := h.forgotten k hk
    refine ⟨if r.conn = k then { conn' with stage := .received } else conn', ?_, ?_⟩
    · rw [getElem?_setStage]
      show (s.conns[k]?).map _ = _
      rw [hc', Option.map_some]
    · split
      · exact .inl rfl
      · exact hkept
  · refine (h.about k).trans (congrArg Option.toList ?_)
    by_cases hk : r.conn = k
    · subst hk
      have hbefore : s.owed r.conn = none := by
        unfold owed
        rw [hc]
        exact if_neg fun hgone => hnew hgone.1
      have hreg : ((s.setRegistered conn.peer (some r)).setStage r.conn .received).IsRegistered
          conn.peer r.conn := by
        show ((s.setRegistered conn.peer (some r)).registered conn.peer).map Registered.conn = _
        rw [registered_setRegistered, if_pos rfl, Option.map_some]
      rw [hbefore]
      unfold owed
      rw [getElem?_setStage, show (s.setRegistered conn.peer (some r)).conns = s.conns from rfl, hc,
        Option.map_some, if_pos rfl]
      exact (if_neg fun hgone => hgone.2.1 hreg).symm
    · rw [← s.owed_setRegistered conn.peer (some r)
        (fun r' hr' => by rw [hfree] at hr'; cases hr') fun r' hr' => by cases hr'; exact hk]
      unfold owed
      rw [getElem?_setStage]
      simp only [if_neg hk]
      rw [Option.map_id']
      rfl

theorem Accounted.forget (h : s.Accounted) (node : NodeName) (generation : ℕ) :
    (s.forget node generation).Accounted := by
  unfold Links.forget
  cases hr : s.registered node with
  | none => exact h
  | some r =>
    dsimp only
    split
    · refine Accounted.close ?_ r.conn
      obtain ⟨-, conn, hc, hpeer, -, hstage⟩ := h.registered node r hr
      refine ⟨fun peer r' hr' => ?_, fun k hk => ?_, fun k => ?_⟩
      · rw [registered_setRegistered] at hr'
        split at hr'
        · cases hr'
        · obtain ⟨hforgotten, hrest⟩ := h.registered peer r' hr'
          refine ⟨fun hk => ?_, hrest⟩
          rcases List.mem_cons.1 hk with hk | hk
          · exact h.conn_ne hr hr' ‹_› hk
          · exact hforgotten hk
      · rcases List.mem_cons.1 hk with rfl | hk
        · exact ⟨conn, hc, .inl hstage⟩
        · exact h.forgotten k hk
      · refine (h.about k).trans (congrArg Option.toList ?_)
        by_cases hk : r.conn = k
        · subst hk
          have hbefore : s.owed r.conn = none := by
            unfold owed
            rw [hc]
            exact if_neg fun hgone => hgone.2.1 (Option.map_eq_some_iff.2 ⟨r, hpeer ▸ hr, rfl⟩)
          rw [hbefore]
          unfold owed
          rw [show (setRegistered { s with forgotten := r.conn :: s.forgotten } node none).conns =
            s.conns from rfl, hc]
          exact (if_neg fun hgone => hgone.2.2 List.mem_cons_self).symm
        · rw [← s.owed_setRegistered node none
            (fun r' hr' => by rw [hr] at hr'; cases hr'; exact hk) fun _ hr' => by cases hr']
          have hmem : k ∈ r.conn :: s.forgotten ↔ k ∈ s.forgotten := by
            simp [Ne.symm hk]
          unfold owed
          simp only [setRegistered, hmem]
          rfl
    · exact h

theorem Accounted.unregister (h : s.Accounted) (peer : NodeName) (c : ℕ) :
    (s.unregister peer c).Accounted := by
  unfold Links.unregister
  cases hr : s.registered peer with
  | none => exact h
  | some r =>
    dsimp only
    split
    · rename_i hc
      subst hc
      exact h.leave hr (by rw [List.append_assoc])
    · exact h

theorem Accounted.send (h : s.Accounted) {i : ℕ} {report : Disconnected}
    (hi : s.reporting[i]? = some report) :
    Accounted { s with
      reporting := s.reporting.eraseIdx i, reports := s.reports ++ [report] } := by
  refine ⟨h.registered, h.forgotten, fun k => eq_toList_of_perm ?_⟩
  obtain ⟨hlt, rfl⟩ := List.getElem?_eq_some_iff.1 hi
  have hperm : (s.reports ++ [s.reporting[i]] ++ s.reporting.eraseIdx i).Perm
      (s.reports ++ s.reporting) := by
    rw [List.append_assoc]
    exact (List.getElem_cons_eraseIdx_perm hlt).append_left _
  show List.Perm (List.filter (·.conn = k) (s.reports ++ [s.reporting[i]] ++ s.reporting.eraseIdx i))
    (s.owed k).toList
  rw [← h.about k]
  exact hperm.filter _

theorem setRegistered_setRegistered (s : Links) (peer : NodeName) (r r' : Option Registered) :
    (s.setRegistered peer r).setRegistered peer r' = s.setRegistered peer r' := by
  simp [setRegistered, Function.update_idem]

/-- What `register` does with a connection: it takes a free place or that of a closed connection, or
the place of a live one, or is refused. -/
theorem registerEnd_cases (s : Links) (c : ℕ) (conn : Conn) :
    ((∀ existing ∈ s.registered conn.peer, s.isClosed existing.conn = true) ∧
      s.registerEnd c conn = (s.setRegistered conn.peer
        (some ⟨c, conn.generation, conn.dialer⟩)).setStage c .received) ∨
    (∃ existing ∈ s.registered conn.peer, s.registerEnd c conn =
      ((close { s with reports := s.reports ++ [⟨conn.peer, existing.generation, existing.conn⟩] }
        existing.conn).setRegistered conn.peer
          (some ⟨c, conn.generation, conn.dialer⟩)).setStage c .received) ∨
    s.registerEnd c conn = (s.close c).setStage c .refused := by
  unfold registerEnd register
  cases hr : s.registered conn.peer with
  | none => exact .inl ⟨nofun, rfl⟩
  | some existing =>
    by_cases hclosed : s.isClosed existing.conn = true
    · refine .inl ⟨fun e he => ?_, ?_⟩
      · cases he
        exact hclosed
      · simp [hclosed]
    · by_cases hkeep : existing.keepNew s.name conn.peer conn.generation conn.dialer = true
      · exact .inr (.inl ⟨existing, rfl, by simp [hclosed, hkeep]⟩)
      · exact .inr (.inr (by simp [hclosed, hkeep]))

/-- The connection that is replaced leaves with its report, and then the new one takes its place. -/
theorem Accounted.replace (h : s.Accounted) (hc : s.conns[c]? = some conn)
    (hstage : conn.stage = .greeted) {existing : Registered}
    (hr : s.registered conn.peer = some existing) :
    (((Links.close
      { s with reports := s.reports ++ [⟨conn.peer, existing.generation, existing.conn⟩] }
      existing.conn).setRegistered conn.peer
        (some ⟨c, conn.generation, conn.dialer⟩)).setStage c .received).Accounted := by
  have hne : existing.conn ≠ c := by
    rintro rfl
    have hreg : s.IsRegistered conn.peer existing.conn := Option.map_eq_some_iff.2 ⟨existing, hr, rfl⟩
    exact h.not_registered hc (by simp [hstage]) hreg
  have hperm : (s.reports ++ [(⟨conn.peer, existing.generation, existing.conn⟩ : Disconnected)] ++
      s.reporting).Perm
      (s.reports ++ s.reporting ++ [⟨conn.peer, existing.generation, existing.conn⟩]) := by
    rw [List.append_assoc, List.append_assoc]
    exact List.perm_append_comm.append_left _
  have hleft := (h.leave hr hperm).close existing.conn
  rw [← setRegistered_setRegistered _ _ none]
  refine hleft.enter ?_ hstage ?_ rfl rfl
  · refine (getElem?_close s existing.conn c).trans ?_
    rw [hc, Option.map_some, if_neg hne]
  · show (setRegistered _ conn.peer none).registered conn.peer = none
    rw [registered_setRegistered, if_pos rfl]

theorem Accounted.registerEnd (h : s.Accounted) (hc : s.conns[c]? = some conn)
    (hstage : conn.stage = .greeted)
    (hok : ∀ existing ∈ s.registered conn.peer, s.isClosed existing.conn = false) :
    (s.registerEnd c conn).Accounted := by
  rcases registerEnd_cases s c conn with ⟨hclosed, heq⟩ | ⟨existing, hr, heq⟩ | heq <;> rw [heq]
  · refine h.enter hc hstage ?_ rfl rfl
    rw [Option.eq_none_iff_forall_not_mem]
    intro existing hr
    have := hok existing hr
    rw [hclosed existing hr] at this
    cases this
  · exact h.replace hc hstage hr
  · have hget : (s.close c).conns[c]? = some { conn with isClosed := true } := by
      rw [getElem?_close, hc, Option.map_some, if_pos rfl]
    refine (h.close c).modify fun conn' hconn' => ?_
    rw [hget] at hconn'
    cases hconn'
    refine ⟨rfl, rfl, ?_, fun hreg => absurd hreg (h.not_registered hc (by simp [hstage]))⟩
    simp [Conn.Kept, hstage]

theorem Accounted.received (h : s.Accounted) (hc : s.conns[c]? = some conn)
    (hstage : conn.stage = .received) :
    ((s.unregister conn.peer c).setStage c .finished).Accounted := by
  refine (h.unregister conn.peer c).modify fun conn' hconn' => ?_
  have hconns : (s.unregister conn.peer c).conns = s.conns := by
    unfold Links.unregister
    repeat' split
    all_goals rfl
  rw [hconns, hc] at hconn'
  cases hconn'
  refine ⟨rfl, rfl, by simp [Conn.Kept, hstage], fun hreg => absurd hreg ?_⟩
  unfold Links.unregister IsRegistered
  cases hr : s.registered conn.peer with
  | none => simp [hr]
  | some r =>
    dsimp only
    split
    · simp
    · simpa [hr] using ‹_›

theorem Accounted.step (h : s.Accounted) (hok : s.ReplacesOpen e) (hs : s.step e = some s') :
    s'.Accounted := by
  cases e with
  | greeted peer generation dialer => cases hs; exact h.greeted rfl
  | register c =>
    obtain ⟨conn, hc, hs⟩ := Option.bind_eq_some_iff.1 hs
    split at hs
    · cases hs; exact h.registerEnd hc ‹_› (hok conn hc)
    · cases hs
  | close c => cases hs; exact h.close c
  | received c =>
    obtain ⟨conn, hc, hs⟩ := Option.bind_eq_some_iff.1 hs
    split at hs
    · rename_i hstage
      cases hs
      exact h.received hc hstage.1
    · cases hs
  | writeFailed node c => cases hs; exact h.unregister node c
  | forget node generation => cases hs; exact h.forget node generation
  | send i =>
    obtain ⟨report, hi, hs⟩ := Option.bind_eq_some_iff.1 hs
    cases hs
    exact h.send hi

/-! ## Runs -/

/-- Every lost connection is reported once in the runs in which no connection is registered in the
place of a closed one. -/
theorem reportedOnce_of_replacesOpen (h : (runs.guard ReplacesOpen).Reachable s) :
    s.ReportedOnce := by
  refine (h.guard_invariant (I := Accounted) ?_ fun s e s' hi hok hs => hi.step hok hs).reportedOnce
  rintro _ ⟨name, rfl⟩
  exact accounted_new name

/-- `b` restarts and dials `a` again, and the connection to its new incarnation breaks. -/
theorem reportedOnce_of_replacesOpen_restart : ∃ s, (runs.guard ReplacesOpen).Reachable s ∧
    s.reports = [⟨"b", 1, 0⟩, ⟨"b", 2, 1⟩] ∧ s.ReportedOnce := by
  obtain ⟨s, hs, h⟩ : ∃ s, (runs.guard ReplacesOpen).Reachable s ∧ _ :=
    Lts.exists_guard_reachable_of_exec (f := step)
      (p := fun s => s.reports = [⟨"b", 1, 0⟩, ⟨"b", 2, 1⟩]) (s := new "a") ⟨_, rfl⟩
      [.greeted "b" 1 "a", .register 0, .greeted "b" 2 "b", .register 1, .received 0, .close 1,
        .received 1, .send 0]
      (by decide +kernel)
  exact ⟨s, hs, h, reportedOnce_of_replacesOpen hs⟩

/-- The connection to `b` breaks, and `b` dials again before the task that receives on the first
connection finds it closed. -/
theorem not_reportedOnce : ¬ ∀ s, runs.Reachable s → s.ReportedOnce :=
  Lts.not_invariant_of_exec (s := new "a") ⟨_, rfl⟩
    [.greeted "b" 1 "a", .register 0, .close 0, .greeted "b" 1 "b", .register 1, .received 0]
    (by decide +kernel)

end Links

end Zestors
