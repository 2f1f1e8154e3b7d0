import Zestors.Lib.ListOrder
import Zestors.Messaging.Communication
import Zestors.Messaging.Frame

/-!
# The requests in a message

Messages that are serialized, each in the scope of its wire, while the requests in them are handed to the
node one by one; and what becomes of these requests where the message is sent and where it is not. A
message may be serialized while another one is, on the same thread or on others, and the table of
pending calls is shared.

Either the frame lists the requests of its message, and they stay in the table, or they are all taken out
again and whoever waits for them is told (`AllOrNothing`), in the runs in which the head of every
frame fits (`allOrNothing_of_frameFits`).
-/

namespace Zestors.Messaging
open Communication (callId)

/-- `cast_remote`, `try_cast_remote`, or a call of an operation. -/
inductive SendKind
  | cast
  | tryCast
  | call
deriving DecidableEq

/-- Where a send is: in `Wire::scope`, with the wire that was current before; with its frame on the way
into the lane, and the number of its call; or `Exports` is dropped, with what it has still to remove. -/
inductive ExportStage
  | encoding (thread : ℕ) (previous : Option ℕ)
  | inFlight (frame : Bytes) (call : Option ℕ)
  | enqueued (frame : Bytes)
  | committed (frame : Bytes)
  | rollingBack (left : List ℕ)
deriving DecidableEq

/-- A message on its way. `exported` has the numbers of its requests, of which their ids are made, and
`removed` those that the send has removed. -/
structure ExportSend where
  kind : SendKind
  node : NodeName
  target : Name
  msg : MessageId
  replies : Bool
  stage : ExportStage
  exported : List ℕ
  removed : List ℕ
deriving DecidableEq

/-- What a local waiter learns. -/
inductive Told
  | replied
  | noReply
deriving DecidableEq

/-- A request that was taken out of its `RemoteRequest`, in the message of `sender`, and its task. -/
structure ExportedRequest where
  slot : ℕ
  sender : ℕ
  number : ℕ
  answer : Option Answer
  told : Option Told

/-- The sends of a node. Each thread has its `current` wire and the messages that it is in the midst of
encoding; `emptied` are the `RemoteRequest`s with nothing in them, and `calls` the numbers of calls. -/
structure Exporting where
  pending : Pending
  drawn : ℕ
  current : ℕ → Option ℕ
  encodings : ℕ → List ℕ
  emptied : List ℕ
  sends : List ExportSend
  requests : List ExportedRequest
  calls : List ℕ

namespace Exporting

def new : Exporting := ⟨.empty, 0, fun _ => none, fun _ => [], [], [], [], []⟩

inductive Event
  | send (thread : ℕ) (kind : SendKind) (node : NodeName) (target : Name) (msg : MessageId)
    (replies : Bool)
  | serialize (thread slot : ℕ)
  /-- The message is encoded, or it cannot be. -/
  | encoded (thread : ℕ) (payload : Option Bytes)
  | enqueue (k : ℕ)
  /-- The lane is closed, or full. -/
  | refuse (k : ℕ)
  /-- The future of the send is dropped. -/
  | cancel (k : ℕ)
  | commit (k : ℕ)
  | remove (k : ℕ)
  /-- The task of a request goes on; `decodes` says whether it can decode the reply. -/
  | runTask (i : ℕ) (decodes : Bool)
  | timeout (i : ℕ)
  | insertCall (node : NodeName)
  | removeCall (r : ℕ)
  | reply (node : NodeName) (id : UInt64) (result : Except RemoteError Bytes)
  /-- The node or messaging is gone. -/
  | fail (id : UInt64)

variable {s s' : Exporting} {e : Event} {k i r thread slot : ℕ} {x : ExportSend}

/-- The entry of the number `r` is in the table. -/
def isPending (s : Exporting) (r : ℕ) : Bool :=
  (s.pending.get? (callId r)).any fun call => decide (call.reply = r)

def setStage (s : Exporting) (k : ℕ) (x : ExportSend) (stage : ExportStage) : Exporting :=
  { s with sends := s.sends.set k { x with stage := stage } }

/-- `Wire::export` with the wire of the send `w`, for a request in the message of `k`. -/
def exportRequest (s : Exporting) (w k slot : ℕ) : Option Exporting := do
  let x ← s.sends[w]?
  some { s with
    pending := s.pending.insert (callId s.drawn) x.node s.drawn
    drawn := s.drawn + 1
    emptied := s.emptied ++ [slot]
    sends := s.sends.set w { x with exported := x.exported ++ [s.drawn] }
    requests := s.requests ++ [⟨slot, k, s.drawn, none, none⟩] }

/-- The message that is being encoded. -/
def encoding (s : Exporting) (thread : ℕ) : Option ExportSend :=
  (s.encodings thread).head?.bind fun k => s.sends[k]?

/-- The number of the message's call, if it is one. -/
def callOf (s : Exporting) (x : ExportSend) : Option ℕ := if x.replies then some s.drawn else none

def frame (s : Exporting) (x : ExportSend) (payload : Bytes) : Frame :=
  .message ((s.callOf x).map callId) x.target x.msg (x.exported.map callId) payload

/-- The rest of `prepare`. -/
def prepare (s : Exporting) (k : ℕ) (x : ExportSend) (payload : Bytes) : Exporting :=
  let call := s.callOf x
  let frame := (s.frame x payload).encode
  let s' := { s with drawn := s.drawn + call.toList.length }
  if maxMessageSize < frame.length then s'.setStage k x (.rollingBack x.exported)
  else { s'.setStage k x (.inFlight frame call) with
    pending := call.elim s.pending fun r => s.pending.insert (callId r) x.node r
    calls := s.calls ++ call.toList }

/-- `Wire::scope` ends. -/
def leaveScope (s : Exporting) (thread : ℕ) (previous : Option ℕ) (rest : List ℕ) : Exporting :=
  { s with
    current := Function.update s.current thread previous
    encodings := Function.update s.encodings thread rest }

/-- The message is not sent: its call is not waited for, and `Exports` is dropped. -/
def giveUp (s : Exporting) (k : ℕ) (x : ExportSend) (call : Option ℕ) : Exporting :=
  { s.setStage k x (.rollingBack x.exported) with
    pending := call.elim s.pending fun r => s.pending.remove (callId r) }

def tell (s : Exporting) (i : ℕ) (q : ExportedRequest) (told : Told) : Exporting :=
  { s with requests := s.requests.set i { q with told := some told } }

/-- The answer goes to the channel of the number `r`. -/
def answer (s : Exporting) (r : ℕ) (answer : Answer) : Exporting :=
  { s with requests := s.requests.map fun q =>
      if q.number = r then { q with answer := some answer } else q }

/-- The channel of the request has an answer, or nobody can send one any more. -/
def isReady (s : Exporting) (q : ExportedRequest) : Bool := q.answer.isSome || !s.isPending q.number

def step (s : Exporting) : Event → Option Exporting
  | .send thread kind node target msg replies => some { s with
      current := Function.update s.current thread (some s.sends.length)
      encodings := Function.update s.encodings thread (s.sends.length :: s.encodings thread)
      sends := s.sends ++
        [⟨kind, node, target, msg, replies, .encoding thread (s.current thread), [], []⟩] }
  | .serialize thread slot =>
    match s.encodings thread, s.current thread with
    -- nothing is being sent, or it was sent already: an error
    | [], _ | _ :: _, none => some s
    | k :: _, some w => if slot ∈ s.emptied then some s else s.exportRequest w k slot
  | .encoded thread payload =>
    match s.encodings thread with
    | [] => none
    | k :: rest => do
      let x ← s.sends[k]?
      match x.stage, payload with
      | .encoding _ previous, none =>
        some ((s.leaveScope thread previous rest).setStage k x (.rollingBack x.exported))
      | .encoding _ previous, some payload =>
        some ((s.leaveScope thread previous rest).prepare k x payload)
      | _, _ => none
  | .enqueue k => do
    let x ← s.sends[k]?
    match x.stage with
    | .inFlight frame _ => some (s.setStage k x (.enqueued frame))
    | _ => none
  | .refuse k => do
    let x ← s.sends[k]?
    match x.stage with
    | .inFlight _ call => some (s.giveUp k x call)
    | _ => none
  | .cancel k => do
    let x ← s.sends[k]?
    match x.stage, x.kind with
    | .inFlight _ call, .cast | .inFlight _ call, .call => some (s.giveUp k x call)
    | _, _ => none
  | .commit k => do
    let x ← s.sends[k]?
    match x.stage with
    | .enqueued frame => some (s.setStage k x (.committed frame))
    | _ => none
  | .remove k => do
    let x ← s.sends[k]?
    match x.stage with
    | .rollingBack (r :: left) => some { s with
        pending := s.pending.remove (callId r)
        sends := s.sends.set k { x with stage := .rollingBack left, removed := x.removed ++ [r] } }
    | _ => none
  | .runTask i decodes => do
    let q ← s.requests[i]?
    match q.told, q.answer with
    | none, some (.ok _) => some (s.tell i q (if decodes then .replied else .noReply))
    | none, some (.error _) => some (s.tell i q .noReply)
    | none, none => if s.isPending q.number then none else some (s.tell i q .noReply)
    | some _, _ => none
  | .timeout i => do
    let q ← s.requests[i]?
    -- the answer may come at the same time
    if q.told = none then
      some { s.tell i q .noReply with pending := s.pending.remove (callId q.number) }
    else none
  | .insertCall node => some { s with
      pending := s.pending.insert (callId s.drawn) node s.drawn
      drawn := s.drawn + 1
      calls := s.calls ++ [s.drawn] }
  | .removeCall r =>
    if r ∈ s.calls then some { s with pending := s.pending.remove (callId r) } else none
  | .reply node id result =>
    let completed := s.pending.complete node id result
    some (completed.2.elim { s with pending := completed.1 } fun (r, result) =>
      { s with pending := completed.1 }.answer r result)
  | .fail id => do
    let call ← s.pending.get? id
    some ({ s with pending := s.pending.remove id }.answer call.reply (.error .disconnected))

/-- Every interleaving of the sends, on any number of threads, with the tasks of the requests and with the
rest of messaging. -/
def runs : Lts Exporting Event := Lts.ofFun (fun s => s = new) step

/-- The requests that were taken out in the message `k`. -/
def embedded (s : Exporting) (k : ℕ) : List ExportedRequest := s.requests.filter (·.sender = k)

/-- No task can go on by itself. -/
def Settled (s : Exporting) : Prop := ∀ q ∈ s.requests, q.told = none → s.isReady q = false

/-- A frame in the lane lists the requests of its message, none of which was removed. After a message
that was not sent none of its requests is in the table, and all who waited are told so, unless the node
had answered. -/
structure AllOrNothing (s : Exporting) : Prop where
  enqueued : ∀ (k : ℕ) (x : ExportSend) (frame : Bytes), s.sends[k]? = some x →
    x.stage = .enqueued frame ∨ x.stage = .committed frame → x.removed = [] ∧
      ∃ callId' payload, Frame.decode frame = some (.message callId' x.target x.msg
        ((s.embedded k).map fun q => callId q.number) payload)
  rolledBack : ∀ (k : ℕ) (x : ExportSend), s.sends[k]? = some x → x.stage = .rollingBack [] →
    ∀ q ∈ s.embedded k, s.isPending q.number = false ∧ (s.Settled → q.told ≠ none) ∧
      (q.told = some .replied → q.answer ≠ none)
  /-- What was taken out has its one task. -/
  tasks : s.emptied = s.requests.map (·.slot) ∧ s.emptied.Nodup

/-- The name and the requests fit into the head of the frame, or the frame is too large to be sent. -/
def FrameFits (s : Exporting) : Event → Prop
  | .encoded thread (some payload) => ∀ x ∈ s.encoding thread,
    (utf8Bytes x.target.val).length < 65536 ∧ x.exported.length < 65536 ∨
      maxMessageSize < (s.frame x payload).encode.length
  | _ => True

instance (s : Exporting) (e : Event) : Decidable (s.FrameFits e) :=
  match e with
  | .encoded thread (some _) => inferInstanceAs (Decidable (∀ x ∈ s.encoding thread, _))
  | .encoded _ none | .send _ _ _ _ _ _ | .serialize _ _ | .enqueue _ | .refuse _ | .cancel _ | .commit _
  | .remove _ | .runTask _ _ | .timeout _ | .insertCall _ | .removeCall _ | .reply _ _ _ | .fail _ =>
    .isTrue trivial

end Exporting

/-! ## Entries -/

/-- The table has the entry of the number `r`. -/
def Holds (p : Pending) (r : ℕ) : Prop := ∃ call, p.get? (callId r) = some call ∧ call.reply = r

section Entries
variable {p : Pending} {r n : ℕ} {id : UInt64}

theorem holds_of_remove (h : Holds (p.remove id) r) : Holds p r := by
  obtain ⟨call, hget, hreply⟩ := h
  exact ⟨call, Pending.get?_of_remove hget, hreply⟩

theorem not_holds_remove : ¬ Holds (p.remove (callId r)) r := by
  rintro ⟨call, hget, -⟩
  rw [Pending.get?_remove, if_pos rfl] at hget
  cases hget

theorem holds_of_insert {node : NodeName} (hne : r ≠ n) (h : Holds (p.insert (callId n) node n) r) :
    Holds p r := by
  obtain ⟨call, hget, hreply⟩ := h
  rw [Pending.get?_insert] at hget
  split at hget
  · cases hget
    exact absurd hreply.symm hne
  · exact ⟨call, hget, hreply⟩

theorem holds_of_complete {node : NodeName} {result : Except RemoteError Bytes}
    (h : Holds (p.complete node id result).1 r) : Holds p r := by
  obtain ⟨call, hget, hreply⟩ := h
  exact ⟨call, Pending.get?_complete hget, hreply⟩

end Entries

namespace ExportedRequest

/-- What a task does not change of its request. -/
def core (q : ExportedRequest) : ℕ × ℕ × ℕ := (q.slot, q.sender, q.number)

end ExportedRequest

namespace Exporting
variable {s s' : Exporting} {e : Event} {k i r thread slot : ℕ} {x : ExportSend}

theorem isPending_eq_false : s.isPending r = false ↔ ¬ Holds s.pending r := by
  rw [← Bool.not_eq_true, not_iff_not, isPending, Option.any_eq_true]
  simp only [Holds, decide_eq_true_eq]

/-! ## The invariant -/

/-- What a send has done by its stage. -/
def Tracks (s : Exporting) (x : ExportSend) : ExportStage → Prop
  | .encoding _ _ => x.removed = []
  | .inFlight frame _ | .enqueued frame | .committed frame => x.removed = [] ∧
    ∃ callId' payload,
      Frame.decode frame = some (.message callId' x.target x.msg (x.exported.map callId) payload)
  | .rollingBack left => ∀ r ∈ x.exported, r ∈ left ∨ ¬ Holds s.pending r

structure Whole (s : Exporting) : Prop where
  current : ∀ thread, s.current thread = (s.encodings thread).head?
  scopes : ∀ (thread k : ℕ) (rest : List ℕ), k :: rest <:+ s.encodings thread →
    ∃ x, s.sends[k]? = some x ∧ x.stage = .encoding thread rest.head?
  nodup : ∀ thread, (s.encodings thread).Nodup
  exported : ∀ (k : ℕ) (x : ExportSend), s.sends[k]? = some x →
    (s.embedded k).map (·.number) = x.exported
  tracks : ∀ (k : ℕ) (x : ExportSend), s.sends[k]? = some x → s.Tracks x x.stage
  lt : ∀ q ∈ s.requests, q.number < s.drawn ∧ q.sender < s.sends.length
  emptied : s.emptied = s.requests.map (·.slot) ∧ s.emptied.Nodup
  answered : ∀ q ∈ s.requests, q.told = some .replied → q.answer ≠ none

theorem whole_new : new.Whole where
  current _ := rfl
  scopes _ _ _ hsuffix := by cases List.eq_nil_of_suffix_nil hsuffix
  nodup _ := List.nodup_nil
  exported _ _ hx := by cases hx
  tracks _ _ hx := by cases hx
  lt _ hq := by cases hq
  emptied := ⟨rfl, List.nodup_nil⟩
  answered _ hq := by cases hq

theorem Whole.allOrNothing (h : s.Whole) : s.AllOrNothing where
  enqueued k x frame hx hstage := by
    have htracks := h.tracks k x hx
    have hmap : (s.embedded k).map (fun q => callId q.number) = x.exported.map callId := by
      rw [← h.exported k x hx, List.map_map]
      rfl
    rw [hmap]
    rcases hstage with hstage | hstage
    · rw [hstage] at htracks
      exact htracks
    · rw [hstage] at htracks
      exact htracks
  rolledBack k x hx hstage q hq := by
    have htracks := h.tracks k x hx
    rw [hstage] at htracks
    have hmem : q.number ∈ x.exported := by
      rw [← h.exported k x hx]
      exact List.mem_map_of_mem hq
    have hgone := isPending_eq_false.2 ((htracks _ hmem).resolve_left List.not_mem_nil)
    have hrequest : q ∈ s.requests := List.mem_of_mem_filter hq
    refine ⟨hgone, fun hsettled hnone => ?_, h.answered q hrequest⟩
    have hready := hsettled q hrequest hnone
    unfold isReady at hready
    rw [hgone, Bool.not_false, Bool.or_true] at hready
    cases hready
  tasks := h.emptied

theorem Whole.exported_lt (h : s.Whole) (hx : s.sends[k]? = some x) (hr : r ∈ x.exported) :
    r < s.drawn := by
  rw [← h.exported k x hx] at hr
  obtain ⟨q, hq, rfl⟩ := List.mem_map.1 hr
  exact (h.lt q (List.mem_of_mem_filter hq)).1

/-- A message that is being encoded is in the midst of it on its own thread. -/
theorem Whole.notMem_encodings (h : s.Whole) (hx : s.sends[k]? = some x)
    (hstage : ∀ previous, x.stage ≠ .encoding thread previous) : k ∉ s.encodings thread := by
  intro hmem
  obtain ⟨before, rest, heq⟩ := List.append_of_mem hmem
  obtain ⟨x', hx', hencoding⟩ := h.scopes thread k rest ⟨before, heq.symm⟩
  rw [hx] at hx'
  cases hx'
  exact hstage _ hencoding

theorem Tracks.mono {stage : ExportStage} (h : s.Tracks x stage)
    (hfade : ∀ r ∈ x.exported, Holds s'.pending r → Holds s.pending r) : s'.Tracks x stage := by
  cases stage with
  | encoding thread previous => exact h
  | inFlight frame call | enqueued frame | committed frame => exact h
  | rollingBack left =>
    intro r hr
    exact (h r hr).imp_right fun hnot hholds => hnot (hfade r hr hholds)

theorem Whole.table (h : s.Whole) {pending : Pending} {drawn : ℕ} {calls : List ℕ}
    (hle : s.drawn ≤ drawn) (hfade : ∀ r < s.drawn, Holds pending r → Holds s.pending r) :
    Whole { s with pending := pending, drawn := drawn, calls := calls } where
  current := h.current
  scopes := h.scopes
  nodup := h.nodup
  exported := h.exported
  tracks k x hx := (h.tracks k x hx).mono fun r hr => hfade r (h.exported_lt hx hr)
  lt q hq := ⟨Nat.lt_of_lt_of_le (h.lt q hq).1 hle, (h.lt q hq).2⟩
  emptied := h.emptied
  answered := h.answered

theorem sends_of_set (hx : s.sends[k]? = some x) {x' y : ExportSend} {k' : ℕ}
    (hy : (s.sends.set k x')[k']? = some y) : k' = k ∧ y = x' ∨ k' ≠ k ∧ s.sends[k']? = some y := by
  rw [List.getElem?_set_of_getElem? hx] at hy
  split at hy
  · rename_i hk
    exact .inl ⟨hk.symm, (Option.some.inj hy).symm⟩
  · rename_i hk
    exact .inr ⟨Ne.symm hk, hy⟩

theorem Whole.setSend (h : s.Whole) (hx : s.sends[k]? = some x)
    (hout : ∀ thread, k ∉ s.encodings thread) {x' : ExportSend} (hexported : x'.exported = x.exported)
    (htracks : s.Tracks x' x'.stage) : Whole { s with sends := s.sends.set k x' } := by
  refine ⟨h.current, fun thread k' rest hsuffix => ?_, h.nodup, fun k' y hy => ?_, fun k' y hy => ?_,
    fun q hq => ?_, h.emptied, h.answered⟩
  · have hne : k ≠ k' := by
      rintro rfl
      exact hout thread (hsuffix.subset List.mem_cons_self)
    obtain ⟨y, hy, hstage⟩ := h.scopes thread k' rest hsuffix
    exact ⟨y, (List.getElem?_set_ne hne).trans hy, hstage⟩
  · rcases sends_of_set hx hy with ⟨rfl, rfl⟩ | ⟨-, hy⟩
    · exact (h.exported _ x hx).trans hexported.symm
    · exact h.exported k' y hy
  · rcases sends_of_set hx hy with ⟨rfl, rfl⟩ | ⟨-, hy⟩
    · exact htracks
    · exact h.tracks k' y hy
  · rw [List.length_set]
    exact h.lt q hq

theorem numbers_embedded (requests : List ExportedRequest) (k : ℕ) :
    (requests.filter (·.sender = k)).map (·.number) =
      ((requests.map (·.core)).filter (·.2.1 = k)).map (·.2.2) := by
  rw [List.filter_map, List.map_map]
  rfl

theorem Whole.retell (h : s.Whole) {requests : List ExportedRequest}
    (hcore : requests.map (·.core) = s.requests.map (·.core))
    (hanswered : ∀ q ∈ requests, q.told = some .replied → q.answer ≠ none) :
    Whole { s with requests := requests } where
  current := h.current
  scopes := h.scopes
  nodup := h.nodup
  exported k x hx := by
    have hsame : (requests.filter (·.sender = k)).map (·.number) = (s.embedded k).map (·.number) := by
      rw [embedded, numbers_embedded, numbers_embedded, hcore]
    exact hsame.trans (h.exported k x hx)
  tracks k x hx := (h.tracks k x hx).mono fun _ _ hholds => hholds
  lt q hq := by
    have hmem : q.core ∈ s.requests.map (·.core) := hcore ▸ List.mem_map_of_mem hq
    obtain ⟨q', hq', heq⟩ := List.mem_map.1 hmem
    have hlt := h.lt q' hq'
    have hnumber : q'.number = q.number := congrArg (·.2.2) heq
    have hsender : q'.sender = q.sender := congrArg (·.2.1) heq
    rwa [hnumber, hsender] at hlt
  emptied := by
    have hslots : requests.map (·.slot) = s.requests.map (·.slot) := by
      have hfst := congrArg (List.map (·.1)) hcore
      rwa [List.map_map, List.map_map] at hfst
    exact ⟨h.emptied.1.trans hslots.symm, h.emptied.2⟩
  answered := hanswered

theorem Whole.tell (h : s.Whole) {q : ExportedRequest} (hq : s.requests[i]? = some q) {told : Told}
    (htold : told = .replied → q.answer ≠ none) : (s.tell i q told).Whole := by
  refine h.retell ?_ fun q' hq' hreplied => ?_
  · obtain ⟨hlt, rfl⟩ := List.getElem?_eq_some_iff.1 hq
    rw [List.map_set]
    refine List.ext_getElem? fun j => ?_
    by_cases hj : j = i
    · subst hj
      rw [List.getElem?_set_self (by rwa [List.length_map]), List.getElem?_map,
        List.getElem?_eq_getElem hlt]
      rfl
    · rw [List.getElem?_set_ne (Ne.symm hj)]
  · rcases List.mem_or_eq_of_mem_set hq' with hq' | rfl
    · exact h.answered q' hq' hreplied
    · exact htold (Option.some.inj hreplied)

theorem Whole.answer (h : s.Whole) (r : ℕ) (answer : Answer) : (s.answer r answer).Whole := by
  refine h.retell ?_ fun q' hq' hreplied => ?_
  · rw [List.map_map]
    refine List.map_congr_left fun q _ => ?_
    by_cases hr : q.number = r
    · show ExportedRequest.core (if q.number = r then _ else _) = _
      rw [if_pos hr]
      rfl
    · show ExportedRequest.core (if q.number = r then _ else _) = _
      rw [if_neg hr]
  · obtain ⟨q, hq, rfl⟩ := List.mem_map.1 hq'
    by_cases hr : q.number = r
    · rw [if_pos hr]
      exact Option.some_ne_none answer
    · rw [if_neg hr] at hreplied ⊢
      exact h.answered q hq hreplied

/-! ## Steps -/

theorem Whole.encoding_eq (h : s.Whole) {rest : List ℕ} (hk : s.encodings thread = k :: rest) :
    s.current thread = some k ∧ ∃ x, s.sends[k]? = some x ∧ x.stage = .encoding thread rest.head? := by
  refine ⟨?_, h.scopes thread k rest (hk ▸ List.suffix_rfl)⟩
  rw [h.current, hk]
  rfl

theorem Whole.encodings_lt (h : s.Whole) (hk : k ∈ s.encodings thread) : k < s.sends.length := by
  by_contra hnot
  have hnone : s.sends[k]? = none := List.getElem?_eq_none (by omega)
  obtain ⟨before, rest, heq⟩ := List.append_of_mem hk
  obtain ⟨x, hx, -⟩ := h.scopes thread k rest ⟨before, heq.symm⟩
  rw [hnone] at hx
  cases hx

theorem Whole.scope_append (h : s.Whole) {rest : List ℕ} (hsuffix : k :: rest <:+ s.encodings thread)
    (x' : ExportSend) :
    ∃ x, (s.sends ++ [x'])[k]? = some x ∧ x.stage = .encoding thread rest.head? := by
  obtain ⟨x, hx, hstage⟩ := h.scopes thread k rest hsuffix
  exact ⟨x, List.getElem?_concat_eq_some.2 (.inl hx), hstage⟩

theorem Whole.embedded_length (h : s.Whole) : s.embedded s.sends.length = [] := by
  refine List.filter_eq_nil_iff.2 fun q hq hsender => ?_
  have hlt := (h.lt q hq).2
  have heq : q.sender = s.sends.length := of_decide_eq_true hsender
  omega

theorem Whole.send (h : s.Whole) (kind : SendKind) (node : NodeName) (target : Name) (msg : MessageId)
    (replies : Bool) (hs : s.step (.send thread kind node target msg replies) = some s') :
    s'.Whole := by
  cases hs
  refine ⟨fun t => ?_, fun t k' rest hsuffix => ?_, ?_, fun k' y hy => ?_, fun k' y hy => ?_,
    fun q hq => ?_, h.emptied, h.answered⟩
  · show Function.update s.current thread (some s.sends.length) t =
      (Function.update s.encodings thread (s.sends.length :: s.encodings thread) t).head?
    by_cases ht : t = thread
    · subst ht
      rw [Function.update_self, Function.update_self]
      rfl
    · rw [Function.update_of_ne ht, Function.update_of_ne ht]
      exact h.current t
  · have hsuffix : k' :: rest <:+
        Function.update s.encodings thread (s.sends.length :: s.encodings thread) t := hsuffix
    by_cases ht : t = thread
    · subst ht
      rw [Function.update_self] at hsuffix
      rcases List.suffix_cons_iff.1 hsuffix with heq | hsuffix
      · cases heq
        exact ⟨_, List.getElem?_concat_length, by rw [h.current]⟩
      · exact h.scope_append hsuffix _
    · rw [Function.update_of_ne ht] at hsuffix
      exact h.scope_append hsuffix _
  · refine (Function.forall_update_iff s.encodings fun _ stack => stack.Nodup).2
      ⟨List.nodup_cons.2 ⟨fun hmem => ?_, h.nodup thread⟩, fun t _ => h.nodup t⟩
    exact Nat.lt_irrefl _ (h.encodings_lt hmem)
  · rcases List.getElem?_concat_eq_some.1 hy with hy | ⟨rfl, rfl⟩
    · exact h.exported k' y hy
    · show (s.embedded s.sends.length).map _ = []
      rw [h.embedded_length, List.map_nil]
  · rcases List.getElem?_concat_eq_some.1 hy with hy | ⟨rfl, rfl⟩
    · exact (h.tracks k' y hy).mono fun _ _ hholds => hholds
    · rfl
  · have hlt := h.lt q hq
    refine ⟨hlt.1, ?_⟩
    show q.sender < (s.sends ++ [_]).length
    rw [List.length_append]
    omega

theorem Whole.exportRequest (h : s.Whole) (hx : s.sends[k]? = some x) {previous : Option ℕ}
    (hstage : x.stage = .encoding thread previous) (hslot : slot ∉ s.emptied)
    (hs : s.exportRequest k k slot = some s') : s'.Whole := by
  obtain ⟨x', hx', hs⟩ := Option.bind_eq_some_iff.1 hs
  rw [hx] at hx'
  cases hx'
  cases hs
  have hlt := (List.getElem?_eq_some_iff.1 hx).1
  refine ⟨h.current, fun t k' rest hsuffix => ?_, h.nodup, fun k' y hy => ?_, fun k' y hy => ?_,
    fun q hq => ?_, ⟨?_, ?_⟩, fun q hq hreplied => ?_⟩
  · obtain ⟨y, hy, hscope⟩ := h.scopes t k' rest hsuffix
    by_cases hk : k = k'
    · subst hk
      rw [hx] at hy
      cases hy
      exact ⟨_, List.getElem?_set_self hlt, hscope⟩
    · exact ⟨y, (List.getElem?_set_ne hk).trans hy, hscope⟩
  · show (List.filter _ (s.requests ++ [_])).map ExportedRequest.number = _
    rw [List.filter_append, List.map_append]
    rcases sends_of_set hx hy with ⟨rfl, rfl⟩ | ⟨hne, hy⟩
    · rw [List.filter_cons_of_pos (by simp), List.filter_nil]
      exact congrArg (· ++ [s.drawn]) (h.exported _ x hx)
    · rw [List.filter_cons_of_neg (by simpa using Ne.symm hne), List.filter_nil, List.map_nil,
        List.append_nil]
      exact h.exported k' y hy
  · rcases sends_of_set hx hy with ⟨rfl, rfl⟩ | ⟨-, hy⟩
    · have htracks := h.tracks _ x hx
      rw [hstage] at htracks
      show Tracks _ _ x.stage
      rw [hstage]
      exact htracks
    · exact (h.tracks k' y hy).mono fun r hr hholds =>
        holds_of_insert (Nat.ne_of_lt (h.exported_lt hy hr)) hholds
  · show q.number < s.drawn + 1 ∧ q.sender < (s.sends.set k _).length
    rw [List.length_set]
    rcases List.mem_append.1 hq with hq | hq
    · have hbefore := h.lt q hq
      exact ⟨by omega, hbefore.2⟩
    · obtain rfl := List.mem_singleton.1 hq
      exact ⟨Nat.lt_succ_self _, hlt⟩
  · show s.emptied ++ [slot] = (s.requests ++ [_]).map ExportedRequest.slot
    rw [List.map_append, h.emptied.1]
    rfl
  · refine List.nodup_append.2 ⟨h.emptied.2, List.nodup_singleton slot, fun a ha b hb => ?_⟩
    obtain rfl := List.mem_singleton.1 hb
    rintro rfl
    exact hslot ha
  · rcases List.mem_append.1 hq with hq | hq
    · exact h.answered q hq hreplied
    · obtain rfl := List.mem_singleton.1 hq
      cases hreplied

theorem Whole.serialize (h : s.Whole) (hs : s.step (.serialize thread slot) = some s') : s'.Whole := by
  simp only [Exporting.step] at hs
  split at hs
  · cases hs
    exact h
  · cases hs
    exact h
  · rename_i k rest w hk hw
    obtain ⟨hcurrent, x, hx, hstage⟩ := h.encoding_eq hk
    rw [hcurrent] at hw
    cases hw
    split at hs
    · cases hs
      exact h
    · rename_i hslot
      exact h.exportRequest hx hstage hslot hs

theorem Whole.leaveScope (h : s.Whole) {rest : List ℕ} (hk : s.encodings thread = k :: rest) :
    (s.leaveScope thread rest.head? rest).Whole := by
  refine ⟨fun t => ?_, ?_, ?_, h.exported, fun k' y hy => ?_, h.lt, h.emptied, h.answered⟩
  · show Function.update s.current thread rest.head? t =
      (Function.update s.encodings thread rest t).head?
    by_cases ht : t = thread
    · subst ht
      rw [Function.update_self, Function.update_self]
    · rw [Function.update_of_ne ht, Function.update_of_ne ht]
      exact h.current t
  · refine (Function.forall_update_iff s.encodings fun t stack => ∀ k' rest', k' :: rest' <:+ stack →
      ∃ x, s.sends[k']? = some x ∧ x.stage = .encoding t rest'.head?).2 ⟨?_, fun t _ => h.scopes t⟩
    intro k' rest' hsuffix
    exact h.scopes thread k' rest' (hk ▸ hsuffix.trans (List.suffix_cons k rest))
  · refine (Function.forall_update_iff s.encodings fun _ stack => stack.Nodup).2
      ⟨?_, fun t _ => h.nodup t⟩
    exact (List.nodup_cons.1 (hk ▸ h.nodup thread)).2
  · exact (h.tracks k' y hy).mono fun _ _ hholds => hholds

theorem Whole.notMem_leaveScope (h : s.Whole) {rest : List ℕ} (hk : s.encodings thread = k :: rest)
    (t : ℕ) : k ∉ (s.leaveScope thread rest.head? rest).encodings t := by
  refine (Function.forall_update_iff s.encodings fun _ stack => k ∉ stack).2
    ⟨(List.nodup_cons.1 (hk ▸ h.nodup thread)).1, fun t ht => ?_⟩ t
  obtain ⟨-, x, hx, hstage⟩ := h.encoding_eq hk
  refine h.notMem_encodings hx fun previous hother => ht ?_
  rw [hstage] at hother
  cases hother
  rfl

theorem holds_of_expect {call : Option ℕ} {node : NodeName} (hcall : ∀ n ∈ call, r ≠ n)
    (h : Holds (call.elim s.pending fun n => s.pending.insert (callId n) node n) r) :
    Holds s.pending r := by
  cases call with
  | none => exact h
  | some n => exact holds_of_insert (hcall n rfl) h

theorem Whole.prepare (h : s.Whole) (hx : s.sends[k]? = some x) (hout : ∀ t, k ∉ s.encodings t)
    (hremoved : x.removed = []) {payload : Bytes}
    (hfits : (utf8Bytes x.target.val).length < 65536 ∧ x.exported.length < 65536 ∨
      maxMessageSize < (s.frame x payload).encode.length) : (s.prepare k x payload).Whole := by
  have hcall : ∀ n ∈ s.callOf x, n = s.drawn := by
    intro n hn
    unfold callOf at hn
    split at hn
    · exact (Option.some.inj hn).symm
    · cases hn
  unfold Exporting.prepare
  dsimp only
  by_cases hlarge : maxMessageSize < (s.frame x payload).encode.length
  · rw [if_pos hlarge]
    have hset : Whole (s.setStage k x (.rollingBack x.exported)) :=
      h.setSend hx hout rfl fun r hr => .inl hr
    exact hset.table (Nat.le_add_right _ _) fun r _ hholds => hholds
  · rw [if_neg hlarge]
    have hname : (s.frame x payload).Fits := by
      refine ⟨(hfits.resolve_right hlarge).1, ?_⟩
      rw [List.length_map]
      exact (hfits.resolve_right hlarge).2
    have hset : Whole (s.setStage k x (.inFlight (s.frame x payload).encode (s.callOf x))) :=
      h.setSend hx hout rfl ⟨hremoved, _, payload, Frame.decode_encode hname⟩
    refine hset.table (Nat.le_add_right _ _) fun r hr hholds => holds_of_expect (fun n hn => ?_) hholds
    have hlt : r < s.drawn := hr
    have hdrawn := hcall n hn
    omega

theorem Whole.encoded (h : s.Whole) {payload : Option Bytes} (hok : s.FrameFits (.encoded thread payload))
    (hs : s.step (.encoded thread payload) = some s') : s'.Whole := by
  simp only [Exporting.step] at hs
  split at hs
  · cases hs
  · rename_i k rest hk
    obtain ⟨-, x, hx, hstage⟩ := h.encoding_eq hk
    obtain ⟨x', hx', hs⟩ := Option.bind_eq_some_iff.1 hs
    rw [hx] at hx'
    cases hx'
    have htracks := h.tracks k x hx
    rw [hstage] at hs htracks
    have hleft := h.leaveScope hk
    have hout := h.notMem_leaveScope hk
    cases payload with
    | none =>
      cases hs
      exact hleft.setSend hx hout rfl fun r hr => .inl hr
    | some payload =>
      cases hs
      refine hleft.prepare hx hout htracks (hok x ?_)
      rw [encoding, hk]
      exact hx

theorem Whole.setStage (h : s.Whole) (hx : s.sends[k]? = some x) {stage stage' : ExportStage}
    (hstage : x.stage = stage) (hne : ∀ t previous, stage ≠ .encoding t previous)
    (htracks : s.Tracks x stage → s.Tracks x stage') : (s.setStage k x stage').Whole := by
  refine h.setSend hx (fun t => h.notMem_encodings hx ?_) rfl (htracks (hstage ▸ h.tracks k x hx))
  intro previous
  rw [hstage]
  exact hne t previous

theorem Whole.giveUp (h : s.Whole) (hx : s.sends[k]? = some x) {frame : Bytes} {call : Option ℕ}
    (hstage : x.stage = .inFlight frame call) : (s.giveUp k x call).Whole := by
  have hset : Whole (s.setStage k x (.rollingBack x.exported)) :=
    h.setStage hx hstage (by simp) fun _ r hr => .inl hr
  refine hset.table (Nat.le_refl _) fun r _ hholds => ?_
  cases call with
  | none => exact hholds
  | some n => exact holds_of_remove hholds

theorem Whole.remove (h : s.Whole) (hs : s.step (.remove k) = some s') : s'.Whole := by
  obtain ⟨x, hx, hs⟩ := Option.bind_eq_some_iff.1 hs
  split at hs
  · rename_i r left hstage
    cases hs
    have htable : Whole { s with pending := s.pending.remove (callId r) } :=
      h.table (Nat.le_refl _) fun _ _ hholds => holds_of_remove hholds
    have htracks := h.tracks k x hx
    rw [hstage] at htracks
    refine htable.setSend hx (fun t => h.notMem_encodings hx ?_) rfl fun r' hr' => ?_
    · intro previous hencoding
      rw [hstage] at hencoding
      cases hencoding
    · rcases htracks r' hr' with hmem | hnot
      · rcases List.mem_cons.1 hmem with rfl | hmem
        · exact .inr not_holds_remove
        · exact .inl hmem
      · exact .inr fun hholds => hnot (holds_of_remove hholds)
  · cases hs

theorem Whole.runTask (h : s.Whole) {decodes : Bool} (hs : s.step (.runTask i decodes) = some s') :
    s'.Whole := by
  obtain ⟨q, hq, hs⟩ := Option.bind_eq_some_iff.1 hs
  split at hs
  · rename_i hanswer
    cases hs
    refine h.tell hq fun _ => ?_
    rw [hanswer]
    exact Option.some_ne_none _
  · cases hs
    exact h.tell hq fun hreplied => by cases hreplied
  · split at hs
    · cases hs
    · cases hs
      exact h.tell hq fun hreplied => by cases hreplied
  · cases hs

theorem Whole.timeout (h : s.Whole) (hs : s.step (.timeout i) = some s') : s'.Whole := by
  obtain ⟨q, hq, hs⟩ := Option.bind_eq_some_iff.1 hs
  dsimp only at hs
  split at hs
  · cases hs
    have htell : (s.tell i q .noReply).Whole := h.tell hq fun hreplied => by cases hreplied
    exact htell.table (Nat.le_refl _) fun _ _ hholds => holds_of_remove hholds
  · cases hs

theorem Whole.reply (h : s.Whole) (node : NodeName) (id : UInt64) (result : Except RemoteError Bytes)
    (hs : s.step (.reply node id result) = some s') : s'.Whole := by
  have htable : Whole { s with pending := (s.pending.complete node id result).1 } :=
    h.table (Nat.le_refl _) fun _ _ hholds => holds_of_complete hholds
  simp only [Exporting.step, Option.some.injEq] at hs
  subst hs
  cases (s.pending.complete node id result).2 with
  | none => exact htable
  | some answered => exact htable.answer answered.1 answered.2

theorem Whole.step (h : s.Whole) (hok : s.FrameFits e) (hs : s.step e = some s') : s'.Whole := by
  cases e with
  | send thread kind node target msg replies => exact h.send kind node target msg replies hs
  | serialize thread slot => exact h.serialize hs
  | encoded thread payload => exact h.encoded hok hs
  | enqueue k =>
    obtain ⟨x, hx, hs⟩ := Option.bind_eq_some_iff.1 hs
    split at hs
    · rename_i hstage
      cases hs
      exact h.setStage hx hstage (by simp) fun htracks => htracks
    · cases hs
  | refuse k =>
    obtain ⟨x, hx, hs⟩ := Option.bind_eq_some_iff.1 hs
    split at hs
    · rename_i hstage
      cases hs
      exact h.giveUp hx hstage
    · cases hs
  | cancel k =>
    obtain ⟨x, hx, hs⟩ := Option.bind_eq_some_iff.1 hs
    split at hs
    · rename_i hstage _
      cases hs
      exact h.giveUp hx hstage
    · rename_i hstage _
      cases hs
      exact h.giveUp hx hstage
    · cases hs
  | commit k =>
    obtain ⟨x, hx, hs⟩ := Option.bind_eq_some_iff.1 hs
    split at hs
    · rename_i hstage
      cases hs
      exact h.setStage hx hstage (by simp) fun htracks => htracks
    · cases hs
  | remove k => exact h.remove hs
  | runTask i decodes => exact h.runTask hs
  | timeout i => exact h.timeout hs
  | insertCall node =>
    cases hs
    exact h.table (Nat.le_succ _) fun r hr hholds => holds_of_insert (Nat.ne_of_lt hr) hholds
  | removeCall r =>
    simp only [Exporting.step] at hs
    split at hs
    · cases hs
      exact h.table (Nat.le_refl _) fun _ _ hholds => holds_of_remove hholds
    · cases hs
  | reply node id result => exact h.reply node id result hs
  | fail id =>
    obtain ⟨call, -, hs⟩ := Option.bind_eq_some_iff.1 hs
    cases hs
    have htable : Whole { s with pending := s.pending.remove id } :=
      h.table (Nat.le_refl _) fun _ _ hholds => holds_of_remove hholds
    exact htable.answer call.reply (.error .disconnected)

/-! ## The sends of `Communication` -/

/-- The send `j` of `Communication` has come as far as `x`, with the same table. -/
structure Matches (s : Exporting) (x : ExportSend) (c : Communication) (j : ℕ) (stage : PrepareStage) :
    Prop where
  pending : c.pending = s.pending
  drawn : c.drawn = s.drawn
  send : c.sends[j]? = some ⟨x.node, x.replies, stage⟩

theorem Matches.exportRequest {c : Communication} {w j : ℕ} (h : s.Matches x c j (.encode none x.exported))
    (hx : s.sends[w]? = some x) (hs : s.exportRequest w k slot = some s') :
    ∃ c' x', Lts.exec Communication.step c [.draw j, .exportRequest j] = some c' ∧ s'.sends[w]? = some x' ∧
      s'.Matches x' c' j (.encode none x'.exported) := by
  have hlt := (List.getElem?_eq_some_iff.1 hx).1
  have hlt' := (List.getElem?_eq_some_iff.1 h.send).1
  rw [Exporting.exportRequest, hx] at hs
  cases hs
  refine ⟨{ c with
      pending := c.pending.insert (callId c.drawn) x.node c.drawn
      drawn := c.drawn + 1
      sends := c.sends.set j ⟨x.node, x.replies, .encode none (x.exported ++ [c.drawn])⟩
      waiting := c.waiting ++ [⟨c.drawn, true⟩]
      inserted := c.inserted ++ [c.drawn] },
    { x with exported := x.exported ++ [s.drawn] }, ?_, List.getElem?_set_self hlt, ?_, ?_, ?_⟩
  · simp only [Lts.exec, Communication.step, h.send, Option.bind_eq_bind, Option.bind_some,
      Communication.setStage, Communication.insert, List.getElem?_set_self hlt', List.set_set]
  · rw [h.pending, h.drawn]
  · rw [h.drawn]
  · rw [h.drawn]
    exact List.getElem?_set_self hlt'

theorem Matches.prepare {c : Communication} {j : ℕ} {payload : Bytes}
    (h : s.Matches x c j (.encode none x.exported))
    (hsmall : ¬ maxMessageSize < (s.frame x payload).encode.length) :
    ∃ c', Lts.exec Communication.step c (if x.replies then [.draw j, .expect j] else [.expect j]) = some c' ∧
      (s.prepare k x payload).Matches x c' j (.lane x.exported (s.callOf x)) := by
  have hlt := (List.getElem?_eq_some_iff.1 h.send).1
  unfold Exporting.prepare
  simp only [if_neg hsmall]
  cases hreplies : x.replies with
  | true =>
    have hcall : s.callOf x = some s.drawn := if_pos hreplies
    refine ⟨{ c with
      pending := c.pending.insert (callId c.drawn) x.node c.drawn
      drawn := c.drawn + 1
      sends := c.sends.set j ⟨x.node, true, .lane x.exported (some c.drawn)⟩
      waiting := c.waiting ++ []
      inserted := c.inserted ++ [c.drawn] }, ?_, ?_, ?_, ?_⟩
    · have hsend := h.send
      rw [hreplies] at hsend
      simp only [Lts.exec, Communication.step, hsend, Option.bind_eq_bind, Option.bind_some,
        Communication.setStage, Communication.insert, List.getElem?_set_self hlt, List.set_set, if_true]
    · simp only [hcall, Option.elim_some, h.pending, h.drawn]
    · simp only [hcall, Option.toList_some, List.length_singleton, h.drawn]
      rfl
    · rw [hcall, hreplies, ← h.drawn]
      exact List.getElem?_set_self hlt
  | false =>
    have hcall : s.callOf x = none := if_neg (by rw [hreplies]; exact Bool.false_ne_true)
    refine ⟨{ c with sends := c.sends.set j ⟨x.node, false, .lane x.exported none⟩ }, ?_, ?_, ?_, ?_⟩
    · have hsend := h.send
      rw [hreplies] at hsend
      simp only [Lts.exec, Communication.step, hsend, Option.bind_eq_bind, Option.bind_some,
        Communication.setStage, Bool.false_eq_true, if_false]
    · simp only [hcall, Option.elim_none]
      exact h.pending
    · simp only [hcall, Option.toList_none, List.length_nil, Nat.add_zero]
      exact h.drawn
    · rw [hcall, hreplies]
      exact List.getElem?_set_self hlt

/-! ## Runs -/

theorem allOrNothing_of_frameFits (h : (runs.guard FrameFits).Reachable s) : s.AllOrNothing := by
  refine (h.guard_invariant (I := Whole) ?_ fun s e s' hi hok hs => hi.step hok hs).allOrNothing
  rintro _ rfl
  exact whole_new

/-- While a message is encoded another one is sent, and fails after its request was taken out: that one
is given up again, and the two of the outer message are in its frame. -/
theorem allOrNothing_of_frameFits_nested : ∃ s, (runs.guard FrameFits).Reachable s ∧
    (s.sends.map (·.exported) = [[0, 2], [1]] ∧ s.sends.map (·.removed) = [[], [1]] ∧
      s.requests.map (·.told) = [none, some .noReply, none] ∧ s.isPending 0 = true ∧
      s.isPending 1 = false) ∧ s.AllOrNothing := by
  obtain ⟨s, hs, h⟩ : ∃ s, (runs.guard FrameFits).Reachable s ∧
      (s.sends.map (·.exported) = [[0, 2], [1]] ∧ s.sends.map (·.removed) = [[], [1]] ∧
        s.requests.map (·.told) = [none, some .noReply, none] ∧ s.isPending 0 = true ∧
        s.isPending 1 = false) :=
    Lts.exists_guard_reachable_of_exec (s := new) rfl
      [.send 0 .cast "b" ⟨"a"⟩ ⟨0⟩ true, .serialize 0 0, .send 0 .tryCast "b" ⟨"c"⟩ ⟨1⟩ false,
        .serialize 0 1, .serialize 0 1, .encoded 0 none, .remove 1, .runTask 1 true, .serialize 0 2,
        .encoded 0 (some [1]), .enqueue 0, .commit 0]
      (by decide +kernel)
  exact ⟨s, hs, h, allOrNothing_of_frameFits hs⟩

theorem exists_reachable_exported (n : ℕ) : ∃ s x, runs.Reachable s ∧ s.Whole ∧ s.encodings 0 = [0] ∧
    s.sends[0]? = some x ∧ x.stage = .encoding 0 none ∧ x.target = ⟨"a"⟩ ∧ x.replies = true ∧
    x.exported.length = n ∧ ∀ slot ∈ s.emptied, slot < n := by
  induction n with
  | zero =>
    have hs : new.step (.send 0 .call "b" ⟨"a"⟩ ⟨0⟩ true) = some _ := rfl
    refine ⟨_, _, .step (.init rfl) hs, whole_new.send _ _ _ _ _ hs, rfl, rfl, rfl, rfl, rfl, rfl, ?_⟩
    intro slot hslot
    cases hslot
  | succ n ih =>
    obtain ⟨s, x, hreach, h, hk, hx, hstage, htarget, hreplies, hlen, hslots⟩ := ih
    have hslot : n ∉ s.emptied := fun hmem => Nat.lt_irrefl n (hslots n hmem)
    have hs : s.step (.serialize 0 n) = s.exportRequest 0 0 n := by
      simp only [Exporting.step, hk, (h.encoding_eq hk).1, if_neg hslot]
    have hlt := (List.getElem?_eq_some_iff.1 hx).1
    obtain ⟨s', hexport, hk', hx', hemptied⟩ : ∃ s', s.exportRequest 0 0 n = some s' ∧
        s'.encodings = s.encodings ∧
        s'.sends[0]? = some { x with exported := x.exported ++ [s.drawn] } ∧
        s'.emptied = s.emptied ++ [n] := by
      rw [exportRequest, hx]
      exact ⟨_, rfl, rfl, List.getElem?_set_self hlt, rfl⟩
    rw [← hs] at hexport
    refine ⟨s', _, .step hreach hexport, h.serialize hexport, hk' ▸ hk, hx', hstage, htarget, hreplies,
      ?_, ?_⟩
    · rw [List.length_append, hlen]
      rfl
    · intro slot hmem
      rw [hemptied] at hmem
      rcases List.mem_append.1 hmem with hmem | hmem
      · exact Nat.lt_succ_of_lt (hslots slot hmem)
      · obtain rfl := List.mem_singleton.1 hmem
        exact Nat.lt_succ_self _

theorem prepare_of_small {payload : Bytes} (hsmall : ¬ maxMessageSize < (s.frame x payload).encode.length) :
    (s.prepare k x payload).sends =
        s.sends.set k { x with stage := .inFlight (s.frame x payload).encode (s.callOf x) } ∧
      (s.prepare k x payload).requests = s.requests := by
  unfold prepare
  dsimp only
  rw [if_neg hsmall]
  exact ⟨rfl, rfl⟩

/-- The frame of such a call goes into the lane if it is not too large. -/
theorem exists_reachable_enqueued (n : ℕ) (hn : 31 + n * 16 ≤ maxMessageSize) :
    ∃ s x frame, runs.Reachable s ∧ s.sends[0]? = some x ∧ x.stage = .enqueued frame ∧
      (s.embedded 0).length = n := by
  obtain ⟨s, x, hreach, h, hk, hx, hstage, htarget, hreplies, hlen, -⟩ := exists_reachable_exported n
  have hlt := (List.getElem?_eq_some_iff.1 hx).1
  have hembedded : (s.embedded 0).length = n := by
    rw [← hlen, ← h.exported 0 x hx, List.length_map]
  let payload := (x.exported.map callId).flatMap putU64
  have hpayload : payload.length = n * 8 := by
    rw [length_requests, List.length_map, hlen]
  let left := s.leaveScope 0 none []
  have hcall : left.callOf x = some left.drawn := if_pos hreplies
  have hsmall : ¬ maxMessageSize < (left.frame x payload).encode.length := by
    have hname : (utf8Bytes x.target.val).length = 1 := by
      rw [htarget]
      decide
    rw [frame, hcall, Option.map_some, Frame.length_encode_message, hname, List.length_map, hlen,
      hpayload]
    omega
  have hencoded : s.step (.encoded 0 (some payload)) = some (left.prepare 0 x payload) := by
    simp only [Exporting.step, hk, hx, Option.bind_eq_bind, Option.bind_some, hstage]
    rfl
  obtain ⟨hsends, hrequests⟩ := left.prepare_of_small (k := 0) hsmall
  have hget : (left.prepare 0 x payload).sends[0]? =
      some { x with stage := .inFlight (left.frame x payload).encode (left.callOf x) } := by
    rw [hsends]
    exact List.getElem?_set_self hlt
  have henqueue : (left.prepare 0 x payload).step (.enqueue 0) =
      some ((left.prepare 0 x payload).setStage 0
        { x with stage := .inFlight (left.frame x payload).encode (left.callOf x) }
        (.enqueued (left.frame x payload).encode)) := by
    simp only [Exporting.step, hget, Option.bind_eq_bind, Option.bind_some]
  refine ⟨_, _, _, .step (.step hreach hencoded) henqueue,
    List.getElem?_set_self (List.getElem?_eq_some_iff.1 hget).1, rfl, ?_⟩
  show (List.filter _ (left.prepare 0 x payload).requests).length = n
  rw [hrequests]
  exact hembedded

/-- A call with `65536` requests, whose frame says that there are none. -/
theorem not_allOrNothing : (∃ s x frame, runs.Reachable s ∧ s.sends[0]? = some x ∧
      x.stage = .enqueued frame ∧ (s.embedded 0).length = 65536) ∧
    ¬ ∀ s, runs.Reachable s → s.AllOrNothing := by
  have hlarge := exists_reachable_enqueued 65536 (by decide)
  refine ⟨hlarge, fun hall => ?_⟩
  obtain ⟨s, x, frame, hreach, hx, hstage, hlen⟩ := hlarge
  obtain ⟨-, callId', payload, hdecode⟩ := (hall s hreach).enqueued 0 x frame hx (.inl hstage)
  have hfits := (Frame.fits_of_decode hdecode).2
  rw [List.length_map, hlen] at hfits
  omega

end Exporting
end Zestors.Messaging
