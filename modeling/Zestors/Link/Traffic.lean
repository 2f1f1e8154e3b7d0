import Zestors.Lib.ListOrder
import Zestors.Lib.Lts
import Zestors.Link.Frames
import Zestors.Link.IdleEnd

/-!
# From the lanes to the subscribers

The bytes between the lanes of any number of nodes and the subscribers of one node that they are
connected to. A lane writes its messages as frames on a stream of its own, or as datagrams; the other
side reads each stream with a task of its own, which waits for room with whoever has subscribed to the
protocol. Bytes arrive in order and in pieces, a connection may close and a write may fail anywhere,
and datagrams are lost or overtake each other.

Whatever the interleaving, a stream hands over what was sent on it, unchanged and in order, and a
subscriber has from it just what it has handed over (`delivered_of_reachable`). Where nothing breaks,
all of it comes through once its subscribers take what they have (`inevitable_handed`).
-/

namespace Zestors
open Wire

/-- How reliably a message must arrive. -/
inductive Delivery
  | datagram
  | ordered
deriving DecidableEq

/-- Why a datagram could not be sent. -/
inductive DatagramError
  | tooLarge
  | unsupported
  | closed
deriving DecidableEq

/-- A message from a peer, whose identity was established when the connection was set up. -/
structure Incoming where
  node : NodeName
  generation : ℕ
  payload : Bytes
deriving DecidableEq

/-- How many messages may wait for a subscriber to take them. -/
def inboxQueue : ℕ := 1024

/-- A connection as its receiving end has registered it. -/
structure PeerConn where
  peer : NodeName
  generation : ℕ
  isClosed : Bool
deriving DecidableEq

/-- Whose lane it is, and for which protocol. -/
structure LaneSource where
  node : NodeName
  generation : ℕ
  protocol : UInt8
deriving DecidableEq

/-- A lane task. A lane of datagrams has a stream only while it writes what is no datagram. -/
structure LaneWriter where
  source : LaneSource
  delivery : Delivery
  stream : Option ℕ
deriving DecidableEq

/-- The sending half of a stream. -/
inductive WriteHalf
  | writable
  /-- It was shut down. -/
  | finished
  /-- It was dropped, with what was still to write. -/
  | dropped
deriving DecidableEq

/-- What becomes of a message that was read. -/
inductive HandOver
  | inbox (j : ℕ)
  | closed (j : ℕ)
  | nobody
deriving DecidableEq

/-- Where the task is that reads a stream. -/
inductive ReadStage
  | protocol
  | frame (protocol : UInt8)
  | delivering (protocol : UInt8) (j : ℕ) (payload : Bytes)
  | done (result : Except IoError Unit)
  /-- A read failed. -/
  | failed

/-- A stream from a lane to its reader: what the lane is about to write, what is under way, and what has
arrived and is not read. `source`, `sent` and `handed` are ghosts: whose lane has opened it, the messages
begun, and the messages read. -/
structure WirePipe where
  conn : ℕ
  source : LaneSource
  rest : Bytes
  inFlight : Bytes
  unread : Bytes
  writer : WriteHalf
  /-- The end has arrived. -/
  ended : Bool
  reader : ReadStage
  sent : List Bytes
  handed : List (Bytes × HandOver)

/-- What a message in an inbox has come with. -/
inductive Origin
  | stream (i : ℕ)
  | datagram (k : ℕ)
deriving DecidableEq

structure Arrival where
  origin : Origin
  incoming : Incoming
deriving DecidableEq

/-- A subscription: all that was queued for it, of which the first `taken` messages are taken. -/
structure Subscription where
  protocol : UInt8
  log : List Arrival
  taken : ℕ
  isClosed : Bool
deriving DecidableEq

def Subscription.hasRoom (inbox : Subscription) : Bool := inbox.log.length - inbox.taken < inboxQueue

/-- `source` and `payload` are ghosts. -/
structure Datagram where
  conn : ℕ
  bytes : Bytes
  source : LaneSource
  payload : Bytes
deriving DecidableEq

/-- `subscribed` is `Inner::inboxes`. `flying` has the numbers of the datagrams under way. -/
structure LinkTraffic where
  conns : List PeerConn
  lanes : List LaneWriter
  pipes : List WirePipe
  datagrams : List Datagram
  flying : List ℕ
  subscribed : UInt8 → Option ℕ
  inboxes : List Subscription

namespace LinkTraffic

def new : LinkTraffic := ⟨[], [], [], [], [], fun _ => none, []⟩

inductive Event
  | connect (peer : NodeName) (generation : ℕ)
  | close (c : ℕ)
  | startLane (source : LaneSource) (delivery : Delivery)
  /-- The lane `l` has taken a message and has found the connection `c`; `sent` is what
  `conn.send_datagram` returns, and `opens` whether `conn.open_stream` succeeds. -/
  | send (l : ℕ) (payload : Bytes) (c : ℕ) (sent : Except DatagramError Unit) (opens : Bool)
  | write (l n : ℕ)
  /-- A write fails, or the lane is aborted. -/
  | loseStream (l : ℕ)
  | endLane (l : ℕ)
  | arrive (i n : ℕ)
  | endArrives (i : ℕ)
  /-- A read fails, or the task is cancelled with what it holds, at a shutdown. -/
  | readFails (i : ℕ)
  | read (i : ℕ)
  | recvDatagram (k : ℕ)
  | loseDatagram (k : ℕ)
  | subscribe (protocol : UInt8)
  | closeInbox (j : ℕ)
  | recv (j : ℕ)

def setPipe (s : LinkTraffic) (i : ℕ) (pipe : WirePipe) : LinkTraffic :=
  { s with pipes := s.pipes.set i pipe }

def setLane (s : LinkTraffic) (l : ℕ) (lane : LaneWriter) : LinkTraffic :=
  { s with lanes := s.lanes.set l lane }

/-- The lane is done with its stream. -/
def release (s : LinkTraffic) (l : ℕ) (lane : LaneWriter) (i : ℕ) (pipe : WirePipe) : LinkTraffic :=
  (s.setPipe i pipe).setLane l { lane with stream := none }

/-- The stream of a lane. -/
def streamOf (s : LinkTraffic) (lane : LaneWriter) : Option (ℕ × WirePipe) := do
  let i ← lane.stream
  let pipe ← s.pipes[i]?
  some (i, pipe)

/-- The lane drops its stream, if it has one. -/
def dropStream (s : LinkTraffic) (l : ℕ) (lane : LaneWriter) : LinkTraffic :=
  match s.streamOf lane with
  | none => s
  | some (i, pipe) => s.release l lane i { pipe with writer := .dropped }

/-- No write of the lane is under way. -/
def isIdle (s : LinkTraffic) (lane : LaneWriter) : Bool := (s.streamOf lane).all fun r => r.2.rest.isEmpty

/-- A new stream on `c`, with all there is to write first. -/
def openStream (s : LinkTraffic) (l : ℕ) (lane : LaneWriter) (payload : Bytes) (c : ℕ) : LinkTraffic :=
  { s with
    pipes := s.pipes ++ [⟨c, lane.source, lane.source.protocol :: writeFrame payload, [], [], .writable,
      false, .protocol, [payload], []⟩]
    lanes := s.lanes.set l { lane with stream := some s.pipes.length } }

def sendDatagram (s : LinkTraffic) (l : ℕ) (lane : LaneWriter) (payload : Bytes) (c : ℕ)
    (sent : Except DatagramError Unit) (opens : Bool) : LinkTraffic :=
  match sent with
  | .ok () => { s with
      datagrams := s.datagrams ++ [⟨c, lane.source.protocol :: payload, lane.source, payload⟩]
      flying := s.flying ++ [s.datagrams.length] }
  | .error .tooLarge | .error .unsupported => if opens then s.openStream l lane payload c else s
  | .error .closed => s

/-- Appends to the stream of the lane, if that is on `c`. -/
def sendOrdered (s : LinkTraffic) (l : ℕ) (lane : LaneWriter) (payload : Bytes) (c : ℕ) (opens : Bool) :
    LinkTraffic :=
  match s.streamOf lane with
  | some (i, pipe) =>
    if pipe.conn = c then
      s.setPipe i { pipe with rest := pipe.rest ++ writeFrame payload, sent := pipe.sent ++ [payload] }
    else if opens then (s.dropStream l lane).openStream l lane payload c
    else s.dropStream l lane
  | none => if opens then s.openStream l lane payload c else s

def send (s : LinkTraffic) (l : ℕ) (payload : Bytes) (c : ℕ) (sent : Except DatagramError Unit)
    (opens : Bool) : Option LinkTraffic := do
  let lane ← s.lanes[l]?
  let conn ← s.conns[c]?
  if s.isIdle lane = true ∧ lane.source.node = conn.peer ∧ lane.source.generation = conn.generation then
    if maxMessageSize < payload.length then some s
    else match lane.delivery with
      | .datagram => some (s.sendDatagram l lane payload c sent opens)
      | .ordered => some (s.sendOrdered l lane payload c opens)
  else none

/-- The stream takes `n` more bytes. One that was opened for a single message is shut down after it. -/
def write (s : LinkTraffic) (l n : ℕ) : Option LinkTraffic := do
  let lane ← s.lanes[l]?
  let (i, pipe) ← s.streamOf lane
  if 0 < n ∧ n ≤ pipe.rest.length then
    let pipe' := { pipe with rest := pipe.rest.drop n, inFlight := pipe.inFlight ++ pipe.rest.take n }
    if lane.delivery = .datagram ∧ n = pipe.rest.length then
      some (s.release l lane i { pipe' with writer := .finished })
    else some (s.setPipe i pipe')
  else none

/-- The lane returns: it shuts its stream down. -/
def endLane (s : LinkTraffic) (l : ℕ) : Option LinkTraffic := do
  let lane ← s.lanes[l]?
  if s.isIdle lane then
    match s.streamOf lane with
    | none => some s
    | some (i, pipe) => some (s.release l lane i { pipe with writer := .finished })
  else none

def isClosed (s : LinkTraffic) (c : ℕ) : Bool := (s.conns[c]?).all PeerConn.isClosed

/-- `deliver` for a message on a stream, up to the wait for room. -/
def deliver (s : LinkTraffic) (pipe : WirePipe) (protocol : UInt8) (payload : Bytes) : WirePipe :=
  match s.subscribed protocol with
  | none => { pipe with reader := .frame protocol, handed := pipe.handed ++ [(payload, .nobody)] }
  | some j => { pipe with reader := .delivering protocol j payload }

/-- Whoever has sent on a connection. -/
def incoming (s : LinkTraffic) (c : ℕ) (payload : Bytes) : Option Incoming :=
  (s.conns[c]?).map fun conn => ⟨conn.peer, conn.generation, payload⟩

def setInbox (s : LinkTraffic) (j : ℕ) (inbox : Subscription) : LinkTraffic :=
  { s with inboxes := s.inboxes.set j inbox }

def push (s : LinkTraffic) (j : ℕ) (inbox : Subscription) (arrival : Arrival) : LinkTraffic :=
  s.setInbox j { inbox with log := inbox.log ++ [arrival] }

/-- What has come of a frame is not enough for it, unless nothing more will come. -/
def readFrame (s : LinkTraffic) (pipe : WirePipe) (protocol : UInt8) : Option WirePipe :=
  match nextFrame maxMessageSize pipe.unread with
  | .ok (some payload, unread) => some (s.deliver { pipe with unread := unread } protocol payload)
  | .ok (none, _) => if pipe.ended then some { pipe with reader := .done (.ok ()) } else none
  | .error .unexpectedEof =>
    if pipe.ended then some { pipe with reader := .done (.error .unexpectedEof) } else none
  | .error e => some { pipe with reader := .done (.error e) }

/-- The task behind a stream goes on. -/
def read (s : LinkTraffic) (i : ℕ) : Option LinkTraffic := do
  let pipe ← s.pipes[i]?
  match pipe.reader with
  | .protocol =>
    match pipe.unread with
    | [] => if pipe.ended then some (s.setPipe i { pipe with reader := .done (.ok ()) }) else none
    | protocol :: unread => some (s.setPipe i { pipe with reader := .frame protocol, unread := unread })
  | .frame protocol => (s.readFrame pipe protocol).map (s.setPipe i)
  | .delivering protocol j payload => do
    let inbox ← s.inboxes[j]?
    let incoming ← s.incoming pipe.conn payload
    if inbox.isClosed then
      some (s.setPipe i { pipe with
        reader := .frame protocol, handed := pipe.handed ++ [(payload, .closed j)] })
    else if inbox.hasRoom then
      some ((s.setPipe i { pipe with
        reader := .frame protocol, handed := pipe.handed ++ [(payload, HandOver.inbox j)] }).push j inbox
          ⟨.stream i, incoming⟩)
    else none
  | .done _ | .failed => none

/-- A datagram is handed over if there is room for it at once. -/
def recvDatagram (s : LinkTraffic) (k : ℕ) : Option LinkTraffic := do
  if k ∈ s.flying then
    let datagram ← s.datagrams[k]?
    let s' := { s with flying := s.flying.erase k }
    if s.isClosed datagram.conn then none
    else match datagram.bytes with
      | [] => some s'
      | protocol :: payload =>
        match s.subscribed protocol with
        | none => some s'
        | some j => do
          let inbox ← s.inboxes[j]?
          let incoming ← s.incoming datagram.conn payload
          if inbox.isClosed = false ∧ inbox.hasRoom = true then
            some (s'.push j inbox ⟨.datagram k, incoming⟩)
          else some s'
  else none

def step (s : LinkTraffic) : Event → Option LinkTraffic
  | .connect peer generation => some { s with conns := s.conns ++ [⟨peer, generation, false⟩] }
  | .close c => (s.conns[c]?).map fun conn => { s with conns := s.conns.set c { conn with isClosed := true } }
  | .startLane source delivery => some { s with lanes := s.lanes ++ [⟨source, delivery, none⟩] }
  | .send l payload c sent opens => s.send l payload c sent opens
  | .write l n => s.write l n
  | .loseStream l => (s.lanes[l]?).map (s.dropStream l)
  | .endLane l => s.endLane l
  | .arrive i n => do
    let pipe ← s.pipes[i]?
    if 0 < n ∧ n ≤ pipe.inFlight.length ∧ s.isClosed pipe.conn = false then
      some (s.setPipe i { pipe with
        inFlight := pipe.inFlight.drop n, unread := pipe.unread ++ pipe.inFlight.take n })
    else none
  | .endArrives i => do
    let pipe ← s.pipes[i]?
    if pipe.writer ≠ .writable ∧ pipe.inFlight = [] ∧ pipe.ended = false ∧ s.isClosed pipe.conn = false then
      some (s.setPipe i { pipe with ended := true })
    else none
  | .readFails i => do
    let pipe ← s.pipes[i]?
    if s.isClosed pipe.conn = true ∨ pipe.writer = .dropped then
      some (s.setPipe i { pipe with reader := .failed })
    else none
  | .read i => s.read i
  | .recvDatagram k => s.recvDatagram k
  | .loseDatagram k => if k ∈ s.flying then some { s with flying := s.flying.erase k } else none
  | .subscribe protocol => some { s with
      inboxes := s.inboxes ++ [⟨protocol, [], 0, false⟩]
      subscribed := Function.update s.subscribed protocol (some s.inboxes.length) }
  | .closeInbox j => (s.inboxes[j]?).map fun inbox => s.setInbox j { inbox with isClosed := true }
  | .recv j => do
    let inbox ← s.inboxes[j]?
    if inbox.taken < inbox.log.length then some (s.setInbox j { inbox with taken := inbox.taken + 1 })
    else none

def runs : Lts LinkTraffic Event := Lts.ofFun (· = new) step

end LinkTraffic

/-! ## What is read of what was written -/

namespace Wire
open BigEndian
variable {max : ℕ} {payload payload' : Bytes} {payloads : List Bytes} {bytes rest rest' : Bytes}

theorem nextFrame_eq_readFrame (max : ℕ) (hbytes : bytes ≠ []) : ∃ s : ByteStream, s.bytes = bytes ∧
    (readFrame max s).map (Prod.map id ByteStream.bytes) = nextFrame max bytes := by
  refine ⟨⟨[bytes], by simpa using hbytes.symm⟩, List.flatten_singleton, ?_⟩
  rw [readFrame_eq, ByteStream.bytes, List.flatten_singleton]

/-- What is at the front of frames, wherever they are cut: nothing, the first one, or a part of it. -/
theorem nextFrame_of_isPrefix (hmax : max < 2 ^ 32) (hp : ∀ payload ∈ payloads, payload.length ≤ max)
    (h : bytes <+: writeFrames payloads) :
    (bytes = [] ∧ nextFrame max bytes = .ok (none, [])) ∨
    (∃ payload more rest, payloads = payload :: more ∧ bytes = writeFrame payload ++ rest ∧
      rest <+: writeFrames more ∧ nextFrame max bytes = .ok (some payload, rest)) ∨
    (∃ payload ∈ payloads.head?, TornFrame payload bytes) ∧ nextFrame max bytes = .error .unexpectedEof := by
  by_cases hnil : bytes = []
  · subst hnil
    exact .inl ⟨rfl, if_pos rfl⟩
  refine .inr ?_
  obtain ⟨complete, rest, torn, rfl, rfl, htorn⟩ := exists_torn h
  cases complete with
  | nil =>
    rcases htorn with rfl | ⟨payload, hhead, htorn⟩
    · exact absurd rfl hnil
    · obtain ⟨s, hs, hnext⟩ := nextFrame_eq_readFrame max hnil
      refine .inr ⟨⟨payload, hhead, htorn⟩, ?_⟩
      have hs : s.bytes = torn := hs
      subst hs
      rw [← hnext, readFrame_torn hmax (hp payload (List.mem_of_mem_head? hhead)) htorn.ne_nil htorn.isPrefix
        htorn.ne_frame]
      rfl
  | cons payload more =>
    rw [writeFrames_cons, List.append_assoc]
    refine .inl ⟨payload, more ++ rest, writeFrames more ++ torn, rfl, rfl, ?_, ?_⟩
    · simpa [List.append_assoc] using h
    · exact nextFrame_writeFrame_append hmax (hp payload List.mem_cons_self) _

end Wire
open Wire

theorem maxMessageSize_lt : maxMessageSize < 2 ^ 32 := by decide

namespace WirePipe
variable {pipe : WirePipe}

/-- The messages read, and the one that waits for room. -/
def taken (pipe : WirePipe) : List Bytes :=
  pipe.handed.map Prod.fst ++ match pipe.reader with
    | .delivering _ _ payload => [payload]
    | .protocol | .frame _ | .done _ | .failed => []

/-- What is still to read, by where the reader is. -/
def ReadsAt (pipe : WirePipe) (remaining : List Bytes) : ReadStage → Prop
  | .protocol => pipe.handed = [] ∧
    pipe.unread ++ (pipe.inFlight ++ pipe.rest) = pipe.source.protocol :: writeFrames remaining
  | .frame protocol | .delivering protocol _ _ => protocol = pipe.source.protocol ∧
    pipe.unread ++ (pipe.inFlight ++ pipe.rest) = writeFrames remaining
  | .done result => pipe.writer = .finished ∧ result = .ok () ∧ remaining = [] ∨
    pipe.writer = .dropped ∧ (result = .ok () ∨ result = .error .unexpectedEof)
  | .failed => True

structure Sound (pipe : WirePipe) : Prop where
  reads : ∃ remaining, pipe.sent = pipe.taken ++ remaining ∧ pipe.ReadsAt remaining pipe.reader
  small : ∀ payload ∈ pipe.sent, payload.length ≤ maxMessageSize
  finished : pipe.writer = .finished → pipe.rest = []
  ended : pipe.ended = true → pipe.inFlight = [] ∧ pipe.writer ≠ .writable
  /-- Only what comes before there is a subscriber goes to nobody. -/
  orphans : ∃ before after, pipe.handed = before ++ after ∧ (∀ h ∈ before, h.2 = .nobody) ∧
    ∀ h ∈ after, h.2 ≠ .nobody

theorem ReadsAt.bytes {pipe' : WirePipe} {remaining : List Bytes} {stage : ReadStage}
    (h : pipe.ReadsAt remaining stage) (hbytes : pipe'.unread ++ (pipe'.inFlight ++ pipe'.rest) =
      pipe.unread ++ (pipe.inFlight ++ pipe.rest)) (hsource : pipe'.source = pipe.source)
    (hhanded : pipe'.handed = pipe.handed) (hwriter : pipe'.writer = pipe.writer) :
    pipe'.ReadsAt remaining stage := by
  cases stage with
  | protocol | frame protocol | delivering protocol j payload | done result =>
    simpa only [ReadsAt, hbytes, hsource, hhanded, hwriter] using h
  | failed => trivial

namespace Sound

theorem reader_ne_done (h : pipe.Sound) (hw : pipe.writer = .writable) (result : Except IoError Unit) :
    pipe.reader ≠ .done result := by
  intro hdone
  obtain ⟨remaining, -, hreads⟩ := h.reads
  rw [hdone] at hreads
  rcases hreads with ⟨hw', -⟩ | ⟨hw', -⟩ <;> rw [hw] at hw' <;> cases hw'

theorem readsAt_writer {remaining : List Bytes} (h : pipe.ReadsAt remaining pipe.reader)
    (hne : ∀ result, pipe.reader ≠ .done result) (writer : WriteHalf) :
    { pipe with writer := writer }.ReadsAt remaining pipe.reader := by
  cases hstage : pipe.reader with
  | done result => exact absurd hstage (hne result)
  | protocol | frame protocol | delivering protocol j payload | failed => rw [hstage] at h; exact h

theorem write (h : pipe.Sound) (hw : pipe.writer = .writable) (n : ℕ) :
    { pipe with rest := pipe.rest.drop n, inFlight := pipe.inFlight ++ pipe.rest.take n }.Sound := by
  obtain ⟨remaining, hsent, hreads⟩ := h.reads
  refine ⟨⟨remaining, hsent, hreads.bytes ?_ rfl rfl rfl⟩, h.small, fun hf => ?_, fun hended => ?_, h.orphans⟩
  · simp only [List.append_assoc, List.take_append_drop]
  · rw [h.finished hf, List.drop_nil]
  · exact absurd hw (h.ended hended).2

theorem finish (h : pipe.Sound) (hw : pipe.writer = .writable) (hrest : pipe.rest = []) :
    { pipe with writer := .finished }.Sound := by
  obtain ⟨remaining, hsent, hreads⟩ := h.reads
  refine ⟨⟨remaining, hsent, readsAt_writer hreads (h.reader_ne_done hw) _⟩, h.small, fun _ => hrest, ?_,
    h.orphans⟩
  intro hended
  exact absurd hw (h.ended hended).2

theorem drop (h : pipe.Sound) (hw : pipe.writer = .writable) : { pipe with writer := .dropped }.Sound := by
  obtain ⟨remaining, hsent, hreads⟩ := h.reads
  refine ⟨⟨remaining, hsent, readsAt_writer hreads (h.reader_ne_done hw) _⟩, h.small, ?_, ?_, h.orphans⟩
  · intro hfinished
    cases hfinished
  · intro hended
    exact absurd hw (h.ended hended).2

theorem extend (h : pipe.Sound) (hw : pipe.writer = .writable) {payload : Bytes}
    (hp : payload.length ≤ maxMessageSize) :
    { pipe with rest := pipe.rest ++ writeFrame payload, sent := pipe.sent ++ [payload] }.Sound := by
  obtain ⟨remaining, hsent, hreads⟩ := h.reads
  refine ⟨⟨remaining ++ [payload], ?_, ?_⟩, ?_, ?_, ?_, h.orphans⟩
  · show pipe.sent ++ [payload] = pipe.taken ++ (remaining ++ [payload])
    rw [hsent, List.append_assoc]
  · have hframe : writeFrames [payload] = writeFrame payload := List.append_nil _
    cases hstage : pipe.reader with
    | protocol =>
      rw [hstage] at hreads
      refine ⟨hreads.1, ?_⟩
      show pipe.unread ++ (pipe.inFlight ++ (pipe.rest ++ writeFrame payload)) = _
      rw [writeFrames_append, hframe, ← List.cons_append, ← hreads.2]
      simp only [List.append_assoc]
    | frame protocol | delivering protocol j payload =>
      rw [hstage] at hreads
      refine ⟨hreads.1, ?_⟩
      show pipe.unread ++ (pipe.inFlight ++ (pipe.rest ++ writeFrame _)) = _
      rw [writeFrames_append, hframe, ← hreads.2]
      simp only [List.append_assoc]
    | done result => exact absurd hstage (h.reader_ne_done hw result)
    | failed => trivial
  · intro payload' hmem
    rcases List.mem_append.1 hmem with hmem | hmem
    · exact h.small payload' hmem
    · rwa [List.mem_singleton.1 hmem]
  · intro hfinished
    have hfinished : pipe.writer = .finished := hfinished
    rw [hw] at hfinished
    cases hfinished
  · exact h.ended

theorem arrive (h : pipe.Sound) (n : ℕ) :
    { pipe with inFlight := pipe.inFlight.drop n, unread := pipe.unread ++ pipe.inFlight.take n }.Sound := by
  obtain ⟨remaining, hsent, hreads⟩ := h.reads
  refine ⟨⟨remaining, hsent, hreads.bytes ?_ rfl rfl rfl⟩, h.small, h.finished, fun hended => ?_, h.orphans⟩
  · show (pipe.unread ++ pipe.inFlight.take n) ++ (pipe.inFlight.drop n ++ pipe.rest) = _
    rw [List.append_assoc, ← List.append_assoc (pipe.inFlight.take n), List.take_append_drop]
  · obtain ⟨hnil, hw⟩ := h.ended hended
    refine ⟨?_, hw⟩
    show pipe.inFlight.drop n = []
    rw [hnil, List.drop_nil]

theorem endArrives (h : pipe.Sound) (hw : pipe.writer ≠ .writable) (hnil : pipe.inFlight = []) :
    { pipe with ended := true }.Sound := by
  obtain ⟨remaining, hsent, hreads⟩ := h.reads
  exact ⟨⟨remaining, hsent, hreads.bytes rfl rfl rfl rfl⟩, h.small, h.finished, fun _ => ⟨hnil, hw⟩,
    h.orphans⟩

theorem handed_isPrefix (h : pipe.Sound) : pipe.handed.map Prod.fst <+: pipe.sent := by
  obtain ⟨remaining, hsent, -⟩ := h.reads
  rw [hsent, taken, List.append_assoc]
  exact List.prefix_append _ _

theorem fail (h : pipe.Sound) : { pipe with reader := .failed }.Sound := by
  obtain ⟨remaining, hsent⟩ := h.handed_isPrefix
  refine ⟨⟨remaining, ?_, trivial⟩, h.small, h.finished, h.ended, h.orphans⟩
  rw [taken, List.append_nil]
  exact hsent.symm

theorem hand (h : pipe.Sound) {protocol : UInt8} {j : ℕ} {payload : Bytes}
    (hstage : pipe.reader = .delivering protocol j payload) {how : HandOver} (hhow : how ≠ .nobody) :
    { pipe with reader := .frame protocol, handed := pipe.handed ++ [(payload, how)] }.Sound := by
  obtain ⟨remaining, hsent, hreads⟩ := h.reads
  obtain ⟨before, after, hhanded, hbefore, hafter⟩ := h.orphans
  rw [hstage] at hreads
  refine ⟨⟨remaining, ?_, hreads⟩, h.small, h.finished, h.ended, before, after ++ [(payload, how)], ?_,
    hbefore, ?_⟩
  · rw [hsent, taken, taken, hstage, List.map_append, List.append_nil]
    rfl
  · show pipe.handed ++ _ = _
    rw [hhanded, List.append_assoc]
  · intro a ha
    rcases List.mem_append.1 ha with ha | ha
    · exact hafter a ha
    · rwa [List.mem_singleton.1 ha]

theorem readProtocol (h : pipe.Sound) (hstage : pipe.reader = .protocol) {protocol : UInt8} {unread : Bytes}
    (hunread : pipe.unread = protocol :: unread) :
    { pipe with reader := .frame protocol, unread := unread }.Sound := by
  obtain ⟨remaining, hsent, hreads⟩ := h.reads
  rw [hstage, ReadsAt, hunread, List.cons_append, List.cons.injEq] at hreads
  refine ⟨⟨remaining, ?_, hreads.2⟩, h.small, h.finished, h.ended, h.orphans⟩
  rw [hsent, taken, taken, hstage]

/-- The stream ends before there is a protocol, which nobody does on purpose. -/
theorem readNothing (h : pipe.Sound) (hstage : pipe.reader = .protocol) (hunread : pipe.unread = [])
    (hended : pipe.ended = true) : { pipe with reader := .done (.ok ()) }.Sound := by
  obtain ⟨remaining, hsent, hreads⟩ := h.reads
  obtain ⟨hinFlight, hw⟩ := h.ended hended
  rw [hstage, ReadsAt, hunread, hinFlight, List.nil_append, List.nil_append] at hreads
  refine ⟨⟨remaining, ?_, .inr ⟨?_, .inl rfl⟩⟩, h.small, h.finished, h.ended, h.orphans⟩
  · rw [hsent, taken, taken, hstage]
  · cases hwriter : pipe.writer with
    | writable => exact absurd hwriter hw
    | finished => rw [h.finished hwriter] at hreads; cases hreads.2
    | dropped => rfl

/-- What a read of a frame comes to: nothing is there, the next message, or less than it. -/
theorem nextFrame_cases (h : pipe.Sound) {protocol : UInt8} (hstage : pipe.reader = .frame protocol) :
    protocol = pipe.source.protocol ∧ ∃ remaining, pipe.sent = pipe.handed.map Prod.fst ++ remaining ∧
      pipe.unread ++ (pipe.inFlight ++ pipe.rest) = writeFrames remaining ∧
      ((pipe.unread = [] ∧ nextFrame maxMessageSize pipe.unread = .ok (none, [])) ∨
        (∃ payload more unread, remaining = payload :: more ∧
          unread ++ (pipe.inFlight ++ pipe.rest) = writeFrames more ∧
          nextFrame maxMessageSize pipe.unread = .ok (some payload, unread)) ∨
        (pipe.inFlight ++ pipe.rest ≠ [] ∧
          nextFrame maxMessageSize pipe.unread = .error .unexpectedEof)) := by
  obtain ⟨remaining, hsent, hreads⟩ := h.reads
  rw [taken, hstage, List.append_nil] at hsent
  rw [hstage] at hreads
  obtain ⟨hprotocol, hbytes⟩ := hreads
  have hsmall : ∀ payload ∈ remaining, payload.length ≤ maxMessageSize := fun payload hmem =>
    h.small payload (hsent ▸ List.mem_append_right _ hmem)
  refine ⟨hprotocol, remaining, hsent, hbytes, ?_⟩
  rcases nextFrame_of_isPrefix maxMessageSize_lt hsmall ⟨_, hbytes⟩ with
    hnil | ⟨payload, more, unread, rfl, hunread, -, hnext⟩ | ⟨⟨payload, hhead, htorn⟩, hnext⟩
  · exact .inl hnil
  · refine .inr (.inl ⟨payload, more, unread, rfl, ?_, hnext⟩)
    rw [hunread, writeFrames_cons, List.append_assoc] at hbytes
    exact List.append_cancel_left hbytes
  · refine .inr (.inr ⟨fun hnil => ?_, hnext⟩)
    rw [hnil, List.append_nil] at hbytes
    rw [List.eq_cons_of_mem_head? hhead, writeFrames_cons] at hbytes
    exact htorn.not_isPrefix ⟨_, hbytes.symm⟩

theorem readEnd (h : pipe.Sound) {protocol : UInt8} (hstage : pipe.reader = .frame protocol)
    (hnext : nextFrame maxMessageSize pipe.unread = .ok (none, [])) (hended : pipe.ended = true) :
    { pipe with reader := .done (.ok ()) }.Sound := by
  obtain ⟨-, remaining, hsent, hbytes, hcases⟩ := h.nextFrame_cases hstage
  obtain ⟨hinFlight, hw⟩ := h.ended hended
  have hunread : pipe.unread = [] := by
    rcases hcases with ⟨hnil, -⟩ | ⟨_, _, _, -, -, hnext'⟩ | ⟨-, hnext'⟩
    · exact hnil
    · rw [hnext] at hnext'; cases hnext'
    · rw [hnext] at hnext'; cases hnext'
  refine ⟨⟨remaining, by rw [hsent, taken, List.append_nil], ?_⟩, h.small, h.finished, h.ended, h.orphans⟩
  cases hwriter : pipe.writer with
  | writable => exact absurd hwriter hw
  | finished =>
    rw [hunread, hinFlight, h.finished hwriter, List.nil_append, List.nil_append] at hbytes
    refine .inl ⟨rfl, rfl, ?_⟩
    cases remaining with
    | nil => rfl
    | cons payload more =>
      rw [writeFrames_cons] at hbytes
      exact absurd (List.append_eq_nil_iff.1 hbytes.symm).1 (writeFrame_ne_nil payload)
  | dropped => exact .inr ⟨rfl, .inl rfl⟩

theorem readTorn (h : pipe.Sound) {protocol : UInt8} (hstage : pipe.reader = .frame protocol)
    (hnext : nextFrame maxMessageSize pipe.unread = .error .unexpectedEof) (hended : pipe.ended = true) :
    { pipe with reader := .done (.error .unexpectedEof) }.Sound := by
  obtain ⟨-, remaining, hsent, hbytes, hcases⟩ := h.nextFrame_cases hstage
  obtain ⟨hinFlight, hw⟩ := h.ended hended
  refine ⟨⟨remaining, by rw [hsent, taken, List.append_nil], ?_⟩, h.small, h.finished, h.ended, h.orphans⟩
  have hrest : pipe.rest ≠ [] := by
    rcases hcases with ⟨-, hnext'⟩ | ⟨_, _, _, -, -, hnext'⟩ | ⟨hne, -⟩
    · rw [hnext] at hnext'; cases hnext'
    · rw [hnext] at hnext'; cases hnext'
    · rwa [hinFlight] at hne
  cases hwriter : pipe.writer with
  | writable => exact absurd hwriter hw
  | finished => exact absurd (h.finished hwriter) hrest
  | dropped => exact .inr ⟨rfl, .inr rfl⟩

theorem readMessage (h : pipe.Sound) {protocol : UInt8} (hstage : pipe.reader = .frame protocol)
    {payload unread : Bytes} (hnext : nextFrame maxMessageSize pipe.unread = .ok (some payload, unread))
    (j : ℕ) : { pipe with unread := unread, reader := .delivering protocol j payload }.Sound := by
  obtain ⟨hprotocol, remaining, hsent, -, hcases⟩ := h.nextFrame_cases hstage
  rcases hcases with ⟨-, hnext'⟩ | ⟨payload', more, unread', rfl, hbytes, hnext'⟩ | ⟨-, hnext'⟩
  · rw [hnext] at hnext'; cases hnext'
  · rw [hnext] at hnext'
    cases hnext'
    refine ⟨⟨more, ?_, hprotocol, hbytes⟩, h.small, h.finished, h.ended, h.orphans⟩
    rw [hsent, taken, List.append_assoc]
    rfl
  · rw [hnext] at hnext'; cases hnext'

theorem readOrphan (h : pipe.Sound) {protocol : UInt8} (hstage : pipe.reader = .frame protocol)
    {payload unread : Bytes} (hnext : nextFrame maxMessageSize pipe.unread = .ok (some payload, unread))
    (hnobody : ∀ h ∈ pipe.handed, h.2 = .nobody) :
    { pipe with unread := unread, reader := .frame protocol,
                handed := pipe.handed ++ [(payload, HandOver.nobody)] }.Sound := by
  obtain ⟨⟨remaining, hsent, hreads⟩, hsmall, hfinished, hended, -⟩ := h.readMessage hstage hnext 0
  refine ⟨⟨remaining, ?_, hreads⟩, hsmall, hfinished, hended, pipe.handed ++ [(payload, .nobody)], [],
    (List.append_nil _).symm, ?_, ?_⟩
  · have hsent : pipe.sent = _ := hsent
    rw [hsent, taken, taken, List.map_append, List.append_nil]
    rfl
  · intro a ha
    rcases List.mem_append.1 ha with ha | ha
    · exact hnobody a ha
    · rw [List.mem_singleton.1 ha]
  · intro a ha
    cases ha

end Sound
end WirePipe

end Zestors
