import Zestors.Lib.ListOrder
import Zestors.Lib.Lts
import Zestors.Link.Lane
import Zestors.Messaging.Pending
import Zestors.RestartLimiter

/-!
# The simulated network

What is written to a stream of a `Fabric` goes through a pipe with two tasks: one takes it from the
writer and says when it may come out, and the other waits for that, looks whether the nodes are
partitioned, and passes it on or drops it. A partition closes the connections that it falls across, so
that a chunk that is dropped is the last one that comes up. But `connect` looks at the partitions before
its delay and registers the connection after it, so that a connection may come up across a partition; a
chunk is dropped there without the connection being closed, and after `heal` the next one gets through.

No stream has a hole in the runs that drop no bytes on an open connection, and none are dropped there in
the runs that register no connection across a partition (`read_isPrefix_written`).
-/

namespace Zestors

/-- Where the task at the end of a pipe is: it waits for a chunk, for the time when the chunk may come out,
or for the partitions, or writes to the reader, or has returned. `none` is the end of the stream. -/
inductive EgressStage
  | receiving
  | sleeping (deadline : Instant) (chunk : Option Bytes)
  | checking (chunk : Option Bytes)
  | writing (bytes : Bytes)
  | ended
deriving DecidableEq

/-- The bytes that the task holds. -/
def EgressStage.bytes : EgressStage → Bytes
  | receiving | ended => []
  | sleeping _ chunk | checking chunk => chunk.getD []
  | writing bytes => bytes

/-- `PIPE_BUFFER`. -/
def pipeBuffer : ℕ := 64 * 1024

/-- A one-way pipe from `src` to `dst`. `ingress` is what its writer has written and the first task has
not taken, `egress` what the second task has passed on and the reader has not read; `taking` says that
the first task is still there. `written` and `read` are the history. -/
structure Pipe where
  conn : ℕ
  src : NodeName
  dst : NodeName
  ingress : Bytes
  finished : Bool
  taking : Bool
  last : Instant
  queue : List (Instant × Option Bytes)
  stage : EgressStage
  egress : Bytes
  readerGone : Bool
  written : Bytes
  read : Bytes
deriving DecidableEq

/-- What the tasks of a pipe see: the time, the latency of the link, and whether the connection is closed
and the link cut. -/
structure LinkView where
  now : Instant
  latency : Duration
  jitter : Duration
  closed : Bool
  cut : Bool

namespace Pipe

inductive Event
  | write (bytes : Bytes)
  | finish
  /-- `n` bytes are taken from the writer, and are held back for the latency and some of the jitter. -/
  | take (n : ℕ) (jitter : Duration)
  | takeEnd (jitter : Duration)
  | stopTaking
  | receive
  | receiveEnd
  | wake
  | check
  | pass (n : ℕ)
  | fail
  | stop
  | read (n : ℕ)
  | dropReader
deriving DecidableEq

def new (conn : ℕ) (src dst : NodeName) (now : Instant) : Pipe :=
  ⟨conn, src, dst, [], false, true, now, [], .receiving, [], false, [], []⟩

/-- When something that is taken now may come out: never before what was taken earlier. -/
def deadline (p : Pipe) (view : LinkView) (jitter : Duration) : Instant :=
  max p.last (view.now + (view.latency + jitter))

/-- Both tasks look whether the connection is closed before they wait for anything else, but not while
bytes are written to the reader. -/
def step (view : LinkView) (p : Pipe) : Event → Option Pipe
  | .write bytes =>
    if p.taking ∧ p.finished = false ∧ p.ingress.length + bytes.length ≤ pipeBuffer then
      some { p with ingress := p.ingress ++ bytes, written := p.written ++ bytes }
    else none
  | .finish => some { p with finished := true }
  | .take n jitter =>
    if p.taking ∧ view.closed = false ∧ 0 < n ∧ n ≤ p.ingress.length ∧ jitter ≤ view.jitter then
      some { p with
        ingress := p.ingress.drop n
        last := p.deadline view jitter
        queue := p.queue ++ [(p.deadline view jitter, some (p.ingress.take n))] }
    else none
  | .takeEnd jitter =>
    if p.taking ∧ view.closed = false ∧ p.finished ∧ p.ingress = [] ∧ jitter ≤ view.jitter then
      some { p with
        taking := false
        last := p.deadline view jitter
        queue := p.queue ++ [(p.deadline view jitter, none)] }
    else none
  | .stopTaking => if p.taking ∧ view.closed then some { p with taking := false } else none
  | .receive =>
    match p.stage, p.queue with
    | .receiving, (deadline, chunk) :: queue =>
      if view.closed then none else some { p with stage := .sleeping deadline chunk, queue }
    | _, _ => none
  | .receiveEnd =>
    if p.stage = .receiving ∧ p.queue = [] ∧ p.taking = false ∧ view.closed = false then
      some { p with stage := .ended }
    else none
  | .wake =>
    match p.stage with
    | .sleeping deadline chunk =>
      if deadline ≤ view.now ∧ view.closed = false then some { p with stage := .checking chunk } else none
    | _ => none
  | .check =>
    match p.stage with
    | .checking chunk =>
      if view.cut then some { p with stage := .receiving }
      else match chunk with
        | some bytes => some { p with stage := .writing bytes }
        | none => some { p with stage := .ended }
    | _ => none
  | .pass n =>
    match p.stage with
    | .writing bytes =>
      if 0 < n ∧ n ≤ bytes.length ∧ p.egress.length + n ≤ pipeBuffer ∧ p.readerGone = false then
        some { p with
          egress := p.egress ++ bytes.take n
          stage := if n = bytes.length then .receiving else .writing (bytes.drop n) }
      else none
    | _ => none
  | .fail =>
    match p.stage with
    | .writing _ => if p.readerGone then some { p with stage := .ended } else none
    | _ => none
  | .stop =>
    match p.stage with
    | .receiving | .sleeping _ _ => if view.closed then some { p with stage := .ended } else none
    | _ => none
  | .read n =>
    if p.readerGone = false ∧ n ≤ p.egress.length then
      some { p with egress := p.egress.drop n, read := p.read ++ p.egress.take n }
    else none
  | .dropReader => some { p with readerGone := true }

theorem ends_of_step {view : LinkView} {p p' : Pipe} {e : Event} (hs : p.step view e = some p') :
    p'.conn = p.conn ∧ p'.src = p.src ∧ p'.dst = p.dst := by
  cases e
  all_goals
    simp only [step] at hs
    repeat' split at hs
  all_goals cases hs <;> exact ⟨rfl, rfl, rfl⟩

/-- What is on the way to the reader. -/
def upcoming (p : Pipe) : Bytes :=
  p.stage.bytes ++ (p.queue.flatMap fun item => item.2.getD []) ++ p.ingress

/-- Nothing is missing up to what was passed on, and nothing of what follows, unless nothing more is passed
on. -/
structure Whole (closed : Bool) (p : Pipe) : Prop where
  passed : p.read ++ p.egress <+: p.written
  rest : p.stage = .ended ∨ (closed = true ∧ p.stage = .receiving) ∨
    p.read ++ p.egress ++ p.upcoming = p.written

/-- `check` drops no bytes, unless the connection is closed. -/
def Keeps (view : LinkView) (p : Pipe) : Event → Prop
  | .check => view.cut = true → p.stage.bytes ≠ [] → view.closed = true
  | _ => True

namespace Whole
variable {view : LinkView} {closed : Bool} {p p' : Pipe}

theorem new (conn : ℕ) (src dst : NodeName) (now : Instant) : (new conn src dst now).Whole closed :=
  ⟨List.prefix_rfl, .inr (.inr rfl)⟩

theorem close (h : p.Whole closed) : p.Whole true :=
  ⟨h.passed, h.rest.imp_right (Or.imp_left fun hclosed => ⟨rfl, hclosed.2⟩)⟩

theorem isPrefix (h : p.Whole closed) : p.read <+: p.written :=
  (List.prefix_append _ _).trans h.passed

/-- What is neither closed nor ended has everything that is still to come. -/
theorem eq_of_stage (h : p.Whole closed) (hended : p.stage ≠ .ended)
    (hclosed : closed = false ∨ p.stage ≠ .receiving) : p.read ++ p.egress ++ p.upcoming = p.written := by
  rcases h.rest with hrest | ⟨hc, hrest⟩ | hrest
  · exact absurd hrest hended
  · rcases hclosed with hclosed | hclosed
    · rw [hclosed] at hc
      cases hc
    · exact absurd hrest hclosed
  · exact hrest

theorem of_upcoming (h : p.Whole closed) {bytes : Bytes} (hstage : p'.stage = p.stage)
    (hout : p'.read ++ p'.egress = p.read ++ p.egress) (hup : p'.upcoming = p.upcoming ++ bytes)
    (hwritten : p'.written = p.written ++ bytes) : p'.Whole closed := by
  constructor
  · rw [hout, hwritten]
    exact h.passed.trans (List.prefix_append _ _)
  · rw [hstage, hout, hup, hwritten]
    exact h.rest.imp_right (Or.imp_right fun hrest => by rw [← List.append_assoc, hrest])

theorem of_ended (h : p.Whole closed) (hended : p'.stage = .ended) (hread : p'.read = p.read)
    (hegress : p'.egress = p.egress) (hwritten : p'.written = p.written) : p'.Whole closed :=
  ⟨by rw [hread, hegress, hwritten]; exact h.passed, .inl hended⟩

theorem of_eq (hrest : p'.read ++ p'.egress ++ p'.upcoming = p'.written) : p'.Whole closed :=
  ⟨⟨p'.upcoming, hrest⟩, .inr (.inr hrest)⟩

theorem step {e : Event} (h : p.Whole view.closed) (hkeeps : p.Keeps view e)
    (hs : p.step view e = some p') : p'.Whole view.closed := by
  cases e with
  | write bytes =>
    simp only [Pipe.step] at hs
    split_ifs at hs
    cases hs
    exact h.of_upcoming rfl rfl (by simp [upcoming]) rfl
  | finish =>
    cases hs
    exact h.of_upcoming rfl rfl (List.append_nil _).symm (List.append_nil _).symm
  | take n jitter =>
    simp only [Pipe.step] at hs
    split_ifs at hs
    cases hs
    exact h.of_upcoming rfl rfl (by simp [upcoming]) (List.append_nil _).symm
  | takeEnd jitter =>
    simp only [Pipe.step] at hs
    split_ifs at hs
    cases hs
    exact h.of_upcoming rfl rfl (by simp [upcoming]) (List.append_nil _).symm
  | stopTaking =>
    simp only [Pipe.step] at hs
    split_ifs at hs
    cases hs
    exact h.of_upcoming rfl rfl (List.append_nil _).symm (List.append_nil _).symm
  | receive =>
    simp only [Pipe.step] at hs
    split at hs
    · rename_i deadline chunk queue hstage hqueue
      split_ifs at hs with hclosed
      cases hs
      have hrest := h.eq_of_stage (by simp [hstage]) (.inl (by simpa using hclosed))
      refine of_eq ?_
      simpa [upcoming, hstage, hqueue, EgressStage.bytes] using hrest
    · cases hs
  | receiveEnd =>
    simp only [Pipe.step] at hs
    split_ifs at hs
    cases hs
    exact h.of_ended rfl rfl rfl rfl
  | wake =>
    simp only [Pipe.step] at hs
    split at hs
    · rename_i deadline chunk hstage
      split_ifs at hs
      cases hs
      have hrest := h.eq_of_stage (by simp [hstage]) (.inr (by simp [hstage]))
      refine of_eq ?_
      simpa [upcoming, hstage, EgressStage.bytes] using hrest
    · cases hs
  | check =>
    simp only [Pipe.step] at hs
    split at hs
    · rename_i chunk hstage
      have hrest := h.eq_of_stage (by simp [hstage]) (.inr (by simp [hstage]))
      split_ifs at hs with hcut
      · cases hs
        by_cases hbytes : p.stage.bytes = []
        · rw [upcoming, hbytes] at hrest
          exact of_eq hrest
        · exact ⟨h.passed, .inr (.inl ⟨hkeeps hcut hbytes, rfl⟩)⟩
      · cases chunk with
        | some bytes =>
          cases hs
          refine of_eq ?_
          simpa [upcoming, hstage, EgressStage.bytes] using hrest
        | none =>
          cases hs
          exact h.of_ended rfl rfl rfl rfl
    · cases hs
  | pass n =>
    simp only [Pipe.step] at hs
    split at hs
    · rename_i bytes hstage
      have hrest := h.eq_of_stage (by simp [hstage]) (.inr (by simp [hstage]))
      split_ifs at hs with hn hlen
      · cases hs
        refine of_eq ?_
        simpa [upcoming, hstage, hlen, EgressStage.bytes] using hrest
      · cases hs
        refine of_eq ?_
        rw [← hrest]
        simp only [upcoming, hstage, EgressStage.bytes, List.append_assoc]
        rw [← List.append_assoc (bytes.take n), List.take_append_drop]
    · cases hs
  | fail =>
    simp only [Pipe.step] at hs
    split at hs
    · split_ifs at hs
      cases hs
      exact h.of_ended rfl rfl rfl rfl
    · cases hs
  | stop =>
    simp only [Pipe.step] at hs
    split at hs
    · split_ifs at hs
      cases hs
      exact h.of_ended rfl rfl rfl rfl
    · split_ifs at hs
      cases hs
      exact h.of_ended rfl rfl rfl rfl
    · cases hs
  | read n =>
    simp only [Pipe.step] at hs
    split_ifs at hs
    cases hs
    exact h.of_upcoming rfl (by simp) (List.append_nil _).symm (List.append_nil _).symm
  | dropReader =>
    cases hs
    exact h.of_upcoming rfl rfl (List.append_nil _).symm (List.append_nil _).symm

end Whole

end Pipe

/-- A `connect` that waits until `deadline`. -/
structure Dial where
  src : NodeName
  dst : NodeName
  deadline : Instant
deriving DecidableEq

/-- What both ends of a connection share. -/
structure Pair where
  dialer : NodeName
  acceptor : NodeName
  closed : Bool
deriving DecidableEq

/-- A connection is closed if its nodes are partitioned. -/
def Pair.cut (partitions : List (NodeName × NodeName)) (pair : Pair) : Pair :=
  if (pair.dialer, pair.acceptor) ∈ partitions then { pair with closed := true } else pair

theorem Pair.cut_spec (partitions : List (NodeName × NodeName)) (pair : Pair) :
    (pair.cut partitions).dialer = pair.dialer ∧ (pair.cut partitions).acceptor = pair.acceptor ∧
      (pair.closed = true → (pair.cut partitions).closed = true) := by
  unfold Pair.cut
  split_ifs
  · exact ⟨rfl, rfl, fun _ => rfl⟩
  · exact ⟨rfl, rfl, id⟩

structure Listener where
  node : NodeName
  instance_ : ℕ
deriving DecidableEq

/-- `Fabric`, with everything that is bound to it. Connections and pipes are numbered in the order in which
they are made. -/
structure Fabric where
  now : Instant
  listeners : NodeAddr → Option Listener
  partitions : List (NodeName × NodeName)
  dials : List Dial
  pairs : List Pair
  pipes : List Pipe
  latency : Duration
  jitter : Duration
  nextInstance : ℕ

namespace Fabric

inductive Event
  | advance (duration : Duration)
  | setLatency (latency jitter : Duration)
  | partition (a b : List NodeName)
  | heal
  | bind (node : NodeName) (addr : NodeAddr)
  /-- The endpoint of this instance is dropped. -/
  | unbind (addr : NodeAddr) (instance_ : ℕ)
  /-- The `connect` of `node`, up to its delay. -/
  | connect (node : NodeName) (addr : NodeAddr) (target : NodeName) (jitter : Duration)
  /-- The caller of a `connect` that is delayed drops it. -/
  | giveUp (dial : ℕ)
  /-- The delay of a `connect` is over, and its connection is registered. -/
  | register (dial : ℕ)
  /-- One end of a connection is closed or dropped, or its endpoint is. -/
  | close (conn : ℕ)
  | openStream (conn : ℕ) (byDialer : Bool)
  | pipe (i : ℕ) (e : Pipe.Event)
deriving DecidableEq

/-- `Fabric::new`. -/
def new : Fabric := ⟨0, fun _ => none, [], [], [], [], 1000000, 0, 0⟩

def partition (s : Fabric) (a b : List NodeName) : Fabric :=
  let partitions := (a.flatMap fun x => b.flatMap fun y => [(x, y), (y, x)]) ++ s.partitions
  { s with partitions, pairs := s.pairs.map (Pair.cut partitions) }

def bind (s : Fabric) (node : NodeName) (addr : NodeAddr) : Fabric :=
  { s with
    listeners := Function.update s.listeners addr (some ⟨node, s.nextInstance⟩)
    nextInstance := s.nextInstance + 1 }

def view (s : Fabric) (p : Pipe) (pair : Pair) : LinkView :=
  ⟨s.now, s.latency, s.jitter, pair.closed, decide ((p.src, p.dst) ∈ s.partitions)⟩

def step (s : Fabric) : Event → Option Fabric
  | .advance duration => some { s with now := s.now + duration }
  | .setLatency latency jitter => some { s with latency, jitter }
  | .partition a b => some (s.partition a b)
  | .heal => some { s with partitions := [] }
  | .bind node addr => some (s.bind node addr)
  | .unbind addr instance_ => do
    let listener ← s.listeners addr
    if listener.instance_ = instance_ then
      some { s with listeners := Function.update s.listeners addr none }
    else some s
  | .connect node addr target jitter => do
    let listener ← s.listeners addr
    if listener.node = target ∧ (node, target) ∉ s.partitions ∧ jitter ≤ s.jitter then
      some { s with dials := s.dials ++ [⟨node, target, s.now + (s.latency + jitter)⟩] }
    else none
  | .giveUp dial => some { s with dials := s.dials.eraseIdx dial }
  | .register dial => do
    let d ← s.dials[dial]?
    if d.deadline ≤ s.now then
      some { s with dials := s.dials.eraseIdx dial, pairs := s.pairs ++ [⟨d.src, d.dst, false⟩] }
    else none
  | .close conn => some { s with pairs := s.pairs.modify conn fun pair => { pair with closed := true } }
  | .openStream conn byDialer => do
    let pair ← s.pairs[conn]?
    if pair.closed then none
    else
      let ends := if byDialer then (pair.dialer, pair.acceptor) else (pair.acceptor, pair.dialer)
      some { s with pipes := s.pipes ++ [.new conn ends.1 ends.2 s.now, .new conn ends.2 ends.1 s.now] }
  | .pipe i e => do
    let p ← s.pipes[i]?
    let pair ← s.pairs[p.conn]?
    let p' ← p.step (s.view p pair) e
    some { s with pipes := s.pipes.set i p' }

/-- The runs of the simulation. -/
def runs : Lts Fabric Event := .ofFun (· = new) step

/-- What is read from a stream is a beginning of what was written to it. -/
def NoHoles (s : Fabric) : Prop := ∀ p ∈ s.pipes, p.read <+: p.written

instance (s : Fabric) : Decidable s.NoHoles := by unfold NoHoles; infer_instance

/-- No bytes are dropped on a connection that is open. -/
def DropsOnlyClosed (s : Fabric) : Event → Prop
  | .pipe i .check => ∀ p ∈ s.pipes[i]?, ∀ pair ∈ s.pairs[p.conn]?,
      (p.src, p.dst) ∈ s.partitions → p.stage.bytes ≠ [] → pair.closed = true
  | _ => True

/-- No connection is registered across a partition. -/
def RegistersUncut (s : Fabric) : Event → Prop
  | .register dial => ∀ d ∈ s.dials[dial]?, (d.src, d.dst) ∉ s.partitions
  | _ => True

instance (s : Fabric) : (e : Event) → Decidable (s.DropsOnlyClosed e)
  | .pipe i .check => inferInstanceAs (Decidable (∀ p ∈ s.pipes[i]?, ∀ pair ∈ s.pairs[p.conn]?,
      (p.src, p.dst) ∈ s.partitions → p.stage.bytes ≠ [] → pair.closed = true))
  | .pipe _ (.write _) | .pipe _ .finish | .pipe _ (.take _ _) | .pipe _ (.takeEnd _) | .pipe _ .stopTaking
  | .pipe _ .receive | .pipe _ .receiveEnd | .pipe _ .wake | .pipe _ (.pass _) | .pipe _ .fail
  | .pipe _ .stop | .pipe _ (.read _) | .pipe _ .dropReader => isTrue trivial
  | .advance _ | .setLatency _ _ | .partition _ _ | .heal | .bind _ _ | .unbind _ _ | .connect _ _ _ _
  | .giveUp _ | .register _ | .close _ | .openStream _ _ => isTrue trivial

instance (s : Fabric) : (e : Event) → Decidable (s.RegistersUncut e)
  | .register dial => inferInstanceAs (Decidable (∀ d ∈ s.dials[dial]?, (d.src, d.dst) ∉ s.partitions))
  | .advance _ | .setLatency _ _ | .partition _ _ | .heal | .bind _ _ | .unbind _ _ | .connect _ _ _ _
  | .giveUp _ | .close _ | .openStream _ _ | .pipe _ _ => isTrue trivial

variable {s s' : Fabric} {e : Event}

/-- Every connection is still there, and as closed as before. -/
def PairsKept (s s' : Fabric) : Prop :=
  ∀ (c : ℕ) (pair : Pair), s.pairs[c]? = some pair → ∃ pair', s'.pairs[c]? = some pair' ∧
    pair'.dialer = pair.dialer ∧ pair'.acceptor = pair.acceptor ∧ (pair.closed = true → pair'.closed = true)

/-- A step as far as the partitions, the connections and the pipes are concerned. -/
inductive Moves (s : Fabric) : Event → Fabric → Prop
  | same {e : Event} {s' : Fabric} (hpartitions : s'.partitions = s.partitions) (hpairs : s'.pairs = s.pairs)
      (hpipes : s'.pipes = s.pipes) : Moves s e s'
  | partition (a b : List NodeName) : Moves s (.partition a b) (s.partition a b)
  | heal : Moves s .heal { s with partitions := [] }
  | register {dial : ℕ} {d : Dial} (hd : s.dials[dial]? = some d) :
      Moves s (.register dial)
        { s with dials := s.dials.eraseIdx dial, pairs := s.pairs ++ [⟨d.src, d.dst, false⟩] }
  | close (conn : ℕ) :
      Moves s (.close conn) { s with pairs := s.pairs.modify conn fun pair => { pair with closed := true } }
  | openStream {conn : ℕ} {byDialer : Bool} {pair : Pair} {src dst : NodeName}
      (hpair : s.pairs[conn]? = some pair)
      (hends : (src, dst) = (pair.dialer, pair.acceptor) ∨ (src, dst) = (pair.acceptor, pair.dialer)) :
      Moves s (.openStream conn byDialer)
        { s with pipes := s.pipes ++ [.new conn src dst s.now, .new conn dst src s.now] }
  | pipe {i : ℕ} {pe : Pipe.Event} {p p' : Pipe} {pair : Pair} (hp : s.pipes[i]? = some p)
      (hpair : s.pairs[p.conn]? = some pair) (hp' : p.step (s.view p pair) pe = some p') :
      Moves s (.pipe i pe) { s with pipes := s.pipes.set i p' }

theorem moves_of_step (hs : s.step e = some s') : s.Moves e s' := by
  cases e with
  | advance duration => cases hs; exact .same rfl rfl rfl
  | setLatency latency jitter => cases hs; exact .same rfl rfl rfl
  | partition a b => cases hs; exact .partition a b
  | heal => cases hs; exact .heal
  | bind node addr => cases hs; exact .same rfl rfl rfl
  | unbind addr instance_ =>
    obtain ⟨listener, -, hs⟩ := Option.bind_eq_some_iff.1 hs
    split_ifs at hs <;> cases hs <;> exact .same rfl rfl rfl
  | connect node addr target jitter =>
    obtain ⟨listener, -, hs⟩ := Option.bind_eq_some_iff.1 hs
    split_ifs at hs
    cases hs
    exact .same rfl rfl rfl
  | giveUp dial => cases hs; exact .same rfl rfl rfl
  | register dial =>
    obtain ⟨d, hd, hs⟩ := Option.bind_eq_some_iff.1 hs
    split_ifs at hs
    cases hs
    exact .register hd
  | close conn => cases hs; exact .close conn
  | openStream conn byDialer =>
    obtain ⟨pair, hpair, hs⟩ := Option.bind_eq_some_iff.1 hs
    split_ifs at hs
    · cases hs
      exact .openStream hpair (.inl rfl)
    · cases hs
      exact .openStream hpair (.inr rfl)
  | pipe i pe =>
    obtain ⟨p, hp, hs⟩ := Option.bind_eq_some_iff.1 hs
    obtain ⟨pair, hpair, hs⟩ := Option.bind_eq_some_iff.1 hs
    obtain ⟨p', hp', hs⟩ := Option.bind_eq_some_iff.1 hs
    cases hs
    exact .pipe hp hpair hp'

theorem Moves.pairsKept (h : s.Moves e s') : PairsKept s s' := by
  intro c pair hpair
  cases h with
  | same _ hpairs _ => exact ⟨pair, hpairs ▸ hpair, rfl, rfl, id⟩
  | partition a b =>
    exact ⟨_, (List.getElem?_map ..).trans (congrArg (Option.map _) hpair), Pair.cut_spec _ pair⟩
  | register _ =>
    have hc := (List.getElem?_eq_some_iff.1 hpair).1
    exact ⟨pair, (List.getElem?_append_left hc).trans hpair, rfl, rfl, id⟩
  | close conn =>
    by_cases hc : conn = c
    · subst hc
      refine ⟨{ pair with closed := true }, ?_, rfl, rfl, fun _ => rfl⟩
      rw [List.getElem?_modify_eq, hpair]
      rfl
    · exact ⟨pair, (List.getElem?_modify_ne _ _ hc).trans hpair, rfl, rfl, id⟩
  | heal => exact ⟨pair, hpair, rfl, rfl, id⟩
  | openStream _ _ => exact ⟨pair, hpair, rfl, rfl, id⟩
  | pipe _ _ _ => exact ⟨pair, hpair, rfl, rfl, id⟩

/-- What holds of a pipe and its connection whatever becomes of the connection holds of all pipes if it
holds of new ones and every step of a pipe keeps it. -/
theorem Moves.forall_pipes {P : Pipe → Pair → Prop} (h : s.Moves e s')
    (hkept : ∀ p pair pair', pair'.dialer = pair.dialer → pair'.acceptor = pair.acceptor →
      (pair.closed = true → pair'.closed = true) → P p pair → P p pair')
    (hnew : ∀ conn src dst pair, (src, dst) = (pair.dialer, pair.acceptor) ∨
      (src, dst) = (pair.acceptor, pair.dialer) → P (.new conn src dst s.now) pair)
    (hstep : ∀ i pe p pair p', e = .pipe i pe → s.pipes[i]? = some p → s.pairs[p.conn]? = some pair →
      p.step (s.view p pair) pe = some p' → P p pair → P p' pair)
    (hs : ∀ p ∈ s.pipes, ∃ pair, s.pairs[p.conn]? = some pair ∧ P p pair) :
    ∀ p ∈ s'.pipes, ∃ pair, s'.pairs[p.conn]? = some pair ∧ P p pair := by
  have hlater : ∀ (p : Pipe) pair, s.pairs[p.conn]? = some pair → P p pair →
      ∃ pair', s'.pairs[p.conn]? = some pair' ∧ P p pair' := by
    intro p pair hpair hP
    obtain ⟨pair', hpair', hdialer, hacceptor, hclosed⟩ := h.pairsKept p.conn pair hpair
    exact ⟨pair', hpair', hkept p pair pair' hdialer hacceptor hclosed hP⟩
  have hold : ∀ p ∈ s.pipes, ∃ pair', s'.pairs[p.conn]? = some pair' ∧ P p pair' := by
    intro p hp
    obtain ⟨pair, hpair, hP⟩ := hs p hp
    exact hlater p pair hpair hP
  intro q hq
  cases h with
  | same _ _ hpipes => exact hold q (hpipes ▸ hq)
  | partition a b => exact hold q hq
  | heal => exact hold q hq
  | register _ => exact hold q hq
  | close conn => exact hold q hq
  | @openStream conn _ pair src dst hpair hends =>
    rcases List.mem_append.1 hq with hq | hq
    · exact hold q hq
    rcases List.mem_pair.1 hq with rfl | rfl
    · exact hlater _ pair hpair (hnew conn src dst pair hends)
    · refine hlater _ pair hpair (hnew conn dst src pair (hends.symm.imp ?_ ?_))
      all_goals
        intro heq
        cases heq
        rfl
  | @pipe i pe p p' pair hp hpair hp' =>
    rcases List.mem_or_eq_of_mem_set hq with hq | rfl
    · exact hold q hq
    · obtain ⟨pair₀, hpair₀, hP⟩ := hs p (List.mem_of_getElem? hp)
      obtain rfl : pair₀ = pair := Option.some.inj (hpair₀.symm.trans hpair)
      exact hlater q pair₀ ((Pipe.ends_of_step hp').1 ▸ hpair) (hstep i pe p pair₀ q rfl hp hpair hp' hP)

/-- Every pipe is whole, as far as its connection is open. -/
def PipesWhole (s : Fabric) : Prop :=
  ∀ p ∈ s.pipes, ∃ pair, s.pairs[p.conn]? = some pair ∧ p.Whole pair.closed

theorem PipesWhole.noHoles (h : s.PipesWhole) : s.NoHoles := by
  intro p hp
  obtain ⟨pair, -, hwhole⟩ := h p hp
  exact hwhole.isPrefix

theorem PipesWhole.step (h : s.PipesWhole) (hdrops : s.DropsOnlyClosed e) (hs : s.step e = some s') :
    s'.PipesWhole := by
  refine (moves_of_step hs).forall_pipes ?_ ?_ ?_ h
  · intro p pair pair' _ _ hclosed hwhole
    cases hclosed' : pair'.closed with
    | true => exact hwhole.close
    | false =>
      cases hclosed'' : pair.closed with
      | true => rw [hclosed hclosed''] at hclosed'; cases hclosed'
      | false => rwa [hclosed''] at hwhole
  · intro conn src dst pair _
    exact .new conn src dst s.now
  · intro i pe p pair p' he hp hpair hp' hwhole
    subst he
    have hkeeps : p.Keeps (s.view p pair) pe := by
      cases pe with
      | check => exact fun hcut => hdrops p hp pair hpair (of_decide_eq_true hcut)
      | _ => trivial
    exact hwhole.step hkeeps hp'

/-- No open connection has a partition across it. -/
structure Uncut (s : Fabric) : Prop where
  symm : ∀ x y, (x, y) ∈ s.partitions → (y, x) ∈ s.partitions
  closed : ∀ pair ∈ s.pairs, (pair.dialer, pair.acceptor) ∈ s.partitions → pair.closed = true
  ends : ∀ p ∈ s.pipes, ∃ pair, s.pairs[p.conn]? = some pair ∧
    ((p.src, p.dst) = (pair.dialer, pair.acceptor) ∨ (p.src, p.dst) = (pair.acceptor, pair.dialer))

theorem Uncut.dropsOnlyClosed (h : s.Uncut) (e : Event) : s.DropsOnlyClosed e := by
  cases e with
  | pipe i pe =>
    cases pe with
    | check =>
      intro p hp pair hpair hcut _
      obtain ⟨pair₀, hpair₀, hends⟩ := h.ends p (List.mem_of_getElem? hp)
      obtain rfl : pair₀ = pair := Option.some.inj (hpair₀.symm.trans hpair)
      refine h.closed pair₀ (List.mem_of_getElem? hpair) ?_
      rcases hends with hends | hends
      · rwa [hends] at hcut
      · rw [hends] at hcut
        exact h.symm _ _ hcut
    | _ => trivial
  | _ => trivial

theorem Uncut.step (h : s.Uncut) (hregisters : s.RegistersUncut e) (hs : s.step e = some s') :
    s'.Uncut := by
  have hmoves := moves_of_step hs
  have hends : ∀ p ∈ s'.pipes, ∃ pair, s'.pairs[p.conn]? = some pair ∧
      ((p.src, p.dst) = (pair.dialer, pair.acceptor) ∨
        (p.src, p.dst) = (pair.acceptor, pair.dialer)) := by
    refine hmoves.forall_pipes ?_ ?_ ?_ h.ends
    · intro p pair pair' hdialer hacceptor _ hends
      rwa [hdialer, hacceptor]
    · exact fun conn src dst pair hends => hends
    · intro i pe p pair p' _ _ _ hp' hends
      obtain ⟨-, hsrc, hdst⟩ := Pipe.ends_of_step hp'
      rwa [hsrc, hdst]
  cases hmoves with
  | same hpartitions hpairs hpipes => exact ⟨hpartitions ▸ h.symm, hpartitions ▸ hpairs ▸ h.closed, hends⟩
  | partition a b =>
    refine ⟨fun x y hxy => ?_, fun pair hpair hcut => ?_, hends⟩
    · rcases List.mem_append.1 hxy with hxy | hxy
      · refine List.mem_append_left _ ?_
        simp only [List.mem_flatMap, List.mem_pair, Prod.mk.injEq] at hxy ⊢
        obtain ⟨u, hu, v, hv, hxy⟩ := hxy
        exact ⟨u, hu, v, hv, hxy.symm.imp And.symm And.symm⟩
      · exact List.mem_append_right _ (h.symm x y hxy)
    · obtain ⟨pair, -, rfl⟩ := List.mem_map.1 hpair
      unfold Pair.cut at hcut ⊢
      split_ifs at hcut ⊢ with hmem
      · rfl
      · exact absurd hcut hmem
  | heal =>
    exact ⟨fun x y hxy => absurd hxy List.not_mem_nil, fun pair _ hcut => absurd hcut List.not_mem_nil, hends⟩
  | @register dial d hd =>
    refine ⟨h.symm, fun pair hpair hcut => ?_, hends⟩
    rcases List.mem_append.1 hpair with hpair | hpair
    · exact h.closed pair hpair hcut
    · rw [List.mem_singleton.1 hpair] at hcut
      exact absurd hcut (hregisters d hd)
  | close conn =>
    refine ⟨h.symm, fun pair hpair hcut => ?_, hends⟩
    obtain ⟨c, hc⟩ := List.mem_iff_getElem?.1 hpair
    by_cases hconn : conn = c
    · subst hconn
      rw [List.getElem?_modify_eq, Option.map_eq_map, Option.map_eq_some_iff] at hc
      obtain ⟨pair, -, rfl⟩ := hc
      rfl
    · rw [List.getElem?_modify_ne _ _ hconn] at hc
      exact h.closed pair (List.mem_of_getElem? hc) hcut
  | openStream _ _ => exact ⟨h.symm, h.closed, hends⟩
  | pipe _ _ _ => exact ⟨h.symm, h.closed, hends⟩

/-- Nothing is missing in what is read from a stream, where no bytes are dropped on an open connection; and
none are where no connection is registered across a partition. -/
theorem read_isPrefix_written (s : Fabric)
    (h : (runs.guard DropsOnlyClosed).Reachable s ∨ (runs.guard RegistersUncut).Reachable s) :
    s.NoHoles := by
  have hnew : PipesWhole new := fun p hp => absurd hp List.not_mem_nil
  rcases h with h | h
  · refine PipesWhole.noHoles (h.guard_invariant ?_ fun s e s' hs hdrops hstep => hs.step hdrops hstep)
    rintro _ rfl
    exact hnew
  · refine PipesWhole.noHoles (h.guard_invariant (I := fun s => s.PipesWhole ∧ s.Uncut) ?_ ?_).1
    · rintro _ rfl
      refine ⟨hnew, ?_, ?_, ?_⟩
      · exact fun x y hxy => absurd hxy List.not_mem_nil
      · exact fun pair hpair => absurd hpair List.not_mem_nil
      · exact fun p hp => absurd hp List.not_mem_nil
    · intro s e s' hs hregisters hstep
      exact ⟨hs.1.step (hs.2.dropsOnlyClosed e) hstep, hs.2.step hregisters hstep⟩

/-- A connection comes up across a partition, and is used after it; and a chunk is lost to a partition. -/
theorem read_isPrefix_written_lost :
    (∃ s, (runs.guard DropsOnlyClosed).Reachable s ∧
      s.pipes.map (fun p => (p.written, p.read)) = [([1], [1]), ([], [])] ∧ s.NoHoles) ∧
    ∃ s, (runs.guard RegistersUncut).Reachable s ∧
      s.pipes.map (fun p => (p.written, p.read)) = [([1, 2], [1]), ([], [])] ∧ s.NoHoles := by
  constructor
  · obtain ⟨s, hs, h⟩ : ∃ s, (runs.guard DropsOnlyClosed).Reachable s ∧ _ :=
      Lts.exists_guard_reachable_of_exec (f := step)
        (p := fun s => s.pipes.map (fun p => (p.written, p.read)) = [([1], [1]), ([], [])]) (s := new) rfl
        [.bind "b" "b:7000", .connect "a" "b:7000" "b" 0, .partition ["a"] ["b"], .advance 1000000,
          .register 0, .openStream 0 true, .heal, .pipe 0 (.write [1]), .pipe 0 (.take 1 0), .pipe 0 .receive,
          .advance 1000000, .pipe 0 .wake, .pipe 0 .check, .pipe 0 (.pass 1), .pipe 0 (.read 1)]
        (by decide +kernel)
    exact ⟨s, hs, h, read_isPrefix_written s (.inl hs)⟩
  · obtain ⟨s, hs, h⟩ : ∃ s, (runs.guard RegistersUncut).Reachable s ∧ _ :=
      Lts.exists_guard_reachable_of_exec (f := step)
        (p := fun s => s.pipes.map (fun p => (p.written, p.read)) = [([1, 2], [1]), ([], [])]) (s := new) rfl
        [.bind "b" "b:7000", .connect "a" "b:7000" "b" 0, .advance 1000000, .register 0, .openStream 0 true,
          .pipe 0 (.write [1]), .pipe 0 (.take 1 0), .pipe 0 .receive, .advance 1000000, .pipe 0 .wake,
          .pipe 0 .check, .pipe 0 (.pass 1), .pipe 0 (.read 1), .pipe 0 (.write [2]), .pipe 0 (.take 1 0),
          .pipe 0 .receive, .advance 1000000, .pipe 0 .wake, .partition ["a"] ["b"], .pipe 0 .check, .heal,
          .pipe 0 .stop]
        (by decide +kernel)
    exact ⟨s, hs, h, read_isPrefix_written s (.inr hs)⟩

/-- The nodes are partitioned while one of them dials the other. What is written first is dropped, and what
is written after `heal` is read. -/
theorem not_noHoles : ¬ ∀ s, runs.Reachable s → s.NoHoles :=
  Lts.not_invariant_of_exec (f := step) (s := new) rfl
    [.bind "b" "b:7000", .connect "a" "b:7000" "b" 0, .partition ["a"] ["b"], .advance 1000000,
      .register 0, .openStream 0 true, .pipe 0 (.write [1]), .pipe 0 (.take 1 0), .pipe 0 .receive,
      .advance 1000000, .pipe 0 .wake, .pipe 0 .check, .heal, .pipe 0 (.write [2]), .pipe 0 (.take 1 0),
      .pipe 0 .receive, .advance 1000000, .pipe 0 .wake, .pipe 0 .check, .pipe 0 (.pass 1), .pipe 0 (.read 1)]
    (by decide +kernel)

end Fabric

end Zestors
