import Zestors.Channel.Receive

/-!
# The loop of a handler

`FullHandlerContext::run` over the receives of the inbox: the initialization raced with the signals,
the `select!` between the inbox and the handler's own events, and the calls of the hooks, of which the
results are anything. Neither a hook panics nor is the actor aborted.

`hookTrace_of_reachable` says what the calls look like in every run.
-/

namespace Zestors

/-- Why a handler exits. -/
inductive HandlerExit (R : Type)
  | normal
  | initError (report : R)
  | initCancelled
  | handlerError (report : R)
deriving DecidableEq

/-- A call of a hook, of a message's handler or of an event's. -/
inductive HookCall (I E R : Type)
  | init
  | handle (msg : I)
  | event (event : E)
  | onResume
  | onSuspend
  | onShutdown
  | exit (reason : HandlerExit R)
deriving DecidableEq

namespace HookCall
variable {I E R : Type}

/-- What is called between `init` and `exit`. -/
def isBody : HookCall I E R → Bool
  | init | exit _ => false
  | handle _ | event _ | onResume | onSuspend | onShutdown => true

def handled? : HookCall I E R → Option I
  | handle msg => some msg
  | _ => none

end HookCall

/-- Where the loop is: in the `select!` of `init`, in the one of `run_once`, of which the branch of the
events may be disabled, or in a call. -/
inductive LoopStage
  | init
  | select (events : Bool)
  | hook
  | exiting
  | done
deriving DecidableEq

/-- A handler and its inbox. `trace` has the calls so far; the rest are ghosts: what `init` returned,
the errors of the hooks, events and handlers after it, the signals received during `init`, and all
messages that had been pushed by each call of `on_shutdown`. -/
structure HandlerLoop (I E R : Type) where
  inbox : Receiver I
  stage : LoopStage
  trace : List (HookCall I E R)
  initResult : Option (Except R Unit)
  errors : List R
  initSignals : List Signal
  shutdowns : List (List I)

namespace HandlerLoop
variable {I E R : Type} {s s' : HandlerLoop I E R}

/-- The actor was spawned, and `init` is called. -/
def new : HandlerLoop I E R := ⟨.new, .init, [.init], none, [], [], []⟩

inductive Event (I E R : Type)
  | pushMsg (msg : I)
  | pushSignal (signal : SignalInterface)
  /-- The receive of the `select!` is polled for the first time. -/
  | receive
  | poll
  | wake (signal msg : Bool)
  | initReturns (result : Except R Unit)
  /-- `next_event` is ready. -/
  | nextEvent (event : Option (Except R E))
  | hookReturns (result : Except R Unit)
  | exitReturns

variable {e : Event I E R}

def call (s : HandlerLoop I E R) (hook : HookCall I E R) : HandlerLoop I E R :=
  { s with stage := .hook, trace := s.trace ++ [hook] }

def exit (s : HandlerLoop I E R) (reason : HandlerExit R) : HandlerLoop I E R :=
  { s with stage := .exiting, trace := s.trace ++ [.exit reason] }

/-- A hook, an event or a handler returns an error. -/
def fail (s : HandlerLoop I E R) (report : R) : HandlerLoop I E R :=
  { s with errors := s.errors ++ [report] }.exit (.handlerError report)

/-- The loop of signals in `init` gets what `recv_signal` returns, which is never a message. -/
def onInitSignal (s : HandlerLoop I E R) : Option (InboxEventOf I) → HandlerLoop I E R
  | some (.signal .shutdown) =>
    { s with initSignals := s.initSignals ++ [Signal.shutdown] }.exit .initCancelled
  | some (.signal signal) => { s with initSignals := s.initSignals ++ [signal] }
  | none | some (.message _) => s.exit .initCancelled

/-- `run_once` gets what `recv_event` returns. -/
def onInboxEvent (s : HandlerLoop I E R) : Option (InboxEventOf I) → HandlerLoop I E R
  | none => s.exit .normal
  | some (.signal .resume) => s.call .onResume
  | some (.signal .suspend) => s.call .onSuspend
  | some (.signal .shutdown) =>
    { s with shutdowns := s.shutdowns ++ [s.inbox.pushed] }.call .onShutdown
  | some (.message msg) => s.call (.handle msg)

/-- The inbox has taken a step; if that has ended the receive, the loop goes on with the result. -/
def afterInbox (s : HandlerLoop I E R) (inbox : Receiver I) : HandlerLoop I E R :=
  match inbox.finished[s.inbox.finished.length]?, s.stage with
  | some record, .init => { s with inbox := inbox }.onInitSignal record.result
  | some record, .select _ => { s with inbox := inbox }.onInboxEvent record.result
  | _, _ => { s with inbox := inbox }

/-- The receive of a `select!` has not been polled yet or is pending, so that the other branch may be
polled. -/
def betweenPolls (s : HandlerLoop I E R) : Bool :=
  match s.inbox.current with
  | none | some ⟨_, .waiting _, _, _, _⟩ => true
  | some _ => false

/-- The other branch was ready. -/
def dropReceive (s : HandlerLoop I E R) : HandlerLoop I E R :=
  { s with inbox := (s.inbox.step .drop).getD s.inbox }

def step (s : HandlerLoop I E R) : Event I E R → Option (HandlerLoop I E R)
  | .pushMsg msg => (s.inbox.step (.pushMsg msg)).map fun inbox => { s with inbox := inbox }
  | .pushSignal signal => (s.inbox.step (.pushSignal signal)).map fun inbox => { s with inbox := inbox }
  | .receive =>
    match s.stage with
    | .init => (s.inbox.step (.receive .recvSignal)).map fun inbox => { s with inbox := inbox }
    | .select _ => (s.inbox.step (.receive .recvEvent)).map fun inbox => { s with inbox := inbox }
    | _ => none
  | .poll => (s.inbox.step .poll).map s.afterInbox
  | .wake signal msg => (s.inbox.step (.wake signal msg)).map s.afterInbox
  | .initReturns result =>
    if s.stage = .init ∧ s.betweenPolls then
      let s' := { s.dropReceive with initResult := some result }
      match result with
      | .ok _ => some { s' with stage := .select true }
      | .error report => some (s'.exit (.initError report))
    else none
  | .nextEvent event =>
    if s.stage = .select true ∧ s.betweenPolls then
      match event with
      | none => some { s with stage := .select false }
      | some (.ok event) => some (s.dropReceive.call (.event event))
      | some (.error report) => some (s.dropReceive.fail report)
    else none
  | .hookReturns result =>
    if s.stage = .hook then
      match result with
      | .ok _ => some { s with stage := .select true }
      | .error report => some (s.fail report)
    else none
  | .exitReturns => if s.stage = .exiting then some { s with stage := .done } else none

/-- Every handler, and every order of what is sent to it and of what its hooks return. -/
def runs (I E R : Type) : Lts (HandlerLoop I E R) (Event I E R) := Lts.ofFun (fun s => s = new) step

/-- The messages that were handled. -/
def handled (trace : List (HookCall I E R)) : List I := trace.filterMap HookCall.handled?

/-- What has led to an `exit` after the calls of `body`. -/
def Reason (s : HandlerLoop I E R) (body : List (HookCall I E R)) : HandlerExit R → Prop
  | .normal => s.initResult = some (.ok ()) ∧ s.errors = [] ∧
    ∀ pushed ∈ s.shutdowns, pushed <+: handled s.trace
  | .initError report => s.initResult = some (.error report) ∧ s.errors = [] ∧ body = []
  | .initCancelled => s.initResult = none ∧ s.errors = [] ∧ body = [] ∧ .shutdown ∈ s.initSignals
  | .handlerError report => s.initResult = some (.ok ()) ∧ s.errors = [report]

/-- The calls by the stage. -/
def ShapeAt (s : HandlerLoop I E R) (body : List (HookCall I E R)) : LoopStage → Prop
  | .init => body = [] ∧ s.trace = [.init] ∧ s.initResult = none ∧ s.errors = []
  | .select _ | .hook => s.trace = .init :: body ∧ s.initResult = some (.ok ()) ∧ s.errors = []
  | .exiting | .done => ∃ reason, s.trace = .init :: body ++ [.exit reason] ∧ s.Reason body reason

def Shape (s : HandlerLoop I E R) : Prop :=
  ∃ body, (∀ hook ∈ body, hook.isBody = true) ∧ s.ShapeAt body s.stage

structure WellFormed (s : HandlerLoop I E R) : Prop where
  inbox : (Receiver.runs I).Reachable s.inbox
  kinds : ∀ r ∈ s.inbox.current, s.stage = .init ∧ r.kind = .recvSignal ∨
    ∃ events, s.stage = .select events ∧ r.kind = .recvEvent
  handled_eq : handled s.trace = Receiver.msgs s.inbox.finished
  pushed : ∀ pushed ∈ s.shutdowns, pushed <+: s.inbox.pushed
  shape : s.Shape

theorem wellFormed_new : (new : HandlerLoop I E R).WellFormed where
  inbox := .init rfl
  kinds := by simp [new, Receiver.new]
  handled_eq := rfl
  pushed := by simp [new]
  shape := ⟨[], by simp, rfl, rfl, rfl, rfl⟩

theorem handled_append (trace : List (HookCall I E R)) (hook : HookCall I E R) :
    handled (trace ++ [hook]) = handled trace ++ hook.handled?.toList := by
  unfold handled
  rw [List.filterMap_append]
  cases hmsg : hook.handled? <;> simp [hmsg]

theorem handled_exit (trace : List (HookCall I E R)) (reason : HandlerExit R) :
    handled (trace ++ [.exit reason]) = handled trace := by
  rw [handled_append]
  exact List.append_nil _

/-- What was called so far, when `run_once` is in its `select!` or in a hook. -/
def Running (s : HandlerLoop I E R) : Prop :=
  ∃ body, (∀ hook ∈ body, hook.isBody = true) ∧
    s.trace = .init :: body ∧ s.initResult = some (.ok ()) ∧ s.errors = []

theorem wellFormed_call {hook : HookCall I E R} (hinbox : (Receiver.runs I).Reachable s.inbox)
    (hidle : s.inbox.current = none) (hrunning : s.Running) (hbody : hook.isBody = true)
    (hhandled : handled s.trace ++ hook.handled?.toList = Receiver.msgs s.inbox.finished)
    (hpushed : ∀ pushed ∈ s.shutdowns, pushed <+: s.inbox.pushed) : (s.call hook).WellFormed where
  inbox := hinbox
  kinds r hr := by
    have hr : s.inbox.current = some r := hr
    rw [hidle] at hr
    cases hr
  handled_eq := (handled_append _ _).trans hhandled
  pushed := hpushed
  shape := by
    obtain ⟨body, hall, htrace, hinit, herrors⟩ := hrunning
    refine ⟨body ++ [hook], ?_, ?_, hinit, herrors⟩
    · simpa [or_imp, forall_and, hbody] using hall
    · show s.trace ++ [hook] = _
      rw [htrace]
      rfl

theorem wellFormed_exit {reason : HandlerExit R} (hinbox : (Receiver.runs I).Reachable s.inbox)
    (hidle : s.inbox.current = none) {body : List (HookCall I E R)}
    (hall : ∀ hook ∈ body, hook.isBody = true) (htrace : s.trace = .init :: body)
    (hreason : s.Reason body reason)
    (hhandled : handled s.trace = Receiver.msgs s.inbox.finished)
    (hpushed : ∀ pushed ∈ s.shutdowns, pushed <+: s.inbox.pushed) : (s.exit reason).WellFormed where
  inbox := hinbox
  kinds r hr := by
    have hr : s.inbox.current = some r := hr
    rw [hidle] at hr
    cases hr
  handled_eq := (handled_exit _ _).trans hhandled
  pushed := hpushed
  shape := by
    refine ⟨body, hall, reason, ?_, ?_⟩
    · show s.trace ++ [.exit reason] = _
      rw [htrace]
    · cases reason with
      | normal =>
        obtain ⟨hinit, herrors, hprefix⟩ := hreason
        refine ⟨hinit, herrors, fun pushed hp => ?_⟩
        show pushed <+: handled (s.trace ++ [.exit .normal])
        rw [handled_exit]
        exact hprefix pushed hp
      | initError report | initCancelled | handlerError report => exact hreason

theorem wellFormed_fail {report : R} (hinbox : (Receiver.runs I).Reachable s.inbox)
    (hidle : s.inbox.current = none) (hrunning : s.Running)
    (hhandled : handled s.trace = Receiver.msgs s.inbox.finished)
    (hpushed : ∀ pushed ∈ s.shutdowns, pushed <+: s.inbox.pushed) : (s.fail report).WellFormed := by
  obtain ⟨body, hall, htrace, hinit, herrors⟩ := hrunning
  refine wellFormed_exit (s := { s with errors := s.errors ++ [report] }) hinbox hidle hall htrace
    ⟨hinit, ?_⟩ hhandled hpushed
  show s.errors ++ [report] = [report]
  rw [herrors]
  rfl

theorem WellFormed.running (h : s.WellFormed) (hstage : s.stage = .hook ∨ ∃ events, s.stage = .select events) :
    s.Running := by
  obtain ⟨body, hall, hshape⟩ := h.shape
  rcases hstage with hstage | ⟨events, hstage⟩
  · rw [hstage] at hshape
    exact ⟨body, hall, hshape⟩
  · rw [hstage] at hshape
    exact ⟨body, hall, hshape⟩

theorem WellFormed.idle (h : s.WellFormed) (hinit : s.stage ≠ .init)
    (hselect : ∀ events, s.stage ≠ .select events) : s.inbox.current = none := by
  cases hcurrent : s.inbox.current with
  | none => rfl
  | some r =>
    rcases h.kinds r hcurrent with ⟨hstage, -⟩ | ⟨events, hstage, -⟩
    · exact absurd hstage hinit
    · exact absurd hstage (hselect events)

theorem WellFormed.of_inbox (h : s.WellFormed) {inbox : Receiver I}
    (hinbox : (Receiver.runs I).Reachable inbox) (hfinished : inbox.finished = s.inbox.finished)
    (hpushed : s.inbox.pushed <+: inbox.pushed)
    (hkinds : ∀ r ∈ inbox.current, s.stage = .init ∧ r.kind = .recvSignal ∨
      ∃ events, s.stage = .select events ∧ r.kind = .recvEvent) :
    WellFormed { s with inbox := inbox } where
  inbox := hinbox
  kinds := hkinds
  handled_eq := by
    show handled s.trace = Receiver.msgs inbox.finished
    rw [hfinished]
    exact h.handled_eq
  pushed p hp := (h.pushed p hp).trans hpushed
  shape := h.shape

/-! ## The results of receives -/

variable {inbox : Receiver I} {record : Received I}

theorem msgs_of_signal {signal : Signal} (hfinished : inbox.finished = s.inbox.finished ++ [record])
    (hresult : record.result = some (.signal signal)) :
    Receiver.msgs inbox.finished = Receiver.msgs s.inbox.finished := by
  rw [hfinished, Receiver.msgs_append, Received.msg?, hresult]
  exact List.append_nil _

theorem WellFormed.onInitSignal (h : s.WellFormed) (hstage : s.stage = .init)
    (hinbox : (Receiver.runs I).Reachable inbox)
    (hfinished : inbox.finished = s.inbox.finished ++ [record]) (hidle : inbox.current = none)
    (hpushed : inbox.pushed = s.inbox.pushed) {signal : Signal}
    (hresult : record.result = some (.signal signal)) :
    ({ s with inbox := inbox }.onInitSignal record.result).WellFormed := by
  have hmsgs := h.handled_eq.trans (msgs_of_signal hfinished hresult).symm
  have hprefix : ∀ pushed ∈ s.shutdowns, pushed <+: inbox.pushed := by
    rw [hpushed]
    exact h.pushed
  obtain ⟨body, hall, hshape⟩ := h.shape
  rw [hstage] at hshape
  obtain ⟨rfl, htrace, hinit, herrors⟩ := hshape
  rw [hresult]
  cases signal with
  | shutdown =>
    refine wellFormed_exit (s := { s with inbox := inbox, initSignals := _ }) hinbox hidle hall htrace
      ⟨hinit, herrors, rfl, ?_⟩ hmsgs hprefix
    exact List.mem_append_right _ (List.mem_singleton_self _)
  | suspend | resume =>
    refine ⟨hinbox, fun r hr => ?_, hmsgs, hprefix, [], hall, ?_⟩
    · have hr : inbox.current = some r := hr
      rw [hidle] at hr
      cases hr
    · show ShapeAt _ [] s.stage
      rw [hstage]
      exact ⟨rfl, htrace, hinit, herrors⟩

/-- When nothing more is received, all that was pushed was handled. -/
theorem msgs_of_none (hinbox : (Receiver.runs I).Reachable inbox)
    (hfinished : inbox.finished = s.inbox.finished ++ [record])
    (hkind : record.receive.kind = .recvEvent) (hpushed : record.pushed = s.inbox.pushed)
    (hresult : record.result = none) : Receiver.msgs inbox.finished = s.inbox.pushed := by
  have hlast : inbox.finished[s.inbox.finished.length]? = some record := by
    rw [hfinished, List.getElem?_concat_length]
  have hcomplete := (Receiver.semantics_of_reachable hinbox).complete _ record hlast
    (by rw [hkind]; exact ReceiveKind.noConfusion) hresult
  rwa [List.take_of_length_le (by simp [hfinished]), hpushed] at hcomplete

theorem WellFormed.onInboxEvent (h : s.WellFormed) {events : Bool} (hstage : s.stage = .select events)
    (hinbox : (Receiver.runs I).Reachable inbox)
    (hfinished : inbox.finished = s.inbox.finished ++ [record]) (hidle : inbox.current = none)
    (hpushed : inbox.pushed = s.inbox.pushed) (hkind : record.receive.kind = .recvEvent)
    (hrecord : record.pushed = s.inbox.pushed) :
    ({ s with inbox := inbox }.onInboxEvent record.result).WellFormed := by
  have hrunning : Running { s with inbox := inbox } := h.running (.inr ⟨events, hstage⟩)
  have hprefix : ∀ pushed ∈ s.shutdowns, pushed <+: inbox.pushed := by
    rw [hpushed]
    exact h.pushed
  cases hresult : record.result with
  | none =>
    have hmsgs := msgs_of_none hinbox hfinished hkind hrecord hresult
    have hsame : Receiver.msgs inbox.finished = Receiver.msgs s.inbox.finished := by
      rw [hfinished, Receiver.msgs_append, Received.msg?, hresult]
      exact List.append_nil _
    obtain ⟨body, hall, htrace, hinit, herrors⟩ := hrunning
    refine wellFormed_exit (s := { s with inbox := inbox }) hinbox hidle hall htrace
      ⟨hinit, herrors, fun pushed hp => ?_⟩ (h.handled_eq.trans hsame.symm) hprefix
    show pushed <+: handled s.trace
    rw [h.handled_eq, ← hsame, hmsgs]
    exact h.pushed pushed hp
  | some event =>
    cases event with
    | message msg =>
      refine wellFormed_call (s := { s with inbox := inbox }) hinbox hidle hrunning rfl ?_ hprefix
      show handled s.trace ++ [msg] = Receiver.msgs inbox.finished
      rw [h.handled_eq, hfinished, Receiver.msgs_append, Received.msg?, hresult]
      rfl
    | signal signal =>
      have hmsgs : handled s.trace ++ [] = Receiver.msgs inbox.finished := by
        rw [List.append_nil]
        exact h.handled_eq.trans (msgs_of_signal hfinished hresult).symm
      cases signal with
      | shutdown =>
        refine wellFormed_call
          (s := { s with inbox := inbox, shutdowns := s.shutdowns ++ [inbox.pushed] })
          hinbox hidle hrunning rfl hmsgs fun pushed hp => ?_
        rcases List.mem_append.1 hp with hp | hp
        · exact hprefix pushed hp
        · obtain rfl := List.mem_singleton.1 hp
          exact List.prefix_refl _
      | suspend | resume =>
        exact wellFormed_call (s := { s with inbox := inbox }) hinbox hidle hrunning rfl hmsgs hprefix

theorem WellFormed.afterInbox (h : s.WellFormed) {event : Receiver.Event I} {r : Receive}
    (hr : s.inbox.current = some r) (hs : s.inbox.step event = some inbox)
    (houtcome : Receiver.PollOutcome s.inbox inbox r) : (s.afterInbox inbox).WellFormed := by
  have hinbox : (Receiver.runs I).Reachable inbox := .step h.inbox hs
  obtain ⟨hpushed, ⟨hfinished, r', hcurrent, hkind⟩ | ⟨record, hfinished, hkind, hrecord, hidle⟩⟩ :=
    houtcome
  · have hsame : s.afterInbox inbox = { s with inbox := inbox } := by
      unfold HandlerLoop.afterInbox
      rw [hfinished, List.getElem?_eq_none (le_refl _)]
    rw [hsame]
    refine h.of_inbox hinbox hfinished (hpushed ▸ List.prefix_refl _) fun r'' hr'' => ?_
    rw [hcurrent] at hr''
    cases hr''
    rw [hkind]
    exact h.kinds r hr
  · have hlast : inbox.finished[s.inbox.finished.length]? = some record := by
      rw [hfinished, List.getElem?_concat_length]
    rcases h.kinds r hr with ⟨hstage, hr⟩ | ⟨events, hstage, hr⟩
    · have hafter : s.afterInbox inbox = { s with inbox := inbox }.onInitSignal record.result := by
        simp only [HandlerLoop.afterInbox, hlast, hstage]
      rw [hafter]
      obtain ⟨signal, hresult⟩ := (Receiver.sound hinbox).signals record
        (by rw [hfinished]; exact List.mem_append_right _ (List.mem_singleton_self _)) (hkind.trans hr)
      exact h.onInitSignal hstage hinbox hfinished hidle hpushed hresult
    · have hafter : s.afterInbox inbox = { s with inbox := inbox }.onInboxEvent record.result := by
        simp only [HandlerLoop.afterInbox, hlast, hstage]
      rw [hafter]
      exact h.onInboxEvent hstage hinbox hfinished hidle hpushed (hkind.trans hr) hrecord

/-! ## Steps -/

theorem dropReceive_spec (hpolls : s.betweenPolls = true) : ∃ inbox,
    s.dropReceive = { s with inbox := inbox } ∧ inbox.current = none ∧
      inbox.finished = s.inbox.finished ∧ inbox.pushed = s.inbox.pushed ∧
      ((Receiver.runs I).Reachable s.inbox → (Receiver.runs I).Reachable inbox) := by
  refine ⟨_, rfl, ?_⟩
  cases hcurrent : s.inbox.current with
  | none =>
    have hstay : (s.inbox.step .drop).getD s.inbox = s.inbox := by
      simp only [Receiver.step, hcurrent, Option.bind_none, Option.getD_none]
    rw [hstay]
    exact ⟨hcurrent, rfl, rfl, id⟩
  | some r =>
    have hwaiting : ∃ select, r.stage = .waiting select := by
      unfold betweenPolls at hpolls
      rw [hcurrent] at hpolls
      cases hstage : r.stage with
      | waiting select => exact ⟨select, rfl⟩
      | status | signals select thenMsgs | msgs =>
        obtain ⟨kind, stage, begun, owed, processed⟩ := r
        obtain rfl := hstage
        cases hpolls
    obtain ⟨select, hstage⟩ := hwaiting
    have hdrop : s.inbox.step .drop = some { s.inbox with current := none } := by
      simp only [Receiver.step, hcurrent, Option.bind_some, hstage]
    rw [hdrop]
    exact ⟨rfl, rfl, rfl, fun hreach => .step hreach hdrop⟩

theorem WellFormed.push (h : s.WellFormed) {event : Receiver.Event I}
    (hs : s.inbox.step event = some inbox) (hfinished : inbox.finished = s.inbox.finished)
    (hpushed : s.inbox.pushed <+: inbox.pushed) (hcurrent : inbox.current = s.inbox.current) :
    WellFormed { s with inbox := inbox } :=
  h.of_inbox (.step h.inbox hs) hfinished hpushed fun r hr => h.kinds r (hcurrent ▸ hr)

theorem WellFormed.receive (h : s.WellFormed) {kind : ReceiveKind}
    (hs : s.inbox.step (.receive kind) = some inbox)
    (hkind : s.stage = .init ∧ kind = .recvSignal ∨
      ∃ events, s.stage = .select events ∧ kind = .recvEvent) :
    WellFormed { s with inbox := inbox } := by
  have hreach : (Receiver.runs I).Reachable inbox := .step h.inbox hs
  obtain ⟨-, rfl⟩ := Receiver.whileIdle_eq_some hs
  obtain ⟨hfinished, hpushed⟩ := Receiver.beginReceive_frame (s := s.inbox) kind
  refine h.of_inbox hreach hfinished (hpushed ▸ List.prefix_refl _) fun r hr => ?_
  cases hr
  exact hkind

theorem WellFormed.dropReceive (h : s.WellFormed) (hpolls : s.betweenPolls = true) : ∃ inbox,
    s.dropReceive = { s with inbox := inbox } ∧ inbox.current = none ∧
      (Receiver.runs I).Reachable inbox ∧ handled s.trace = Receiver.msgs inbox.finished ∧
      ∀ pushed ∈ s.shutdowns, pushed <+: inbox.pushed := by
  obtain ⟨inbox, hdrop, hidle, hfinished, hpushed, hreach⟩ := dropReceive_spec hpolls
  refine ⟨inbox, hdrop, hidle, hreach h.inbox, ?_, ?_⟩
  · rw [hfinished]
    exact h.handled_eq
  · rw [hpushed]
    exact h.pushed

theorem WellFormed.initReturns (h : s.WellFormed) {result : Except R Unit}
    (hs : s.step (.initReturns result) = some s') : s'.WellFormed := by
  simp only [step] at hs
  split at hs
  · rename_i hstage
    obtain ⟨inbox, hdrop, hidle, hreach, hmsgs, hprefix⟩ := h.dropReceive hstage.2
    obtain ⟨body, hall, hshape⟩ := h.shape
    rw [hstage.1] at hshape
    obtain ⟨rfl, htrace, -, herrors⟩ := hshape
    rw [hdrop] at hs
    cases result with
    | ok value =>
      cases hs
      refine ⟨hreach, fun r hr => ?_, hmsgs, hprefix, [], hall, htrace, rfl, herrors⟩
      have hr : inbox.current = some r := hr
      rw [hidle] at hr
      cases hr
    | error report =>
      cases hs
      exact wellFormed_exit (s := { s with inbox := inbox, initResult := some (.error report) })
        hreach hidle hall htrace ⟨rfl, herrors, rfl⟩ hmsgs hprefix
  · cases hs

theorem WellFormed.nextEvent (h : s.WellFormed) {event : Option (Except R E)}
    (hs : s.step (.nextEvent event) = some s') : s'.WellFormed := by
  simp only [step] at hs
  split at hs
  · rename_i hstage
    obtain ⟨hselect, hpolls⟩ := hstage
    have hrunning := h.running (.inr ⟨true, hselect⟩)
    cases event with
    | none =>
      cases hs
      obtain ⟨body, hall, hshape⟩ := hrunning
      refine ⟨h.inbox, fun r hr => ?_, h.handled_eq, h.pushed, body, hall, hshape⟩
      rcases h.kinds r hr with ⟨hstage, -⟩ | ⟨events, -, hkind⟩
      · rw [hselect] at hstage
        cases hstage
      · exact .inr ⟨false, rfl, hkind⟩
    | some event =>
      obtain ⟨inbox, hdrop, hidle, hreach, hmsgs, hprefix⟩ := h.dropReceive hpolls
      rw [hdrop] at hs
      cases event with
      | ok event =>
        cases hs
        refine wellFormed_call (s := { s with inbox := inbox }) hreach hidle hrunning rfl ?_
          hprefix
        exact (List.append_nil _).trans hmsgs
      | error report =>
        cases hs
        exact wellFormed_fail (s := { s with inbox := inbox }) hreach hidle hrunning hmsgs
          hprefix
  · cases hs

theorem WellFormed.hookReturns (h : s.WellFormed) {result : Except R Unit}
    (hs : s.step (.hookReturns result) = some s') : s'.WellFormed := by
  simp only [step] at hs
  split at hs
  · rename_i hstage
    have hidle := h.idle (by rw [hstage]; exact LoopStage.noConfusion)
      (by rw [hstage]; exact fun _ => LoopStage.noConfusion)
    have hrunning := h.running (.inl hstage)
    cases result with
    | ok value =>
      cases hs
      obtain ⟨body, hall, hshape⟩ := hrunning
      refine ⟨h.inbox, fun r hr => ?_, h.handled_eq, h.pushed, body, hall, hshape⟩
      have hr : s.inbox.current = some r := hr
      rw [hidle] at hr
      cases hr
    | error report =>
      cases hs
      exact wellFormed_fail h.inbox hidle hrunning h.handled_eq h.pushed
  · cases hs

theorem WellFormed.exitReturns (h : s.WellFormed) (hs : s.step .exitReturns = some s') :
    s'.WellFormed := by
  simp only [step] at hs
  split at hs
  · rename_i hstage
    have hidle := h.idle (by rw [hstage]; exact LoopStage.noConfusion)
      (by rw [hstage]; exact fun _ => LoopStage.noConfusion)
    obtain ⟨body, hall, hshape⟩ := h.shape
    rw [hstage] at hshape
    cases hs
    refine ⟨h.inbox, fun r hr => ?_, h.handled_eq, h.pushed, body, hall, ?_⟩
    · have hr : s.inbox.current = some r := hr
      rw [hidle] at hr
      cases hr
    · obtain ⟨reason, htrace, hreason⟩ := hshape
      refine ⟨reason, htrace, ?_⟩
      cases reason <;> exact hreason
  · cases hs

theorem WellFormed.step (h : s.WellFormed) (hs : s.step e = some s') : s'.WellFormed := by
  cases e with
  | pushMsg msg =>
    cases hs
    have hpush : s.inbox.step (.pushMsg msg) = some _ := rfl
    exact h.push hpush rfl (List.prefix_append _ _) rfl
  | pushSignal signal =>
    cases hs
    have hpush : s.inbox.step (.pushSignal signal) = some _ := rfl
    exact h.push hpush rfl (List.prefix_refl _) rfl
  | receive =>
    simp only [HandlerLoop.step] at hs
    split at hs
    · rename_i hstage
      obtain ⟨inbox, hinbox, rfl⟩ := Option.map_eq_some_iff.1 hs
      exact h.receive hinbox (.inl ⟨hstage, rfl⟩)
    · rename_i events hstage
      obtain ⟨inbox, hinbox, rfl⟩ := Option.map_eq_some_iff.1 hs
      exact h.receive hinbox (.inr ⟨events, hstage, rfl⟩)
    · cases hs
  | poll =>
    obtain ⟨inbox, hinbox, rfl⟩ := Option.map_eq_some_iff.1 hs
    obtain ⟨r, hr, hpoll⟩ := Option.bind_eq_some_iff.1 hinbox
    exact h.afterInbox hr hinbox (Receiver.outcome_poll hpoll)
  | wake signal msg =>
    obtain ⟨inbox, hinbox, rfl⟩ := Option.map_eq_some_iff.1 hs
    obtain ⟨r, hr, hwake⟩ := Option.bind_eq_some_iff.1 hinbox
    exact h.afterInbox hr hinbox (Receiver.outcome_wake hwake)
  | initReturns result => exact h.initReturns hs
  | nextEvent event => exact h.nextEvent hs
  | hookReturns result => exact h.hookReturns hs
  | exitReturns => exact h.exitReturns hs

/-! ## The calls of every run -/

end HandlerLoop
end Zestors
