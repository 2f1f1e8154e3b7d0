import Zestors.Lib.Lts
import Zestors.Supervisor.Effects

/-!
# The event loop of a supervisor

What the supervision strategies implement (`Strategy`), the part of the event loop that is common to
them (`handleNext`), and the runs of a supervisor: every sequence of signals, messages, source
events and supervisee items that the loop can be fed.
-/

namespace Zestors

/-- The trait `Strategy`. What `parts` lends out is read by `inner` and `initializing` and written
back by `setInner` and `setInitializing`. `handleExit` is `none` where the source panics. -/
class Strategy (σ : Type) where
  new : SupervisorInner → σ
  inner : σ → SupervisorInner
  setInner : σ → SupervisorInner → σ
  inner_new : ∀ i, inner (new i) = i := by intros; rfl
  setInner_inner : ∀ s, setInner s (inner s) = s := by intros; rfl
  initializing : σ → IndexSet Name
  setInitializing : σ → IndexSet Name → σ
  handleExit : σ → Name → ExitReason → Option (σ × ControlFlow)
  shutdown : σ → σ × ControlFlow
  removeSpec : σ → Name → σ × Option Supervisee
  afterInitialized : σ → Name → σ × ControlFlow := fun s _ => (s, .cont)

/-- Where the event loop is: waiting for the next event, left, or unwound by a panic. -/
inductive LoopState (σ : Type)
  | running (s : σ)
  | broken (s : σ)
  | panicked

namespace LoopState
variable {σ : Type}

/-- The loop after a handler has returned. -/
def ofFlow : σ × ControlFlow → LoopState σ
  | (s, .cont) => running s
  | (s, .brk) => broken s

/-- The loop after a handler that may have panicked. -/
def ofOutcome : Option (σ × ControlFlow) → LoopState σ
  | none => panicked
  | some r => ofFlow r

/-- `I` while the loop is running, `B` once it was left. -/
def Sat (I B : σ → Prop) : LoopState σ → Prop
  | running s => I s
  | broken s => B s
  | panicked => True

instance {I B : σ → Prop} [DecidablePred I] [DecidablePred B] : DecidablePred (Sat I B)
  | running s => inferInstanceAs (Decidable (I s))
  | broken s => inferInstanceAs (Decidable (B s))
  | panicked => isTrue trivial

/-- The loop is running, in a state with `I`. -/
def Running (I : σ → Prop) : LoopState σ → Prop
  | running s => I s
  | broken _ | panicked => False

instance {I : σ → Prop} [DecidablePred I] : DecidablePred (Running I)
  | running s => inferInstanceAs (Decidable (I s))
  | broken _ | panicked => isFalse id

variable {I I' B B' : σ → Prop}

theorem Running.exists {st : LoopState σ} (h : st.Running I) : ∃ s, st = running s ∧ I s := by
  cases st with
  | running s => exact ⟨s, rfl, h⟩
  | broken s => exact h.elim
  | panicked => exact h.elim

@[simp] theorem sat_running {s : σ} : (running s).Sat I B ↔ I s := Iff.rfl

@[simp] theorem sat_broken {s : σ} : (broken s).Sat I B ↔ B s := Iff.rfl

@[simp] theorem sat_panicked : (panicked : LoopState σ).Sat I B := trivial

@[simp] theorem sat_ofFlow_cont {s : σ} : (ofFlow (s, .cont)).Sat I B ↔ I s := Iff.rfl

@[simp] theorem sat_ofFlow_brk {s : σ} : (ofFlow (s, .brk)).Sat I B ↔ B s := Iff.rfl

theorem sat_of_fst {x : σ × ControlFlow} (hI : I x.1) (hB : B x.1) : (ofFlow x).Sat I B := by
  obtain ⟨s, _ | _⟩ := x
  · exact hI
  · exact hB

theorem Sat.mono {st : LoopState σ} (h : st.Sat I B) (hI : ∀ s, I s → I' s)
    (hB : ∀ s, B s → B' s) : st.Sat I' B' := by
  cases st with
  | running s => exact hI s h
  | broken s => exact hB s h
  | panicked => trivial

end LoopState

namespace Strategy
variable {σ : Type} [Strategy σ]

/-- The strategy with another inbox. -/
def withInbox (s : σ) (inbox : Inbox) : σ := setInner s { inner s with inbox }

def reply (s : σ) (r : Reply) : σ := withInbox s ((inner s).inbox.reply r)

def handleInitialized (s : σ) (name : Name) : σ :=
  setInitializing (setInner s ((inner s).handleInitialized (initializing s) name).1)
    ((inner s).handleInitialized (initializing s) name).2

def addSpec (s : σ) (spec : ChildSpec) : σ × Except DuplicateNameError Unit :=
  (setInner s ((inner s).addSpec spec).1, ((inner s).addSpec spec).2)

def handleMessage (s : σ) : SupervisorInterface → σ
  | .children => reply s (.children (inner s).supervisees.childDescriptions)
  | .health => reply s (.health (inner s).health)
  | .register spec => reply (addSpec s spec).1 (.register (addSpec s spec).2)
  | .deregister name =>
    reply (removeSpec s name).1 (.deregister ((removeSpec s name).2.map Supervisee.getDescription))

def handleSource (s : σ) : SupervisorSourceEvent → σ
  | .added spec => (addSpec s spec).1
  | .removed name => (removeSpec s name).1

def handleItem (s : σ) (name : Name) : SuperviseeItem → Option (σ × ControlFlow)
  | .started (.ok _) => some (s, .cont)
  | .started (.error _) => handleExit s name .startFailure
  | .initialized (.ok _) => some (afterInitialized (handleInitialized s name) name)
  | .initialized (.error status) => handleExit s name (.initExit status)
  | .exit exit => handleExit s name (.exit exit)

def handleNext (s : σ) : InnerNext → Option (σ × ControlFlow)
  | .inbox (.signal signal) => some (if signal.isShutdown then shutdown s else (s, .cont))
  | .inbox (.message msg) => some (handleMessage s msg, .cont)
  | .source ev => some (handleSource s ev, .cont)
  | .supervisee name item => handleItem s name item

/-- `run` up to its loop: starts everybody, and tears down again if that failed. -/
def begin (s : σ) : LoopState σ :=
  let started := setInner s (inner s).startAll.1
  let started := setInitializing started (.ofList (inner started).supervisees.names)
  match (inner s).startAll.2 with
  | .ok _ => .running started
  | .error _ => .ofFlow (shutdown started)

/-- One turn of the loop; `none` if the event cannot occur now. -/
def step : LoopState σ → SupervisorInner.Event → Option (LoopState σ)
  | .running s, ev =>
    ((inner s).next ev).map fun
      | (i, none) => .running (setInner s i)
      | (i, some next) => .ofOutcome (handleNext (setInner s i) next)
  | .broken _, _ => none
  | .panicked, _ => none

end Strategy

open Strategy SupervisorInner

/-- How a supervisor enters its loop: with the children of its blueprint, which have different
names, and those its source had from the start. -/
inductive Begins {σ : Type} [Strategy σ] : LoopState σ → Prop
  | mk (blueprint loaded : List ChildSpec) (intensity : RestartIntensity) (source : Bool)
    (clock : ℕ → Instant) (s : SupervisorInner) :
    (blueprint.map ChildSpec.name).Nodup →
    load { SupervisorInner.new blueprint intensity source clock with
      inbox := Inbox.spawned.setManualInit } loaded = .ok s →
    Begins (begin (Strategy.new s : σ))

/-- The runs of a supervisor with the strategy `σ`. -/
def runs (σ : Type) [Strategy σ] : Lts (LoopState σ) Event := Lts.ofFun Begins step

/-- A supervisor with a source that has no children yet, at a time that stands still. -/
def booted (σ : Type) [Strategy σ] (blueprint : List ChildSpec) (intensity : RestartIntensity) :
    LoopState σ :=
  begin (Strategy.new { SupervisorInner.new blueprint intensity true fun _ => 0 with
    inbox := Inbox.spawned.setManualInit })

theorem begins_booted {σ : Type} [Strategy σ] (blueprint : List ChildSpec)
    (h : (blueprint.map ChildSpec.name).Nodup) (intensity : RestartIntensity) :
    Begins (booted σ blueprint intensity) :=
  .mk blueprint [] intensity true _ _ h rfl

/-- A child with the given name and mode, with or without a budget of its own. -/
def childSpec (name : String) (restartMode : RestartMode)
    (intensity : Option RestartIntensity) : ChildSpec :=
  ⟨⟨name⟩, { restartMode, intensity, abortTimeout := 0, initTimeout := 0, startTimeout := 0 }⟩

/-- The two items of a child that starts and initializes. -/
def comesUp (name : String) : List Event :=
  [.supervisee ⟨name⟩ (.started (.ok ())), .supervisee ⟨name⟩ (.initialized (.ok ()))]

end Zestors
