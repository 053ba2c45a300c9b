import Mathlib.Data.List.Basic

/-!
# States and the transition schedule

A state type `T` is *manual*, *derived* from source states, or a *sub-state* whose existence
depends on source states.  Its value is the resource `State<T>`, which may be absent.  The
schedule `StateTransition` runs in four phases: every state's *apply* system brings
`State<T>` up to date and writes a **transition signal**, a message that the apply systems
of dependent states and the systems of the later phases *exit*, *transition* and *enter*
read, each with its own cursor.

## What a run is

Sets order the apply system of a state behind those of its sources, and the commands that
insert or remove a resource are applied before the next set starts; nothing else is ordered.
A run is therefore given by the orders in which the systems of each phase happen to run, and
`RunOrder` asks that **every system is among them**.  That is a demand on the executor.  It is
not derived from the schedules of `Voker.Ecs.Schedule`, and there are compiled schedules whose
run leaves out an apply system; `Derived` shows one and what its state is worth afterwards.

States are registered before the first frame (`registered`); one that is added later may find
the first signals of its sources dropped.

## Signals

The source keeps the signals of a state in a message queue with two sequences, and an update
drops the older one.  Here they are one list, from which nothing is dropped, and a cursor is a
number of signals read.  The difference cannot be seen while every system of every frame runs,
because then a reader is behind by the signals of one frame at most.
-/

namespace Voker.State

open Function

variable {σ V : Type}

/-! ## Requests and signals -/

/-- `NextState`: the queued transition. -/
inductive NextState (V : Type) where
  | unchanged
  | pending (next : V)
  | pendingIfNeq (next : V)

/-- `take`: the requested state, and whether identity transitions are allowed. -/
def NextState.take : NextState V → Option (V × Bool)
  | .unchanged => none
  | .pending next => some (next, true)
  | .pendingIfNeq next => some (next, false)

/-- `StateTransitionSignal`. -/
structure StateTransitionSignal (V : Type) where
  exited : Option V
  entered : Option V
  allowSameStateTransitions : Bool

/-- The phases behind the apply phase. -/
inductive Phase where
  | exit
  | transition
  | enter
  deriving DecidableEq

/-! ## Kinds of states -/

/-- `StateSetItem`: a source that is required (`S`) or optional (`Option<S>`). -/
structure StateSetItem (σ : Type) where
  rawState : σ
  optional : Bool

/-- `clone_raw_state`: what the computing function sees of a source. -/
def StateSetItem.cloneRawState (item : StateSetItem σ) (wrapped : Option V) : Option (Option V) :=
  if item.optional then some wrapped else wrapped.map some

/-- `StateSet`: one source or a tuple of sources. -/
inductive StateSet (σ : Type) where
  | single (item : StateSetItem σ)
  | tuple (first : StateSetItem σ) (rest : List (StateSetItem σ))

/-- The sources of a set. -/
def StateSet.items : StateSet σ → List (StateSetItem σ)
  | .single item => [item]
  | .tuple first rest => first :: rest

/-- `ManualStates`, `DerivedStates` and `SubStates` with their constants and functions. -/
inductive StateKind (σ V : Type) where
  | manual
  | derived (sources : StateSet σ) (derive : List (Option V) → Option V)
      (allowSameStateTransitions : Bool)
  | sub (sources : StateSet σ) (shouldExist : List (Option V) → Option V)

/-- The sources a state depends on. -/
def StateKind.items : StateKind σ V → List (StateSetItem σ)
  | .manual => []
  | .derived sources _ _ => sources.items
  | .sub sources _ => sources.items

/-! ## The world -/

/-- What the world holds about one state type: `State<T>`, `PreviousState<T>`,
`NextState<T>`, the signals written so far, and how many of them the condition
(`detect_transition`) and the system (`last_transition`) of each phase have read. -/
structure StateData (V : Type) where
  state : Option V
  previous : Option V
  next : NextState V
  signals : List (StateTransitionSignal V)
  detected : Phase → ℕ
  handled : Phase → ℕ

/-- All states, and for the apply system of each one how many signals it has read of its
first, second, ... source. -/
structure StateWorld (σ V : Type) where
  data : σ → StateData V
  cursor : σ → ℕ → ℕ

namespace StateWorld

variable (world : StateWorld σ V)

/-- Whether the apply system of a state has an unread signal of a source. -/
def unread (state : σ) (source : StateSetItem σ × ℕ) : Bool :=
  world.cursor state source.2 < (world.data source.1.rawState).signals.length

/-- The current values of the sources; `none` if a required one is absent. -/
def sourceStates (sources : StateSet σ) : Option (List (Option V)) :=
  sources.items.mapM fun item => item.cloneRawState (world.data item.rawState).state

end StateWorld

/-! ## Applying transitions -/

/-- `internal_apply_state_transition`. -/
def StateData.internalApply (data : StateData V) (newState : Option V) (allowSame : Bool) :
    StateData V :=
  match newState, data.state with
  | some entered, some exited =>
    { data with
      state := some entered
      signals := data.signals ++ [⟨some exited, some entered, allowSame⟩]
      previous := some exited }
  | some entered, none =>
    { data with
      state := some entered
      signals := data.signals ++ [⟨none, some entered, allowSame⟩]
      previous := none }
  | none, some exited =>
    { data with
      state := none
      signals := data.signals ++ [⟨some exited, none, allowSame⟩]
      previous := some exited }
  | none, none => data

/-- `apply_state_transition` of a manual state. -/
def applyManual (world : StateWorld σ V) (state : σ) : StateData V × (ℕ → ℕ) :=
  let data := world.data state
  match data.next.take with
  | none => (data, world.cursor state)
  | some (newState, allowSame) =>
    (({ data with next := .unchanged } : StateData V).internalApply (some newState) allowSame,
      world.cursor state)

/-- `apply_state_transition` of a derived state: it computes the state anew if there is an
unread signal of a source, and skips all of them. -/
def applyDerived (world : StateWorld σ V) (state : σ) (sources : StateSet σ)
    (derive : List (Option V) → Option V) (allowSame : Bool) : StateData V × (ℕ → ℕ) :=
  if sources.items.zipIdx.all fun source => !world.unread state source then
    (world.data state, world.cursor state)
  else
    ((world.data state).internalApply ((world.sourceStates sources).bind derive) allowSame,
      fun index => match sources.items[index]? with
        | some item => (world.data item.rawState).signals.length
        | none => world.cursor state index)

/-- `read().last().is_some() || ..`: whether some source has an unread signal.  **The
readers behind the first one that has are not read.** -/
def readSources (world : StateWorld σ V) (state : σ) : List (StateSetItem σ × ℕ) → Bool × (ℕ → ℕ)
  | [] => (false, world.cursor state)
  | source :: rest =>
    if world.unread state source then
      (true, update (world.cursor state) source.2
        (world.data source.1.rawState).signals.length)
    else readSources world state rest

/-- `apply_state_transition` of a sub-state: a request comes first, then the current value,
then the default that `should_exist` gives. -/
def applySub (world : StateWorld σ V) (state : σ) (sources : StateSet σ)
    (shouldExist : List (Option V) → Option V) : StateData V × (ℕ → ℕ) :=
  let read := readSources world state sources.items.zipIdx
  let data := world.data state
  let next := data.next.take
  if !read.1 && next.isNone then (data, read.2)
  else
    let defaultState :=
      if read.1 then (world.sourceStates sources).bind shouldExist else none
    let allowSame := (next.map Prod.snd).getD false
    let newState := ((next.map Prod.fst).or data.state).or defaultState
    (({ data with next := .unchanged } : StateData V).internalApply newState allowSame, read.2)

/-- The apply system of a state. -/
def StateKind.apply (world : StateWorld σ V) (state : σ) : StateKind σ V → StateData V × (ℕ → ℕ)
  | .manual => applyManual world state
  | .derived sources derive allowSame => applyDerived world state sources derive allowSame
  | .sub sources shouldExist => applySub world state sources shouldExist

/-! ## The later phases -/

/-- The schedules a transition runs. -/
inductive StateEvent (σ V : Type) where
  | onExit (state : σ) (exited : V)
  | onTransition (state : σ) (exited entered : V)
  | onEnter (state : σ) (entered : V)
  deriving DecidableEq

/-- The state type a schedule belongs to. -/
def StateEvent.state : StateEvent σ V → σ
  | .onExit state _ | .onTransition state _ _ | .onEnter state _ => state

section Hooks

variable [DecidableEq V]

/-- Whether `run_enter` and `run_exit` leave a signal alone: an identity transition that is
not allowed. -/
def StateTransitionSignal.suppressed (signal : StateTransitionSignal V) : Bool :=
  signal.entered = signal.exited && !signal.allowSameStateTransitions

/-- `run_exit`. -/
def runExit (state : σ) (signal : StateTransitionSignal V) : List (StateEvent σ V) :=
  if signal.suppressed then [] else (signal.exited.map (.onExit state)).toList

/-- `run_enter`. -/
def runEnter (state : σ) (signal : StateTransitionSignal V) : List (StateEvent σ V) :=
  if signal.suppressed then [] else (signal.entered.map (.onEnter state)).toList

omit [DecidableEq V] in
/-- `run_transition`. -/
def runTransition (state : σ) (signal : StateTransitionSignal V) : List (StateEvent σ V) :=
  match signal.exited, signal.entered with
  | some exited, some entered => [.onTransition state exited entered]
  | _, _ => []

/-- Whether the registration puts `run_exit` into the exit set and `run_enter` into the
enter set.  `ManualStates::register_state` does, and so does `register_derived_state_for`
of one source; **`register_derived_state_for` of a tuple and both
`register_sub_state_for` put them into each other's place.** -/
def StateKind.inPlace : StateKind σ V → Bool
  | .manual | .derived (.single _) _ _ => true
  | .derived (.tuple _ _) _ _ | .sub _ _ => false

/-- The system that a registration puts into the set of a phase. -/
def StateKind.hook (kind : StateKind σ V) (state : σ) (signal : StateTransitionSignal V) :
    Phase → List (StateEvent σ V)
  | .exit => if kind.inPlace then runExit state signal else runEnter state signal
  | .transition => runTransition state signal
  | .enter => if kind.inPlace then runEnter state signal else runExit state signal

/-- The system of a state in a phase: if `detect_transition` finds a signal, the latest
signal that `last_transition` has not read is piped into the hook. -/
def StateKind.runPhase (kind : StateKind σ V) (state : σ) (phase : Phase)
    (data : StateData V) : StateData V × List (StateEvent σ V) :=
  let read := update data.detected phase data.signals.length
  if data.detected phase < data.signals.length then
    ({ data with
        detected := read
        handled := update data.handled phase data.signals.length },
      match (data.signals.drop (data.handled phase)).getLast? with
      | some signal => kind.hook state signal phase
      | none => [])
  else ({ data with detected := read }, [])

end Hooks

/-! ## Runs -/

section Runs

variable [DecidableEq σ] {kinds : σ → StateKind σ V}

/-- An order in which the systems of a phase may run: each state once, and behind its
sources.  No system is left out, whatever executor runs the schedule. -/
structure RunOrder (kinds : σ → StateKind σ V) where
  states : List σ
  nodup : states.Nodup
  complete : ∀ state, state ∈ states
  sourcesFirst : ∀ state, ∀ item ∈ (kinds state).items,
    states.idxOf item.rawState < states.idxOf state

/-- A frame: the requests made since the last one, and the orders of the run of
`StateTransition`. -/
structure Frame (kinds : σ → StateKind σ V) where
  requests : σ → Option (NextState V)
  applyOrder : RunOrder kinds
  phaseOrder : Phase → RunOrder kinds

namespace StateWorld

omit [DecidableEq σ] in
/-- Requests through `NextState`. -/
def request (world : StateWorld σ V) (requests : σ → Option (NextState V)) : StateWorld σ V :=
  { world with
    data := fun state => { world.data state with
      next := (requests state).getD (world.data state).next } }

/-- Run the apply system of a state. -/
def apply (kinds : σ → StateKind σ V) (world : StateWorld σ V) (state : σ) : StateWorld σ V :=
  let applied := (kinds state).apply world state
  { data := update world.data state applied.1
    cursor := update world.cursor state applied.2 }

variable [DecidableEq V]

omit [DecidableEq σ] in
/-- Run a later phase: no system of it touches another state. -/
def runPhase (kinds : σ → StateKind σ V) (phase : Phase) (order : List σ)
    (world : StateWorld σ V) : StateWorld σ V × List (StateEvent σ V) :=
  ({ world with data := fun state => ((kinds state).runPhase state phase (world.data state)).1 },
    order.flatMap fun state => ((kinds state).runPhase state phase (world.data state)).2)

/-- `StateTransition`: the world after it, and the schedules it ran. -/
def stateTransition (world : StateWorld σ V) (frame : Frame kinds) :
    StateWorld σ V × List (StateEvent σ V) :=
  let applied := frame.applyOrder.states.foldl (apply kinds) (world.request frame.requests)
  let exit := applied.runPhase kinds .exit (frame.phaseOrder .exit).states
  let transition := exit.1.runPhase kinds .transition (frame.phaseOrder .transition).states
  let enter := transition.1.runPhase kinds .enter (frame.phaseOrder .enter).states
  (enter.1, exit.2 ++ transition.2 ++ enter.2)

omit [DecidableEq σ] [DecidableEq V] in
/-- `init_state` or `insert_state`, `add_derived_state` and `add_sub_state`: manual states
have a value, the others none, and each has written a first signal. -/
def registered (kinds : σ → StateKind σ V) (initial : σ → V) : StateWorld σ V where
  cursor := fun _ _ => 0
  data := fun state =>
    let value := match kinds state with
      | .manual => some (initial state)
      | _ => none
    let allowSame := match kinds state with
      | .derived _ _ allowSame => allowSame
      | _ => true
    ⟨value, none, .unchanged, [⟨none, value, allowSame⟩], fun _ => 0, fun _ => 0⟩

/-- The world after some frames. -/
def play (kinds : σ → StateKind σ V) (initial : σ → V) (frames : List (Frame kinds)) :
    StateWorld σ V :=
  frames.foldl (fun world frame => (world.stateTransition frame).1) (registered kinds initial)

end StateWorld

end Runs

end Voker.State
