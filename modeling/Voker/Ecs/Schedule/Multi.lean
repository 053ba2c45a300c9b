import Mathlib.Data.Finset.Basic
import Voker.Ecs.Schedule.Compiled
import Voker.Foundation.Rows
import Voker.Foundation.Runs

/-!
# The multi-threaded executor

Ready systems wait in a queue and are started as tasks if they do not conflict with
systems that run.  A task that ends pushes a signal and tries to advance the schedule.  Who
holds the lock drains the signals, counts the counters of dependents down, and starts what
has become ready; systems whose conditions are not met are skipped, and when an exclusive
system is started, the no-op systems of the queue are completed at once.

The executor is a machine that takes small steps: tasks end at any moment, the threads that
want to advance the schedule come and go, and the one that holds the lock handles one
signal, starts one system or completes one no-op at a time.

Two things are recorded that the source does not keep: why a signal was sent, and which
systems were started and completed in what order.
-/

namespace Voker.Ecs

open Foundation

/-- Why a system is marked completed. -/
inductive Cause where
  | ran
  | noOp
  | skipped
  deriving DecidableEq, Repr

/-- `CompletedSignal`. -/
structure CompletedSignal where
  index : ℕ
  deferred : Bool
  meetCondition : Bool
  cause : Cause
  deriving DecidableEq, Repr

/-- `ExecutorState`. -/
structure ExecutorState where
  incoming : ℕ → ℕ
  conditionIncoming : ℕ → ℕ
  readySystems : List ℕ
  runningSystems : Finset ℕ
  deferredSystems : List ℕ

/-- What is recorded. -/
inductive Event where
  | started (index : ℕ)
  | completed (signal : CompletedSignal)
  deriving DecidableEq, Repr

/-- What the holder of the lock is doing: handling signals, with a stack of signals to go;
starting ready systems, with a number of attempts to go; or completing no-op systems, with
the saved positions to go. -/
inductive Phase where
  | draining (pending : List CompletedSignal)
  | spawning (left : ℕ)
  | resolving (pending : List CompletedSignal) (saved : List ℕ) (left : ℕ)
  deriving DecidableEq, Repr

/-- `MultiThreadedExecutor` during a run: `flying` are the tasks that have not ended, and
`trying` and `checking` count the threads in `tick` that are about to try the lock or to
look whether there are new signals. -/
structure MultiThreadedExecutor where
  state : ExecutorState
  completed : List CompletedSignal
  flying : List ℕ
  lock : Option Phase
  trying : ℕ
  checking : ℕ
  log : List Event

/-- What can happen next: a task ends; a thread takes the lock, or gives up because it is
held; the holder of the lock advances; a thread looks for new signals. -/
inductive ExecutorStep where
  | finish (index : ℕ)
  | acquire
  | giveUp
  | advance
  | check
  deriving DecidableEq, Repr

namespace ExecutorState

/-- `reset`: systems without predecessors are ready. -/
def reset (schedule : SystemSchedule) : ExecutorState where
  incoming := schedule.incoming
  conditionIncoming := schedule.conditionIncoming
  readySystems := (List.range schedule.size).filter fun index => schedule.incoming index = 0
  runningSystems := ∅
  deferredSystems := []

/-- What the loop over the outgoing edges of a completed system changes. -/
structure Released where
  incoming : ℕ → ℕ
  ready : List ℕ
  pending : List CompletedSignal

/-- The signal of a system that is skipped. -/
def skip (index : ℕ) : CompletedSignal := ⟨index, false, false, .skipped⟩

/-- The loop over the outgoing edges: dependents that wait for nobody else become ready, or
are skipped if a condition was not met. -/
def release (conditionIncoming : ℕ → ℕ) : List ℕ → Released → Option Released
  | [], released => some released
  | target :: rest, released =>
    if released.incoming target = 0 then none
    else
      let incoming := Function.update released.incoming target (released.incoming target - 1)
      if incoming target = 0 then
        if conditionIncoming target = 0 then
          release conditionIncoming rest
            { released with incoming := incoming, ready := target :: released.ready }
        else
          release conditionIncoming rest
            { released with incoming := incoming, pending := skip target :: released.pending }
      else release conditionIncoming rest { released with incoming := incoming }

/-- The body of the loop of `handle_completed_system`, for one signal.  The signals still to
be handled are a stack. -/
def handleSignal (schedule : SystemSchedule) (state : ExecutorState) (signal : CompletedSignal)
    (pending : List CompletedSignal) : Option (ExecutorState × List CompletedSignal) := do
  let conditionIncoming ←
    if signal.meetCondition then
      decrement state.conditionIncoming (schedule.conditionOutgoing signal.index)
    else some state.conditionIncoming
  let released ← release conditionIncoming (schedule.outgoing signal.index)
    ⟨state.incoming, state.readySystems, pending⟩
  return ({ incoming := released.incoming
            conditionIncoming := conditionIncoming
            readySystems := released.ready
            runningSystems := state.runningSystems.erase signal.index
            deferredSystems :=
              if signal.deferred then state.deferredSystems ++ [signal.index]
              else state.deferredSystems }, released.pending)

end ExecutorState

namespace MultiThreadedExecutor

variable (schedule : SystemSchedule) (outcome : ℕ → Outcome)

/-- The start of `run`: the first thread is about to try the lock. -/
def start : MultiThreadedExecutor where
  state := ExecutorState.reset schedule
  completed := []
  flying := []
  lock := none
  trying := 1
  checking := 0
  log := []

section

variable (executor : MultiThreadedExecutor)

/-- `run` returns when no task and no thread is left. -/
def Returned : Prop :=
  executor.flying = [] ∧ executor.lock = none ∧ executor.trying = 0 ∧ executor.checking = 0

/-- The signal of a task that ends.  A panic counts as a condition that is not met, and its
deferred commands are not applied. -/
def signalOf (index : ℕ) : CompletedSignal where
  index := index
  deferred := schedule.isDeferred index && outcome index ≠ .panicked
  meetCondition := outcome index = .met
  cause := .ran

/-- `push_completed_system`: the signal is pushed, and the thread calls `tick`. -/
def finish (index : ℕ) : Option MultiThreadedExecutor :=
  if index ∈ executor.flying then
    some { executor with
      flying := executor.flying.erase index
      completed := executor.completed ++ [signalOf schedule outcome index]
      trying := executor.trying + 1 }
  else none

/-- The lock is released; its holder looks for new signals. -/
def unlock : MultiThreadedExecutor :=
  { executor with lock := none, checking := executor.checking + 1 }

/-- Handle one signal, then go on with what is left to be handled. -/
def handle (signal : CompletedSignal) (pending : List CompletedSignal)
    (phase : List CompletedSignal → Phase) : Option MultiThreadedExecutor := do
  let handled ← executor.state.handleSignal schedule signal pending
  return { executor with
    state := handled.1
    lock := some (phase handled.2)
    log := executor.log ++ [.completed signal] }

/-- The scan of `handle_no_op_systems`: the positions of no-op systems, last position
first, which is the order in which they are used. -/
def noOpPositions (ready : List ℕ) : List ℕ :=
  ((List.range ready.length).filter fun position =>
    ready[position]?.any (schedule.isNoOp ·)).reverse

/-- `spawn_system_task`. -/
def spawnSystemTask (index : ℕ) (ready : List ℕ) (left : ℕ) : MultiThreadedExecutor :=
  { executor with
    state := { executor.state with
      readySystems := ready
      runningSystems := insert index executor.state.runningSystems
      -- exclusive systems take over the deferred commands
      deferredSystems := if schedule.isExclusive index then [] else executor.state.deferredSystems }
    flying := index :: executor.flying
    lock := some (if schedule.isExclusive index && !ready.isEmpty
      then .resolving [] (noOpPositions schedule ready) left else .spawning left)
    log := executor.log ++ [.started index] }

/-- Whether a system conflicts with one that runs. -/
def isConflict (index : ℕ) : Bool :=
  decide (∃ running ∈ executor.state.runningSystems, schedule.conflict index running = true)

/-- One attempt of `spawn_ready_tasks`. -/
def trySpawn (left : ℕ) : MultiThreadedExecutor :=
  match executor.state.readySystems with
  | [] => executor.unlock
  | index :: ready =>
    if executor.isConflict schedule index then
      let executor := { executor with
        state := { executor.state with readySystems := ready ++ [index] } }
      if executor.completed.isEmpty then { executor with lock := some (.spawning left) }
      else executor.unlock
    else executor.spawnSystemTask schedule index ready left

/-- Complete the no-op system at a saved position. -/
def resolve (position : ℕ) (saved : List ℕ) (left : ℕ) : Option MultiThreadedExecutor :=
  executor.state.readySystems[position]?.map fun index =>
    { executor with
      state := { executor.state with
        readySystems := swapRemove executor.state.readySystems position }
      lock := some (.resolving [⟨index, false, true, .noOp⟩] saved left) }

/-- What the holder of the lock does next. -/
def advance : Option MultiThreadedExecutor :=
  match executor.lock with
  | none => none
  | some (.draining (signal :: pending)) => executor.handle schedule signal pending .draining
  | some (.draining []) =>
    match executor.completed with
    | signal :: rest =>
      some { executor with completed := rest, lock := some (.draining [signal]) }
    | [] =>
      some { executor with lock := some (.spawning executor.state.readySystems.length) }
  | some (.spawning 0) => some executor.unlock
  | some (.spawning (left + 1)) => some (executor.trySpawn schedule left)
  | some (.resolving (signal :: pending) saved left) =>
    executor.handle schedule signal pending fun pending => .resolving pending saved left
  | some (.resolving [] (position :: saved) left) => executor.resolve position saved left
  | some (.resolving [] [] left) => some { executor with lock := some (.spawning left) }

end

/-- One step. -/
def step : ExecutorStep → MultiThreadedExecutor → Option MultiThreadedExecutor
  | .finish index, executor => executor.finish schedule outcome index
  | .acquire, executor =>
    if executor.lock = none ∧ 0 < executor.trying then
      some { executor with lock := some (.draining []), trying := executor.trying - 1 }
    else none
  | .giveUp, executor =>
    if executor.lock ≠ none ∧ 0 < executor.trying then
      some { executor with trying := executor.trying - 1 }
    else none
  | .advance, executor => executor.advance schedule
  | .check, executor =>
    if 0 < executor.checking then
      some { executor with
        checking := executor.checking - 1
        trying := if executor.completed.isEmpty then executor.trying else executor.trying + 1 }
    else none

end MultiThreadedExecutor

end Voker.Ecs
