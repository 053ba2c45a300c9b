import Voker.Foundation.Runs

/-!
# Command queues

A command queue is one buffer of encoded commands with a cursor.  A pass over it takes what
lies behind the cursor and moves the cursor to the end, so that commands pushed while a
command runs lie behind it; each command is followed by a flush of the world's queue, which
is a nested pass over the same buffer.  A pass that ends cuts the buffer back to where it
started.  If a command panics, the pass moves what is left of the buffer to a recovery
stack, and the outermost pass puts the stack back.

Positions count commands here and bytes in the source, where a command and its header
always lie together.

A command is an arbitrary program: it reads and changes the world, pushes commands to the
world's queue, flushes it, and ends or panics.  Two things are recorded that the source does
not keep: each command that is pushed gets a number, and it is noted who pushed it and when
it was started.
-/

namespace Voker.Ecs

/-- What a `Command` does. -/
inductive CommandProgram (S : Type) where
  | done
  | panic
  | push (command rest : CommandProgram S)
  | flush (rest : CommandProgram S)
  | act (update : S → S) (next : S → CommandProgram S)

/-- A command in a queue, with its number. -/
structure QueuedCommand (S : Type) where
  tag : ℕ
  program : CommandProgram S

/-- `CommandQueue`. -/
structure CommandQueue (C : Type) where
  bytes : List C
  cursor : ℕ
  panicRecovery : List C

namespace CommandQueue

variable {C : Type}

/-- `new`. -/
def new : CommandQueue C := ⟨[], 0, []⟩

variable (queue : CommandQueue C)

/-- `is_empty`. -/
def isEmpty : Bool := queue.bytes.length ≤ queue.cursor

/-- `push`. -/
def push (command : C) : CommandQueue C :=
  { queue with bytes := queue.bytes ++ [command] }

/-- The end of a pass. -/
def truncate (start : ℕ) : CommandQueue C :=
  { queue with bytes := queue.bytes.take start, cursor := start }

/-- What a pass does when a command panics. -/
def recover (start localCursor : ℕ) : CommandQueue C :=
  let recovery := queue.panicRecovery ++ queue.bytes.drop localCursor
  -- the outermost pass restores the commands that remain
  if start = 0 then ⟨recovery, 0, []⟩ else ⟨queue.bytes.take start, start, recovery⟩

end CommandQueue

/-- A queue: the one of the world, or one that is kept elsewhere. -/
inductive QueueHandle where
  | world
  | other
  deriving DecidableEq, Repr

/-- What is recorded: a command is pushed, by another one or from outside, or started. -/
inductive QueueEvent where
  | pushed (parent : Option ℕ) (child : ℕ)
  | started (tag : ℕ)
  deriving DecidableEq, Repr

/-- A world with its queue and one other queue. -/
structure CommandMachine (S : Type) where
  world : S
  worldQueue : CommandQueue (QueuedCommand S)
  otherQueue : CommandQueue (QueuedCommand S)
  issued : ℕ
  log : List QueueEvent

/-- What is being executed: the rest of a command, with the flush that follows it; a call of
`apply_or_drop`; or the loop of a pass. -/
inductive CommandTask (S : Type) where
  | run (tag : ℕ) (program : CommandProgram S)
  | applyOrDrop (handle : QueueHandle)
  | pass (handle : QueueHandle) (start stop localCursor : ℕ)

namespace CommandMachine

variable {S : Type}

/-- The machine at the start. -/
def new (world : S) : CommandMachine S := ⟨world, .new, .new, 0, []⟩

section

variable (machine : CommandMachine S)

/-- A queue. -/
def queue : QueueHandle → CommandQueue (QueuedCommand S)
  | .world => machine.worldQueue
  | .other => machine.otherQueue

/-- Replace a queue. -/
def setQueue (handle : QueueHandle) (queue : CommandQueue (QueuedCommand S)) : CommandMachine S :=
  match handle with
  | .world => { machine with worldQueue := queue }
  | .other => { machine with otherQueue := queue }

/-- Push a command. -/
def push (handle : QueueHandle) (parent : Option ℕ) (program : CommandProgram S) :
    CommandMachine S :=
  { machine.setQueue handle ((machine.queue handle).push ⟨machine.issued, program⟩) with
    issued := machine.issued + 1
    log := machine.log ++ [.pushed parent machine.issued] }

/-- Record that a command is started. -/
def start (tag : ℕ) : CommandMachine S :=
  { machine with log := machine.log ++ [.started tag] }

end

/-- Execute; the result says whether a panic unwinds, and `none` that there was not enough
fuel. -/
def exec : ℕ → CommandTask S → CommandMachine S → Option (CommandMachine S × Bool)
  | 0, _, _ => none
  | fuel + 1, task, machine =>
    match task with
    -- a command is followed by a flush
    | .run _ .done => exec fuel (.applyOrDrop .world) machine
    | .run _ .panic => some (machine, true)
    | .run tag (.push command rest) =>
      exec fuel (.run tag rest) (machine.push .world (some tag) command)
    | .run tag (.flush rest) =>
      (exec fuel (.applyOrDrop .world) machine).bind fun result =>
        if result.2 then some result else exec fuel (.run tag rest) result.1
    | .run tag (.act update next) =>
      exec fuel (.run tag (next machine.world)) { machine with world := update machine.world }
    | .applyOrDrop handle =>
      let queue := machine.queue handle
      if queue.isEmpty then some (machine, false)
      else exec fuel (.pass handle queue.cursor queue.bytes.length queue.cursor)
        (machine.setQueue handle { queue with cursor := queue.bytes.length })
    | .pass handle start stop localCursor =>
      if localCursor < stop then
        (machine.queue handle).bytes[localCursor]?.bind fun command =>
          (exec fuel (.run command.tag command.program) (machine.start command.tag)).bind
            fun result =>
              if result.2 then
                some (result.1.setQueue handle
                  ((result.1.queue handle).recover start (localCursor + 1)), true)
              else exec fuel (.pass handle start stop (localCursor + 1)) result.1
      else some (machine.setQueue handle ((machine.queue handle).truncate start), false)

/-- `World::flush`. -/
def flush (fuel : ℕ) (machine : CommandMachine S) : Option (CommandMachine S × Bool) :=
  exec fuel (.applyOrDrop .world) machine

/-- `CommandQueue::apply`: the commands of the world come first. -/
def apply (fuel : ℕ) (machine : CommandMachine S) : Option (CommandMachine S × Bool) :=
  (machine.flush fuel).bind fun result =>
    if result.2 then some result else exec fuel (.applyOrDrop .other) result.1

end CommandMachine

/-- What is done with queues from outside; a panic is caught there. -/
inductive QueueOp (S : Type) where
  | push (handle : QueueHandle) (program : CommandProgram S)
  | flush (fuel : ℕ)
  | apply (fuel : ℕ)

namespace CommandMachine

variable {S : Type}

/-- One operation. -/
def step : QueueOp S → CommandMachine S → Option (CommandMachine S)
  | .push handle program, machine => some (machine.push handle none program)
  | .flush fuel, machine => (machine.flush fuel).map Prod.fst
  | .apply fuel, machine => (machine.apply fuel).map Prod.fst

end CommandMachine

end Voker.Ecs
