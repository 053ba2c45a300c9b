import Voker.Ecs.Schedule.Compiled

/-!
# Configurations of systems

What `add_systems` takes is built from systems by `before`, `after`, `chain`, `run_if` and
`run_if_ran`.  A configuration lists the systems to register, the ones a user named first
among them, and the edges between them.  If a system defers commands, a configuration can
contain a second one, `ApplyDeferred`, after which they have been applied.

Identities of systems contain the set they are in, so that `apply_to_set` renames
everything.

Hash maps and hash sets are lists here, whose order means nothing.
-/

namespace Voker.Ecs

/-- `InternedSystemSet`: the set `()`, or a set with a label. -/
inductive SystemSet where
  | anonymous
  | named (label : ℕ)
  deriving DecidableEq, Repr

/-- The type of a system: the markers of a set, `ApplyDeferred<S>`, and all others. -/
inductive SystemType where
  | user (type : ℕ)
  | applyDeferred (type : ℕ)
  | setBegin (set : SystemSet)
  | setEnd (set : SystemSet)
  deriving DecidableEq, Repr

/-- `SystemId`. -/
structure SystemId where
  type : SystemType
  inSet : SystemSet
  deriving DecidableEq, Repr

/-- A boxed system: `ActionSystem` or `ConditionSystem`. -/
structure BoxedSystem where
  id : SystemId
  object : SystemObject
  deriving DecidableEq, Repr

/-- `SystemId` with `set_system_set`, which the markers of sets ignore. -/
def SystemId.setSystemSet (id : SystemId) (set : SystemSet) : SystemId :=
  match id.type with
  | .setBegin _ | .setEnd _ => id
  | _ => { id with inSet := set }

/-- The system stores its `last_run`; the markers of sets answer zero. -/
def SystemId.hasTick (id : SystemId) : Bool :=
  match id.type with
  | .setBegin _ | .setEnd _ => false
  | _ => true

namespace BoxedSystem

/-- `set_system_set`. -/
def setSystemSet (system : BoxedSystem) (set : SystemSet) : BoxedSystem :=
  { system with id := system.id.setSystemSet set }

/-- `is_deferred`. -/
def isDeferred (system : BoxedSystem) : Bool := system.object.deferred

end BoxedSystem

namespace SystemSet

/-- The marker that begins a set. -/
def begin (set : SystemSet) : BoxedSystem where
  id := ⟨.setBegin set, set⟩
  object := ⟨.action, true, false, false⟩

/-- The marker that ends a set. -/
def end_ (set : SystemSet) : BoxedSystem where
  id := ⟨.setEnd set, set⟩
  object := ⟨.action, true, false, false⟩

end SystemSet

/-- `apply_deferred::<S>()`. -/
def applyDeferred (type : ℕ) : BoxedSystem where
  id := ⟨.applyDeferred type, .anonymous⟩
  object := ⟨.action, true, false, true⟩

/-- A value of a type `S` that is `IntoSystem`: the types `S` and `S::System`, and the
system that is made of it. -/
structure IntoSystem where
  source : ℕ
  system : ℕ
  boxed : BoxedSystem
  deriving DecidableEq, Repr

/-- `SystemConfig`. -/
structure SystemConfig where
  primaryIds : List SystemId
  systems : List BoxedSystem
  deferred : List (SystemId × BoxedSystem)
  dependencies : List (SystemId × SystemId)
  conditions : List (SystemId × SystemId)
  deriving DecidableEq, Repr

namespace SystemConfig

/-- `insert` into the systems, which are found by their identity. -/
def insertSystem (systems : List BoxedSystem) (system : BoxedSystem) : List BoxedSystem :=
  systems.filter (fun other => other.id ≠ system.id) ++ [system]

/-- `entry` and `or_insert`. -/
def orInsert (systems : List BoxedSystem) (system : BoxedSystem) : List BoxedSystem :=
  if system.id ∈ systems.map BoxedSystem.id then systems else systems ++ [system]

/-- `insert` into the deferred helpers. -/
def insertDeferred (deferred : List (SystemId × BoxedSystem)) (entry : SystemId × BoxedSystem) :
    List (SystemId × BoxedSystem) :=
  deferred.filter (fun other => other.1 ≠ entry.1) ++ [entry]

/-- `get` of the deferred helpers. -/
def getDeferred (config : SystemConfig) (id : SystemId) : Option BoxedSystem :=
  (config.deferred.find? fun entry => entry.1 = id).map Prod.snd

/-- Insert edges. -/
def insertAll (edges more : List (SystemId × SystemId)) : List (SystemId × SystemId) :=
  more.foldl (fun all edge => all.insert edge) edges

/-- `new`. -/
def new : SystemConfig := ⟨[], [], [], [], []⟩

/-- `with_action` and `with_condition`. -/
def withSystem (system : BoxedSystem) : SystemConfig :=
  { new with primaryIds := [system.id], systems := [system] }

/-- `with_action_deferred` and `with_condition_deferred`: only the helper of an action is
run if the system ran. -/
def withDeferred (system def_ : BoxedSystem) : SystemConfig :=
  { withSystem system with
    deferred := [(system.id, def_)]
    conditions := if system.object.kind = .action then [(system.id, def_.id)] else [] }

/-- `into_config` of a system. -/
def ofSystem (system : IntoSystem) : SystemConfig :=
  if system.boxed.isDeferred then withDeferred system.boxed (applyDeferred system.system)
  else withSystem system.boxed

/-- `before_impl`. -/
def before (config : SystemConfig) (anchor : IntoSystem) (ignoreDeferred : Bool) : SystemConfig :=
  let id := anchor.boxed.id
  { config with
    systems := orInsert config.systems anchor.boxed
    dependencies := insertAll config.dependencies <| config.primaryIds.flatMap fun pid =>
      (pid, id) :: if ignoreDeferred then [] else
        ((config.getDeferred pid).map fun def_ => (def_.id, id)).toList }

/-- `after_impl`. -/
def after (config : SystemConfig) (anchor : IntoSystem) (ignoreDeferred : Bool) : SystemConfig :=
  let id := anchor.boxed.id
  let anchorDef := if !ignoreDeferred && anchor.boxed.isDeferred then
      some (applyDeferred anchor.source)
    else none
  let beforePrimaries := (anchorDef.map BoxedSystem.id).getD id
  let systems := orInsert config.systems anchor.boxed
  { config with
    systems := (anchorDef.map (orInsert systems)).getD systems
    dependencies := insertAll config.dependencies <| config.primaryIds.map fun pid =>
      (beforePrimaries, pid) }

/-- The edges of `chain_impl`. -/
def chainEdges (config : SystemConfig) (ignoreDeferred : Bool) :
    List SystemId → List (SystemId × SystemId)
  | a :: b :: rest =>
    (match if ignoreDeferred then none else config.getDeferred a with
      | some def_ => [(a, def_.id), (def_.id, b)]
      | none => [(a, b)]) ++ chainEdges config ignoreDeferred (b :: rest)
  | _ => []

/-- `chain_impl`. -/
def chain (config : SystemConfig) (ignoreDeferred : Bool) : SystemConfig :=
  { config with
    dependencies := insertAll config.dependencies
      (config.chainEdges ignoreDeferred config.primaryIds) }

/-- `run_if_impl` and `run_if_ran_impl`, which only differ in the kind of the system. -/
def gate (config : SystemConfig) (system : IntoSystem) : SystemConfig :=
  let id := system.boxed.id
  let gated :=
    { config with
      systems := orInsert config.systems system.boxed
      conditions := insertAll config.conditions (config.primaryIds.map fun pid => (id, pid)) }
  if system.boxed.isDeferred then
    let def_ := applyDeferred system.system
    { gated with
      deferred := insertDeferred gated.deferred (id, def_)
      dependencies := insertAll gated.dependencies
        (config.primaryIds.map fun pid => (def_.id, pid)) }
  else gated

/-- `merge`. -/
def merge (config other : SystemConfig) : SystemConfig where
  primaryIds := config.primaryIds ++ other.primaryIds
  systems := other.systems.foldl insertSystem config.systems
  deferred := other.deferred.foldl insertDeferred config.deferred
  dependencies := insertAll config.dependencies other.dependencies
  conditions := insertAll config.conditions other.conditions

/-- The renaming of `apply_to_set`: `id_map`, or else the identity. -/
def rename (config : SystemConfig) (set : SystemSet) (id : SystemId) : SystemId :=
  if id ∈ config.systems.map BoxedSystem.id ∨
      id ∈ config.deferred.map (fun entry => entry.2.id) then id.setSystemSet set
  else id

/-- `apply_to_set`. -/
def applyToSet (config : SystemConfig) (set : SystemSet) : SystemConfig where
  primaryIds := config.primaryIds.map (config.rename set)
  systems := (config.systems.map fun system => system.setSystemSet set).foldl insertSystem []
  deferred := (config.deferred.map fun entry =>
    (config.rename set entry.1, entry.2.setSystemSet set)).foldl insertDeferred []
  dependencies := insertAll [] <| config.dependencies.map fun edge =>
    (config.rename set edge.1, config.rename set edge.2)
  conditions := insertAll [] <| config.conditions.map fun edge =>
    (config.rename set edge.1, config.rename set edge.2)

end SystemConfig

end Voker.Ecs
