import Voker.Ecs.World.Lifecycle

/-!
# Cloning entities

`EntityCloner` works through a queue of entities.  Each gets a new entity of the same
archetype, without values at first; then every component's cloner is called with the
source and the target cell.  Cloners may ask for further entities to be cloned, which
enter the queue, and for callbacks, which run on the new values when the queue is empty
and know all clones.

A panic on the way forgets the entity in progress and then every clone made so far.
-/

namespace Voker.Ecs.World

open Function

variable {τ V : Type}

/-! ## Cells by component number -/

section Cells

variable (P : Program τ V)

/-- `get_by_id`, `get_mut_by_id`: the cell of a component; `none` if the archetype does
not have it. -/
def getById (entity : Entity) (location : EntityLocation) (id : ComponentId) :
    Exec τ V (Option (Option V)) := do
  let arche ← archetype P location.archeId
  if id ∈ arche.denseComponents then
    let table ← table P location.tableId
    let _ ← unwrapChecked P .tableCol (table.components.find? (· = id))
    return some (table.cell id location.tableRow)
  else if arche.containsSparseComponent id then
    let found ← mapOf P id
    let row ← unwrapChecked P .mapRow (found.2.getMapRow entity)
    return some (found.2.column.data row)
  else return none

/-- Write through the pointer of `get_mut_by_id`, which leaves the ticks alone. -/
def putById (entity : Entity) (location : EntityLocation) (id : ComponentId)
    (value : Option V) : Exec τ V Unit := do
  let arche ← archetype P location.archeId
  if id ∈ arche.denseComponents then
    let table ← table P location.tableId
    modify fun world => world.setTable location.tableId
      { table with
        column := update table.column id
          { table.column id with
            data := update (table.column id).data location.tableRow value } }
  else
    let found ← mapOf P id
    let row ← unwrapChecked P .mapRow (found.2.getMapRow entity)
    modify fun world => world.setMap found.1
      { found.2 with
        column := { found.2.column with
          data := update found.2.column.data row value } }

/-- Reading a value that was never written is undefined behaviour in every build. -/
def readValue (cell : Option V) : Exec τ V V :=
  match cell with
  | some value => pure value
  | none => throw (.undefined .value)

end Cells

/-! ## The cloner -/

/-- A callback with the cell it changes. -/
structure PendingCallback (V : Type) where
  entity : Entity
  component : ComponentId
  call : CloneCallback V

/-- `EntityCloner` and the context of its run. -/
structure EntityCloner (V : Type) where
  mapper : CloneEntityMapper
  cloned : List Entity
  wait : List Entity
  deferred : List Entity
  callbacks : List (PendingCallback V)

namespace EntityCloner

/-- `new`, with the entities to clone. -/
def new (sources : List Entity) : EntityCloner V := ⟨fun _ => none, [], sources, [], []⟩

variable (cloner : EntityCloner V)

/-- What a component's cloner asks for. -/
def ask (target : Entity) (id : ComponentId) (deferred : List Entity)
    (callbacks : List (CloneCallback V)) : EntityCloner V :=
  { cloner with
    deferred := cloner.deferred ++ deferred
    callbacks := cloner.callbacks ++ callbacks.map fun call => ⟨target, id, call⟩ }

/-- Queue an entity, unless it waits, is a clone or has been cloned. -/
def enqueue (entity : Entity) : EntityCloner V :=
  if entity ∉ cloner.wait ∧ entity ∉ cloner.cloned ∧ cloner.mapper entity = none then
    { cloner with wait := cloner.wait ++ [entity] }
  else cloner

/-- An entity is cloned: record it and queue what was asked for. -/
def finish (source target : Entity) : EntityCloner V :=
  let recorded : EntityCloner V :=
    { cloner with
      mapper := update cloner.mapper source (some target)
      cloned := cloner.cloned ++ [target]
      deferred := [] }
  cloner.deferred.foldl enqueue recorded

end EntityCloner

section Run

variable (P : Program τ V) (linked : Bool)

/-- Clone one component. -/
def cloneComponent (source target : Entity) (sourceLocation targetLocation : EntityLocation)
    (cloner : EntityCloner V) (id : ComponentId) : Exec τ V (EntityCloner V) := do
  let world ← get
  let type ← unwrapChecked P .component world.components.infos[id]?
  let found ← getById P source sourceLocation id
  let cell ← unwrapSome .componentMissing found
  let place ← getById P target targetLocation id
  let _ ← unwrapSome .componentMissing place
  match (P.decl type).cloner with
  | .copyable callbacks =>
    putById P target targetLocation id cell
    return cloner.ask target id [] callbacks
  | .custom call =>
    let value ← readValue cell
    let result ← unwrapSome .userCode (call linked source target value)
    let written ← unwrapSome .notWritten result.value
    putById P target targetLocation id (some written)
    return cloner.ask target id result.deferred result.callbacks

/-- Clone all components of the source into the new entity. -/
def cloneComponents (source target : Entity) (targetLocation : EntityLocation)
    (cloner : EntityCloner V) : Exec τ V (EntityCloner V) := do
  debugAssert P (target ≠ source)
  let sourceLocation ← spawnedLocation source
  let arche ← archetype P sourceLocation.archeId
  debugAssert P (sourceLocation.archeId = targetLocation.archeId)
  arche.components.foldlM (cloneComponent P linked source target sourceLocation targetLocation)
    cloner

/-- Clone one entity of the queue; dead ones are skipped. -/
def cloneEntity (cloner : EntityCloner V) (source : Entity) : Exec τ V (EntityCloner V) := do
  let world ← get
  match world.entities.locate source with
  | .error _ => return cloner
  | .ok location =>
    let (target, targetLocation) ← spawnUninit P location.archeId
    let cloner ← guarded P target
      (cloneComponents P linked source target targetLocation cloner)
    return cloner.finish source target

/-- `ForgetGuard`: forget every clone made so far. -/
def forgetCloned (cloner : EntityCloner V) : Exec τ V Unit :=
  cloner.cloned.forM (forget P)

/-- Work through the queue. -/
def cloneAll : ℕ → EntityCloner V → Exec τ V (EntityCloner V)
  | fuel, cloner =>
    match cloner.wait, fuel with
    | [], _ => return cloner
    | _ :: _, 0 => throw .outOfFuel
    | source :: rest, fuel + 1 => do
        let cloner ← onPanic (forgetCloned P cloner)
          (cloneEntity P linked { cloner with wait := rest } source)
        cloneAll fuel cloner

/-- Run one callback. -/
def runCallback (mapper : CloneEntityMapper) (callback : PendingCallback V) :
    Exec τ V CloneEntityMapper := do
  let location ← spawnedLocation callback.entity
  let found ← getById P callback.entity location callback.component
  let cell ← unwrapSome .componentMissing found
  let value ← readValue cell
  let result ← unwrapSome .userCode (callback.call value mapper)
  putById P callback.entity location callback.component (some result.1)
  return result.2

/-- `spawn_clone_batch`, with a bound on the number of entities taken from the queue:
the clones of the given entities (or the entities themselves, if they are dead). -/
def spawnCloneBatch (fuel : ℕ) (sources : List Entity) : Exec τ V (List Entity) := do
  let cloner ← cloneAll P linked fuel (EntityCloner.new sources)
  let mapper ← onPanic (forgetCloned P cloner)
    (cloner.callbacks.foldlM (runCallback P) cloner.mapper)
  return sources.map fun source => (mapper source).getD source

end Run

end Voker.Ecs.World
