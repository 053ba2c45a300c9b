import Voker.Ecs.World.Writer

/-!
# Spawning, changing and despawning entities

The operations of a world on its entities, as the source performs them: rows of the
archetype, of the table and of the sparse maps are handed out, moved and taken back one
after the other, the component values are written in between, and the location of the
entity and of every neighbour that a swap-removal moved is patched.

While rows and location disagree a guard is armed.  **If anything panics meanwhile, the
guard forgets the entity**: it is taken out of every store, its values are leaked, and
the panic goes on.  A second panic during that cleanup aborts the process.

Hooks, observers and queued commands that run inside the operations are not part of the
model; where nobody has installed any, nothing runs.
-/

namespace Voker.Ecs.World

variable {τ V : Type} (P : Program τ V)

/-! ## Forgetting -/

section

variable (entity : Entity)

/-- The archetype part of `forget`. -/
def forgetArche (id : ArcheId) : Exec τ V Unit := do
  let arche ← archetype P id
  match arche.getArcheRow entity with
  | none => return
  | some row =>
    let moved ← deallocArcheRow P id row
    updateRow moved

/-- The table part of `forget`. -/
def forgetTable (id : TableId) : Exec τ V Unit := do
  let table ← table P id
  match table.getTableRow entity with
  | none => return
  | some row =>
    let moved ← deallocTableRow P false id row
    updateRow moved

/-- The map part of `forget`. -/
def forgetMap (id : MapId) : Exec τ V Unit := do
  let world ← get
  let map ← unwrapChecked P .map world.maps.maps[id]?
  match map.getMapRow entity with
  | none => return
  | some row =>
    let after ← unwrapChecked P .mapRow (map.deallocRow false row)
    modify fun world => world.setMap id after

/-- `let _ = set_despawned(..)`. -/
def dropLocation : Exec τ V Unit :=
  modify fun world =>
    match world.entities.setDespawned entity with
    | .ok result => { world with entities := result.2 }
    | .error _ => world

/-- `forget`: take the entity out of every store, without dropping its values. -/
def forget : Exec τ V Unit := do
  dropLocation entity
  let world ← get
  (List.range world.archetypes.arches.length).forM (forgetArche P entity)
  (List.range world.tables.tables.length).forM (forgetTable P entity)
  (List.range world.maps.maps.length).forM (forgetMap P entity)

/-- A panic while a panic unwinds ends the process. -/
def abortOnPanic (cleanup : Exec τ V Unit) : Exec τ V Unit :=
  tryCatch cleanup fun
    | .panic _ => throw .abort
    | fault => throw fault

/-- Run a computation; if it panics, clean up and go on panicking. -/
def onPanic {α : Type} (cleanup : Exec τ V Unit) (body : Exec τ V α) : Exec τ V α :=
  tryCatch body fun
    | .panic cause => do
        abortOnPanic cleanup
        throw (.panic cause)
    | fault => throw fault

/-- `ForgetEntityOnPanic`. -/
def guarded {α : Type} (body : Exec τ V α) : Exec τ V α :=
  onPanic (forget P entity) body

end

/-! ## Spawning -/

/-- Registrations as operations; an access with an invalid number violates a contract. -/
def registering {α : Type} (contract : Contract)
    (register : World τ V → Option (α × World τ V)) : Exec τ V α := do
  let world ← get
  let result ← unwrapChecked P contract (register world)
  set result.2
  return result.1

/-- Rows in the archetype, its table and the maps of its sparse components. -/
def allocRows (id : ArcheId) (entity : Entity) : Exec τ V EntityLocation := do
  let arche ← archetype P id
  let archeRow ← allocArcheRow P id entity
  let tableRow ← allocTableRow P arche.tableId entity
  arche.sparseComponents.forM fun component => allocMapRow P component entity
  return ⟨id, archeRow, arche.tableId, tableRow⟩

/-- `BundleSpawner::spawn_at`. -/
def spawnInto (id : ArcheId) (bundle : Bundle τ V) (entity : Entity) : Exec τ V Unit := do
  debugCanSpawn P entity
  guarded P entity do
    let location ← allocRows P id entity
    let writer ← bundle.writeExplicit P
      (ComponentWriter.new entity location.tableId location.tableRow)
    let _ ← bundle.type.writeRequired P writer
    setSpawned P entity location

/-- `spawn_uninit`: the rows of a new entity, with nothing written. -/
def spawnUninit (id : ArcheId) : Exec τ V (Entity × EntityLocation) := do
  let entity ← allocMut
  debugCanSpawn P entity
  guarded P entity do
    let location ← allocRows P id entity
    setSpawned P entity location
    return (entity, location)

section Types

variable [DecidableEq τ] [Fintype τ]

/-- `BundleSpawner::new`: the archetype of a bundle type. -/
def spawnArchetype (type : BundleType τ) : Exec τ V ArcheId := do
  let bundle ← modifyGet fun world => world.registerRequiredBundle P type
  registering P .bundle fun world => world.registerArchetype bundle

/-- `spawn`. -/
def spawn (bundle : Bundle τ V) : Exec τ V Entity := do
  let id ← spawnArchetype P bundle.type
  let entity ← allocMut
  spawnInto P id bundle entity
  return entity

/-- `spawn_at`. -/
def spawnAt (bundle : Bundle τ V) (entity : Entity) : Exec τ V (Except SpawnError Unit) := do
  let world ← get
  match world.entities.canSpawn entity with
  | .error err => return .error err
  | .ok _ =>
    let id ← spawnArchetype P bundle.type
    spawnInto P id bundle entity
    return .ok ()

end Types

/-! ## Moving to another archetype -/

/-- `assert_is_spawned`: the location of a spawned entity. -/
def spawnedLocation (entity : Entity) : Exec τ V EntityLocation := do
  let world ← get
  unwrapOk .notSpawned (world.entities.locate entity)

/-- The row moves of `insert_moved`, `remove_moved` and `clear`: the archetype row always
moves, the table row if the tables differ.  Returns the new location. -/
def moveRows (drop : Bool) (entity : Entity) (location : EntityLocation) (target : ArcheId)
    (targetTable : TableId) : Exec τ V EntityLocation := do
  let old ← archetype P location.archeId
  debugAssert P (old.tableId = location.tableId)
  let moved ← deallocArcheRow P location.archeId location.archeRow
  updateRow moved
  let archeRow ← allocArcheRow P target entity
  if old.tableId = targetTable then
    return { location with archeId := target, archeRow := archeRow }
  else
    let (moved, tableRow) ← moveTableRow P drop old.tableId targetTable location.tableRow
    updateRow moved
    return ⟨target, archeRow, targetTable, tableRow⟩

/-- `insert_local`: the archetype stays. -/
def insertLocal (entity : Entity) (location : EntityLocation) (bundle : Bundle τ V) :
    Exec τ V Unit := do
  let arche ← archetype P location.archeId
  let writer := ComponentWriter.new entity arche.tableId location.tableRow
  let _ ← bundle.writeExplicit P (writer.setAllWrited arche.components)

/-- `insert_moved`: rows of the archetype and the table are handed out, **none of a sparse
map**. -/
def insertMoved (entity : Entity) (location : EntityLocation) (target : ArcheId)
    (bundle : Bundle τ V) : Exec τ V Unit := do
  let old ← archetype P location.archeId
  let new ← archetype P target
  let location ← moveRows P false entity location target new.tableId
  let writer := ComponentWriter.new entity location.tableId location.tableRow
  let writer ← bundle.writeExplicit P (writer.setAllWrited old.components)
  let _ ← bundle.type.writeRequired P writer
  updateLocation entity location

/-- `remove_moved`. -/
def removeMoved (entity : Entity) (location : EntityLocation) (target : ArcheId) :
    Exec τ V Unit := do
  let old ← archetype P location.archeId
  let new ← archetype P target
  let location ← moveRows P true entity location target new.tableId
  old.sparseComponents.forM fun component =>
    if new.containsSparseComponent component then pure ()
    else deallocMapRow P true component entity
  updateLocation entity location

/-- `clear`: everything goes; the empty archetype and the empty table have number zero. -/
def clear (entity : Entity) : Exec τ V Unit := do
  let location ← spawnedLocation entity
  if location.archeId = 0 then return
  guarded P entity do
    let old ← archetype P location.archeId
    let location ← moveRows P true entity location 0 0
    old.sparseComponents.forM fun component => deallocMapRow P true component entity
    updateLocation entity location

section Types

variable [DecidableEq τ] [Fintype τ] (entity : Entity)

/-- `insert`. -/
def insert (bundle : Bundle τ V) : Exec τ V Unit := do
  let location ← spawnedLocation entity
  let required ← modifyGet fun world => world.registerRequiredBundle P bundle.type
  let _ ← modifyGet fun world => world.registerExplicitBundle P bundle.type
  let target ← registering P .bundle fun world =>
    world.archeAfterInsert location.archeId required
  guarded P entity do
    if location.archeId = target then insertLocal P entity location bundle
    else insertMoved P entity location target bundle

/-- `remove_dynamic`. -/
def removeDynamic (bundle : BundleId) : Exec τ V Unit := do
  let location ← spawnedLocation entity
  let target ← registering P .bundle fun world =>
    world.archeAfterRemove P location.archeId bundle
  guarded P entity do
    if location.archeId = target then pure ()
    else removeMoved P entity location target

/-- `remove_explicit`, `remove`: just the components of the bundle. -/
def removeExplicit (type : BundleType τ) : Exec τ V Unit := do
  let bundle ← modifyGet fun world => world.registerExplicitBundle P type
  removeDynamic P entity bundle

/-- `remove_required`: the components of the bundle and all they require. -/
def removeRequired (type : BundleType τ) : Exec τ V Unit := do
  let bundle ← modifyGet fun world => world.registerRequiredBundle P type
  removeDynamic P entity bundle

end Types

/-! ## Despawning -/

variable (entity : Entity)

/-- `set_despawned(..).debug_checked_unwrap()`. -/
def setDespawned : Exec τ V EntityLocation := do
  let world ← get
  let result ← unwrapChecked P .spawned (world.entities.setDespawned entity).toOption
  set { world with entities := result.2 }
  return result.1

/-- The guarded part of `despawn_internal`: what the two row updates returned. -/
def despawnRows (location : EntityLocation) :
    Exec τ V (Except MoveError Unit × Except MoveError Unit) := do
  let arche ← archetype P location.archeId
  let found ← setDespawned P entity
  debugAssert P (found = location)
  let archeMoved ← deallocArcheRow P location.archeId location.archeRow
  let first ← tryUpdateRow archeMoved
  let tableMoved ← deallocTableRow P true location.tableId location.tableRow
  let second ← tryUpdateRow tableMoved
  arche.sparseComponents.forM fun component => deallocMapRow P true component entity
  return (first, second)

/-- `entities.free(..)`. -/
def freeId (id : EntityId) (version : BitVec 32) : Exec τ V Entity :=
  modifyGet fun world =>
    let freed := world.entities.free P.growth id version
    (freed.1, { world with entities := freed.2 })

/-- `despawn_internal`: returns the next handle of the id. -/
def despawnInternal (location : EntityLocation) : Exec τ V Entity := do
  let results ← guarded P entity (despawnRows P entity location)
  unwrapOk .moveFailed results.1
  unwrapOk .moveFailed results.2
  freeId P entity.id 1

/-- `allocator.free(..)`. -/
def freeEntity : Exec τ V Unit :=
  modify fun world => { world with allocator := world.allocator.free entity }

/-- `despawn`. -/
def despawn : Exec τ V (Except FetchError Unit) := do
  let world ← get
  match world.entities.locate entity with
  | .error err => return .error err
  | .ok location =>
    let next ← despawnInternal P entity location
    freeEntity next
    return .ok ()

end Voker.Ecs.World
