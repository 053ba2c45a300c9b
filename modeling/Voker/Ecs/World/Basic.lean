import Voker.Ecs.Entity.Allocator
import Voker.Ecs.Observer.Observers
import Voker.Ecs.Storage.Map
import Voker.Foundation.Exec

/-!
# The world

`World` is the state of the entity component system.  Its methods are computations that
may fail:

* a *panic* unwinds; guards clean up, and the caller may catch it and go on;
* an *abort* ends the process: a panic while a guard cleans up;
* a violated contract of an unchecked access is a panic where debug assertions are
  compiled in and **undefined** otherwise.

The rows of all archetypes and of all tables are read as two shelves, `archeRows` and
`tableRows`.  The primitive operations below change one archetype, one table, one map or
the entity table each.
-/

namespace Voker.Ecs

open Option Function List

/-- `World`, without the parts no modelled operation uses. -/
structure World (τ V : Type) where
  entities : Entities
  allocator : EntityAllocator
  components : Components τ
  bundles : Bundles τ
  archetypes : Archetypes
  tables : Tables V
  maps : Maps V
  observers : List (Option Observer)
  thisRun : Tick

/-- The conditions unchecked accesses rely on. -/
inductive Contract where
  | archetype
  | table
  | map
  | bundle
  | component
  | archeRow
  | tableRow
  | tableCol
  | mapRow
  | spawned
  | value
  deriving DecidableEq, Repr

/-- What a panic is about. -/
inductive Panic where
  | tooManyEntities
  | notSpawned
  | cannotSpawn
  | notRegistered
  | moveFailed
  | mapRowMissing
  | componentMissing
  | notWritten
  | assertion
  | userCode
  | contract (violated : Contract)
  deriving DecidableEq, Repr

/-- How an operation can fail. -/
inductive Fault where
  | panic (cause : Panic)
  | abort
  | undefined (violated : Contract)
  | outOfFuel
  deriving DecidableEq, Repr

/-- Operations on a world. -/
abbrev Exec (τ V α : Type) := EStateM Fault (World τ V) α

variable {τ V : Type}

/-- `World::alloc`: the world at the start. -/
def World.new [DecidableEq τ] : World τ V where
  entities := Entities.new
  allocator := EntityAllocator.new
  components := Components.new
  bundles := Bundles.new
  archetypes := Archetypes.new
  tables := Tables.new
  maps := Maps.new
  observers := []
  thisRun := 1

namespace World

/-! ## The shelves -/

section

variable (world : World τ V)

/-- The rows of an archetype. -/
def archeRows (id : ArcheId) : List Entity :=
  (world.archetypes.arches[id]?.map Archetype.entities).getD []

/-- The rows of a table. -/
def tableRows (id : TableId) : List Entity :=
  (world.tables.tables[id]?.map Table.entities).getD []

/-- The table of an archetype. -/
def tableOf (id : ArcheId) : Option TableId :=
  world.archetypes.arches[id]?.map Archetype.tableId

/-- The component slice of an archetype. -/
def sliceOf (id : ArcheId) : Option ComponentSlice :=
  world.archetypes.arches[id]?.map Archetype.toComponentSlice

end

theorem sliceOf_eq {w : World τ V} {id : ArcheId} {arche : Archetype}
    (hf : w.archetypes.arches[id]? = some arche) : w.sliceOf id = some arche.toComponentSlice := by
  rw [sliceOf, hf, map_some]

/-- Replace one archetype. -/
def setArche (world : World τ V) (id : ArcheId) (arche : Archetype) : World τ V :=
  { world with
    archetypes := { world.archetypes with arches := world.archetypes.arches.set id arche } }

/-- Replace one table. -/
def setTable (world : World τ V) (id : TableId) (table : Table V) : World τ V :=
  { world with tables := { world.tables with tables := world.tables.tables.set id table } }

/-- Replace one map. -/
def setMap (world : World τ V) (id : MapId) (map : Map V) : World τ V :=
  { world with maps := { world.maps with maps := world.maps.maps.set id map } }

section Views

variable {w : World τ V} {id : ArcheId} {arche : Archetype}

theorem tableRows_of_getElem {id : TableId} {t : Table V}
    (hf : w.tables.tables[id]? = some t) : w.tableRows id = t.entities := by
  rw [tableRows, hf, map_some, getD_some]

theorem tableRows_setTable {id : TableId} {t : Table V}
    (hf : w.tables.tables[id]? = some t) (post : Table V) :
    (w.setTable id post).tableRows = update w.tableRows id post.entities := by
  have hin : id < w.tables.tables.length := (List.getElem?_eq_some_iff.mp hf).1
  funext o
  by_cases hs : o = id
  · subst hs
    rw [update_self, tableRows, setTable, getElem?_set_self hin, map_some, getD_some]
  · rw [update_of_ne hs, tableRows, setTable, getElem?_set_ne (Ne.symm hs)]
    rfl

section

variable (hf : w.archetypes.arches[id]? = some arche)

include hf

theorem archeRows_of_getElem : w.archeRows id = arche.entities := by
  rw [archeRows, hf, map_some, getD_some]

theorem tableOf_of_getElem : w.tableOf id = some arche.tableId := by
  rw [tableOf, hf, map_some]

theorem archeRows_setArche (post : Archetype) : (w.setArche id post).archeRows =
      update w.archeRows id post.entities := by
  have hin : id < w.archetypes.arches.length := (List.getElem?_eq_some_iff.mp hf).1
  funext o
  by_cases hs : o = id
  · subst hs
    rw [update_self, archeRows, setArche, getElem?_set_self hin, map_some, getD_some]
  · rw [update_of_ne hs, archeRows, setArche, getElem?_set_ne (Ne.symm hs)]
    rfl

theorem tableOf_setArche {post : Archetype} (hs : post.tableId = arche.tableId) :
    (w.setArche id post).tableOf = w.tableOf := by
  have hin : id < w.archetypes.arches.length := (List.getElem?_eq_some_iff.mp hf).1
  funext o
  by_cases he : o = id
  · subst he
    rw [tableOf, setArche, getElem?_set_self hin, tableOf_of_getElem hf, map_some, hs]
  · rw [tableOf, setArche, getElem?_set_ne (Ne.symm he)]
    rfl

end

end Views

/-! ## Failing -/

/-- A violated contract: a panic in debug builds, undefined behaviour in release
builds. -/
def violation (P : Program τ V) (contract : Contract) : Fault :=
  if P.debugAssertions then .panic (.contract contract) else .undefined contract

/-- `debug_checked_unwrap` and unchecked indexing. -/
def unwrapChecked {α : Type} (P : Program τ V) (contract : Contract) : Option α → Exec τ V α
  | some value => pure value
  | none => throw (violation P contract)

/-- `debug_assert`. -/
def debugAssert (P : Program τ V) (condition : Bool) : Exec τ V Unit :=
  if P.debugAssertions && !condition then throw (.panic .assertion) else pure ()

/-- `unwrap` of an option. -/
def unwrapSome {α : Type} (cause : Panic) : Option α → Exec τ V α
  | some value => pure value
  | none => throw (.panic cause)

/-- `unwrap` of a result. -/
def unwrapOk {ε α : Type} (cause : Panic) : Except ε α → Exec τ V α
  | .ok value => pure value
  | .error _ => throw (.panic cause)

/-! ## Primitive operations -/

section Primitives

variable (P : Program τ V)

/-- `archetypes.get_unchecked`. -/
def archetype (id : ArcheId) : Exec τ V Archetype := do
  let world ← get
  unwrapChecked P .archetype world.archetypes.arches[id]?

/-- `tables.get_unchecked`. -/
def table (id : TableId) : Exec τ V (Table V) := do
  let world ← get
  unwrapChecked P .table world.tables.tables[id]?

/-- `maps.get_id(..).debug_checked_unwrap()` and `maps.get_unchecked`. -/
def mapOf (component : ComponentId) : Exec τ V (MapId × Map V) := do
  let world ← get
  let id ← unwrapChecked P .map (world.maps.getId component)
  let map ← unwrapChecked P .map world.maps.maps[id]?
  return (id, map)

/-- `Archetype::alloc_row` in the world. -/
def allocArcheRow (id : ArcheId) (entity : Entity) : Exec τ V ℕ := do
  let arche ← archetype P id
  modify fun world => world.setArche id (arche.allocRow entity).2
  return (arche.allocRow entity).1

/-- `Archetype::dealloc_row` in the world. -/
def deallocArcheRow (id : ArcheId) (row : ℕ) : Exec τ V MovedEntityRow := do
  let arche ← archetype P id
  let result ← unwrapChecked P .archeRow (arche.deallocRow row)
  modify fun world => world.setArche id result.2
  return result.1

/-- `Table::alloc_row` in the world. -/
def allocTableRow (id : TableId) (entity : Entity) : Exec τ V ℕ := do
  let table ← table P id
  modify fun world => world.setTable id (table.allocRow entity).2
  return (table.allocRow entity).1

/-- `Table::dealloc_row` in the world. -/
def deallocTableRow (drop : Bool) (id : TableId) (row : ℕ) : Exec τ V MovedEntityRow := do
  let table ← table P id
  let result ← unwrapChecked P .tableRow (table.deallocRow drop row)
  modify fun world => world.setTable id result.2
  return result.1

/-- `Table::move_row` between two different tables of the world. -/
def moveTableRow (drop : Bool) (source target : TableId) (row : ℕ) :
    Exec τ V (MovedEntityRow × ℕ) := do
  let first ← table P source
  let second ← table P target
  let result ← unwrapChecked P .tableRow (first.moveRow drop row second)
  modify fun world => (world.setTable source result.2.2.1).setTable target result.2.2.2
  return (result.1, result.2.1)

/-- `Map::alloc_row` of the map of a component. -/
def allocMapRow (component : ComponentId) (entity : Entity) : Exec τ V Unit := do
  let found ← mapOf P component
  modify fun world => world.setMap found.1 (found.2.allocRow P.growth entity).2

/-- `get_map_row(..).unwrap()` and `Map::dealloc_row` of the map of a component. -/
def deallocMapRow (drop : Bool) (component : ComponentId) (entity : Entity) : Exec τ V Unit := do
  let found ← mapOf P component
  let row ← unwrapSome .mapRowMissing (found.2.getMapRow entity)
  let after ← unwrapChecked P .mapRow (found.2.deallocRow drop row)
  modify fun world => world.setMap found.1 after

/-- `entities.update_row(..).unwrap()`. -/
def updateRow (moved : MovedEntityRow) : Exec τ V Unit := do
  let world ← get
  let entities ← unwrapOk .moveFailed (world.entities.updateRow moved)
  set { world with entities := entities }

/-- `entities.update_location(..).unwrap()`. -/
def updateLocation (entity : Entity) (location : EntityLocation) : Exec τ V Unit := do
  let world ← get
  let entities ← unwrapOk .moveFailed (world.entities.updateLocation entity location)
  set { world with entities := entities }

/-- `entities.set_spawned(..).unwrap()`. -/
def setSpawned (entity : Entity) (location : EntityLocation) : Exec τ V Unit := do
  let world ← get
  let entities ← unwrapOk .cannotSpawn
    (world.entities.setSpawned P.growth entity location)
  set { world with entities := entities }

/-- `entities.can_spawn(..).unwrap()`, where debug assertions are compiled in. -/
def debugCanSpawn (entity : Entity) : Exec τ V Unit := do
  if P.debugAssertions then
    let world ← get
    unwrapOk .cannotSpawn (world.entities.canSpawn entity)

/-- `entities.update_row(..)`, with its result. -/
def tryUpdateRow (moved : MovedEntityRow) : Exec τ V (Except MoveError Unit) := do
  let world ← get
  match world.entities.updateRow moved with
  | .ok entities =>
    set { world with entities := entities }
    return .ok ()
  | .error err => return .error err

/-- `allocator.alloc_mut()`. -/
def allocMut : Exec τ V Entity := do
  let world ← get
  let result := world.allocator.allocMut
  set { world with allocator := result.2 }
  unwrapSome .tooManyEntities result.1

end Primitives

end World

end Voker.Ecs
