import Voker.Ecs.World.Register

/-!
# Writing the components of an entity

A `ComponentWriter` stores values into the row of one entity, dense ones into its table
and sparse ones into their maps.  It remembers which components hold a value already:
those are replaced, the others initialised.

Explicit writes store the fields of a bundle.  Required writes construct a default value
for what is still missing, **for the direct requirements of the bundle's components only**:
`write_required` of a component calls its `Required` table once and does not follow the
requirements of what it writes.
-/

namespace Voker.Ecs

open World

variable {τ V : Type}

/-- `ComponentWriter`.  `writed` lists the components that hold a value; whether a value
was written explicitly or as a requirement is recorded by the source but never read. -/
structure ComponentWriter where
  entity : Entity
  tableId : TableId
  tableRow : ℕ
  writed : List ComponentId

namespace ComponentWriter

/-- `new`. -/
def new (entity : Entity) (tableId : TableId) (tableRow : ℕ) : ComponentWriter :=
  ⟨entity, tableId, tableRow, []⟩

/-- `set_writed`. -/
def setWrited (writer : ComponentWriter) (component : ComponentId) : ComponentWriter :=
  { writer with writed := component :: writer.writed }

/-- `set_writed` for a list of components. -/
def setAllWrited (writer : ComponentWriter) (components : List ComponentId) : ComponentWriter :=
  components.foldl setWrited writer

section Write

variable (P : Program τ V) (writer : ComponentWriter)

section

variable (component : ComponentId)

/-- Store into the writer's row of a table column. -/
def storeDense (store : Table V → Tick → Table V) : Exec τ V Unit := do
  let table ← table P writer.tableId
  let _ ← unwrapChecked P .tableCol (table.components.find? (· = component))
  modify fun world => world.setTable writer.tableId (store table world.thisRun)

/-- Store into the entity's row of a map. -/
def storeSparse (store : Map V → MapRow → Tick → Map V) : Exec τ V Unit := do
  let found ← mapOf P component
  let row ← unwrapChecked P .mapRow (found.2.getMapRow writer.entity)
  modify fun world => world.setMap found.1 (store found.2 row world.thisRun)

/-- `init_dense`. -/
def initDense (value : V) : Exec τ V ComponentWriter := do
  writer.storeDense P component fun table tick =>
    table.initItem component writer.tableRow value tick
  return writer.setWrited component

/-- `init_sparse`. -/
def initSparse (value : V) : Exec τ V ComponentWriter := do
  writer.storeSparse P component fun map row tick => map.initItem row value tick
  return writer.setWrited component

/-- `write_dense`. -/
def writeDense (value : V) : Exec τ V ComponentWriter := do
  writer.storeDense P component fun table tick =>
    if component ∈ writer.writed then table.replaceItem component writer.tableRow value tick
    else table.initItem component writer.tableRow value tick
  return writer.setWrited component

/-- `write_sparse`. -/
def writeSparse (value : V) : Exec τ V ComponentWriter := do
  writer.storeSparse P component fun map row tick =>
    if component ∈ writer.writed then map.replaceItem row value tick
    else map.initItem row value tick
  return writer.setWrited component

end

/-- The number of a component type. -/
def componentId (type : τ) : Exec τ V ComponentId := do
  let world ← get
  unwrapChecked P .component (world.components.getId type)

/-- `write_required`. -/
def writeRequired (type : τ) : Exec τ V ComponentWriter := do
  let component ← componentId P type
  if component ∈ writer.writed then return writer
  else
    let value ← unwrapSome .userCode (P.decl type).construct
    match (P.decl type).storage with
    | .dense => writer.initDense P component value
    | .sparse => writer.initSparse P component value

/-- `write_explicit`. -/
def writeExplicit (field : τ × V) : Exec τ V ComponentWriter := do
  let component ← componentId P field.1
  match (P.decl field.1).storage with
  | .dense => writer.writeDense P component field.2
  | .sparse => writer.writeSparse P component field.2

end Write

end ComponentWriter

/-- `Bundle::write_explicit`: field by field. -/
def Bundle.writeExplicit (P : Program τ V) (bundle : Bundle τ V) (writer : ComponentWriter) :
    Exec τ V ComponentWriter :=
  bundle.fields.foldlM (ComponentWriter.writeExplicit P) writer

/-- `Bundle::write_required`: the `Required` table of each component. -/
def BundleType.writeRequired (P : Program τ V) (type : BundleType τ)
    (writer : ComponentWriter) : Exec τ V ComponentWriter :=
  type.components.foldlM
    (fun writer component => (P.requires component).foldlM (ComponentWriter.writeRequired P) writer)
    writer

end Voker.Ecs
