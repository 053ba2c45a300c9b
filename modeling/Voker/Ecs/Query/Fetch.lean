import Voker.Ecs.Query.State
import Voker.Foundation.Cursor

/-!
# What a query does at an entity

A query visits storages one after the other.  For each part of its filter and its data it
keeps a cache, which is built once and set whenever a storage is entered: whether the
storage has the components of a `With`, the tick column of a `Changed`, the column of a
`&T`.  The maps of sparse components are looked up once.

**Setting a cache makes it what it would be if no other storage had been entered before**
(`setFor_setFor`), so what a filter decides and what is fetched depends only on the storage
and the entity: on the *cell* in which the entity has a component.
-/

namespace Voker.Ecs

open Foundation List Option

variable {τ V : Type}

/-! ## Caches -/

/-- `StorageSwitch` and `DataView`: a union of which `T::STORAGE` says which field is in
use. -/
def StorageSwitch (δ σ : Type) : StorageMode → Type
  | .dense => Option δ
  | .sparse => Option σ

namespace StorageSwitch

variable {δ σ : Type}

/-- What a cache starts with: no column, or the map of the component. -/
def build (mode : StorageMode) (map : Option σ) : StorageSwitch δ σ mode :=
  match mode with
  | .dense => (none : Option δ)
  | .sparse => map

/-- Set the column; a map stays. -/
def update {mode : StorageMode} (switch : StorageSwitch δ σ mode) (column : Option δ) :
    StorageSwitch δ σ mode :=
  match mode, switch with
  | .dense, _ => column
  | .sparse, map => map

theorem update_update {mode : StorageMode} (s : StorageSwitch δ σ mode)
    (one two : Option δ) : (s.update one).update two = s.update two := by
  cases mode <;> rfl

end StorageSwitch

/-- The storage a query has entered. -/
inductive Storage (V : Type) where
  | table (table : Table V)
  | arche (arche : Archetype) (table : Table V)

/-- The table of a storage. -/
def Storage.columns : Storage V → Table V
  | .table whole => whole
  | .arche _ whole => whole

/-- `contains_dense_component`: long component lists are searched by halving. -/
def Archetype.containsDenseComponent (arche : Archetype) (id : ComponentId) : Bool :=
  if arche.components.length < 200 then id ∈ arche.denseComponents
  else (binarySearch arche.denseComponents id).isOk

/-- `contains_sparse_component`. -/
def Archetype.containsSparseComponent (arche : Archetype) (id : ComponentId) : Bool :=
  if arche.components.length < 200 then id ∈ arche.sparseComponents
  else (binarySearch arche.sparseComponents id).isOk

/-- Whether a storage has a component, as `With` and `Without` find out. -/
def Storage.has (component : ComponentRef) : Storage V → Bool
  | .table whole => whole.hasCol component.id
  | .arche part _ =>
    match component.storage with
    | .dense => part.containsDenseComponent component.id
    | .sparse => part.containsSparseComponent component.id

/-- `maps.get_id` and `maps.get`. -/
def Maps.find (maps : Maps V) (id : ComponentId) : Option (Map V) :=
  (maps.getId id).bind fun map => maps.maps[map]?

/-- The column of a component. -/
def Table.getColumn (table : Table V) (id : ComponentId) : Option (Column V) :=
  if table.hasCol id then some (table.column id) else none

/-- `AddedView` and `ChangedView`. -/
structure TickView (V : Type) (mode : StorageMode) where
  ticks : StorageSwitch (ℕ → Tick) (Map V) mode
  lastRun : Tick
  thisRun : Tick

namespace TickView

/-- `build_cache` of `Added` and `Changed`. -/
def build (component : ComponentRef) (maps : Maps V) (lastRun thisRun : Tick) :
    TickView V component.storage :=
  ⟨.build component.storage (maps.find component.id), lastRun, thisRun⟩

/-- `set_for_arche` and `set_for_table` of `Added` and `Changed`. -/
def set (slice : Column V → ℕ → Tick) (component : ComponentRef)
    (view : TickView V component.storage) (table : Table V) : TickView V component.storage :=
  { view with ticks := view.ticks.update ((table.getColumn component.id).map slice) }

theorem set_set (s : Column V → ℕ → Tick) (c : ComponentRef)
    (view : TickView V c.storage) (one two : Table V) :
    set s c (set s c view one) two = set s c view two :=
  congrArg (fun t => TickView.mk t view.lastRun view.thisRun)
    (StorageSwitch.update_update ..)

/-- `filter` of `Added` and `Changed`. -/
def filter (slice : Column V → ℕ → Tick) {mode : StorageMode} (view : TickView V mode)
    (entity : Entity) (row : ℕ) : Bool :=
  match mode, view.ticks with
  | .dense, none => false
  | .dense, some ticks => Tick.isNewerThan (ticks row) view.lastRun view.thisRun
  | .sparse, none => false
  | .sparse, some map =>
    match map.getMapRow entity with
    | none => false
    | some mapRow => Tick.isNewerThan (slice map.column mapRow) view.lastRun view.thisRun

end TickView

namespace FilterLeaf

/-- `Cache`. -/
def Cache (V : Type) : FilterLeaf ComponentRef → Type
  | unit => Unit
  | withs _ => Bool
  | withouts _ => Bool
  | added component => TickView V component.storage
  | changed component => TickView V component.storage

/-- `build_cache`. -/
def buildCache (maps : Maps V) (lastRun thisRun : Tick) :
    (leaf : FilterLeaf ComponentRef) → leaf.Cache V
  | unit => ()
  | withs _ => false
  | withouts _ => false
  | added component => TickView.build component maps lastRun thisRun
  | changed component => TickView.build component maps lastRun thisRun

/-- `set_for_table` and `set_for_arche`. -/
def setFor (storage : Storage V) : (leaf : FilterLeaf ComponentRef) → leaf.Cache V → leaf.Cache V
  | unit, _ => ()
  | withs components, _ => components.all fun component => storage.has component
  | withouts components, _ => components.all fun component => !storage.has component
  | added component, view => TickView.set Column.added component view storage.columns
  | changed component, view => TickView.set Column.changed component view storage.columns

/-- Only the storage entered last counts. -/
theorem setFor_setFor (one two : Storage V) (leaf : FilterLeaf ComponentRef)
    (ca : leaf.Cache V) : leaf.setFor two (leaf.setFor one ca) = leaf.setFor two ca := by
  cases leaf with
  | added c => exact TickView.set_set ..
  | changed c => exact TickView.set_set ..
  | _ => rfl

/-- `filter`. -/
def filter (entity : Entity) (row : ℕ) : (leaf : FilterLeaf ComponentRef) → leaf.Cache V → Bool
  | unit, _ => true
  | withs _, holds => holds
  | withouts _, holds => holds
  | added _, view => TickView.filter Column.added view entity row
  | changed _, view => TickView.filter Column.changed view entity row

end FilterLeaf

/-- A part of a filter with its cache. -/
structure FilterField (V : Type) where
  leaf : FilterLeaf ComponentRef
  cache : leaf.Cache V

namespace FilterField

/-- `build_cache`. -/
def build (maps : Maps V) (lastRun thisRun : Tick) (leaf : FilterLeaf ComponentRef) :
    FilterField V :=
  ⟨leaf, leaf.buildCache maps lastRun thisRun⟩

/-- `set_for_table` and `set_for_arche`. -/
def setFor (storage : Storage V) (field : FilterField V) : FilterField V :=
  ⟨field.leaf, field.leaf.setFor storage field.cache⟩

/-- `filter`. -/
def filter (entity : Entity) (row : ℕ) (field : FilterField V) : Bool :=
  field.leaf.filter entity row field.cache

theorem setFor_setFor (one two : Storage V) (f : FilterField V) :
    (f.setFor one).setFor two = f.setFor two :=
  congrArg (FilterField.mk f.leaf) (f.leaf.setFor_setFor one two f.cache)

end FilterField

/-- What a query hands out of a component: the value, which is missing where memory was
never written, and the ticks. -/
structure Cell (V : Type) where
  value : Option V
  added : Tick
  changed : Tick

/-- The cell of a row. -/
def Column.cell (column : Column V) (row : ℕ) : Cell V :=
  ⟨column.data row, column.added row, column.changed row⟩

/-- The items of a query: an entity, an `EntityRef` or `EntityMut` with its location, a
component, or an `Option` of one. -/
inductive Item (V : Type) where
  | entity (entity : Entity)
  | view (entity : Entity) (location : EntityLocation)
  | component (cell : Cell V)
  | optional (cell : Option (Cell V))

/-- The cell a view of a component leads to. -/
def StorageSwitch.cell {mode : StorageMode} (view : StorageSwitch (Column V) (Map V) mode)
    (entity : Entity) (row : ℕ) : Option (Cell V) :=
  match mode, view with
  | .dense, column => column.map fun column => column.cell row
  | .sparse, map => map.bind fun map =>
    (map.getMapRow entity).map fun mapRow => map.column.cell mapRow

namespace DataLeaf

/-- `Cache`: `EntityRef` and `EntityMut` keep the world, of which they use the entity
table. -/
def Cache (V : Type) : DataLeaf ComponentRef → Type
  | entity => Unit
  | entityRef => Entities
  | entityMut => Entities
  | reading component => StorageSwitch (Column V) (Map V) component.storage
  | optReading component => StorageSwitch (Column V) (Map V) component.storage
  | writing component => StorageSwitch (Column V) (Map V) component.storage
  | optWriting component => StorageSwitch (Column V) (Map V) component.storage

/-- `build_cache`. -/
def buildCache (entities : Entities) (maps : Maps V) : (leaf : DataLeaf ComponentRef) → leaf.Cache V
  | entity => ()
  | entityRef => entities
  | entityMut => entities
  | reading component => .build component.storage (maps.find component.id)
  | optReading component => .build component.storage (maps.find component.id)
  | writing component => .build component.storage (maps.find component.id)
  | optWriting component => .build component.storage (maps.find component.id)

/-- `set_for_table` and `set_for_arche`. -/
def setFor (table : Table V) : (leaf : DataLeaf ComponentRef) → leaf.Cache V → leaf.Cache V
  | entity, cache => cache
  | entityRef, cache => cache
  | entityMut, cache => cache
  | reading component, view => StorageSwitch.update view (table.getColumn component.id)
  | optReading component, view => StorageSwitch.update view (table.getColumn component.id)
  | writing component, view => StorageSwitch.update view (table.getColumn component.id)
  | optWriting component, view => StorageSwitch.update view (table.getColumn component.id)

/-- Only the storage entered last counts. -/
theorem setFor_setFor (one two : Table V) (leaf : DataLeaf ComponentRef) (ca : leaf.Cache V) :
    leaf.setFor two (leaf.setFor one ca) = leaf.setFor two ca := by
  cases leaf with
  | reading c => exact StorageSwitch.update_update ..
  | optReading c => exact StorageSwitch.update_update ..
  | writing c => exact StorageSwitch.update_update ..
  | optWriting c => exact StorageSwitch.update_update ..
  | _ => rfl

/-- `locate(..).unwrap()` within `fetch`. -/
def fetchView (entities : Entities) (entity : Entity) : Except Fault (Option (Item V)) :=
  match entities.locate entity with
  | .ok location => .ok (some (.view entity location))
  | .error _ => .error (.panic .notSpawned)

/-- `fetch`. -/
def fetch (subject : Entity) (row : ℕ) :
    (leaf : DataLeaf ComponentRef) → leaf.Cache V → Except Fault (Option (Item V))
  | entity, _ => .ok (some (.entity subject))
  | entityRef, entities => fetchView entities subject
  | entityMut, entities => fetchView entities subject
  | reading _, view => .ok ((StorageSwitch.cell view subject row).map .component)
  | writing _, view => .ok ((StorageSwitch.cell view subject row).map .component)
  | optReading _, view => .ok (some (.optional (StorageSwitch.cell view subject row)))
  | optWriting _, view => .ok (some (.optional (StorageSwitch.cell view subject row)))

end DataLeaf

/-- A field of the data with its cache. -/
structure DataField (V : Type) where
  leaf : DataLeaf ComponentRef
  cache : leaf.Cache V

namespace DataField

/-- `build_cache`. -/
def build (entities : Entities) (maps : Maps V) (leaf : DataLeaf ComponentRef) : DataField V :=
  ⟨leaf, leaf.buildCache entities maps⟩

/-- `set_for_table` and `set_for_arche`. -/
def setFor (table : Table V) (field : DataField V) : DataField V :=
  ⟨field.leaf, field.leaf.setFor table field.cache⟩

/-- `fetch`. -/
def fetch (entity : Entity) (row : ℕ) (field : DataField V) : Except Fault (Option (Item V)) :=
  field.leaf.fetch entity row field.cache

theorem setFor_setFor (one two : Table V) (f : DataField V) :
    (f.setFor one).setFor two = f.setFor two :=
  congrArg (DataField.mk f.leaf) (f.leaf.setFor_setFor one two f.cache)

end DataField

/-- `fetch` of a tuple: the first field that has nothing ends it. -/
def fetchAll (entity : Entity) (row : ℕ) :
    List (DataField V) → Except Fault (Option (List (Item V)))
  | [] => .ok (some [])
  | field :: fields =>
    match field.fetch entity row with
    | .error fault => .error fault
    | .ok none => .ok none
    | .ok (some item) =>
      match fetchAll entity row fields with
      | .error fault => .error fault
      | .ok items => .ok (items.map (item :: ·))

/-! ## Cells -/

/-- The cell in which an entity has a component: in its row of the table, or in its row of
the map. -/
def cellIn (maps : Maps V) (table : Table V) (row : ℕ) (entity : Entity)
    (component : ComponentRef) : Option (Cell V) :=
  match component.storage with
  | .dense => (table.getColumn component.id).map fun column => column.cell row
  | .sparse => (maps.find component.id).bind fun map =>
    (map.getMapRow entity).map fun mapRow => map.column.cell mapRow

section Cells

variable (maps : Maps V) (lastRun thisRun : Tick) (e : Entity) (row : ℕ)

variable {es : Entities} {loc : EntityLocation}

end Cells

end Voker.Ecs
