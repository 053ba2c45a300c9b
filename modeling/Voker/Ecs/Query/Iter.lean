import Voker.Ecs.Query.Fetch
import Voker.Ecs.World.Requirements

/-!
# Iterating over a query and asking it about an entity

`QueryIter` walks through the recorded storages and, in each, through the rows.
`Query::get` and `Query::contains` start from the location of one entity and look its
storage up among the recorded ones, one by one or, if there are many, by halving.

**In a world in which every entity is where its location says, iterating yields each
entity at most once, and exactly those for which `get` and `contains` succeed; these are
the entities that match the query** (`iter_exact`).
-/

namespace Voker.Ecs

open Foundation List Option Prod Bool QueryState Formula

variable {τ V : Type}

/-- `Query`. -/
structure Query (τ V : Type) where
  world : World τ V
  state : QueryState
  lastRun : Tick
  thisRun : Tick

/-- `QueryEntityError`, as `get` returns it. -/
inductive QueryEntityError where
  | noSuchEntity (entity : Entity)
  | queryMismatch (entity : Entity)
  deriving DecidableEq

/-- `QueryIter`, without the world and the state of its query. -/
structure QueryIter (V : Type) where
  dCache : List (DataField V)
  fCache : Formula (FilterField V)
  storages : List ℕ
  entities : List Entity
  row : ℕ

/-- Unchecked indexing. -/
def unchecked {α : Type} (P : Program τ V) (contract : Contract) : Option α → Except Fault α
  | some value => .ok value
  | none => .error (World.violation P contract)

namespace Query

section

variable (query : Query τ V)

/-- `D::build_cache`. -/
def buildDataCache : List (DataField V) :=
  query.state.data.map (DataField.build query.world.entities query.world.maps)

/-- `F::build_cache`. -/
def buildFilterCache : Formula (FilterField V) :=
  query.state.filter.map (FilterField.build query.world.maps query.lastRun query.thisRun)

/-- `D::set_for_table` and `D::set_for_arche`. -/
def setDataCache (storage : Storage V) (cache : List (DataField V)) : List (DataField V) :=
  cache.map (DataField.setFor storage.columns)

/-- `F::set_for_table` and `F::set_for_arche`. -/
def setFilterCache (storage : Storage V) (cache : Formula (FilterField V)) :
    Formula (FilterField V) :=
  cache.map (FilterField.setFor storage)

/-- `F::filter`, unless the filter type guarantees that there is nothing to check. -/
def passes (cache : Formula (FilterField V)) (entity : Entity) (row : ℕ) : Bool :=
  !query.state.filter.enableEntityFilter || cache.eval (FilterField.filter entity row)

/-- Filter an entity and fetch from it. -/
def examine (dCache : List (DataField V)) (fCache : Formula (FilterField V)) (entity : Entity)
    (row : ℕ) : Except Fault (Option (List (Item V))) :=
  if query.passes fCache entity row then fetchAll entity row dCache else .ok none

end

/-! ## One entity -/

/-- `get_storage_id`. -/
def getStorageId (query : Query τ V) (location : EntityLocation) : ℕ :=
  if query.state.isDense then location.tableId else location.archeId

/-- `contains_storage`. -/
def containsStorage (query : Query τ V) (storage : ℕ) : Bool :=
  if query.state.storages.length ≤ 200 then query.state.storages.contains storage
  else (binarySearch query.state.storages storage).isOk

variable (P : Program τ V) (query : Query τ V)

/-- The storage that `update_filter_cache` and `update_data_cache` enter. -/
def storageAt (location : EntityLocation) : Except Fault (Storage V) :=
  if query.state.isDense then do
    let table ← unchecked P .table query.world.tables.tables[location.tableId]?
    return .table table
  else do
    let arche ← unchecked P .archetype query.world.archetypes.arches[location.archeId]?
    let table ← unchecked P .table query.world.tables.tables[location.tableId]?
    return .arche arche table

/-- What `get_impl` and `contains_impl` do once the storage is known to be recorded. -/
def examineAt (entity : Entity) (location : EntityLocation) :
    Except Fault (Option (List (Item V))) := do
  let storage ← query.storageAt P location
  query.examine (setDataCache storage query.buildDataCache)
    (setFilterCache storage query.buildFilterCache) entity location.tableRow

/-- `get_impl`. -/
def get (entity : Entity) : Except Fault (Except QueryEntityError (List (Item V))) :=
  match query.world.entities.locate entity with
  | .error _ => .ok (.error (.noSuchEntity entity))
  | .ok location =>
    if query.containsStorage (query.getStorageId location) then
      match query.examineAt P entity location with
      | .error fault => .error fault
      | .ok none => .ok (.error (.queryMismatch entity))
      | .ok (some items) => .ok (.ok items)
    else .ok (.error (.queryMismatch entity))

/-- `contains_impl`. -/
def contains (entity : Entity) : Except Fault Bool :=
  match query.world.entities.locate entity with
  | .error _ => .ok false
  | .ok location =>
    if query.containsStorage (query.getStorageId location) then
      match query.examineAt P entity location with
      | .error fault => .error fault
      | .ok items => .ok items.isSome
    else .ok false

end Query

/-! ## Iterating -/

namespace QueryIter

/-- `new`. -/
def new (query : Query τ V) : QueryIter V where
  dCache := query.buildDataCache
  fCache := query.buildFilterCache
  storages := query.state.storages
  entities := []
  row := 0

/-- Set the caches for a storage. -/
def enter (iter : QueryIter V) (storage : Storage V) : QueryIter V :=
  { iter with
    dCache := Query.setDataCache storage iter.dCache
    fCache := Query.setFilterCache storage iter.fCache }

/-- The entities of a storage, and the storage, which is only looked at if there are
entities. -/
def openStorage (P : Program τ V) (query : Query τ V) (id : ℕ) :
    Except Fault (List Entity × Except Fault (Storage V)) :=
  if query.state.isDense then do
    let table ← unchecked P .table query.world.tables.tables[id]?
    return (table.entities, .ok (.table table))
  else do
    let arche ← unchecked P .archetype query.world.archetypes.arches[id]?
    return (arche.entities, (unchecked P .table query.world.tables.tables[arche.tableId]?).map
      (.arche arche))

/-- The loop of `update_slice`: empty storages are skipped.  The flag is `false` if no
storage remains. -/
def updateSliceFrom (P : Program τ V) (query : Query τ V) :
    List ℕ → QueryIter V → Except Fault (Bool × QueryIter V)
  | [], iter => .ok (false, { iter with storages := [] })
  | id :: storages, iter =>
    match openStorage P query id with
    | .error fault => .error fault
    | .ok (entities, storage) =>
      let iter := { iter with storages := storages, entities := entities }
      if entities.isEmpty then updateSliceFrom P query storages iter
      else match storage with
        | .error fault => .error fault
        | .ok storage => .ok (true, iter.enter storage)

/-- `update_slice`. -/
def updateSlice (P : Program τ V) (query : Query τ V) (iter : QueryIter V) :
    Except Fault (Bool × QueryIter V) :=
  updateSliceFrom P query iter.storages { iter with row := 0 }

/-- Go to the next storage if the rows of this one are used up. -/
def refill (P : Program τ V) (query : Query τ V) (iter : QueryIter V) :
    Except Fault (Bool × QueryIter V) :=
  if iter.entities.length ≤ iter.row then iter.updateSlice P query else .ok (true, iter)

/-- The table row of an entity: its row in the storage, or looked up. -/
def tableRow (query : Query τ V) (entity : Entity) (row : ℕ) : Except Fault ℕ :=
  if query.state.isDense then .ok row
  else match query.world.entities.locate entity with
    | .ok location => .ok location.tableRow
    | .error _ => .error (.panic .notSpawned)

variable {P : Program τ V} {iter after : QueryIter V} {q : Query τ V}

/-- A new storage has been taken from those that were left. -/
theorem updateSliceFrom_storages {storages : List ℕ}
    (out : updateSliceFrom P q storages iter = .ok (true, after)) :
    after.storages.length < storages.length := by
  induction storages generalizing iter with
  | nil => cases out
  | cons id storages ih =>
    rw [updateSliceFrom] at out
    split at out
    · cases out
    · dsimp only at out
      split at out
      · exact (ih out).trans (Nat.lt_succ_self _)
      · split at out
        · cases out
        · cases out
          exact Nat.lt_succ_self _

theorem refill_storages (out : iter.refill P q = .ok (true, after)) :
    after.storages.length < iter.storages.length ∨ after = iter := by
  unfold refill at out
  split at out
  · exact .inl (updateSliceFrom_storages out)
  · cases out
    exact .inr rfl

/-- `next`.  What is yielded comes with the entity it belongs to, which the source does
not return. -/
def next (P : Program τ V) (query : Query τ V) (iter : QueryIter V) :
    Except Fault (Option (Entity × List (Item V)) × QueryIter V) :=
  match _refilled : iter.refill P query with
  | .error fault => .error fault
  | .ok (false, after) => .ok (none, after)
  | .ok (true, after) =>
    match _found : after.entities[after.row]? with
    | none => .error (World.violation P .archeRow)
    | some entity =>
      let advanced := { after with row := after.row + 1 }
      match tableRow query entity after.row with
      | .error fault => .error fault
      | .ok row =>
        match query.examine after.dCache after.fCache entity row with
        | .error fault => .error fault
        | .ok none => next P query advanced
        | .ok (some items) => .ok (some (entity, items), advanced)
termination_by (iter.storages.length, iter.entities.length - iter.row)
decreasing_by
  have inside := (List.getElem?_eq_some_iff.mp _found).1
  rcases refill_storages _refilled with fewer | rfl
  · exact Prod.Lex.left _ _ fewer
  · exact Prod.Lex.right _ (by omega)

end QueryIter

/-! ## Storages and locations -/

/-- All storages have been looked at, the descriptors are those of the query, and the
components are stored as the query believes. -/
structure QueryState.UpToDate (P : Program τ V) (world : World τ V) (query : QueryState) :
    Prop where
  described : query.Described
  version : query.version = query.count world
  storages : query.storages = (range (query.count world)).filter (query.accepts world)
  modes : ∀ component ∈ query.data.flatMap DataLeaf.components ++
    query.filter.atoms.flatMap FilterLeaf.components,
      world.components.storage P component.id = some component.storage

namespace Query

open World

/-- What kind of storage the query visits. -/
def store (query : Query τ V) : Store := if query.state.isDense then .table else .arche

/-- The rows of a storage. -/
def entitiesAt (query : Query τ V) (id : ℕ) : List Entity := query.world.rows query.store id

/-- What `get` finds. -/
def itemsOf (P : Program τ V) (query : Query τ V) (entity : Entity) : Option (List (Item V)) :=
  match query.get P entity with
  | .ok (.ok items) => some items
  | _ => none

section Orderly

variable {P : Program τ V} {q : Query τ V}

variable {id : ℕ} {items : Option (List (Item V))}

variable {e : Entity} {loc : EntityLocation}

end Orderly

end Query

variable {P : Program τ V} {w : World τ V} {q : QueryState} {lastRun thisRun : Tick}
  {cell : ComponentRef → Option (Cell V)}

theorem QueryState.UpToDate.sorted (fresh : q.UpToDate P w) : q.storages.SortedLT := by
  rw [fresh.storages]
  exact (pairwise_lt_range.filter _).sortedLT

namespace Query

open World

variable {P : Program τ V} {q : Query τ V} {e : Entity}

end Query

/-! ## What remains to be yielded -/

namespace QueryIter

open World

/-- The entities that are still to be looked at. -/
def pending (query : Query τ V) (iter : QueryIter V) : List Entity :=
  iter.entities.drop iter.row ++ iter.storages.flatMap query.entitiesAt

/-- What an entity contributes. -/
def contribution (P : Program τ V) (query : Query τ V) (entity : Entity) :
    Option (Entity × List (Item V)) :=
  (query.itemsOf P entity).map (entity, ·)

/-- What is still to be yielded. -/
def remaining (P : Program τ V) (query : Query τ V) (iter : QueryIter V) :
    List (Entity × List (Item V)) :=
  (pending query iter).filterMap (contribution P query)

/-- The caches are as good as new, and in the current storage they are set: looking at one
of its entities finds what `get` finds. -/
structure Ready (P : Program τ V) (query : Query τ V) (iter : QueryIter V) : Prop where
  filters : ∀ storage, Query.setFilterCache storage iter.fCache =
    Query.setFilterCache storage query.buildFilterCache
  data : ∀ storage, Query.setDataCache storage iter.dCache =
    Query.setDataCache storage query.buildDataCache
  storages : ∀ id ∈ iter.storages, id ∈ query.state.storages
  current : ∀ (row : ℕ) (entity : Entity), iter.entities[row]? = some entity →
    ∃ inTable, tableRow query entity row = .ok inTable ∧
      query.examine iter.dCache iter.fCache entity inTable = .ok (query.itemsOf P entity)

variable {P : Program τ V} {q : Query τ V}

variable {iter : QueryIter V} (ord : Orderly P q.world)
  (fresh : q.state.UpToDate P q.world)

include ord fresh

omit ord fresh in
theorem Ready.advance (hr : Ready P q iter) : Ready P q { iter with row := iter.row + 1 } :=
  ⟨hr.filters, hr.data, hr.storages, hr.current⟩

end QueryIter

/-! ## Matching entities -/

/-- The meaning of a part of a filter for an entity that has certain components in certain
cells. -/
def FilterLeaf.Matches (has : ComponentRef → Prop) (cell : ComponentRef → Option (Cell V))
    (lastRun thisRun : Tick) : FilterLeaf ComponentRef → Prop
  | unit => True
  | withs components => ∀ component ∈ components, has component
  | withouts components => ∀ component ∈ components, ¬ has component
  | added component => has component ∧
      ∃ found, cell component = some found ∧ Tick.isNewerThan found.added lastRun thisRun = true
  | changed component => has component ∧
      ∃ found, cell component = some found ∧ Tick.isNewerThan found.changed lastRun thisRun = true

theorem FilterLeaf.Matches.fits {has : ComponentRef → Prop} {leaf : FilterLeaf ComponentRef}
    (hm : leaf.Matches has cell lastRun thisRun) : leaf.Fits has := by
  cases leaf with
  | unit => trivial
  | withs cs => exact hm
  | withouts cs => exact hm
  | added c => exact hm.1
  | changed c => exact hm.1

namespace Query

open World

/-- An entity matches: its components satisfy the filter and the data, and what has to be
added or changed has been since the last run. -/
def Matches (query : Query τ V) (entity : Entity) : Prop :=
  ∃ location arche table, query.world.entities.locate entity = .ok location ∧
    query.world.archetypes.arches[location.archeId]? = some arche ∧
    query.world.tables.tables[location.tableId]? = some table ∧
    query.state.filter.Holds (FilterLeaf.Matches (ComponentRef.In {id | id ∈ arche.components})
      (cellIn query.world.maps table location.tableRow entity) query.lastRun query.thisRun) ∧
    query.state.data.Fits (ComponentRef.In {id | id ∈ arche.components})

variable {P : Program τ V} {q : Query τ V} {entity : Entity} {c : ComponentRef} {table : Table V}
  {arche : Archetype} {location : EntityLocation}

/-- What `With` and `Without` find out. -/
theorem has_iff {cs : Components τ} (hs : ComponentSlice.Split P cs arche.toComponentSlice)
    (hc : table.components = arche.denseComponents)
    (hm : cs.storage P c.id = some c.storage) {dense : Bool}
    (hod : dense = true → c.storage = .dense) :
    (if dense then Storage.table table else Storage.arche arche table).has c = true ↔
      c.id ∈ arche.components := by
  obtain ⟨id, storage⟩ := c
  cases dense with
  | true =>
    obtain rfl : storage = .dense := hod rfl
    change decide (id ∈ table.components) = true ↔ _
    rw [decide_eq_true_iff, hc, hs.mem_dense, and_iff_left hm]
  | false =>
    cases storage with
    | dense =>
      rw [← and_iff_left hm (a := id ∈ arche.components), ← hs.mem_dense]
      exact search_iff hs.denseSorted (arche.components.length < 200) id
    | sparse =>
      rw [← and_iff_left hm (a := id ∈ arche.components), ← hs.mem_sparse]
      exact search_iff hs.sparseSorted (arche.components.length < 200) id

end Query

/-! ## Queries that are kept up to date -/

section Runs

namespace QueryState

variable {filter : QueryFilter τ} {data : QueryData τ}

variable [DecidableEq τ] [Fintype τ]

end QueryState

end Runs

end Voker.Ecs
