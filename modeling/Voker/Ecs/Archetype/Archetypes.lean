import Voker.Ecs.Bundle.Bundles
import Voker.Ecs.Entity.Info
import Voker.Foundation.Rows

/-!
# Archetypes

An archetype is the set of entities with one set of components.  It keeps its entities
in rows, knows the table of its dense components and caches where inserting or removing
a bundle leads.  `Archetypes` interns archetypes by their component slices.
-/

namespace Voker.Ecs

open Foundation List Option Function

/-- `ObserverFlags`: one bit for each lifecycle event some observer is interested in. -/
abbrev ObserverFlags := BitVec 8

/-- `Archetype`. -/
structure Archetype extends ComponentSlice where
  tableId : TableId
  observers : ObserverFlags
  entities : List Entity
  afterInsert : BundleId → Option ArcheId
  afterRemove : BundleId → Option ArcheId

namespace Archetype

/-- `new`: no entities, no observers and empty caches. -/
def new (tableId : TableId) (slice : ComponentSlice) : Archetype where
  toComponentSlice := slice
  tableId := tableId
  observers := 0
  entities := []
  afterInsert := fun _ => none
  afterRemove := fun _ => none

section

variable (arche : Archetype)

/-- `alloc_row`. -/
def allocRow (entity : Entity) : ℕ × Archetype :=
  (arche.entities.length, { arche with entities := arche.entities ++ [entity] })

/-- `dealloc_row`; `none` if the row is not occupied, which the callers must rule out. -/
def deallocRow (row : ℕ) : Option (MovedEntityRow × Archetype) :=
  if row < arche.entities.length then
    some (MovedEntityRow.inArche (swapped arche.entities row) row,
      { arche with entities := swapRemove arche.entities row })
  else none

/-- `get_arche_row`: the last row that holds the entity.  (Very long lists are searched
in parallel; the two searches agree on lists that hold the entity once.) -/
def getArcheRow (entity : Entity) : Option ℕ :=
  (arche.entities.reverse.findIdx? (· = entity)).map
    fun fromEnd => arche.entities.length - 1 - fromEnd

/-- `set_after_insert`. -/
def setAfterInsert (bundle : BundleId) (result : ArcheId) : Archetype :=
  { arche with afterInsert := update arche.afterInsert bundle (some result) }

/-- `set_after_remove`. -/
def setAfterRemove (bundle : BundleId) (result : ArcheId) : Archetype :=
  { arche with afterRemove := update arche.afterRemove bundle (some result) }

/-- `merge_observer_flags`. -/
def mergeObserverFlags (flags : ObserverFlags) : Archetype :=
  { arche with observers := arche.observers ||| flags }

end

/-- A found row holds the entity. -/
theorem getArcheRow_eq_some {arche : Archetype} {e : Entity} {row : ℕ}
    (hf : arche.getArcheRow e = some row) : arche.entities[row]? = some e := by
  obtain ⟨fe, pos, rfl⟩ := map_eq_some_iff.mp hf
  obtain ⟨hin, ho, -⟩ := findIdx?_eq_some_iff_getElem.mp pos
  rw [length_reverse] at hin
  rw [getElem?_eq_getElem (by omega)]
  simpa using ho

theorem getArcheRow_eq_none {arche : Archetype} {e : Entity} :
    arche.getArcheRow e = none ↔ e ∉ arche.entities := by
  unfold getArcheRow
  rw [map_eq_none_iff, findIdx?_eq_none_iff]
  constructor
  · intro all mem
    have ne := of_decide_eq_false (all e (mem_reverse.mpr mem))
    exact ne rfl
  · intro ha o mem
    have hin := mem_reverse.mp mem
    simpa using fun he => ha (by rwa [← he])

end Archetype

/-- `Archetypes`.  The numbers a bundle maps to are a function instead of a vector. -/
structure Archetypes where
  arches : List Archetype
  mapper : List ComponentId → Option ArcheId
  bundles : BundleId → Option ArcheId

namespace Archetypes

/-- `new`: the empty archetype has number zero, and so have its table and bundle. -/
def new : Archetypes where
  arches := [Archetype.new 0 ⟨[], 0⟩]
  mapper := update (fun _ => none) [] (some 0)
  bundles := update (fun _ => none) 0 (some 0)

section

variable (archetypes : Archetypes)

/-- `get_id`. -/
def getId (list : List ComponentId) : Option ArcheId :=
  archetypes.mapper list

/-- `map_bundle_id`. -/
def mapBundleId (bundle : BundleId) (arche : ArcheId) : Archetypes :=
  { archetypes with bundles := update archetypes.bundles bundle (some arche) }

/-- `register_unique`. -/
def registerUnique (tableId : TableId) (slice : ComponentSlice) : ArcheId × Archetypes :=
  (archetypes.arches.length,
    { archetypes with
      arches := archetypes.arches ++ [Archetype.new tableId slice]
      mapper := update archetypes.mapper slice.components
        (some archetypes.arches.length) })

/-- Change one archetype. -/
def modify (id : ArcheId) (change : Archetype → Archetype) : Archetypes :=
  { archetypes with arches := archetypes.arches.modify id change }

/-- The interning is exact. -/
def Consistent : Prop :=
  Interned (archetypes.arches.map fun arche => arche.components) archetypes.mapper

end

theorem consistent_new : new.Consistent := Interned.push interned_nil rfl

theorem Consistent.registerUnique {archetypes : Archetypes} (con : archetypes.Consistent)
    {s : ComponentSlice} (hu : archetypes.getId s.components = none)
    (ti : TableId) : (archetypes.registerUnique ti s).2.Consistent := by
  have hp := Interned.push con hu
  rw [length_map] at hp
  unfold Consistent Archetypes.registerUnique
  rw [map_append]
  exact hp

end Archetypes

end Voker.Ecs
