import Voker.Ecs.World.Basic

/-!
# Registration and archetype transitions

A world meets component types, bundles and archetypes one by one and gives them numbers
on the way.  The functions here never fail where the numbers they are given exist; a
result of `none` stands for an unchecked access with a number that does not.

`arche_after_insert` and `arche_after_remove` look into the cache of the archetype and
otherwise compute the component slice, find or create its archetype and fill the cache.
-/

namespace Voker.Ecs.World

open Foundation ComponentCollector ComponentSlice

variable {τ V : Type} (P : Program τ V)

/-! ## Bundles -/

/-- `register_explicit_bundle`. -/
def registerExplicitBundle [DecidableEq τ] [Fintype τ] (world : World τ V)
    (type : BundleType τ) : BundleId × World τ V :=
  match world.bundles.explicit type with
  | some id => (id, world)
  | none =>
    let collector := type.components.foldl (collectExplicit P)
      (ComponentCollector.new world.components)
    let registered := world.bundles.registerExplicit type
      (ofParts collector.sorted.dense collector.sorted.sparse)
    (registered.1,
      { world with components := collector.components, bundles := registered.2 })

/-- `register_required_bundle`. -/
def registerRequiredBundle [DecidableEq τ] [Fintype τ] (world : World τ V)
    (type : BundleType τ) : BundleId × World τ V :=
  match world.bundles.required type with
  | some id => (id, world)
  | none =>
    let collector := type.components.foldl (collectRequired P)
      (ComponentCollector.new world.components)
    let registered := world.bundles.registerRequired type
      (ofParts collector.sorted.dense collector.sorted.sparse)
    (registered.1,
      { world with components := collector.components, bundles := registered.2 })

/-- `register_dynamic_bundle`; `none` if some number is not registered, which panics.
The lookup uses the slice as given, the entry its sorted form. -/
def registerDynamicBundle (world : World τ V) (idents : List ComponentId) :
    Option (BundleId × World τ V) :=
  match world.bundles.getId idents with
  | some id => some (id, world)
  | none =>
    if idents.all fun id => id < world.components.infos.length then
      let dense := idents.filter fun id => world.components.storage P id = some .dense
      let sparse := idents.filter fun id => world.components.storage P id = some .sparse
      let registered := world.bundles.registerDynamicUnique
        (ofParts (sortDedup dense) (sortDedup sparse))
      some (registered.1, { world with bundles := registered.2 })
    else none

/-! ## Archetypes -/

/-- Create the archetype of a slice with its maps and its table. -/
def createArchetype (world : World τ V) (slice : ComponentSlice) : ArcheId × World τ V :=
  let tables := world.tables.register slice.denseComponents
  let archetypes := world.archetypes.registerUnique tables.1 slice
  (archetypes.1,
    { world with
      maps := world.maps.register slice.sparseComponents
      tables := tables.2
      archetypes := archetypes.2 })

/-- The archetype of a slice. -/
def findArchetype (world : World τ V) (slice : ComponentSlice) : ArcheId × World τ V :=
  match world.archetypes.getId slice.components with
  | some id => (id, world)
  | none => world.createArchetype slice

/-- `register_archetype`: the archetype of a bundle. -/
def registerArchetype (world : World τ V) (bundle : BundleId) : Option (ArcheId × World τ V) :=
  match world.archetypes.bundles bundle with
  | some id => some (id, world)
  | none =>
    match world.bundles.infos[bundle]? with
    | none => none
    | some info =>
      let found := world.findArchetype info
      some (found.1,
        { found.2 with archetypes := found.2.archetypes.mapBundleId bundle found.1 })

/-! ## Transitions -/

/-- The slice an insertion leads to. -/
def insertSlice (arche info : ComponentSlice) : ComponentSlice :=
  ofParts (sortDedup (arche.denseComponents ++ info.denseComponents))
    (sortDedup (arche.sparseComponents ++ info.sparseComponents))

variable (world : World τ V)

/-- `arche_after_insert_slow`. -/
def archeAfterInsertSlow (id : ArcheId) (bundle : BundleId) : Option (ArcheId × World τ V) :=
  match world.archetypes.arches[id]?, world.bundles.infos[bundle]? with
  | some arche, some info =>
    let found := world.findArchetype (insertSlice arche.toComponentSlice info)
    some (found.1,
      { found.2 with
        archetypes := found.2.archetypes.modify id fun arche =>
          arche.setAfterInsert bundle found.1 })
  | _, _ => none

/-- `arche_after_insert`. -/
def archeAfterInsert (id : ArcheId) (bundle : BundleId) : Option (ArcheId × World τ V) :=
  match world.archetypes.arches[id]? with
  | none => none
  | some arche =>
    match arche.afterInsert bundle with
    | some cached => some (cached, world)
    | none => world.archeAfterInsertSlow id bundle

/-- Collect what the given components require. -/
def collectRequirements [DecidableEq τ] [Fintype τ] (components : Components τ)
    (idents : List ComponentId) : ComponentCollector τ :=
  idents.foldl (fun collector id =>
    match collector.components.infos[id]? with
    | some type => (P.requires type).foldl (collectRequired P) collector
    | none => collector) (ComponentCollector.new components)

/-- The components of an archetype that are not in a bundle. -/
def remaining (arche info : ComponentSlice) : ComponentSlice :=
  ofParts
    (arche.denseComponents.filter fun id => id ∉ info.denseComponents)
    (arche.sparseComponents.filter fun id => id ∉ info.sparseComponents)

/-- The slice a removal leads to: what remains and what that requires. -/
def removeSlice (rest : ComponentSlice) (collected : CollectResult) : ComponentSlice :=
  ofParts (sortDedup (collected.dense ++ rest.denseComponents))
    (sortDedup (collected.sparse ++ rest.sparseComponents))

/-- `arche_after_remove_slow`. -/
def archeAfterRemoveSlow [DecidableEq τ] [Fintype τ] (id : ArcheId) (bundle : BundleId) :
    Option (ArcheId × World τ V) :=
  match world.archetypes.arches[id]?, world.bundles.infos[bundle]? with
  | some arche, some info =>
    let rest := remaining arche.toComponentSlice info
    let collector := collectRequirements P world.components rest.components
    let found := findArchetype { world with components := collector.components }
      (removeSlice rest collector.unsorted)
    some (found.1,
      { found.2 with
        archetypes := found.2.archetypes.modify id fun arche =>
          arche.setAfterRemove bundle found.1 })
  | _, _ => none

/-- `arche_after_remove`. -/
def archeAfterRemove [DecidableEq τ] [Fintype τ] (id : ArcheId) (bundle : BundleId) :
    Option (ArcheId × World τ V) :=
  match world.archetypes.arches[id]? with
  | none => none
  | some arche =>
    match arche.afterRemove bundle with
    | some cached => some (cached, world)
    | none => world.archeAfterRemoveSlow P id bundle

end Voker.Ecs.World
