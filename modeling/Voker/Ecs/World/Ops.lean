import Voker.Ecs.World.Clone

/-!
# The operations of a world

`Op` collects what a program can call: registrations, the queries for archetype
transitions (which fill caches), the operations on entities, cloning, and adding and
removing observers.  A program may catch a panic and go on with the world it finds, so
**`step` leads on from a panic as well as from a return**; after an abort or undefined
behaviour there is no next world.
-/

namespace Voker.Ecs

variable {τ V : Type}

/-! ## Observers -/

/-- Whether an observer listens to an archetype: it is not restricted to components, or
to one the archetype has. -/
def Observer.listensTo (observer : Observer) (slice : ComponentSlice) : Bool :=
  observer.components.isEmpty || observer.components.any slice.containsComponent

namespace World

/-- The flag part of `register_observer`. -/
def mergeFlags (observer : Observer) (archetypes : Archetypes) : Archetypes :=
  match observer.flags with
  | none => archetypes
  | some flags =>
    { archetypes with
      arches := archetypes.arches.map fun arche =>
        if observer.listensTo arche.toComponentSlice then arche.mergeObserverFlags flags
        else arche }

/-- `observers.observers.remove`. -/
def removeObserver (id : ObserverId) (world : World τ V) : World τ V :=
  { world with observers := world.observers.set id none }

/-- Stop watching a dead entity. -/
def unwatch (id : ObserverId) (entity : Entity) (world : World τ V) : World τ V :=
  { world with
    observers := world.observers.modify id fun slot =>
      slot.map fun observer => { observer with entities := observer.entities.erase entity } }

/-- Whether an observer watches no entity. -/
def watchesNone (id : ObserverId) (world : World τ V) : Bool :=
  match world.observers[id]? with
  | some (some observer) => observer.entities.isEmpty
  | _ => true

section Observing

variable (P : Program τ V)

/-- `owned.get_mut::<ObservedBy>()` followed by a push; `false` if there is no value. -/
def pushObservedBy (entity : Entity) (location : EntityLocation) (id : ObserverId) :
    Exec τ V Bool := do
  let world ← get
  match world.components.getId P.observedBy with
  | none => return false
  | some component =>
    match (P.decl P.observedBy).storage with
    | .dense =>
      let table ← table P location.tableId
      if component ∈ table.components then
        let value ← readValue (table.cell component location.tableRow)
        modify fun world => world.setTable location.tableId
          (table.replaceItem component location.tableRow (P.observe (some value) id)
            world.thisRun)
        return true
      else return false
    | .sparse =>
      match (world.maps.getId component).bind fun map =>
          (world.maps.maps[map]?).bind fun found =>
            (found.getMapRow entity).map fun row => (map, found, row) with
      | none => return false
      | some (map, found, row) =>
        let value ← readValue (found.column.data row)
        modify fun world => world.setMap map
          (found.replaceItem row (P.observe (some value) id) world.thisRun)
        return true

variable [DecidableEq τ] [Fintype τ]

/-- Note the observer on each entity it watches, through the component `ObservedBy`.
A dead entity leaves the observer; an observer whose last entity leaves is removed. -/
def watchEntities (id : ObserverId) : List Entity → Exec τ V Unit
  | [] => return
  | entity :: rest => do
      let world ← get
      match world.entities.locate entity with
      | .error _ =>
        modify (unwatch id entity)
        let world ← get
        if world.watchesNone id then modify (removeObserver id)
        else watchEntities id rest
      | .ok location =>
        let pushed ← pushObservedBy P entity location id
        if pushed then watchEntities id rest
        else
          insert P entity ⟨⟨1, [P.observedBy]⟩, [P.observe none id], rfl⟩
          watchEntities id rest

/-- `register_observer`. -/
def registerObserver (observer : Observer) : Exec τ V ObserverId := do
  modify fun world => { world with archetypes := mergeFlags observer world.archetypes }
  let id ← modifyGet fun world =>
    (world.observers.length,
      { world with observers := world.observers ++ [some observer] })
  watchEntities P id observer.entities
  return id

end Observing

end World

/-! ## Operations -/

/-- What a program can call. -/
inductive Op (τ V : Type) where
  | registerComponent (type : τ)
  | prepareComponent (id : ComponentId)
  | registerExplicitBundle (type : BundleType τ)
  | registerRequiredBundle (type : BundleType τ)
  | registerDynamicBundle (idents : List ComponentId)
  | registerArchetype (bundle : BundleId)
  | archeAfterInsert (arche : ArcheId) (bundle : BundleId)
  | archeAfterRemove (arche : ArcheId) (bundle : BundleId)
  | spawn (bundle : Bundle τ V)
  | spawnAt (bundle : Bundle τ V) (entity : Entity)
  | insert (entity : Entity) (bundle : Bundle τ V)
  | removeExplicit (entity : Entity) (type : BundleType τ)
  | removeRequired (entity : Entity) (type : BundleType τ)
  | removeDynamic (entity : Entity) (bundle : BundleId)
  | clear (entity : Entity)
  | despawn (entity : Entity)
  | forget (entity : Entity)
  | clone (linked : Bool) (fuel : ℕ) (sources : List Entity)
  | registerObserver (observer : Observer)
  | removeObserver (id : ObserverId)

/-- Operations that only register. -/
def Op.Registers : Op τ V → Prop
  | .registerComponent _ | .prepareComponent _ | .registerExplicitBundle _
  | .registerRequiredBundle _ | .registerDynamicBundle _ | .registerArchetype _
  | .archeAfterInsert _ _ | .archeAfterRemove _ _ => True
  | _ => False

/-- Operations that remove components from an entity. -/
def Op.RemovesFrom (entity : Entity) : Op τ V → Prop
  | .removeExplicit subject _ | .removeRequired subject _ | .removeDynamic subject _ =>
    subject = entity
  | _ => False

namespace World

/-- `prepare_component`: sparse components get their map. -/
def prepareComponent (P : Program τ V) (world : World τ V) (id : ComponentId) : World τ V :=
  match world.components.storage P id with
  | some .sparse => { world with maps := world.maps.prepare id }
  | _ => world

section Exec

variable [DecidableEq τ] [Fintype τ] (P : Program τ V)

/-- Run an operation. -/
def exec : Op τ V → Exec τ V Unit
  | .registerComponent type =>
    modify fun world =>
      { world with components := (world.components.register P type).2 }
  | .prepareComponent id => modify fun world => world.prepareComponent P id
  | .registerExplicitBundle type =>
    modify fun world => (world.registerExplicitBundle P type).2
  | .registerRequiredBundle type =>
    modify fun world => (world.registerRequiredBundle P type).2
  | .registerDynamicBundle idents => do
      let world ← get
      let result ← unwrapSome .notRegistered (world.registerDynamicBundle P idents)
      set result.2
  | .registerArchetype bundle => do
      let _ ← registering P .bundle fun world => world.registerArchetype bundle
  | .archeAfterInsert arche bundle => do
      let _ ← registering P .bundle fun world => world.archeAfterInsert arche bundle
  | .archeAfterRemove arche bundle => do
      let _ ← registering P .bundle fun world => world.archeAfterRemove P arche bundle
  | .spawn bundle => do let _ ← spawn P bundle
  | .spawnAt bundle entity => do let _ ← spawnAt P bundle entity
  | .insert entity bundle => insert P entity bundle
  | .removeExplicit entity type => removeExplicit P entity type
  | .removeRequired entity type => removeRequired P entity type
  | .removeDynamic entity bundle => removeDynamic P entity bundle
  | .clear entity => clear P entity
  | .despawn entity => do let _ ← despawn P entity
  | .forget entity => forget P entity
  | .clone linked fuel sources => do let _ ← spawnCloneBatch P linked fuel sources
  | .registerObserver observer => do let _ ← registerObserver P observer
  | .removeObserver id => modify (removeObserver id)

/-- The world after an operation that returned or whose panic was caught. -/
def step (op : Op τ V) (world : World τ V) : Option (World τ V) :=
  match exec P op world with
  | .ok _ after => some after
  | .error (.panic _) after => some after
  | .error _ _ => none

end Exec

end World

end Voker.Ecs
