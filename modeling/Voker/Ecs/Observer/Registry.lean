import Voker.Ecs.Observer.Observers

/-!
# The observer registry

`Observers` keeps the observers and, for each event, caches that say whom to call: the
observers of everything, those of a component, those of an entity, and those of a
component on an entity.  The caches change when an observer is registered, and whenever
the component `ObservedBy` of an entity, which lists the observers of the entity, is cloned
or taken away: its hooks bring the registry up to date.

An identifier in `ObservedBy` is looked up without a check, so a stale one is undefined
behaviour; the hooks answer `none` then.
-/

namespace Voker.Ecs

open List Function

/-! ## Caches -/

/-- `ObserverMap`: the observers to call; the runner of an observer never changes. -/
abbrev ObserverMap := List ObserverId

namespace ObserverMap

/-- `insert`. -/
def insert (map : ObserverMap) (id : ObserverId) : ObserverMap :=
  if id ∈ map then map else map ++ [id]

/-- `remove`. -/
def remove (map : ObserverMap) (id : ObserverId) : ObserverMap := map.filter (· ≠ id)

theorem mem_insert {map : ObserverMap} {id other : ObserverId} :
    other ∈ map.insert id ↔ other ∈ map ∨ other = id := by
  unfold insert
  split
  · next hin =>
    refine ⟨.inl, fun he => he.elim (fun mem => mem) ?_⟩
    rintro rfl
    exact hin
  · rw [mem_append, mem_singleton]

theorem mem_remove {map : ObserverMap} {id other : ObserverId} :
    other ∈ map.remove id ↔ other ∈ map ∧ other ≠ id := by
  unfold remove
  rw [mem_filter, decide_eq_true_iff]

end ObserverMap

/-- The caches of an event: `global_observers`, `global_observers` of a component in
`component_observers`, `entity_observers` of an entity, and
`entity_component_observers` of an entity in `component_observers`. -/
inductive Place where
  | global
  | component (id : ComponentId)
  | entity (entity : Entity)
  | entityComponent (id : ComponentId) (entity : Entity)
  deriving DecidableEq, Repr

/-- `CachedObservers`.  A missing entry is an empty map. -/
abbrev CachedObservers := Place → ObserverMap

namespace CachedObservers

/-- `new`. -/
def new : CachedObservers := fun _ => []

/-- Put an observer into a cache. -/
def insert (cached : CachedObservers) (place : Place) (id : ObserverId) : CachedObservers :=
  update cached place ((cached place).insert id)

/-- Take an observer out of a cache. -/
def remove (cached : CachedObservers) (place : Place) (id : ObserverId) : CachedObservers :=
  update cached place ((cached place).remove id)

/-- Drop the entry of a cache. -/
def clear (cached : CachedObservers) (place : Place) : CachedObservers :=
  update cached place []

variable {member id : ObserverId} {place other : Place} {cached : CachedObservers}

theorem mem_insert : member ∈ cached.insert place id other ↔
      member ∈ cached other ∨ member = id ∧ other = place := by
  unfold insert
  rw [update_apply]
  split
  · next hs => simp [hs, ObserverMap.mem_insert]
  · next ne => simp [ne]

theorem mem_remove : member ∈ cached.remove place id other ↔
      member ∈ cached other ∧ ¬ (member = id ∧ other = place) := by
  unfold remove
  rw [update_apply]
  split
  · next hs => simp [hs, ObserverMap.mem_remove]
  · next ne => simp [ne]

theorem mem_clear : member ∈ cached.clear place other ↔ member ∈ cached other ∧ other ≠ place := by
  unfold clear
  rw [update_apply]
  split
  · next hs => simp [hs]
  · next ne => simp [ne]

/-- The observers an `EntityTrigger` calls, in order. -/
def entityTriggerCalls (cached : CachedObservers) (entity : Entity) : List ObserverId :=
  cached .global ++ cached (.entity entity)

/-- The observers an `EntityComponentsTrigger` calls, in order. -/
def entityComponentsTriggerCalls (cached : CachedObservers) (entity : Entity)
    (components : List ComponentId) : List ObserverId :=
  cached.entityTriggerCalls entity ++ components.flatMap fun component =>
    cached (.component component) ++ cached (.entityComponent component entity)

theorem mem_entityComponentsTriggerCalls {e : Entity} {cs : List ComponentId} :
    id ∈ cached.entityComponentsTriggerCalls e cs ↔ id ∈ cached .global ∨ id ∈ cached (.entity e) ∨
        ∃ c ∈ cs, id ∈ cached (.component c) ∨ id ∈ cached (.entityComponent c e) := by
  simp only [entityComponentsTriggerCalls, entityTriggerCalls, mem_append, mem_flatMap, or_assoc]

section Loops

variable {α : Type} (places : α → Place) (list : List α) {other : Place} {cached : CachedObservers}
  {member : ObserverId}

/-- A loop of insertions. -/
theorem mem_foldl_insert {id : ObserverId} :
    member ∈ list.foldl (fun cached item => cached.insert (places item) id) cached other ↔
      member ∈ cached other ∨ member = id ∧ ∃ item ∈ list, other = places item := by
  induction list generalizing cached with
  | nil => simp
  | cons item list ih =>
    rw [foldl_cons, ih, mem_insert]
    simp only [mem_cons, exists_eq_or_imp]
    tauto

/-- A loop of removals. -/
theorem mem_foldl_remove {id : ObserverId} :
    member ∈ list.foldl (fun cached item => cached.remove (places item) id) cached other ↔
      member ∈ cached other ∧ ¬ (member = id ∧ ∃ item ∈ list, other = places item) := by
  induction list generalizing cached with
  | nil => simp
  | cons item list ih =>
    rw [foldl_cons, ih, mem_remove]
    simp only [mem_cons, exists_eq_or_imp]
    rw [and_or_left, not_or, and_assoc]

/-- A loop that drops entries. -/
theorem mem_foldl_clear :
    member ∈ list.foldl (fun cached item => cached.clear (places item)) cached other ↔
      member ∈ cached other ∧ ¬ ∃ item ∈ list, other = places item := by
  induction list generalizing cached with
  | nil => simp
  | cons item list ih =>
    rw [foldl_cons, ih, mem_clear]
    simp only [mem_cons, exists_eq_or_imp]
    rw [not_or, and_assoc]

end Loops

end CachedObservers

/-! ## The registry -/

/-- `Observers`.  The slots of removed observers stay empty: identifiers carry a version and
are not used again. -/
structure Observers where
  runners : EventId → CachedObservers
  observers : List (Option Observer)

namespace Observers

/-- `new`. -/
def new : Observers := ⟨fun _ => CachedObservers.new, []⟩

section

variable (registry : Observers)

/-- `get`. -/
def get (id : ObserverId) : Option Observer :=
  registry.observers[id]?.join

/-- Change the slot of an observer. -/
def setSlot (id : ObserverId) (slot : Option Observer) : Observers :=
  { registry with observers := registry.observers.set id slot }

/-- Change the caches of an event. -/
def setCached (event : EventId) (cached : CachedObservers) : Observers :=
  { registry with runners := update registry.runners event cached }

/-- `register`. -/
def register (observer : Observer) : ObserverId × Observers :=
  let id := registry.observers.length
  let cached := registry.runners observer.eventId
  let cached :=
    if observer.entities.isEmpty then
      if observer.components.isEmpty then cached.insert .global id
      else
        observer.components.foldl (fun cached component =>
          cached.insert (.component component) id) cached
    else if observer.components.isEmpty then
      observer.entities.foldl (fun cached entity => cached.insert (.entity entity) id) cached
    else
      observer.components.foldl (fun cached component =>
        observer.entities.foldl (fun cached entity =>
          cached.insert (.entityComponent component entity) id) cached) cached
  (id, { registry.setCached observer.eventId cached with
    observers := registry.observers ++ [some observer] })

end

/-! ## The hooks of `ObservedBy` -/

section

variable (entity : Entity)

/-- `on_discard`, for one observer. -/
def discardOne (registry : Observers) (id : ObserverId) : Option Observers := do
  let observer ← registry.get id
  let registry := registry.setSlot id
    (some { observer with entities := observer.entities.erase entity })
  let cached := (registry.runners observer.eventId).remove (.entity entity) id
  let cached := observer.components.foldl (fun cached component =>
    cached.remove (.entityComponent component entity) id) cached
  return registry.setCached observer.eventId cached

variable (idents : List ObserverId) (registry : Observers)

/-- `on_discard`: the observers no longer watch the entity. -/
def onDiscard : Option Observers :=
  idents.foldlM (discardOne entity) registry

/-- `on_remove`, for one observer. -/
def removeOne (id : ObserverId) : Option Observers := do
  let observer ← registry.get id
  let cached := (registry.runners observer.eventId).clear (.entity entity)
  let cached := observer.components.foldl (fun cached component =>
    cached.clear (.entityComponent component entity)) cached
  let registry := registry.setCached observer.eventId cached
  return if observer.entities.isEmpty then registry.setSlot id none else registry

/-- `on_remove`: drop the entries of the entity, and the observers without entities. -/
def onRemove : Option Observers :=
  idents.foldlM (removeOne entity) registry

/-- `on_clone`, for one observer. -/
def cloneOne (id : ObserverId) : Option Observers := do
  let observer ← registry.get id
  let entities := if entity ∈ observer.entities then observer.entities
    else observer.entities ++ [entity]
  let registry := registry.setSlot id (some { observer with entities := entities })
  let cached := (registry.runners observer.eventId).insert (.entity entity) id
  let cached := observer.components.foldl (fun cached component =>
    cached.insert (.entityComponent component entity) id) cached
  return registry.setCached observer.eventId cached

/-- `on_clone`: the observers watch the clone as well, and the caches get **both the
entity and each component on it**. -/
def onClone : Option Observers :=
  idents.foldlM (cloneOne entity) registry

end

/-! ## What the operations do to slots -/

section Slots

variable {reg : Observers}

theorem get_setSlot {id : ObserverId} {obs : Observer}
    (hf : reg.get id = some obs) (slot : Option Observer) (other : ObserverId) :
    (reg.setSlot id slot).get other = if other = id then slot else reg.get other := by
  have hin : id < reg.observers.length := by
    by_contra ho
    unfold get at hf
    rw [getElem?_eq_none (Nat.le_of_not_lt ho)] at hf
    cases hf
  unfold get setSlot
  rw [getElem?_set]
  by_cases hs : id = other
  · rw [if_pos hs, if_pos hin, if_pos hs.symm]
    rfl
  · rw [if_neg hs, if_neg fun he => hs he.symm]

@[simp]
theorem setSlot_setSlot (id : ObserverId) (one two : Option Observer) :
    (reg.setSlot id one).setSlot id two = reg.setSlot id two := by
  unfold setSlot
  rw [set_set]

@[simp]
theorem get_setCached (e : EventId) (cached : CachedObservers) (id : ObserverId) :
    (reg.setCached e cached).get id = reg.get id := rfl

@[simp]
theorem runners_setSlot (id : ObserverId) (slot : Option Observer) :
    (reg.setSlot id slot).runners = reg.runners := rfl

theorem runners_setCached (e other : EventId) (cached : CachedObservers) :
    (reg.setCached e cached).runners other =
      if other = e then cached else reg.runners other :=
  update_apply ..

theorem get_register (obs : Observer) (other : ObserverId) : (reg.register obs).2.get other =
      if other = (reg.register obs).1 then some obs else reg.get other := by
  unfold get register
  rcases Nat.lt_trichotomy other reg.observers.length with pre | rfl | hp
  · rw [getElem?_append_left pre, if_neg (Nat.ne_of_lt pre)]
  · rw [getElem?_concat_length, if_pos rfl]
    rfl
  · have ho : (reg.observers ++ [some obs]).length ≤ other := by
      rw [length_append]
      exact hp
    rw [if_neg (Nat.ne_of_gt hp), getElem?_eq_none ho, getElem?_eq_none (Nat.le_of_lt hp)]

/-- A new identifier was not in use. -/
theorem get_fresh (obs : Observer) : reg.get (reg.register obs).1 = none := by
  unfold get register
  rw [getElem?_eq_none (Nat.le_refl _)]
  rfl

end Slots

end Observers

end Voker.Ecs
