import Voker.Ecs.Archetype.Archetypes

/-!
# Observers

An observer reacts to one kind of event.  It can be restricted to some components and to
some entities.  The lifecycle events have a flag each in the archetypes, so that nothing
is dispatched where nobody listens.
-/

namespace Voker.Ecs

/-- The lifecycle events `Add`, `Clone`, `Insert`, `Remove`, `Discard` and `Despawn`. -/
inductive Lifecycle where
  | add
  | clone
  | insert
  | remove
  | discard
  | despawn
  deriving DecidableEq, Repr

/-- `EventId`: the lifecycle events have the first numbers, other events the rest. -/
inductive EventId where
  | lifecycle (kind : Lifecycle)
  | custom (number : ℕ)
  deriving DecidableEq, Repr

/-- The bit of a lifecycle event in `ObserverFlags`. -/
def Lifecycle.flag : Lifecycle → ObserverFlags
  | .add => 1 <<< 0
  | .clone => 1 <<< 1
  | .insert => 1 <<< 2
  | .remove => 1 <<< 3
  | .discard => 1 <<< 4
  | .despawn => 1 <<< 5

/-- `has_on_add_observer` and its siblings. -/
def Archetype.hasObserver (arche : Archetype) (kind : Lifecycle) : Bool :=
  arche.observers &&& kind.flag ≠ 0

/-- `ObserverId`. -/
abbrev ObserverId := ℕ

/-- `Observer`: the event it reacts to and its scopes. -/
structure Observer where
  eventId : EventId
  components : List ComponentId
  entities : List Entity
  deriving DecidableEq, Repr

/-- `flags`: the bit of the observed event, if it is a lifecycle event. -/
def Observer.flags (observer : Observer) : Option ObserverFlags :=
  match observer.eventId with
  | .lifecycle kind => some kind.flag
  | .custom _ => none

end Voker.Ecs
