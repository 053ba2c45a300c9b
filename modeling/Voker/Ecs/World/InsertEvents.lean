import Voker.Ecs.Observer.Watching
import Voker.Ecs.World.Flags

/-!
# The events of an insertion

`insert` tells the observers of `Discard`, `Add` and `Insert` what happens to the entity.
Dispatching is skipped where the flags of an archetype say that nobody listens.  When the
entity changes its archetype, **the flags consulted are always those of the archetype it
comes from**, also for components that only the archetype it goes to has.

## Which observers are called

The caches that are asked for the observers of an event are a parameter; what is assumed of them
is `Complete`, that no scope of an observer is missing, and `complete_of_run` shows it for every
run of a registry that has led to the observers of the world.  Under it all observers of what
happened are called exactly if the old archetype has the flag wherever one of them does not
listen to it.
-/

namespace Voker.Ecs

open Foundation List Option

/-- An `EntityComponentsTrigger` of a lifecycle event. -/
structure LifecycleTrigger where
  kind : Lifecycle
  components : List ComponentId
  deriving DecidableEq, Repr

/-- Dispatch if the archetype has the flag. -/
def Archetype.triggerIf (arche : Archetype) (kind : Lifecycle)
    (components : List ComponentId) : List LifecycleTrigger :=
  if arche.hasObserver kind then [⟨kind, components⟩] else []

/-- The triggers of `insert_local`. -/
def insertLocalTriggers (arche : Archetype) (bundle : ComponentSlice) : List LifecycleTrigger :=
  arche.triggerIf .discard bundle.components ++ arche.triggerIf .insert bundle.components

/-- The triggers of `insert_moved`. -/
def insertMovedTriggers (old new : Archetype) (bundle : ComponentSlice) : List LifecycleTrigger :=
  old.triggerIf .discard (bundle.components.filter old.containsComponent) ++
  old.triggerIf .add (new.components.filter fun id => !old.containsComponent id) ++
  old.triggerIf .insert (new.components.filter fun id =>
    !old.containsComponent id || bundle.containsComponent id)

/-- The observers called for one kind of event. -/
def calledBy (runners : EventId → CachedObservers) (entity : Entity)
    (triggers : List LifecycleTrigger) (kind : Lifecycle) : List ObserverId :=
  triggers.flatMap fun trigger =>
    if trigger.kind = kind then
      (runners (.lifecycle kind)).entityComponentsTriggerCalls entity trigger.components
    else []

/-- The scopes of an observer admit a component on an entity: the observer is global, or
watches the entity, or watches the component, or both. -/
def Observer.Hears (observer : Observer) (entity : Entity) (component : ComponentId) : Prop :=
  (observer.entities = [] ∨ entity ∈ observer.entities) ∧
    (observer.components = [] ∨ component ∈ observer.components)

/-- The components an event of an insertion is about: those gained, and for `Insert` also
those overwritten. -/
def InsertAffects (old new : Archetype) (bundle : ComponentSlice) : Lifecycle → ComponentId → Prop
  | .add, id => id ∈ new.components ∧ id ∉ old.components
  | .insert, id => id ∈ new.components ∧ (id ∉ old.components ∨ id ∈ bundle.components)
  | _, _ => False

/-! ## Calls -/

/-- An observer that hears a component is called by every trigger with that component. -/
theorem Observers.Complete.called {reg : Observers} (hfu : reg.Complete)
    {id : ObserverId} {obs : Observer} (hf : reg.get id = some obs)
    {e : Entity} {c : ComponentId} (he : obs.Hears e c) {cs : List ComponentId} (mem : c ∈ cs) :
    id ∈ (reg.runners obs.eventId).entityComponentsTriggerCalls e cs := by
  rw [CachedObservers.mem_entityComponentsTriggerCalls]
  have hp := hfu id obs hf
  obtain ⟨hn | hw, hwh | hin⟩ := he
  · exact .inl (hp .global ⟨hn, hwh⟩)
  · exact .inr (.inr ⟨c, mem, .inl (hp (.component c) ⟨hn, hin⟩)⟩)
  · exact .inr (.inl (hp (.entity e) ⟨hw, hwh⟩))
  · exact .inr (.inr ⟨c, mem, .inr (hp (.entityComponent c e) ⟨hw, hin⟩)⟩)

/-- The calls of a trigger that depends on a flag. -/
theorem calledBy_triggerIf (r : EventId → CachedObservers) (e : Entity)
    (a : Archetype) (kind o : Lifecycle) (cs : List ComponentId) :
    calledBy r e (a.triggerIf o cs) kind =
      if o = kind ∧ a.hasObserver kind = true then
        (r (.lifecycle kind)).entityComponentsTriggerCalls e cs
      else [] := by
  unfold calledBy Archetype.triggerIf
  by_cases hs : o = kind
  · subst hs
    by_cases hf : a.hasObserver o = true
    · simp [hf]
    · simp [hf]
  · split
    · simp [hs]
    · simp [hs]

/-- What `insert_moved` calls: nobody without the flag of the old archetype, and else
whoever is cached for the components affected. -/
theorem calledBy_insertMovedTriggers (r : EventId → CachedObservers) (e : Entity)
    (old new : Archetype) (b : ComponentSlice) {kind : Lifecycle}
    (hr : kind = .add ∨ kind = .insert) :
    ∃ cs, (∀ id, id ∈ cs ↔ InsertAffects old new b kind id) ∧
      calledBy r e (insertMovedTriggers old new b) kind =
        if old.hasObserver kind then
          (r (.lifecycle kind)).entityComponentsTriggerCalls e cs
        else [] := by
  have hp : calledBy r e (insertMovedTriggers old new b) kind =
      calledBy r e (old.triggerIf .discard
        (b.components.filter old.containsComponent)) kind ++ calledBy r e (old.triggerIf .add
        (new.components.filter fun id => !old.containsComponent id)) kind ++
      calledBy r e (old.triggerIf .insert (new.components.filter fun id =>
        !old.containsComponent id || b.containsComponent id)) kind := by
    unfold insertMovedTriggers
    unfold calledBy
    rw [flatMap_append, flatMap_append]
  rcases hr with rfl | rfl
  · refine ⟨new.components.filter fun id => !old.containsComponent id, fun id => ?_, ?_⟩
    · simp [InsertAffects, ← Bool.not_eq_true]
    · rw [hp, calledBy_triggerIf, calledBy_triggerIf, calledBy_triggerIf]
      simp
  · refine ⟨new.components.filter fun id =>
      !old.containsComponent id || b.containsComponent id, fun id => ?_, ?_⟩
    · simp [InsertAffects, ← Bool.not_eq_true]
    · rw [hp, calledBy_triggerIf, calledBy_triggerIf, calledBy_triggerIf]
      simp

namespace World

variable {τ V : Type} [DecidableEq τ] [Fintype τ]

/-- The triggers of `insert`, in the world in which its first part ends. -/
def insertTriggers (world : World τ V) (location : EntityLocation) (explicit : BundleId)
    (target : ArcheId) : List LifecycleTrigger :=
  match world.archetypes.arches[location.archeId]?, world.archetypes.arches[target]?,
      world.bundles.infos[explicit]? with
  | some old, some new, some bundle =>
    if location.archeId = target then insertLocalTriggers old bundle
    else insertMovedTriggers old new bundle
  | _, _, _ => []

omit [DecidableEq τ] [Fintype τ] in
/-- A world keeps the slots of the registry, which is all that flags depend on, and its
operations run no hooks.  The caches are those of a run that does run them: where it has led
to the same slots, they are complete. -/
theorem complete_of_run {world : World τ V} {ops : List WatchOp} {watching : Watching}
    (ran : run Watching.step ops .new = some watching)
    (same : world.observers = watching.registry.observers) :
    (Observers.mk watching.registry.runners world.observers).Complete := by
  rw [same]
  exact (run_invariant (fun _ _ _ hso hs => (Watching.step_spec hso hs).1) Watching.sound_new
    ran).2

/-- **Who hears of an insertion that changes the archetype.**  With correct flags and
complete caches, every observer of `Add` that hears a component gained, and every observer
of `Insert` that hears a component gained or overwritten, is called, exactly if the flag is
set in the old archetype whenever there is such an observer that does not listen to the old
archetype. -/
theorem insert_observers_called_iff (P : Program τ V) {world middle : World τ V}
    (orderly : Orderly P world) (correct : FlagsCorrect world) {runners : EventId → CachedObservers}
    (complete : (Observers.mk runners world.observers).Complete) {entity : Entity}
    {bundle : Bundle τ V} {location : EntityLocation} {explicit : BundleId} {target : ArcheId}
    (begun : insertTarget P entity bundle world = .ok (location, explicit, target) middle)
    (moves : location.archeId ≠ target) {old new : Archetype} {info : ComponentSlice}
    (source : middle.archetypes.arches[location.archeId]? = some old)
    (aim : middle.archetypes.arches[target]? = some new)
    (entry : middle.bundles.infos[explicit]? = some info) :
    (∀ kind, kind = .add ∨ kind = .insert → ∀ component, InsertAffects old new info kind component →
      ∀ (id : ObserverId) (observer : Observer), world.observers[id]? = some (some observer) →
        observer.eventId = .lifecycle kind → observer.Hears entity component →
        id ∈ calledBy runners entity (middle.insertTriggers location explicit target) kind) ↔
    ∀ kind, kind = .add ∨ kind = .insert → ∀ component, InsertAffects old new info kind component →
      ∀ (id : ObserverId) (observer : Observer), world.observers[id]? = some (some observer) →
        observer.eventId = .lifecycle kind → observer.Hears entity component →
        observer.listensTo old.toComponentSlice = false → old.hasObserver kind = true := by
  obtain ⟨hal, hi, -⟩ :=
    (sat_insertTarget orderly.registered (orderly.settled entity) bundle).of_ok begun
  -- the old archetype has the same components and flags as before the registrations
  have hfl : ∀ kind, world.Heard kind old.toComponentSlice → old.hasObserver kind = true := by
    intro kind hea
    obtain ⟨before, hs⟩ := (orderly.settled entity).arche hal
    obtain ⟨now, hf, hsl, -⟩ := hi.grew.arches _ _ hs
    obtain ⟨a, hfo, -, flags⟩ := hi.grew.rows _ _ hs
    obtain rfl := some.inj (source.symm.trans hf)
    obtain rfl := some.inj (source.symm.trans hfo)
    have set := correct _ before hs kind (by rw [← hsl]; exact hea)
    rw [Archetype.hasObserver_eq_true] at set ⊢
    rw [flags]
    exact set
  have ht : middle.insertTriggers location explicit target =
      insertMovedTriggers old new info := by
    unfold insertTriggers
    rw [source, aim, entry]
    exact if_neg moves
  rw [ht]
  refine forall_congr' fun kind => forall_congr' fun hr => forall_congr' fun component =>
    forall_congr' fun ha => forall_congr' fun id => forall_congr' fun observer =>
    forall_congr' fun hli => forall_congr' fun he => forall_congr' fun her => ?_
  obtain ⟨components, hme, hc⟩ :=
    calledBy_insertMovedTriggers runners entity old new info hr
  rw [hc]
  constructor
  · intro hm _
    by_contra hu
    rw [if_neg hu] at hm
    exact absurd hm not_mem_nil
  · intro hfg
    have set : old.hasObserver kind = true := by
      cases hl : observer.listensTo old.toComponentSlice with
      | true => exact hfl kind ⟨id, observer, hli, he, hl⟩
      | false => exact hfg hl
    have hf : (Observers.mk runners world.observers).get id = some observer := by
      unfold Observers.get
      rw [hli]
      rfl
    rw [if_pos set, ← he]
    exact complete.called hf her ((hme component).mpr ha)

/-- A world with an entity that has the first component, one that has none, and an
observer that was registered last. -/
def observedWorld (observer : Observer) : Option (World Bool ℕ) :=
  run (step denseAndSparse) [.spawn (Bundle.zeros ⟨1, [false]⟩), .spawn (Bundle.zeros ⟨0, []⟩),
    .registerObserver observer] World.new

/-- What inserting the first component into the second entity finds. -/
structure InsertFindings where
  observers : List (Option Observer)
  flags : Bool
  source : ArcheId
  target : ArcheId
  old : List ComponentId
  new : List ComponentId
  bundle : Option ComponentSlice
  triggers : List LifecycleTrigger
  deriving DecidableEq

/-- The findings in a world. -/
def insertFindings (world : World Bool ℕ) : Option InsertFindings :=
  match insertTarget denseAndSparse (entityFromU32 128) (Bundle.zeros ⟨1, [false]⟩) world with
  | .ok (location, explicit, target) middle =>
    match middle.archetypes.arches[location.archeId]?, middle.archetypes.arches[target]? with
    | some old, some new => some ⟨world.observers, world.flagsCorrectCheck, location.archeId,
        target, old.components, new.components, middle.bundles.infos[explicit]?,
        middle.insertTriggers location explicit target⟩
    | _, _ => none
  | .error _ _ => none

/-- From findings back to the run. -/
theorem insertFindings_inv {w : World Bool ℕ} {f : InsertFindings}
    (hf : w.insertFindings = some f) : ∃ mid loc e old new,
      insertTarget denseAndSparse (entityFromU32 128) (Bundle.zeros ⟨1, [false]⟩) w =
        .ok (loc, e, f.target) mid ∧ loc.archeId = f.source ∧
      mid.archetypes.arches[loc.archeId]? = some old ∧
      mid.archetypes.arches[f.target]? = some new ∧
      old.components = f.old ∧ new.components = f.new ∧
      mid.bundles.infos[e]? = f.bundle ∧
      mid.insertTriggers loc e f.target = f.triggers ∧
      w.observers = f.observers ∧ w.flagsCorrectCheck = f.flags := by
  unfold insertFindings at hf
  split at hf
  · next loc e aim mid out =>
    split at hf
    · next old new src ha =>
      obtain rfl := some.inj hf
      exact ⟨mid, loc, e, old, new, out, rfl, src, ha, rfl, rfl, rfl, rfl, rfl, rfl⟩
    · cases hf
  · cases hf

/-- An observer of the first component is registered when an archetype with it exists; the
flags are correct.  An entity without components gets the component, and the observer is
not called. -/
theorem gained_component_unheard :
    ∃ (world middle : World Bool ℕ) (location : EntityLocation) (explicit : BundleId)
      (target : ArcheId) (old new : Archetype) (info : ComponentSlice),
      observedWorld ⟨.lifecycle .add, [0], []⟩ = some world ∧ FlagsCorrect world ∧
      insertTarget denseAndSparse (entityFromU32 128) (Bundle.zeros ⟨1, [false]⟩) world =
        .ok (location, explicit, target) middle ∧ location.archeId ≠ target ∧
      middle.archetypes.arches[location.archeId]? = some old ∧
      middle.archetypes.arches[target]? = some new ∧
      middle.bundles.infos[explicit]? = some info ∧ InsertAffects old new info .add 0 ∧
      world.observers[0]? = some (some ⟨.lifecycle .add, [0], []⟩) ∧
      ∀ runners, 0 ∉ calledBy runners (entityFromU32 128)
        (middle.insertTriggers location explicit target) .add := by
  obtain ⟨world, ran⟩ := isSome_iff_exists.mp
    (show (observedWorld ⟨.lifecycle .add, [0], []⟩).isSome = true by decide +kernel)
  have hf : (observedWorld ⟨.lifecycle .add, [0], []⟩).bind insertFindings =
      some ⟨[some ⟨.lifecycle .add, [0], []⟩], true, 0, 1, [], [0], some ⟨[0], 1⟩, []⟩ := by
    decide +kernel
  rw [ran, bind_some] at hf
  obtain ⟨middle, location, explicit, old, new, hou, hst, hs, aim, hol, hn, he,
    ht, ho, hfl⟩ := insertFindings_inv hf
  refine ⟨world, middle, location, explicit, 1, old, new, ⟨[0], 1⟩, ran,
    flagsCorrect_of_check hfl, hou, by rw [hst]; decide, hs, aim, he, ?_, ?_, ?_⟩
  · rw [InsertAffects, hol, hn]
    simp
  · rw [ho]
    rfl
  · intro runners hm
    rw [ht] at hm
    exact absurd hm not_mem_nil

/-- A global observer is called for the component gained. -/
theorem insert_observers_called_global :
    ∃ (world middle : World Bool ℕ) (watching : Watching) (location : EntityLocation)
      (explicit : BundleId) (target : ArcheId), observedWorld globalAddObserver = some world ∧
      run Watching.step [.register globalAddObserver] .new = some watching ∧
      insertTarget denseAndSparse (entityFromU32 128) (Bundle.zeros ⟨1, [false]⟩) world =
        .ok (location, explicit, target) middle ∧
      0 ∈ calledBy watching.registry.runners (entityFromU32 128)
        (middle.insertTriggers location explicit target) .add := by
  obtain ⟨world, ran⟩ := isSome_iff_exists.mp
    (show (observedWorld globalAddObserver).isSome = true by decide +kernel)
  have hf : (observedWorld globalAddObserver).bind insertFindings =
      some ⟨[some globalAddObserver], true, 0, 1, [], [0], some ⟨[0], 1⟩, [⟨.add, [0]⟩]⟩ := by
    decide +kernel
  rw [ran, bind_some] at hf
  obtain ⟨middle, location, explicit, old, new, hou, hst, hs, aim, hol, hn, he,
    -, ho, hfl⟩ := insertFindings_inv hf
  have hor : Orderly denseAndSparse world :=
    run_invariant (fun _ _ _ hor hou => Orderly.step hor hou)
      (orderly_new denseAndSparse) ran
  obtain ⟨watching, hw, hsl⟩ : ∃ watching,
      run Watching.step [.register globalAddObserver] .new = some watching ∧
        watching.registry.observers = [some globalAddObserver] := ⟨_, rfl, rfl⟩
  have hli : world.observers[0]? = some (some globalAddObserver) := by
    rw [ho]
    rfl
  have hca := (insert_observers_called_iff denseAndSparse hor (flagsCorrect_of_check hfl)
    (complete_of_run hw (ho.trans hsl.symm)) hou (by rw [hst]; decide) hs aim he).mpr (by
      intro kind hr c ha id o hl hev hea hd
      rw [ho] at hl
      have hon := mem_singleton.mp (mem_of_getElem? hl)
      obtain rfl := some.inj hon
      exact absurd hd (by simp [globalAddObserver, Observer.listensTo]))
  refine ⟨world, middle, watching, location, explicit, 1, ran, hw, hou, ?_⟩
  refine hca .add (.inl rfl) 0 ?_ 0 globalAddObserver hli rfl ⟨.inl rfl, .inl rfl⟩
  rw [InsertAffects, hol, hn]
  simp

end World

end Voker.Ecs
