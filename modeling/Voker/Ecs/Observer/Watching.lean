import Voker.Ecs.Observer.Placement

/-!
# Observers and the entities they watch

The registry, the entities that exist and their `ObservedBy` components, as registering
observers, cloning entities and despawning entities change them.  Cloning copies the
component and runs `on_clone`; taking the component away, alone or with the whole entity,
runs `on_discard` and `on_remove`.

**The lists in `ObservedBy` and the entity scopes of the observers always mirror each
other**, so no hook meets a stale identifier, and no observer is ever missing from a cache
it belongs into.  That caches hold nothing else needs two conditions.
-/

namespace Voker.Ecs

open Foundation List Option Function Observers Observer

/-- The registry, the spawned entities, and the `ObservedBy` of those that have one. -/
structure Watching where
  registry : Observers
  spawned : Entity → Bool
  observedBy : Entity → Option (List ObserverId)

/-- What changes who watches whom. -/
inductive WatchOp where
  | spawn (entity : Entity) (observable : Bool)
  | register (observer : Observer)
  | clone (source target : Entity)
  | removeObservedBy (entity : Entity)
  | despawn (entity : Entity)

namespace Watching

/-- Nothing is spawned and nobody observes. -/
def new : Watching := ⟨Observers.new, fun _ => false, fun _ => none⟩

/-- Push an observer to the `ObservedBy` of an entity, or insert the component. -/
def note (watching : Watching) (entity : Entity) (id : ObserverId) : Watching :=
  { watching with
    observedBy := update watching.observedBy entity
      (match watching.observedBy entity with
      | some ids => some (ids ++ [id])
      | none => some [id]) }

/-- The loop of `register_observer`: a dead entity leaves the observer, and an observer
whose last entity leaves is removed. -/
def watchEntities (id : ObserverId) : List Entity → Watching → Option Watching
  | [], watching => some watching
  | entity :: rest, watching =>
    if watching.spawned entity then watchEntities id rest (watching.note entity id)
    else do
      let observer ← watching.registry.get id
      let entities := observer.entities.erase entity
      let registry := watching.registry.setSlot id (some { observer with entities := entities })
      if entities.isEmpty then
        return { watching with registry := registry.setSlot id none }
      else watchEntities id rest { watching with registry := registry }

/-- `register_observer`, apart from the flags of archetypes. -/
def registerObserver (watching : Watching) (observer : Observer) : Option Watching :=
  let registered := watching.registry.register observer
  watchEntities registered.1 observer.entities { watching with registry := registered.2 }

/-- The component `ObservedBy` is taken away: `on_discard` and `on_remove`. -/
def dropObservedBy (watching : Watching) (entity : Entity) : Option Watching :=
  match watching.observedBy entity with
  | none => some watching
  | some ids => do
      let registry ← watching.registry.onDiscard entity ids
      let registry ← registry.onRemove entity ids
      return { watching with
        registry := registry
        observedBy := update watching.observedBy entity none }

/-- One operation.  The entity scope of an observer is a set: a list with repetitions is
no input. -/
def step (op : WatchOp) (watching : Watching) : Option Watching :=
  match op with
  | .spawn entity observable =>
    if watching.spawned entity then none
    else some { watching with
      spawned := update watching.spawned entity true
      observedBy := update watching.observedBy entity
        (if observable then some [] else none) }
  | .register observer =>
    if observer.entities.Nodup then watching.registerObserver observer else none
  | .clone source target =>
    if watching.spawned source ∧ ¬ watching.spawned target then do
      let registry ← match watching.observedBy source with
        | none => some watching.registry
        | some ids => watching.registry.onClone target ids
      return {
        registry := registry
        spawned := update watching.spawned target true
        observedBy := update watching.observedBy target
          (watching.observedBy source) }
    else none
  | .removeObservedBy entity => watching.dropObservedBy entity
  | .despawn entity =>
    if watching.spawned entity then do
      let watching ← watching.dropObservedBy entity
      return { watching with
        spawned := update watching.spawned entity false
        observedBy := update watching.observedBy entity none }
    else none

/-! ## Mirrored lists -/

/-- An observer that exists watches an entity. -/
def Watches (watching : Watching) (id : ObserverId) (entity : Entity) : Prop :=
  ∃ observer, watching.registry.get id = some observer ∧ entity ∈ observer.entities

/-- An entity lists an observer. -/
def Lists (watching : Watching) (entity : Entity) (id : ObserverId) : Prop :=
  ∃ ids, watching.observedBy entity = some ids ∧ id ∈ ids

/-- The two sides mirror each other. -/
structure Linked (watching : Watching) : Prop where
  spawned : ∀ entity ids, watching.observedBy entity = some ids →
    watching.spawned entity = true
  nodup : ∀ entity ids, watching.observedBy entity = some ids → ids.Nodup
  entities : ∀ id observer, watching.registry.get id = some observer →
    observer.entities.Nodup
  mirrored : ∀ id entity, watching.Watches id entity ↔ watching.Lists entity id

/-- The caches hold the observers that belong into them, and no others. -/
def Placed (watching : Watching) : Prop :=
  ∀ event place id, id ∈ watching.registry.runners event place ↔
    ∃ observer, watching.registry.get id = some observer ∧ observer.eventId = event ∧
      observer.At place

variable {watching : Watching} {entity : Entity} {observer : Observer} {id : ObserverId}

/-- The observers an entity lists exist. -/
theorem Linked.live (hl : watching.Linked) {ids : List ObserverId}
    (hf : watching.observedBy entity = some ids) :
    ∀ id ∈ ids, ∃ observer, watching.registry.get id = some observer := by
  intro id mem
  obtain ⟨observer, hst, -⟩ := (hl.mirrored id entity).mpr ⟨ids, hf, mem⟩
  exact ⟨observer, hst⟩

/-- Who an entity lists is who watches it. -/
theorem Linked.mem_iff (hl : watching.Linked) {ids : List ObserverId}
    (ho : watching.observedBy entity = some ids)
    (hf : watching.registry.get id = some observer) : id ∈ ids ↔ entity ∈ observer.entities := by
  constructor
  · intro mem
    obtain ⟨ot, hst, hw⟩ := (hl.mirrored id entity).mpr ⟨ids, ho, mem⟩
    obtain rfl := some.inj (hf.symm.trans hst)
    exact hw
  · intro hw
    obtain ⟨o, hli, mem⟩ := (hl.mirrored id entity).mp ⟨observer, hf, hw⟩
    obtain rfl := some.inj (ho.symm.trans hli)
    exact mem

/-- Nobody watches an entity without the component. -/
theorem Linked.unobserved (hl : watching.Linked) (hu : watching.observedBy entity = none)
    (hf : watching.registry.get id = some observer) : entity ∉ observer.entities := by
  intro mem
  obtain ⟨ids, ho, -⟩ := (hl.mirrored id entity).mp ⟨observer, hf, mem⟩
  cases hu.symm.trans ho

/-! ## Taking `ObservedBy` away -/

/-- Everyone who watches an entity stops. -/
structure Dropped (entity : Entity) (before after : Watching) : Prop where
  spawned : after.spawned = before.spawned
  observedBy : after.observedBy = update before.observedBy entity none
  slots : ∀ id, after.registry.get id = (before.registry.get id).bind (leave entity)
  caches : ∀ event place id, id ∈ after.registry.runners event place ↔
    id ∈ before.registry.runners event place ∧
      ¬ ∃ other observer, before.registry.get other = some observer ∧
        entity ∈ observer.entities ∧ event = observer.eventId ∧ observer.Touches entity place

/-- The hooks of a removal, taken together. -/
theorem dropObservedBy_spec (hl : watching.Linked) (e : Entity) :
    ∃ post, watching.dropObservedBy e = some post ∧ Dropped e watching post := by
  unfold dropObservedBy
  cases ho : watching.observedBy e with
  | none =>
    refine ⟨watching, rfl, rfl, ?_, fun id => ?_, fun event p id => ?_⟩
    · rw [← ho, update_eq_self]
    · cases hf : watching.registry.get id with
      | none => rfl
      | some observer =>
        rw [bind_some, leave, if_neg (hl.unobserved ho hf)]
    · refine ⟨fun mem => ⟨mem, ?_⟩, And.left⟩
      rintro ⟨o, observer, hf, hw, -⟩
      exact hl.unobserved ho hf hw
  | some ids =>
    have hn := hl.nodup e ids ho
    obtain ⟨mid, hd, hs, hca⟩ := (acts_discardOne e).foldlM
      (fun a => by simp) and_not_assoc hn (hl.live ho)
    -- discarding keeps the observers alive, with the same event and components
    have hli : ∀ id ∈ ids, ∃ observer, mid.get id = some observer := by
      intro id mem
      obtain ⟨observer, hf⟩ := hl.live ho id mem
      exact ⟨_, by rw [hs, if_pos mem, hf, bind_some]⟩
    obtain ⟨last, hr, hsl, hc⟩ := (acts_removeOne e).foldlM
      (fun a => by simp) and_not_assoc hn hli
    refine ⟨{ watching with
        registry := last
        observedBy := update watching.observedBy e none }, ?_, rfl, rfl,
      fun id => ?_, fun event p id => ?_⟩
    · have one : watching.registry.onDiscard e ids = some mid := hd
      have two : mid.onRemove e ids = some last := hr
      dsimp only
      rw [one, bind_eq_bind, bind_some, two]
      rfl
    · rw [hsl, hs]
      cases hf : watching.registry.get id with
      | none => simp
      | some observer =>
        by_cases mem : id ∈ ids
        · have hw := (hl.mem_iff ho hf).mp mem
          simp only [if_pos mem, bind_some, leave, if_pos hw]
        · have ha := fun hw => mem ((hl.mem_iff ho hf).mpr hw)
          simp only [if_neg mem, bind_some, leave, if_neg ha]
    · rw [hc, hca, and_not_assoc]
      refine and_congr_right fun _ => not_congr ⟨?_, ?_⟩
      · rintro (⟨o, mem, observer, hf, -, same, ht⟩ |
          ⟨o, mem, observer, hf, same, ht⟩)
        · exact ⟨o, observer, hf, (hl.mem_iff ho hf).mp mem, same, ht⟩
        · obtain ⟨old, hst⟩ := hl.live ho o mem
          rw [hs, if_pos mem, hst, bind_some] at hf
          obtain rfl := some.inj hf
          exact ⟨o, old, hst, (hl.mem_iff ho hst).mp mem, same, ht⟩
      · rintro ⟨o, observer, hf, hw, same, ht⟩
        have mem := (hl.mem_iff ho hf).mpr hw
        have now : mid.get o =
            some { observer with entities := observer.entities.erase e } := by
          rw [hs, if_pos mem, hf, bind_some]
        exact .inr ⟨o, mem, _, now, same, ht⟩

section Dropped

variable {pre post : Watching} {e : Entity}

section

variable (dropped : Dropped e pre post)

include dropped

theorem Dropped.get_iff {id : ObserverId} {now : Observer} :
    post.registry.get id = some now ↔ ∃ observer, pre.registry.get id = some observer ∧
      (e ∈ observer.entities → observer.entities.erase e ≠ []) ∧
      now = { observer with entities := observer.entities.erase e } := by
  simp only [dropped.slots, bind_eq_some_iff, leave_eq_some]

theorem Dropped.linked (hl : pre.Linked) : post.Linked where
  spawned := by
    intro o ids ho
    rw [dropped.observedBy, update_apply] at ho
    split at ho
    · cases ho
    · rw [dropped.spawned]
      exact hl.spawned o ids ho
  nodup := by
    intro o ids ho
    rw [dropped.observedBy, update_apply] at ho
    split at ho
    · cases ho
    · exact hl.nodup o ids ho
  entities := by
    intro id now hf
    obtain ⟨observer, hst, -, rfl⟩ := dropped.get_iff.mp hf
    exact (hl.entities id observer hst).erase e
  mirrored := by
    intro id o
    unfold Watches Lists
    rw [dropped.observedBy, update_apply]
    simp only [dropped.get_iff]
    split
    · next hs =>
      subst hs
      refine iff_of_false ?_ (by simp)
      rintro ⟨now, ⟨observer, hst, -, rfl⟩, hw⟩
      exact ((hl.entities id observer hst).mem_erase_iff.mp hw).1 rfl
    · next ne =>
      rw [← Lists, ← hl.mirrored id o, Watches]
      constructor
      · rintro ⟨now, ⟨observer, hst, -, rfl⟩, hw⟩
        exact ⟨observer, hst, mem_of_mem_erase hw⟩
      · rintro ⟨observer, hst, hw⟩
        have hr : o ∈ observer.entities.erase e :=
          (hl.entities id observer hst).mem_erase_iff.mpr ⟨ne, hw⟩
        exact ⟨_, ⟨observer, hst, fun _ => ne_nil_of_mem hr, rfl⟩, hr⟩

/-- An observer's places afterwards are its places before that were not touched. -/
theorem Dropped.at_iff (hl : pre.Linked) {ev : EventId} {p : Place} {id : ObserverId} :
    (∃ now, post.registry.get id = some now ∧ now.eventId = ev ∧ now.At p) ↔
      (∃ observer, pre.registry.get id = some observer ∧ observer.eventId = ev ∧
        observer.At p) ∧ ¬ ∃ o observer, pre.registry.get o = some observer ∧
        e ∈ observer.entities ∧ ev = observer.eventId ∧ observer.Touches e p := by
  simp only [dropped.get_iff]
  constructor
  · rintro ⟨now, ⟨observer, hst, hr, rfl⟩, rfl, hb⟩
    have hn := hl.entities id observer hst
    obtain ⟨he, -⟩ := (at_erase hn).mp ⟨hr, hb⟩
    refine ⟨⟨observer, hst, rfl, he⟩, ?_⟩
    rintro ⟨o, a, -, -, -, ht⟩
    exact (hn.mem_erase_iff.mp (hb.watches ht)).1 rfl
  · rintro ⟨⟨observer, hst, rfl, hb⟩, hu⟩
    have own : ¬ observer.Touches e p := fun ht =>
      hu ⟨id, observer, hst, hb.watches ht, rfl, ht⟩
    obtain ⟨hr, hre⟩ := (at_erase (hl.entities id observer hst)).mpr ⟨hb, own⟩
    exact ⟨_, ⟨observer, hst, hr, rfl⟩, rfl, hre⟩

/-- **Taking `ObservedBy` away keeps the caches exact.** -/
theorem Dropped.placed (hl : pre.Linked) (hp : pre.Placed) : post.Placed := by
  intro ev p id
  rw [dropped.caches, dropped.at_iff hl, hp ev p id]

theorem Dropped.cached (hl : pre.Linked) (hc : pre.registry.Complete) :
    post.registry.Complete := by
  intro id now hf p hb
  obtain ⟨⟨observer, hst, he, hea⟩, hu⟩ :=
    (dropped.at_iff hl).mp ⟨now, hf, rfl, hb⟩
  rw [dropped.caches, ← he]
  rw [← he] at hu
  exact ⟨hc id observer hst p hea, hu⟩

end

end Dropped

/-! ## Cloning -/

/-- Everyone who watches the source watches the clone as well. -/
structure Cloned (source target : Entity) (before after : Watching) : Prop where
  spawned : after.spawned = update before.spawned target true
  observedBy : after.observedBy =
    update before.observedBy target (before.observedBy source)
  slots : ∀ id, after.registry.get id = (before.registry.get id).map fun observer =>
    if source ∈ observer.entities then
      { observer with entities := observer.entities ++ [target] }
    else observer
  caches : ∀ event place id, id ∈ after.registry.runners event place ↔
    id ∈ before.registry.runners event place ∨
      ∃ observer, before.registry.get id = some observer ∧ source ∈ observer.entities ∧
        event = observer.eventId ∧ observer.Touches target place

/-- Nobody watches an entity that is not spawned. -/
theorem Linked.unwatched (hl : watching.Linked) (hd : watching.spawned entity = false)
    (hf : watching.registry.get id = some observer) : entity ∉ observer.entities := by
  intro mem
  obtain ⟨ids, ho, -⟩ := (hl.mirrored id entity).mp ⟨observer, hf, mem⟩
  cases (hl.spawned entity ids ho).symm.trans hd

theorem clone_spec (hl : watching.Linked) {src t : Entity}
    (ha : watching.spawned src = true) (hd : watching.spawned t = false) :
    ∃ post, step (.clone src t) watching = some post ∧ Cloned src t watching post := by
  have hg : watching.spawned src = true ∧ ¬ watching.spawned t = true := ⟨ha, by simp [hd]⟩
  unfold step
  dsimp only
  rw [if_pos hg]
  cases ho : watching.observedBy src with
  | none =>
    refine ⟨_, rfl, rfl, by rw [ho], fun id => ?_, fun ev pl id => ?_⟩
    · cases hf : watching.registry.get id with
      | none => rfl
      | some observer => rw [map_some, if_neg (hl.unobserved ho hf)]
    · refine ⟨.inl, fun he => he.elim (fun mem => mem) ?_⟩
      rintro ⟨observer, hf, hw, -⟩
      exact absurd hw (hl.unobserved ho hf)
  | some ids =>
    obtain ⟨reg, out, hsl, hc⟩ := (acts_cloneOne t).foldlM
      (fun a => by simp) (fun a p q => or_assoc) (hl.nodup src ids ho) (hl.live ho)
    have hoo : watching.registry.onClone t ids = some reg := out
    dsimp only
    rw [hoo]
    refine ⟨_, rfl, rfl, by rw [ho], fun id => ?_, fun ev pl id => ?_⟩
    · rw [hsl]
      cases hf : watching.registry.get id with
      | none => simp
      | some observer =>
        have hfr := hl.unwatched hd hf
        by_cases mem : id ∈ ids
        · have hw := (hl.mem_iff ho hf).mp mem
          simp only [if_pos mem, bind_some, map_some, if_pos hw, if_neg hfr]
        · have hap := fun hw => mem ((hl.mem_iff ho hf).mpr hw)
          simp only [if_neg mem, map_some, if_neg hap]
    · rw [hc]
      refine or_congr_right ⟨?_, ?_⟩
      · rintro ⟨o, mem, observer, hf, rfl, hs, ht⟩
        exact ⟨observer, hf, (hl.mem_iff ho hf).mp mem, hs, ht⟩
      · rintro ⟨observer, hf, hw, hs, ht⟩
        exact ⟨id, (hl.mem_iff ho hf).mpr hw, observer, hf, rfl, hs, ht⟩

section Cloned

variable {pre post : Watching} {src t : Entity}

section

variable (cloned : Cloned src t pre post)

include cloned

theorem Cloned.linked (hl : pre.Linked) (ha : pre.spawned src = true)
    (hd : pre.spawned t = false) : post.Linked where
  spawned := by
    intro entity ids ho
    rw [cloned.observedBy, update_apply] at ho
    rw [cloned.spawned, update_apply]
    split at ho
    · next hs => rw [if_pos hs]
    · next ne =>
      rw [if_neg ne]
      exact hl.spawned entity ids ho
  nodup := by
    intro entity ids ho
    rw [cloned.observedBy, update_apply] at ho
    split at ho
    · exact hl.nodup src ids ho
    · exact hl.nodup entity ids ho
  entities := by
    intro id now hf
    rw [cloned.slots] at hf
    obtain ⟨observer, hst, rfl⟩ := map_eq_some_iff.mp hf
    have nodup := hl.entities id observer hst
    split
    · refine nodup_append.mpr ⟨nodup, nodup_singleton _, ?_⟩
      rintro one mem two hla rfl
      exact hl.unwatched hd hst (mem_singleton.mp hla ▸ mem)
    · exact nodup
  mirrored := by
    have ne : src ≠ t := by
      rintro rfl
      cases ha.symm.trans hd
    intro id entity
    unfold Watches Lists
    rw [cloned.observedBy, cloned.slots, update_apply]
    split
    · next hs =>
      subst hs
      rw [← Lists, ← hl.mirrored id src, Watches]
      constructor
      · rintro ⟨now, hf, hw⟩
        obtain ⟨observer, hst, rfl⟩ := map_eq_some_iff.mp hf
        refine ⟨observer, hst, ?_⟩
        by_contra hap
        rw [if_neg hap] at hw
        exact hl.unwatched hd hst hw
      · rintro ⟨observer, hst, hw⟩
        refine ⟨_, by rw [hst, map_some], ?_⟩
        rw [if_pos hw]
        exact mem_append_right _ (mem_singleton_self _)
    · next hot =>
      rw [← Lists, ← hl.mirrored id entity, Watches]
      constructor
      · rintro ⟨now, hf, hw⟩
        obtain ⟨observer, hst, rfl⟩ := map_eq_some_iff.mp hf
        refine ⟨observer, hst, ?_⟩
        split at hw
        · rcases mem_append.mp hw with old | new
          · exact old
          · exact absurd (mem_singleton.mp new) hot
        · exact hw
      · rintro ⟨observer, hst, hw⟩
        refine ⟨_, by rw [hst, map_some], ?_⟩
        split
        · exact mem_append_left _ hw
        · exact hw

/-- An observer's places afterwards: those of the clone are added, **but not the clone as
a whole if the observer is restricted to components**. -/
theorem Cloned.at_iff {ev : EventId} {p : Place} {id : ObserverId} :
    (∃ now, post.registry.get id = some now ∧ now.eventId = ev ∧ now.At p) ↔
      (∃ observer, pre.registry.get id = some observer ∧ observer.eventId = ev ∧
        observer.At p) ∨
      ∃ observer, pre.registry.get id = some observer ∧ src ∈ observer.entities ∧
        ev = observer.eventId ∧ observer.Touches t p ∧
        (p = .entity t → observer.components = []) := by
  rw [cloned.slots]
  cases hst : pre.registry.get id with
  | none => simp
  | some observer =>
    by_cases hw : src ∈ observer.entities
    · have hn : observer.entities ≠ [] := ne_nil_of_mem hw
      simp only [map_some, some.injEq, exists_eq_left', hw, if_true,
        at_append hn, true_and]
      rw [and_or_left, @eq_comm _ ev]
    · simp [hw]

/-- **Cloning keeps the caches exact if and only if no observer of the source is
restricted to components.** -/
theorem Cloned.placed_iff (hl : pre.Linked) (hd : pre.spawned t = false) (hp : pre.Placed) :
    post.Placed ↔ ∀ id observer, pre.registry.get id = some observer →
      src ∈ observer.entities → observer.components = [] := by
  constructor
  · intro exact_after id observer hst hw
    -- the hook entered the observer for the clone as a whole
    have entered : id ∈ post.registry.runners observer.eventId (.entity t) :=
      (cloned.caches _ _ _).mpr (.inr ⟨observer, hst, hw, rfl, .inl rfl⟩)
    rcases cloned.at_iff.mp ((exact_after _ _ _).mp entered) with
      ⟨o, hf, -, hb⟩ | ⟨o, hf, -, -, -, whole⟩
    · obtain rfl := some.inj (hst.symm.trans hf)
      exact absurd hb.1 (hl.unwatched hd hst)
    · obtain rfl := some.inj (hst.symm.trans hf)
      exact whole rfl
  · intro hu ev p id
    rw [cloned.caches, cloned.at_iff, hp ev p id]
    refine or_congr_right (exists_congr fun observer => ?_)
    constructor
    · rintro ⟨hst, hw, hs, ht⟩
      exact ⟨hst, hw, hs, ht, fun _ => hu id observer hst hw⟩
    · rintro ⟨hst, hw, hs, ht, -⟩
      exact ⟨hst, hw, hs, ht⟩

theorem Cloned.cached (hc : pre.registry.Complete) : post.registry.Complete := by
  intro id now hf p hb
  rw [cloned.caches]
  rcases cloned.at_iff.mp ⟨now, hf, rfl, hb⟩ with
    ⟨observer, hst, he, hea⟩ | ⟨observer, hst, hw, he, ht, -⟩
  · rw [← he]
    exact .inl (hc id observer hst p hea)
  · exact .inr ⟨observer, hst, hw, he, ht⟩

end

end Cloned

/-! ## Registering -/

theorem observedBy_note (watching : Watching) (e o : Entity) (id : ObserverId) :
    (watching.note e id).observedBy o =
      if o = e then some ((watching.observedBy e).getD [] ++ [id])
      else watching.observedBy o := by
  unfold note
  dsimp only
  rw [update_apply]
  refine if_congr Iff.rfl ?_ rfl
  cases watching.observedBy e with
  | none => rfl
  | some ids => rfl

/-- The loop of `register_observer`.  The observer keeps the spawned ones of its entities;
if none is left, and there was one, it is gone. -/
theorem watchEntities_spec {id : ObserverId} {obs : Observer} (rest : List Entity)
    {done : List Entity} (hn : (done ++ rest).Nodup) {watching : Watching}
    (hf : watching.registry.get id = some { obs with entities := done ++ rest }) :
    ∃ post, watchEntities id rest watching = some post ∧
      post.spawned = watching.spawned ∧
      post.registry.runners = watching.registry.runners ∧
      (∀ entity, post.observedBy entity =
        if entity ∈ rest ∧ watching.spawned entity = true then
          some ((watching.observedBy entity).getD [] ++ [id])
        else watching.observedBy entity) ∧
      ∀ o, post.registry.get o =
        if o = id then
          if rest ≠ [] ∧ done ++ rest.filter watching.spawned = [] then none
          else some { obs with entities := done ++ rest.filter watching.spawned }
        else watching.registry.get o := by
  induction rest generalizing done watching with
  | nil =>
    refine ⟨watching, rfl, rfl, rfl, fun entity => by simp, fun o => ?_⟩
    split
    · next hsa =>
      rw [hsa, hf]
      simp
    · rfl
  | cons entity rest ih =>
    have hap : entity ∉ rest := (nodup_cons.mp (nodup_append.mp hn).2.1).1
    cases ha : watching.spawned entity with
    | true =>
      have hsh : done ++ entity :: rest = (done ++ [entity]) ++ rest := by simp
      obtain ⟨post, out, hs, hr, hob, hsl⟩ :=
        @ih (done ++ [entity]) (by rw [← hsh]; exact hn) (watching.note entity id)
          (by rw [← hsh]; exact hf)
      refine ⟨post, ?_, hs, hr, fun o => ?_, fun o => ?_⟩
      · rw [watchEntities, if_pos ha]
        exact out
      · rw [hob o, observedBy_note]
        by_cases hsa : o = entity
        · subst hsa
          rw [if_neg fun hb => hap hb.1, if_pos rfl,
            if_pos ⟨mem_cons_self .., ha⟩]
        · simp only [hsa, if_false, mem_cons, false_or]
          rfl
      · rw [hsl o]
        simp [note, ha]
    | false =>
      have pre : entity ∉ done := fun mem =>
        (nodup_append.mp hn).2.2 entity mem entity (mem_cons_self ..) rfl
      have he : (done ++ entity :: rest).erase entity = done ++ rest := by
        rw [erase_append_right _ pre, erase_cons_head]
      have hso : (done ++ rest).Nodup := by
        rw [← he]
        exact hn.erase entity
      rw [watchEntities, if_neg (by simp [ha]), hf, bind_eq_bind,
        bind_some]
      rw [he]
      by_cases hl : done ++ rest = []
      · obtain ⟨rfl, rfl⟩ := append_eq_nil_iff.mp hl
        refine ⟨_, rfl, rfl, rfl, fun o => ?_, fun o => ?_⟩
        · rw [if_neg]
          rintro ⟨mem, hs⟩
          rw [mem_singleton.mp mem, ha] at hs
          cases hs
        · dsimp only
          rw [setSlot_setSlot, get_setSlot hf]
          by_cases hsa : o = id
          · simp [hsa, ha]
          · simp [hsa]
      · rw [if_neg fun hem => hl (List.isEmpty_iff.mp hem)]
        have now := get_setSlot hf
          (some { obs with entities := done ++ rest }) id
        rw [if_pos rfl] at now
        obtain ⟨post, out, hs, hr, hob, hsl⟩ := @ih done hso
          ⟨watching.registry.setSlot id (some { obs with entities := done ++ rest }),
            watching.spawned, watching.observedBy⟩ now
        refine ⟨post, out, hs, hr, fun o => ?_, fun o => ?_⟩
        · rw [hob o]
          refine if_congr ?_ rfl rfl
          refine and_congr_left fun hs => ?_
          have ne : o ≠ entity := by
            rintro rfl
            cases hs.symm.trans ha
          simp [ne]
        · rw [hsl o, get_setSlot hf]
          by_cases hsa : o = id
          · by_cases none : rest = []
            · subst none
              have some_done : done ≠ [] := by simpa using hl
              simp [hsa, ha, some_done]
            · simp [hsa, ha, none]
          · simp [hsa]

/-- The number of the next observer. -/
def fresh (watching : Watching) : ObserverId := watching.registry.observers.length

/-- A new observer is cached for all its entities and watches the spawned ones. -/
structure Joined (observer : Observer) (before after : Watching) : Prop where
  spawned : after.spawned = before.spawned
  observedBy : ∀ entity, after.observedBy entity =
    if entity ∈ observer.entities ∧ before.spawned entity = true then
      some ((before.observedBy entity).getD [] ++ [before.fresh])
    else before.observedBy entity
  slots : ∀ id, after.registry.get id =
    if id = before.fresh then
      if observer.entities ≠ [] ∧ observer.entities.filter before.spawned = [] then none
      else some { observer with entities := observer.entities.filter before.spawned }
    else before.registry.get id
  caches : ∀ event place id, id ∈ after.registry.runners event place ↔
    id ∈ before.registry.runners event place ∨
      id = before.fresh ∧ event = observer.eventId ∧ observer.At place

theorem registerObserver_spec (watching : Watching) (hn : observer.entities.Nodup) :
    ∃ post, watching.registerObserver observer = some post ∧ Joined observer watching post := by
  have hf : (watching.registry.register observer).2.get watching.fresh =
      some { observer with entities := [] ++ observer.entities } := by
    rw [get_register]
    exact if_pos rfl
  obtain ⟨post, out, hs, hr, hob, hsl⟩ :=
    @watchEntities_spec watching.fresh observer observer.entities [] hn
      ⟨(watching.registry.register observer).2, watching.spawned, watching.observedBy⟩ hf
  refine ⟨post, out, hs, hob, fun id => ?_, fun ev p id => ?_⟩
  · rw [hsl]
    by_cases own : id = watching.fresh
    · rw [if_pos own, if_pos own]
      rfl
    · rw [if_neg own, if_neg own]
      exact (get_register observer id).trans (if_neg own)
  · rw [hr]
    exact mem_register

section Joined

variable {pre post : Watching} {obs : Observer}

/-- The new identifier was not in use. -/
theorem get_fresh (watching : Watching) : watching.registry.get watching.fresh = none :=
  Observers.get_fresh ⟨.custom 0, [], []⟩

theorem Linked.fresh_not_mem {watching : Watching} (hl : watching.Linked)
    {e : Entity} {ids : List ObserverId}
    (ho : watching.observedBy e = some ids) : watching.fresh ∉ ids := by
  intro mem
  obtain ⟨obs, hf⟩ := hl.live ho _ mem
  cases hf.symm.trans (get_fresh watching)

section

variable (joined : Joined obs pre post)

include joined

theorem Joined.linked (hl : pre.Linked) (nodup : obs.entities.Nodup) : post.Linked where
  spawned := by
    intro entity ids ho
    rw [joined.spawned]
    rw [joined.observedBy] at ho
    split at ho
    · next hb => exact hb.2
    · exact hl.spawned entity ids ho
  nodup := by
    intro entity ids ho
    rw [joined.observedBy] at ho
    split at ho
    · obtain rfl := some.inj ho
      cases he : pre.observedBy entity with
      | none => exact nodup_singleton _
      | some old =>
        refine nodup_append.mpr ⟨hl.nodup entity old he,
          nodup_singleton _, ?_⟩
        rintro one mem two hla rfl
        exact hl.fresh_not_mem he (mem_singleton.mp hla ▸ mem)
    · exact hl.nodup entity ids ho
  entities := by
    intro id now hf
    rw [joined.slots] at hf
    split at hf
    · split at hf
      · cases hf
      · obtain rfl := some.inj hf
        exact nodup.filter _
    · exact hl.entities id now hf
  mirrored := by
    intro id entity
    unfold Watches Lists
    rw [joined.slots, joined.observedBy]
    by_cases own : id = pre.fresh
    · subst own
      have hu : ¬ ∃ ids, pre.observedBy entity = some ids ∧ pre.fresh ∈ ids :=
        fun ⟨ids, ho, mem⟩ => hl.fresh_not_mem ho mem
      rw [if_pos rfl]
      by_cases hj : entity ∈ obs.entities ∧ pre.spawned entity = true
      · have mem : entity ∈ obs.entities.filter pre.spawned :=
          mem_filter.mpr hj
        rw [if_neg fun hb => ne_nil_of_mem mem hb.2, if_pos hj]
        exact iff_of_true ⟨_, rfl, mem⟩ ⟨_, rfl, by simp⟩
      · rw [if_neg hj]
        refine iff_of_false ?_ hu
        rintro ⟨now, hf, mem⟩
        split at hf
        · cases hf
        · obtain rfl := some.inj hf
          exact hj (mem_filter.mp mem)
    · rw [if_neg own, ← Watches, hl.mirrored id entity, Lists]
      split
      · cases pre.observedBy entity with
        | none => simp [own]
        | some ids => simp [own]
      · rfl

/-- **Registering keeps the caches exact if and only if all entities of the observer are
spawned.** -/
theorem Joined.placed_iff (hp : pre.Placed) :
    post.Placed ↔ ∀ entity ∈ obs.entities, pre.spawned entity = true := by
  constructor
  · intro exact_after entity mem
    by_contra dead
    -- one of the places of the dead entity is still cached
    obtain ⟨p, hb, ht⟩ : ∃ p, obs.At p ∧ obs.Touches entity p := by
      cases hr : obs.components with
      | nil => exact ⟨.entity entity, ⟨mem, hr⟩, .inl rfl⟩
      | cons c rest =>
        have fst : c ∈ obs.components := by simp [hr]
        exact ⟨.entityComponent c entity, ⟨mem, fst⟩, .inr ⟨c, fst, rfl⟩⟩
    obtain ⟨now, hf, -, hs⟩ := (exact_after _ _ _).mp
      ((joined.caches obs.eventId p pre.fresh).mpr (.inr ⟨rfl, rfl, hb⟩))
    rw [joined.slots, if_pos rfl] at hf
    split at hf
    · cases hf
    · obtain rfl := some.inj hf
      have hre := hs.watches ht
      exact dead (mem_filter.mp hre).2
  · intro ha ev p id
    have all : obs.entities.filter pre.spawned = obs.entities := filter_eq_self.mpr ha
    rw [joined.caches, joined.slots, all, hp ev p id]
    by_cases own : id = pre.fresh
    · subst own
      rw [if_pos rfl, if_neg fun hbo => hbo.1 hbo.2, get_fresh]
      simp [eq_comm]
    · simp [own]

theorem Joined.cached (hc : pre.registry.Complete) : post.registry.Complete := by
  intro id now hf p hb
  rw [joined.caches]
  rw [joined.slots] at hf
  split at hf
  · next own =>
    split at hf
    · cases hf
    · next some_left =>
      obtain rfl := some.inj hf
      refine .inr ⟨own, rfl, ?_⟩
      -- what is left of the entity scope is empty only if the scope was
      have scope : obs.entities.filter pre.spawned = [] → obs.entities = [] :=
        fun hno => by_contra fun hn => some_left ⟨hn, hno⟩
      cases p with
      | global => exact ⟨scope hb.1, hb.2⟩
      | component c => exact ⟨scope hb.1, hb.2⟩
      | entity entity => exact ⟨(mem_filter.mp hb.1).1, hb.2⟩
      | entityComponent c entity =>
        exact ⟨(mem_filter.mp hb.1).1, hb.2⟩
  · exact .inl (hc id now hf p hb)

end

end Joined

/-! ## Runs -/

/-- What holds after every operation: the lists mirror each other and no observer is
missing from a cache. -/
def Sound (watching : Watching) : Prop := watching.Linked ∧ watching.registry.Complete

theorem sound_new : new.Sound := by
  have hn : ∀ id, Observers.new.get id = none := fun _ => rfl
  refine ⟨⟨fun _ _ ho => absurd ho (by simp [new]),
    fun _ _ ho => absurd ho (by simp [new]),
    fun id _ hf => absurd ((hn id).symm.trans hf) (by simp), fun id entity => ?_⟩,
    fun id _ hf => absurd ((hn id).symm.trans hf) (by simp)⟩
  refine iff_of_false ?_ ?_
  · rintro ⟨observer, hf, -⟩
    cases (hn id).symm.trans hf
  · rintro ⟨ids, ho, -⟩
    exact absurd ho (by simp [new])

theorem placed_new : new.Placed := by
  intro ev p id
  refine iff_of_false not_mem_nil ?_
  rintro ⟨observer, hf, -⟩
  exact absurd hf (by simp [new, Observers.new, Observers.get])

/-- A new entity, with an empty `ObservedBy` or none. -/
theorem Linked.spawn {watching : Watching} (hl : watching.Linked) {e : Entity}
    (hd : watching.spawned e = false) (ob : Bool) : Linked { watching with
      spawned := update watching.spawned e true
      observedBy := update watching.observedBy e
        (if ob then some [] else none) } where
  spawned := by
    intro o ids ho
    dsimp only at ho ⊢
    rw [update_apply] at ho ⊢
    split
    · rfl
    · next ne =>
      rw [if_neg ne] at ho
      exact hl.spawned o ids ho
  nodup := by
    intro o ids ho
    dsimp only at ho
    rw [update_apply] at ho
    split at ho
    · split at ho
      · obtain rfl := some.inj ho
        exact nodup_nil
      · cases ho
    · exact hl.nodup o ids ho
  entities := hl.entities
  mirrored := by
    intro id o
    by_cases hs : o = e
    · subst hs
      refine iff_of_false ?_ ?_
      · rintro ⟨observer, hf, hw⟩
        exact hl.unwatched hd hf hw
      · rintro ⟨ids, ho, mem⟩
        dsimp only at ho
        rw [update_self] at ho
        split at ho
        · obtain rfl := some.inj ho
          exact absurd mem not_mem_nil
        · cases ho
    · unfold Lists
      dsimp only
      rw [update_of_ne hs]
      exact hl.mirrored id o

/-- An entity without `ObservedBy` goes. -/
theorem Linked.despawn (hl : watching.Linked) (hu : watching.observedBy entity = none) :
    Linked { watching with
      spawned := update watching.spawned entity false
      observedBy := update watching.observedBy entity none } := by
  have hs : update watching.observedBy entity none = watching.observedBy := by
    rw [← hu, update_eq_self]
  rw [hs]
  refine ⟨fun o ids ho => ?_, hl.nodup, hl.entities, hl.mirrored⟩
  have ne : o ≠ entity := by
    rintro rfl
    cases hu.symm.trans ho
  dsimp only
  rw [update_of_ne ne]
  exact hl.spawned o ids ho

/-- The two conditions: observers are registered for spawned entities, and no observer of a
cloned entity is restricted to components. -/
def Meets : WatchOp → Watching → Prop
  | .register observer, watching =>
    ∀ entity ∈ observer.entities, watching.spawned entity = true
  | .clone source _, watching => ∀ id observer, watching.registry.get id = some observer →
      source ∈ observer.entities → observer.components = []
  | _, _ => True

/-- Every operation keeps the world of observers sound, and keeps the caches exact exactly
if it meets the conditions. -/
theorem step_spec {op : WatchOp} {next : Watching} (hso : watching.Sound)
    (hs : step op watching = some next) :
    next.Sound ∧ (watching.Placed → (next.Placed ↔ Meets op watching)) := by
  obtain ⟨hl, hc⟩ := hso
  cases op with
  | spawn entity o =>
    unfold step at hs
    dsimp only at hs
    split at hs
    · cases hs
    · next hd =>
      obtain rfl := some.inj hs
      exact ⟨⟨hl.spawn (by simpa using hd) o, hc⟩,
        fun hp => iff_of_true hp trivial⟩
  | register observer =>
    unfold step at hs
    dsimp only at hs
    split at hs
    · next hn =>
      obtain ⟨post, out, joined⟩ := registerObserver_spec watching hn
      obtain rfl := some.inj (out.symm.trans hs)
      exact ⟨⟨joined.linked hl hn, joined.cached hc⟩, joined.placed_iff⟩
    · cases hs
  | clone src t =>
    by_cases hg : watching.spawned src = true ∧ ¬ watching.spawned t = true
    · have hd : watching.spawned t = false := by simpa using hg.2
      obtain ⟨post, out, cloned⟩ := clone_spec hl hg.1 hd
      obtain rfl := some.inj (out.symm.trans hs)
      exact ⟨⟨cloned.linked hl hg.1 hd, cloned.cached hc⟩, cloned.placed_iff hl hd⟩
    · unfold step at hs
      dsimp only at hs
      rw [if_neg hg] at hs
      cases hs
  | removeObservedBy entity =>
    obtain ⟨post, out, dropped⟩ := dropObservedBy_spec hl entity
    obtain rfl := some.inj (out.symm.trans hs)
    exact ⟨⟨dropped.linked hl, dropped.cached hl hc⟩,
      fun hp => iff_of_true (dropped.placed hl hp) trivial⟩
  | despawn entity =>
    unfold step at hs
    dsimp only at hs
    split at hs
    · obtain ⟨post, out, dropped⟩ := dropObservedBy_spec hl entity
      rw [out] at hs
      obtain rfl := some.inj hs
      have hu : post.observedBy entity = none := by
        rw [dropped.observedBy, update_self]
      exact ⟨⟨(dropped.linked hl).despawn hu, dropped.cached hl hc⟩,
        fun hp => iff_of_true (dropped.placed hl hp) trivial⟩
    · cases hs

/-- With exact caches, an observer with both scopes is called only for what touches both. -/
theorem Placed.touches_both (hp : watching.Placed) {ev : EventId}
    {cs : List ComponentId} (hf : watching.registry.get id = some observer)
    (hw : observer.entities ≠ []) (hr : observer.components ≠ [])
    (hca : id ∈ (watching.registry.runners ev).entityComponentsTriggerCalls entity cs) :
    observer.eventId = ev ∧ entity ∈ observer.entities ∧ ∃ c ∈ cs, c ∈ observer.components := by
  have p : ∀ p, id ∈ watching.registry.runners ev p →
      observer.eventId = ev ∧ observer.At p := by
    intro p hc
    obtain ⟨o, hst, hs, hb⟩ := (hp ev p id).mp hc
    obtain rfl := some.inj (hf.symm.trans hst)
    exact ⟨hs, hb⟩
  rcases CachedObservers.mem_entityComponentsTriggerCalls.mp hca with
    hc | hc | ⟨c, mem, hc | hc⟩
  · exact absurd (p _ hc).2.1 hw
  · exact absurd (p _ hc).2.2 hr
  · exact absurd (p _ hc).2.1 hw
  · obtain ⟨hs, hb⟩ := p _ hc
    exact ⟨hs, hb.1, c, mem, hb.2⟩

/-- **The caches are exact throughout a run if and only if observers are registered for
spawned entities only and no entity is cloned that an observer restricted to components
watches**; and where they are exact, an observer with both scopes is called only for events
that touch both. -/
theorem run_placed_iff (ops : List WatchOp) : (Throughout step Placed ops new ↔
      EachStep step (fun op before _ => Meets op before) ops new) ∧
    ∀ watching : Watching, watching.Placed → ∀ event entity components id observer,
      watching.registry.get id = some observer → observer.entities ≠ [] → observer.components ≠ [] →
      id ∈ (watching.registry.runners event).entityComponentsTriggerCalls entity components →
      observer.eventId = event ∧ entity ∈ observer.entities ∧
        ∃ component ∈ components, component ∈ observer.components := by
  refine ⟨throughout_iff_eachStep (fun _ _ _ hso hs => (step_spec hso hs).1)
    (fun _ _ _ hso hp hs => (step_spec hso hs).2 hp) sound_new placed_new, ?_⟩
  intro watching hp event entity components id observer hf hw hr hc
  exact hp.touches_both hf hw hr hc

/-- An observer of a component on an entity; a clone of the entity is observed as a
whole. -/
theorem clone_observed_as_whole : ∃ watching, run step [.spawn ⟨⟨1⟩, .first⟩ true,
          .register ⟨.lifecycle .insert, [0], [⟨⟨1⟩, .first⟩]⟩,
          .clone ⟨⟨1⟩, .first⟩ ⟨⟨2⟩, .first⟩] new = some watching ∧ ¬ watching.Placed ∧
      0 ∈ (watching.registry.runners (.lifecycle .insert)).entityComponentsTriggerCalls
        ⟨⟨2⟩, .first⟩ [7] := by
  refine @exists_of_any _ _ (fun watching => watching.registry.get 0 =
      some ⟨.lifecycle .insert, [0], [⟨⟨1⟩, .first⟩, ⟨⟨2⟩, .first⟩]⟩ ∧
      watching.registry.runners (.lifecycle .insert) (.entity ⟨⟨2⟩, .first⟩) = [0] ∧
      (watching.registry.runners (.lifecycle .insert)).entityComponentsTriggerCalls
        ⟨⟨2⟩, .first⟩ [7] = [0]) _ _ (by decide +kernel) ?_
  intro watching ran ⟨hf, hca, hc⟩
  refine ⟨fun hp => ?_, by rw [hc]; exact mem_singleton_self 0⟩
  obtain ⟨observer, hs, -, hb⟩ :=
    (hp (.lifecycle .insert) (.entity ⟨⟨2⟩, .first⟩) 0).mp (by rw [hca]; simp)
  obtain rfl := some.inj (hf.symm.trans hs)
  cases hb.2

/-- **In every state of a run, observers and the entities they watch name each other, and no cache
lacks an observer**; it can only have too many. -/
theorem run_sound (ops : List WatchOp) : Throughout step Sound ops new :=
  throughout_of_invariant (fun _ _ _ hso hs => (step_spec hso hs).1) (fun _ => id) sound_new

end Watching

end Voker.Ecs
