import Voker.Ecs.World.Rules
import Voker.Ecs.World.Transitions

/-!
# What an operation leaves alone

`Kept` says what every operation on a world respects, whether it returns or panics: what
is numbered keeps its meaning, generations stay, flags of archetypes stay and new
archetypes have none, observers are only ever dropped, and **entities other than the ones
the operation is about stay in their archetypes and keep their sparse rows**.  `Scope`
says what the operation is about.

`Evolves` adds that the registries stay in order.  It holds of each elementary change and
is transitive, so that `Moves (Evolves P scope)` follows from the text of an operation.
-/

namespace Voker.Ecs.World

open List Option Function

variable {τ V : Type}

/-- What an operation is about: the entities it may move, the archetypes it may put them
into, and whether it frees ids. -/
structure Scope where
  subjects : Entity → Prop
  targets : ArcheId → Prop
  frees : Prop

/-- The scope of everything. -/
def Scope.all : Scope := ⟨fun _ => True, fun _ => True, True⟩

/-- The scope of everything but freeing ids. -/
def Scope.current : Scope := ⟨fun _ => True, fun _ => True, False⟩

/-- The archetype an entity is in. -/
def archeOf (world : World τ V) (entity : Entity) : Option ArcheId :=
  (world.entities.located entity).map EntityLocation.archeId

/-- The components of an entity. -/
def sliceAt (world : World τ V) (entity : Entity) : Option ComponentSlice :=
  (world.archeOf entity).bind world.sliceOf

/-- An entity has a row in the map of a component exactly if the component is among the
sparse components of its archetype. -/
def Mapped (world : World τ V) (entity : Entity) : Prop :=
  ∀ component, (world.maps.rowOf component entity).isSome = true ↔
    ∃ slice, world.sliceAt entity = some slice ∧ component ∈ slice.sparseComponents

/-- What an operation with the given scope leaves alone. -/
structure Kept (scope : Scope) (before after : World τ V) : Prop extends Statics before after where
  tags : ¬ scope.frees → Entities.TagsKept before.entities after.entities
  places : ¬ scope.frees → ∀ entity, ¬ scope.subjects entity →
    after.archeOf entity = before.archeOf entity
  occupied : ∀ id, ∀ entity ∈ after.archeRows id,
    entity ∈ before.archeRows id ∨ scope.subjects entity ∧ scope.targets id
  mapRows : ∀ entity, ¬ scope.subjects entity → ∀ component,
    after.maps.rowOf component entity = before.maps.rowOf component entity
  flags : ∀ (id : ArcheId) (now : Archetype), after.archetypes.arches[id]? = some now →
    (∃ arche, before.archetypes.arches[id]? = some arche ∧
      now.observers = arche.observers) ∨
    (before.archetypes.arches[id]? = none ∧ now.observers = 0)
  observers : ∀ (id : ObserverId) (now : Observer), after.observers[id]? = some (some now) →
    ∃ observer, before.observers[id]? = some (some observer) ∧
      now.eventId = observer.eventId ∧ now.components = observer.components

theorem Kept.refl (scope : Scope) (w : World τ V) : Kept scope w w where
  toStatics := Statics.refl w
  tags := fun _ => Entities.TagsKept.refl _
  places := fun _ _ _ => rfl
  occupied := fun _ _ mem => .inl mem
  mapRows := fun _ _ _ => rfl
  flags := fun _ now hf => .inl ⟨now, hf, rfl⟩
  observers := fun _ now hf => ⟨now, hf, rfl, rfl⟩

theorem Kept.trans {scope : Scope} {fst snd t : World τ V}
    (one : Kept scope fst snd) (two : Kept scope snd t) : Kept scope fst t where
  toStatics := one.toStatics.trans two.toStatics
  tags := fun none => (one.tags none).trans (two.tags none)
  places := fun none e ho =>
    (two.places none e ho).trans (one.places none e ho)
  occupied := by
    intro id e mem
    rcases two.occupied id e mem with mid | own
    · exact one.occupied id e mid
    · exact .inr own
  mapRows := fun e ho c =>
    (two.mapRows e ho c).trans (one.mapRows e ho c)
  flags := by
    intro id now hf
    rcases two.flags id now hf with ⟨mid, him, hs⟩ | ⟨ha, hu⟩
    · rcases one.flags id mid him with ⟨a, hst, hsa⟩ | ⟨ha, hu⟩
      · exact .inl ⟨a, hst, hs.trans hsa⟩
      · exact .inr ⟨ha, hs.trans hu⟩
    · refine .inr ⟨?_, hu⟩
      cases he : fst.archetypes.arches[id]? with
      | none => rfl
      | some a =>
        obtain ⟨kept, hst, -⟩ := one.arches id a he
        cases hst.symm.trans ha
  observers := by
    intro id now hf
    obtain ⟨mid, him, hee, cs⟩ := two.observers id now hf
    obtain ⟨obs, hst, hev, hc⟩ := one.observers id mid him
    exact ⟨obs, hst, hee.trans hev, cs.trans hc⟩

/-- The registries stay in order and the rest is left alone. -/
def Evolves (P : Program τ V) (scope : Scope) (before after : World τ V) : Prop :=
  Registered P before → Registered P after ∧ Kept scope before after

instance (P : Program τ V) (scope : Scope) : Std.Refl (Evolves P scope) :=
  ⟨fun world registered => ⟨registered, Kept.refl scope world⟩⟩

instance (P : Program τ V) (scope : Scope) : IsTrans (World τ V) (Evolves P scope) :=
  ⟨fun _ _ _ one two registered =>
    ⟨(two (one registered).1).1, (one registered).2.trans (two (one registered).1).2⟩⟩

/-! ## The elementary changes -/

section Changes

variable {P : Program τ V} {scope : Scope} {w : World τ V}

/-- Registrations. -/
theorem Grew.kept {post : World τ V} (reg : Registered P w)
    (hfi : Registered P post) (hg : Grew w post) : Kept scope w post where
  toStatics := hg.toStatics
  tags := fun _ => by
    rw [hg.entities]
    exact Entities.TagsKept.refl _
  places := fun _ e _ => by
    unfold archeOf
    rw [hg.entities]
  occupied := by
    intro id e mem
    refine .inl ?_
    unfold archeRows at mem ⊢
    cases now : post.archetypes.arches[id]? with
    | none =>
      rw [now] at mem
      cases mem
    | some a =>
      cases he : w.archetypes.arches[id]? with
      | none =>
        rw [now, map_some, (hg.freshArches id a now he).1] at mem
        cases mem
      | some old =>
        obtain ⟨kept, hst, hr, -⟩ := hg.rows id old he
        obtain rfl := some.inj (now.symm.trans hst)
        rw [now, map_some, hr] at mem
        exact mem
  mapRows := fun e _ c =>
    Maps.Grows.rowOf_eq reg.maps
      ⟨hfi.maps, hg.freshMaps, hg.maps, fun _ mem => absurd mem not_mem_nil⟩
      c e
  flags := by
    intro id now hf
    cases he : w.archetypes.arches[id]? with
    | none => exact .inr ⟨rfl, (hg.freshArches id now hf he).2⟩
    | some a =>
      obtain ⟨kept, hst, -, flags⟩ := hg.rows id a he
      obtain rfl := some.inj (hf.symm.trans hst)
      exact .inl ⟨a, rfl, flags⟩
  observers := by
    intro id now hf
    rw [hg.observers] at hf
    exact ⟨now, hf, rfl, rfl⟩

theorem evolves_of_grew {post : World τ V}
    (hk : Registered P w → Registered P post ∧ Grew w post) : Evolves P scope w post := by
  intro reg
  obtain ⟨hf, hg⟩ := hk reg
  exact ⟨hf, hg.kept reg hf⟩

/-- Replacing an archetype is changing it. -/
theorem setArche_eq_modify {id : ArcheId} {a : Archetype}
    (hf : w.archetypes.arches[id]? = some a) (c : Archetype → Archetype) :
    w.setArche id (c a) = { w with archetypes := w.archetypes.modify id c } := by
  unfold setArche Archetypes.modify
  have he : w.archetypes.arches.set id (c a) =
      w.archetypes.arches.modify id c := by
    refine ext_getElem? fun o => ?_
    rw [getElem?_set, getElem?_modify]
    by_cases hs : id = o
    · subst hs
      have hin := (List.getElem?_eq_some_iff.mp hf).1
      rw [if_pos rfl, if_pos hin, hf]
      simp
    · rw [if_neg hs]
      simp [hs]
  rw [he]

/-- The rows of an archetype change: entities leave, or the subject enters a target. -/
theorem evolves_archeRows {id : ArcheId} {a : Archetype}
    (hf : w.archetypes.arches[id]? = some a) {rows : List Entity} (own : ∀ e ∈ rows,
      e ∈ a.entities ∨ scope.subjects e ∧ scope.targets id) :
    Evolves P scope w (w.setArche id { a with entities := rows }) := by
  intro reg
  have hsh := setArche_eq_modify hf fun a => { a with entities := rows }
  obtain ⟨hfi, hs⟩ := @Registered.modifyArche _ _ P w reg id
    (fun a => { a with entities := rows }) (fun o he b res hc =>
      reg.afterInsert id o b res he hc) (fun o he b res hc =>
      reg.afterRemove id o b res he hc) fun _ => ⟨rfl, rfl⟩
  rw [← hsh] at hfi hs
  refine ⟨hfi, { Kept.refl scope w with toStatics := hs, occupied := ?_, flags := ?_ }⟩
  · intro o e mem
    rw [archeRows_setArche hf, update_apply] at mem
    split at mem
    · next hsa =>
      rw [hsa, archeRows_of_getElem hf]
      exact own e mem
    · exact .inl mem
  · intro o now hst
    unfold setArche at hst
    rw [getElem?_set] at hst
    split at hst
    · next hsa =>
      subst hsa
      split at hst
      · obtain rfl := some.inj hst
        exact .inl ⟨a, hf, rfl⟩
      · cases hst
    · exact .inl ⟨now, hst, rfl⟩

/-- A table changes, but not its components. -/
theorem evolves_setTable {id : TableId} {t : Table V}
    (hf : w.tables.tables[id]? = some t) {post : Table V}
    (hs : post.components = t.components) : Evolves P scope w (w.setTable id post) := by
  intro reg
  have hk : (w.setTable id post).tables.tables.map Table.components =
      w.tables.tables.map Table.components := by
    unfold setTable
    refine ext_getElem? fun o => ?_
    rw [getElem?_map, getElem?_map, getElem?_set]
    split
    · next he =>
      subst he
      have hin := (List.getElem?_eq_some_iff.mp hf).1
      rw [if_pos hin, hf, map_some, map_some, hs]
    · rfl
  refine ⟨{ reg with tables := ?_, tableSorted := ?_, archeTable := ?_ },
    { Kept.refl scope w with tables := ?_ }⟩
  · have hi := reg.tables
    unfold Tables.Consistent at hi ⊢
    rw [hk]
    exact hi
  · intro o mem
    rcases mem_or_eq_of_mem_set mem with old | rfl
    · exact reg.tableSorted o old
    · rw [hs]
      exact reg.tableSorted t (mem_of_getElem? hf)
  · intro a mem
    rw [← List.getElem?_map, hk, List.getElem?_map]
    exact reg.archeTable a mem
  · rw [hk]

/-- A map changes, but not what it says about an entity. -/
theorem rowOf_setMap_of_mapper {id : MapId} {map post : Map V}
    (hf : w.maps.maps[id]? = some map) {e : Entity}
    (hs : post.mapper e = map.mapper e) (c : ComponentId) :
    (w.setMap id post).maps.rowOf c e = w.maps.rowOf c e := by
  have hin := (List.getElem?_eq_some_iff.mp hf).1
  have hl : ∀ p : MapId,
      ((w.setMap id post).maps.maps[p]?).bind (fun map => map.getMapRow e) =
        (w.maps.maps[p]?).bind fun map => map.getMapRow e := by
    intro p
    unfold setMap
    rw [getElem?_set]
    split_ifs with here
    · subst here
      rw [hf, bind_some, bind_some]
      exact hs
    · rfl
  unfold Maps.rowOf
  rw [bind_assoc, bind_assoc]
  exact congrArg (bind (w.maps.getId c)) (funext hl)

/-- A map changes, but not its component, and no row of others. -/
theorem evolves_setMap {id : MapId} {map : Map V} (hf : w.maps.maps[id]? = some map)
    {post : Map V} (hsa : post.component = map.component) (hs : map.Sound → post.Sound)
    (ho : ∀ e, ¬ scope.subjects e → post.mapper e = map.mapper e) :
    Evolves P scope w (w.setMap id post) := by
  intro reg
  have hin := (List.getElem?_eq_some_iff.mp hf).1
  refine ⟨{ reg with maps := ?_, mapSound := ?_ }, { Kept.refl scope w with mapRows := ?_ }⟩
  · have hi := reg.maps
    have hk : (w.setMap id post).maps.maps.map Map.component = w.maps.maps.map Map.component := by
      unfold setMap
      refine ext_getElem? fun o => ?_
      rw [getElem?_map, getElem?_map, getElem?_set]
      split_ifs with here
      · subst here
        rw [hf, map_some, map_some, hsa]
      · rfl
    unfold Maps.Indexed at hi ⊢
    rw [hk]
    exact hi
  · intro o mem
    rcases mem_or_eq_of_mem_set mem with old | rfl
    · exact reg.mapSound o old
    · exact hs (reg.mapSound map (mem_of_getElem? hf))
  · intro e o c
    exact rowOf_setMap_of_mapper hf (ho e o) c

/-- The entity table changes. -/
theorem evolves_entities {es : Entities} (tags : Entities.TagsKept w.entities es)
    (ho : ∀ e, ¬ scope.subjects e → (es.located e).map EntityLocation.archeId = w.archeOf e) :
    Evolves P scope w { w with entities := es } := by
  intro reg
  refine ⟨{ reg with }, { Kept.refl scope w with tags := ?_, places := ?_ }⟩
  · exact fun _ => tags
  · exact fun _ => ho

/-- An id is freed. -/
theorem evolves_free (hf : scope.frees) (es : Entities) :
    Evolves P scope w { w with entities := es } := by
  intro reg
  refine ⟨{ reg with }, { Kept.refl scope w with tags := ?_, places := ?_ }⟩
  · exact fun hn => absurd hf hn
  · exact fun hn => absurd hf hn

/-- The allocator changes. -/
theorem evolves_allocator (al : EntityAllocator) : Evolves P scope w { w with allocator := al } :=
  fun reg => ⟨{ reg with }, { Kept.refl scope w with }⟩

/-- Observers are dropped or watch fewer entities. -/
theorem evolves_observers {observers : List (Option Observer)}
    (hw : ∀ (id : ObserverId) (now : Observer), observers[id]? = some (some now) →
      ∃ obs, w.observers[id]? = some (some obs) ∧
        now.eventId = obs.eventId ∧ now.components = obs.components) :
    Evolves P scope w { w with observers := observers } :=
  fun reg => ⟨{ reg with }, { Kept.refl scope w with observers := hw }⟩

end Changes

end Voker.Ecs.World
