import Voker.Ecs.World.Register

/-!
# The registries of a world

`Registered` says that everything a world has numbered is in order: the interning maps
are exact, every slice is well formed, **every archetype's table holds its dense part and
every cached transition leads to the right set of components**.  Each registration keeps
it, and what was numbered keeps its meaning (`Statics`).
-/

namespace Voker.Ecs

open Foundation List Option

variable {τ V : Type}

/-! ## The meaning of a transition -/

/-- One component requires another, directly or not; every component requires itself. -/
def Components.Requires (P : Program τ V) (components : Components τ)
    (root id : ComponentId) : Prop :=
  ∃ type target, components.infos[root]? = some type ∧
    components.infos[id]? = some target ∧ Reaches P.requires type target

/-- Inserting a bundle gives the union. -/
def InsertTarget (arche info result : ComponentSlice) : Prop :=
  ∀ id, id ∈ result.components ↔ id ∈ arche.components ∨ id ∈ info.components

/-- Removing a bundle gives what remains, with everything that requires. -/
def RemoveTarget (P : Program τ V) (components : Components τ)
    (arche info result : ComponentSlice) : Prop :=
  ∀ id, id ∈ result.components ↔
    ∃ root ∈ arche.components, root ∉ info.components ∧ components.Requires P root id

variable {id : ComponentId} {P : Program τ V} {components : Components τ}

theorem Components.requires_self (reg : id < components.infos.length) :
    components.Requires P id id :=
  ⟨_, _, List.getElem?_eq_getElem reg, List.getElem?_eq_getElem reg,
    Relation.ReflTransGen.refl⟩

/-- A registered type has all its requirements registered. -/
theorem Components.Linked.reaches (hl : components.Linked P) {type t : τ}
    (mem : type ∈ components.infos) (hp : Reaches P.requires type t) : t ∈ components.infos := by
  refine ClosedUnder.reaches (fun node hin next he => ?_) mem hp
  exact hl node hin next (mem_append_left _ he)

/-- Growing a registry adds no requirement to what was registered. -/
theorem Components.requires_of_prefix {pre post : Components τ} (con : post.Consistent)
    (hl : pre.Linked P) (hg : pre.infos <+: post.infos) {root : ComponentId}
    (reg : root < pre.infos.length) : post.Requires P root id ↔ pre.Requires P root id := by
  constructor
  · rintro ⟨type, t, hrt, hit, hp⟩
    rw [getElem?_eq_grow hg reg] at hrt
    have hk := hl.reaches (mem_of_getElem? hrt) hp
    obtain ⟨n, hf⟩ := mem_iff_getElem?.mp hk
    obtain rfl := Interned.id_unique con hit (getElem?_grow hg hf)
    exact ⟨type, t, hrt, hf, hp⟩
  · rintro ⟨type, t, hrt, hit, hp⟩
    exact ⟨type, t, getElem?_grow hg hrt, getElem?_grow hg hit, hp⟩

namespace World

/-! ## The invariant -/

/-- Everything that is numbered is in order. -/
structure Registered (P : Program τ V) (world : World τ V) : Prop where
  components : world.components.Consistent
  linked : world.components.Linked P
  bundles : world.bundles.Sound
  bundleSplit : ∀ slice ∈ world.bundles.infos,
    ComponentSlice.Split P world.components slice
  explicit : ∀ (type : BundleType τ) (id : BundleId), world.bundles.explicit type = some id →
    ∃ slice, world.bundles.infos[id]? = some slice ∧
      ∀ component, world.components.Has slice.components component ↔
        component ∈ type.components
  required : ∀ (type : BundleType τ) (id : BundleId), world.bundles.required type = some id →
    ∃ slice, world.bundles.infos[id]? = some slice ∧
      ∀ component, world.components.Has slice.components component ↔
        ∃ root ∈ type.components, Reaches P.requires root component
  tables : world.tables.Consistent
  tableSorted : ∀ table ∈ world.tables.tables, table.components.SortedLT
  maps : world.maps.Indexed
  mapSound : ∀ map ∈ world.maps.maps, map.Sound
  archetypes : world.archetypes.Consistent
  archeSplit : ∀ arche ∈ world.archetypes.arches,
    ComponentSlice.Split P world.components arche.toComponentSlice
  archeTable : ∀ arche ∈ world.archetypes.arches,
    world.tables.tables[arche.tableId]?.map Table.components = some arche.denseComponents
  archeMaps : ∀ arche ∈ world.archetypes.arches, ∀ id ∈ arche.sparseComponents,
    (world.maps.getId id).isSome
  archeBundle : ∀ (bundle : BundleId) (id : ArcheId), world.archetypes.bundles bundle = some id →
    ∃ slice arche, world.bundles.infos[bundle]? = some slice ∧
      world.archetypes.arches[id]? = some arche ∧ arche.components = slice.components
  afterInsert : ∀ (id : ArcheId) (arche : Archetype) (bundle : BundleId) (result : ArcheId),
    world.archetypes.arches[id]? = some arche → arche.afterInsert bundle = some result →
    ∃ info target, world.bundles.infos[bundle]? = some info ∧
      world.archetypes.arches[result]? = some target ∧
      InsertTarget arche.toComponentSlice info target.toComponentSlice
  afterRemove : ∀ (id : ArcheId) (arche : Archetype) (bundle : BundleId) (result : ArcheId),
    world.archetypes.arches[id]? = some arche → arche.afterRemove bundle = some result →
    ∃ info target, world.bundles.infos[bundle]? = some info ∧
      world.archetypes.arches[result]? = some target ∧
      RemoveTarget P world.components arche.toComponentSlice info target.toComponentSlice

theorem registered_new [DecidableEq τ] (P : Program τ V) : Registered P (World.new) where
  components := Components.consistent_new
  linked := fun node mem => absurd mem (by simp [World.new, Components.new])
  bundles := Bundles.sound_new
  bundleSplit := by
    intro s mem
    rw [mem_singleton.mp mem]
    exact ComponentSlice.split_nil P _
  explicit := by
    intro type id hf
    dsimp only [World.new, Bundles.new] at hf
    obtain ⟨rfl, rfl⟩ := (entry_of_update hf).resolve_right (by simp)
    exact ⟨⟨[], 0⟩, rfl, by simp [BundleType.unit, Components.Has]⟩
  required := by
    intro type id hf
    dsimp only [World.new, Bundles.new] at hf
    obtain ⟨rfl, rfl⟩ := (entry_of_update hf).resolve_right (by simp)
    exact ⟨⟨[], 0⟩, rfl, by simp [BundleType.unit, Components.Has]⟩
  tables := Tables.consistent_new
  tableSorted := by
    intro t mem
    rw [mem_singleton.mp mem]
    exact List.Pairwise.nil.sortedLT
  maps := Maps.indexed_new
  mapSound := fun map mem => absurd mem not_mem_nil
  archetypes := Archetypes.consistent_new
  archeSplit := by
    intro a mem
    rw [mem_singleton.mp mem]
    exact ComponentSlice.split_nil P _
  archeTable := by
    intro a mem
    rw [mem_singleton.mp mem]
    rfl
  archeMaps := by
    intro a mem id hin
    rw [mem_singleton.mp mem] at hin
    exact absurd hin (by simp [Archetype.new, ComponentSlice.sparseComponents])
  archeBundle := by
    intro b id hf
    dsimp only [World.new, Archetypes.new] at hf
    obtain ⟨rfl, rfl⟩ := (entry_of_update hf).resolve_right (by simp)
    exact ⟨⟨[], 0⟩, Archetype.new 0 ⟨[], 0⟩, rfl, rfl, rfl⟩
  afterInsert := by
    intro id a b res hf hc
    rw [mem_singleton.mp (mem_of_getElem? hf)] at hc
    exact absurd hc (by simp [Archetype.new])
  afterRemove := by
    intro id a b res hf hc
    rw [mem_singleton.mp (mem_of_getElem? hf)] at hc
    exact absurd hc (by simp [Archetype.new])

/-! ## What was numbered keeps its meaning -/

/-- Numbers keep their meaning. -/
structure Statics (before after : World τ V) : Prop where
  components : before.components.infos <+: after.components.infos
  bundles : before.bundles.infos <+: after.bundles.infos
  arches : ∀ (id : ArcheId) (arche : Archetype), before.archetypes.arches[id]? = some arche →
    ∃ now, after.archetypes.arches[id]? = some now ∧
      now.toComponentSlice = arche.toComponentSlice ∧ now.tableId = arche.tableId
  tables : before.tables.tables.map Table.components <+:
    after.tables.tables.map Table.components
  maps : ∀ id, (before.maps.getId id).isSome → after.maps.getId id = before.maps.getId id

theorem Statics.refl (w : World τ V) : Statics w w :=
  ⟨prefix_rfl, prefix_rfl, fun _ a hf => ⟨a, hf, rfl, rfl⟩,
    prefix_rfl, fun _ _ => rfl⟩

variable {snd third fst post pre : World τ V} {id : ArcheId}

theorem Statics.trans (one : Statics fst snd) (two : Statics snd third) : Statics fst third where
  components := one.components.trans two.components
  bundles := one.bundles.trans two.bundles
  arches := by
    intro id a hf
    obtain ⟨mid, him, hsl, hta⟩ := one.arches id a hf
    obtain ⟨now, hin, hs, ht⟩ := two.arches id mid him
    exact ⟨now, hin, hs.trans hsl, ht.trans hta⟩
  tables := one.tables.trans two.tables
  maps := by
    intro id hk
    have mid := one.maps id hk
    rw [two.maps id (by rw [mid]; exact hk), mid]

theorem Statics.sliceOf (hs : Statics pre post) {s : ComponentSlice}
    (hf : pre.sliceOf id = some s) : post.sliceOf id = some s := by
  obtain ⟨a, hst, rfl⟩ := map_eq_some_iff.mp hf
  obtain ⟨now, hin, hsa, -⟩ := hs.arches id a hst
  rw [World.sliceOf, hin, map_some, hsa]

theorem Statics.tableOf (hs : Statics pre post) {t : TableId}
    (hf : pre.tableOf id = some t) : post.tableOf id = some t := by
  obtain ⟨a, hst, rfl⟩ := map_eq_some_iff.mp hf
  obtain ⟨now, hin, -, hsa⟩ := hs.arches id a hst
  rw [World.tableOf, hin, map_some, hsa]

/-- A registration: entities, rows and values stay, and new stores are empty. -/
structure Grew (before after : World τ V) : Prop extends Statics before after where
  entities : after.entities = before.entities
  allocator : after.allocator = before.allocator
  observers : after.observers = before.observers
  thisRun : after.thisRun = before.thisRun
  rows : ∀ (id : ArcheId) (arche : Archetype), before.archetypes.arches[id]? = some arche →
    ∃ now, after.archetypes.arches[id]? = some now ∧ now.entities = arche.entities ∧
      now.observers = arche.observers
  freshArches : ∀ (id : ArcheId) (arche : Archetype), after.archetypes.arches[id]? = some arche →
    before.archetypes.arches[id]? = none → arche.entities = [] ∧ arche.observers = 0
  freshTables : ∃ added, after.tables.tables = before.tables.tables ++ added ∧
    ∀ table ∈ added, table.entities = []
  freshMaps : ∃ added, after.maps.maps = before.maps.maps ++ added ∧
    ∀ map ∈ added, ∃ id, map = Map.new id

theorem Grew.refl (w : World τ V) : Grew w w where
  toStatics := Statics.refl w
  entities := rfl
  allocator := rfl
  observers := rfl
  thisRun := rfl
  rows := fun _ a hf => ⟨a, hf, rfl, rfl⟩
  freshArches := fun _ _ hf hn => absurd (hf.symm.trans hn) (by simp)
  freshTables := ⟨[], by simp⟩
  freshMaps := ⟨[], by simp⟩

theorem Grew.trans (one : Grew fst snd) (two : Grew snd third) : Grew fst third where
  toStatics := one.toStatics.trans two.toStatics
  entities := two.entities.trans one.entities
  allocator := two.allocator.trans one.allocator
  observers := two.observers.trans one.observers
  thisRun := two.thisRun.trans one.thisRun
  rows := by
    intro id a hf
    obtain ⟨mid, him, rows, hfl⟩ := one.rows id a hf
    obtain ⟨now, hin, hro, hfa⟩ := two.rows id mid him
    exact ⟨now, hin, hro.trans rows, hfa.trans hfl⟩
  freshArches := by
    intro id a hf ha
    cases hb : snd.archetypes.arches[id]? with
    | none => exact two.freshArches id a hf hb
    | some mid =>
      obtain ⟨now, hin, rows, hfl⟩ := two.rows id mid hb
      obtain rfl := some.inj (hf.symm.trans hin)
      obtain ⟨he, hu⟩ := one.freshArches id mid hb ha
      exact ⟨rows.trans he, hfl.trans hu⟩
  freshTables := by
    obtain ⟨left, hle, hln⟩ := one.freshTables
    obtain ⟨r, hre, hrn⟩ := two.freshTables
    refine ⟨left ++ r, by rw [hre, hle, append_assoc], ?_⟩
    intro t mem
    exact (mem_append.mp mem).elim (hln t) (hrn t)
  freshMaps := by
    obtain ⟨left, hle, hln⟩ := one.freshMaps
    obtain ⟨r, hre, hrn⟩ := two.freshMaps
    refine ⟨left ++ r, by rw [hre, hle, append_assoc], ?_⟩
    intro map mem
    exact (mem_append.mp mem).elim (hln map) (hrn map)

end World

end Voker.Ecs
