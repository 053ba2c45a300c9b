import Voker.Ecs.World.Registered

/-!
# Registrations keep the registries in order

One lemma for each kind of change to a registry (a grown component registry, a grown
bundle registry, a new archetype, a changed cache), and from them one specification for
each registration and each archetype transition: the registries stay in order, nothing
that was there changes, and the number returned has the components asked for.
-/

namespace Voker.Ecs.World

open Foundation List Option Function ComponentSlice ComponentCollector

variable {τ V : Type} {P : Program τ V} {w : World τ V}

/-- The number of a bundle stands for exactly these types. -/
def Lists (components : Components τ) (infos : List ComponentSlice) (id : BundleId)
    (types : τ → Prop) : Prop :=
  ∃ slice, infos[id]? = some slice ∧
    ∀ component, components.Has slice.components component ↔ types component

theorem Lists.grow {cs : Components τ} {pre post : List ComponentSlice}
    {id : BundleId} {types : τ → Prop} (hl : Lists cs pre id types)
    (hg : pre <+: post) : Lists cs post id types :=
  have ⟨slice, he, has⟩ := hl
  ⟨slice, getElem?_grow hg he, has⟩

/-- A cached target of an archetype is right. -/
def Cached (world : World τ V) (Target : ComponentSlice → ComponentSlice → ComponentSlice → Prop)
    (slice : ComponentSlice) (bundle : BundleId) (result : ArcheId) : Prop :=
  ∃ info target, world.bundles.infos[bundle]? = some info ∧
    world.archetypes.arches[result]? = some target ∧ Target slice info target.toComponentSlice

theorem Cached.grow {post : World τ V}
    {Target : ComponentSlice → ComponentSlice → ComponentSlice → Prop} {slice : ComponentSlice}
    {b : BundleId} {res : ArcheId} (hc : Cached w Target slice b res)
    (hb : w.bundles.infos <+: post.bundles.infos)
    (ha : w.archetypes.arches <+: post.archetypes.arches) : Cached post Target slice b res :=
  have ⟨info, t, he, hst, hl⟩ := hc
  ⟨info, t, getElem?_grow hb he, getElem?_grow ha hst, hl⟩

/-! ## The kinds of change -/

/-- The component registry grows. -/
theorem Registered.ofComponents (reg : Registered P w) {cs : Components τ}
    (hr : ComponentCollector.Registers P w.components cs) :
    Registered P { w with components := cs } ∧
      Grew w { w with components := cs } := by
  have hl : ∀ {id types}, Lists w.components w.bundles.infos id types →
      Lists cs w.bundles.infos id types := by
    rintro id types ⟨slice, he, has⟩
    refine ⟨slice, he, fun c => Iff.trans ?_ (has c)⟩
    exact Components.has_of_prefix hr.grows (fun _ hin =>
      (reg.bundleSplit slice (mem_of_getElem? he)).registered hin) c
  refine ⟨{ reg with
    components := hr.consistent
    linked := hr.linked reg.linked
    bundleSplit := fun slice mem => (reg.bundleSplit slice mem).grow hr.grows
    explicit := fun type id hf => hl (reg.explicit type id hf)
    required := fun type id hf => hl (reg.required type id hf)
    archeSplit := fun a mem => (reg.archeSplit a mem).grow hr.grows
    afterRemove := ?_ }, { Grew.refl w with components := hr.grows }⟩
  · intro id a b res hf hc
    obtain ⟨info, t, he, hst, hle⟩ :=
      reg.afterRemove id a b res hf hc
    refine ⟨info, t, he, hst, fun c => (hle c).trans ?_⟩
    refine exists_congr fun root => and_congr_right fun mem => and_congr_right fun _ => ?_
    exact (Components.requires_of_prefix hr.consistent reg.linked hr.grows
      ((reg.archeSplit a (mem_of_getElem? hf)).registered mem)).symm

/-- The bundle registry grows. -/
theorem Registered.ofBundles (reg : Registered P w) {bundles : Bundles τ}
    (hs : bundles.Sound) (hg : w.bundles.infos <+: bundles.infos)
    (hsp : ∀ slice ∈ bundles.infos, ComponentSlice.Split P w.components slice)
    (explicit : ∀ type id, bundles.explicit type = some id →
      Lists w.components bundles.infos id (· ∈ type.components))
    (required : ∀ type id, bundles.required type = some id → Lists w.components bundles.infos id
        fun c => ∃ root ∈ type.components, Reaches P.requires root c) :
    Registered P { w with bundles := bundles } ∧
      Grew w { w with bundles := bundles } := by
  refine ⟨{ reg with
    bundles := hs
    bundleSplit := hsp
    explicit := explicit
    required := required
    archeBundle := ?_
    afterInsert := ?_
    afterRemove := ?_ }, { Grew.refl w with bundles := hg }⟩
  · intro b id hf
    obtain ⟨slice, a, hen, hre⟩ := reg.archeBundle b id hf
    exact ⟨slice, a, getElem?_grow hg hen, hre⟩
  · intro id a b res hf hc
    exact Cached.grow (reg.afterInsert id a b res hf hc) hg
      prefix_rfl
  · intro id a b res hf hc
    exact Cached.grow (reg.afterRemove id a b res hf hc) hg
      prefix_rfl

variable {id other : ArcheId} {archetypes : Archetypes} {col : ComponentCollector τ}
  {types : List τ}

/-- The archetypes after one of them was changed. -/
theorem getElem?_modify_forth (change : Archetype → Archetype) {a : Archetype}
    (hf : archetypes.arches[other]? = some a) : (archetypes.modify id change).arches[other]? =
      some (if id = other then change a else a) := by
  rw [Archetypes.modify, getElem?_modify, hf]
  rfl

theorem getElem?_modify_back {change : Archetype → Archetype} {now : Archetype}
    (hf : (archetypes.modify id change).arches[other]? = some now) :
    ∃ a, archetypes.arches[other]? = some a ∧
      now = if id = other then change a else a := by
  rw [Archetypes.modify, getElem?_modify] at hf
  obtain ⟨a, hst, rfl⟩ := map_eq_some_iff.mp hf
  exact ⟨a, hst, rfl⟩

/-- Archetypes change one by one: neither their components nor their tables, and their caches
to sound ones. -/
theorem Registered.mapArches (reg : Registered P w) {change : ArcheId → Archetype → Archetype}
    (hm : archetypes.mapper = w.archetypes.mapper) (hb : archetypes.bundles = w.archetypes.bundles)
    (hg : ∀ id, archetypes.arches[id]? = w.archetypes.arches[id]?.map (change id))
    (hk : ∀ id a, (change id a).toComponentSlice = a.toComponentSlice ∧
      (change id a).tableId = a.tableId)
    (insert : ∀ id a, w.archetypes.arches[id]? = some a → ∀ b res,
      (change id a).afterInsert b = some res → Cached w InsertTarget a.toComponentSlice b res)
    (remove : ∀ id a, w.archetypes.arches[id]? = some a → ∀ b res,
      (change id a).afterRemove b = some res →
        Cached w (RemoveTarget P w.components) a.toComponentSlice b res) :
    Registered P { w with archetypes } ∧ Statics w { w with archetypes } := by
  have forth : ∀ {id a}, w.archetypes.arches[id]? = some a →
      archetypes.arches[id]? = some (change id a) := fun hf => by rw [hg, hf, map_some]
  have mem : ∀ {now : Archetype}, now ∈ archetypes.arches → ∃ a ∈ w.archetypes.arches,
      now.toComponentSlice = a.toComponentSlice ∧ now.tableId = a.tableId := by
    intro now hin
    obtain ⟨id, hf⟩ := mem_iff_getElem?.mp hin
    rw [hg] at hf
    obtain ⟨a, hst, rfl⟩ := map_eq_some_iff.mp hf
    exact ⟨a, mem_of_getElem? hst, hk id a⟩
  have same : archetypes.arches.map (fun a => a.components) =
      w.archetypes.arches.map (fun a => a.components) := by
    refine ext_getElem? fun id => ?_
    rw [getElem?_map, getElem?_map, hg, Option.map_map]
    exact congrArg (Option.map · _) (funext fun a => congrArg (·.components) (hk id a).1)
  -- what a cache leads to has changed as well
  have hc {Target : ComponentSlice → ComponentSlice → ComponentSlice → Prop}
      {c : Archetype → BundleId → Option ArcheId}
      (hs : ∀ id a, w.archetypes.arches[id]? = some a → ∀ b res, c (change id a) b = some res →
        Cached w Target a.toComponentSlice b res)
      (id : ArcheId) (now : Archetype) (b : BundleId) (res : ArcheId)
      (hf : archetypes.arches[id]? = some now) (he : c now b = some res) :
      Cached { w with archetypes } Target now.toComponentSlice b res := by
    rw [hg] at hf
    obtain ⟨a, hst, rfl⟩ := map_eq_some_iff.mp hf
    obtain ⟨info, t, hen, aim, hl⟩ := hs id a hst b res he
    refine ⟨info, _, hen, forth aim, ?_⟩
    rw [(hk id a).1, (hk res t).1]
    exact hl
  refine ⟨{ reg with
    archetypes := ?_
    archeSplit := ?_
    archeTable := ?_
    archeMaps := ?_
    archeBundle := ?_
    afterInsert := hc insert
    afterRemove := hc remove }, { Statics.refl w with
    arches := fun id a hf => ⟨_, forth hf, hk id a⟩ }⟩
  · have hi := reg.archetypes
    unfold Archetypes.Consistent at hi ⊢
    rw [same, hm]
    exact hi
  · intro now hin
    obtain ⟨a, hst, slice, -⟩ := mem hin
    rw [slice]
    exact reg.archeSplit a hst
  · intro now hin
    obtain ⟨a, hst, slice, ht⟩ := mem hin
    rw [ht, slice]
    exact reg.archeTable a hst
  · intro now hin
    obtain ⟨a, hst, slice, -⟩ := mem hin
    rw [slice]
    exact reg.archeMaps a hst
  · intro b id hf
    rw [hb] at hf
    obtain ⟨slice, a, hen, hst, hsa⟩ := reg.archeBundle b id hf
    exact ⟨slice, _, hen, forth hst, by rw [(hk id a).1]; exact hsa⟩

section Change

variable (reg : Registered P w) {id : ArcheId} {change : Archetype → Archetype}
  (insert : ∀ arche, w.archetypes.arches[id]? = some arche → ∀ bundle result,
    (change arche).afterInsert bundle = some result →
      Cached w InsertTarget arche.toComponentSlice bundle result)
  (remove : ∀ arche, w.archetypes.arches[id]? = some arche → ∀ bundle result,
    (change arche).afterRemove bundle = some result →
      Cached w (RemoveTarget P w.components) arche.toComponentSlice bundle result)

include reg insert remove

/-- One archetype changes in this way. -/
theorem Registered.modifyArche
    (hki : ∀ a, (change a).toComponentSlice = a.toComponentSlice ∧
      (change a).tableId = a.tableId) :
    Registered P { w with archetypes := w.archetypes.modify id change } ∧
      Statics w { w with archetypes := w.archetypes.modify id change } := by
  have hg : ∀ other, (w.archetypes.modify id change).arches[other]? =
      w.archetypes.arches[other]?.map fun a => if id = other then change a else a :=
    fun other => getElem?_modify ..
  refine reg.mapArches rfl rfl hg (fun other a => ?_) (fun other a hst b res he => ?_)
    (fun other a hst b res he => ?_)
  · split
    · exact hki a
    · exact ⟨rfl, rfl⟩
  · split at he
    · next her =>
      subst her
      exact insert a hst b res he
    · exact reg.afterInsert other a b res hst he
  · split at he
    · next her =>
      subst her
      exact remove a hst b res he
    · exact reg.afterRemove other a b res hst he

/-- A cache of an archetype changes, to a sound one. -/
theorem Registered.ofCache
    (hk : ∀ a, (change a).toComponentSlice = a.toComponentSlice ∧
      (change a).tableId = a.tableId ∧ (change a).entities = a.entities ∧
      (change a).observers = a.observers) :
    Registered P { w with archetypes := w.archetypes.modify id change } ∧
      Grew w { w with archetypes := w.archetypes.modify id change } := by
  obtain ⟨hfi, hs⟩ := reg.modifyArche insert remove
    fun a => ⟨(hk a).1, (hk a).2.1⟩
  refine ⟨hfi, { Grew.refl w with toStatics := hs, rows := ?_, freshArches := ?_ }⟩
  · intro other a hf
    refine ⟨_, getElem?_modify_forth change hf, ?_⟩
    split
    · exact (hk a).2.2
    · exact ⟨rfl, rfl⟩
  · intro other now hf ha
    obtain ⟨a, hst, -⟩ := getElem?_modify_back hf
    cases hst.symm.trans ha

end Change

variable {slice : ComponentSlice}

/-- A new archetype is created, with its table and its maps. -/
theorem Registered.createArchetype (reg : Registered P w)
    (split : ComponentSlice.Split P w.components slice)
    (hu : w.archetypes.getId slice.components = none) :
    Registered P (w.createArchetype slice).2 ∧ Grew w (w.createArchetype slice).2 ∧
      ∃ a, (w.createArchetype slice).2.archetypes.arches[
          (w.createArchetype slice).1]? = some a ∧ a.components = slice.components := by
  obtain ⟨tables, ⟨ad, hte, hae⟩, hta⟩ :=
    Tables.register_spec reg.tables slice.denseComponents
  have maps := Maps.grows_register reg.maps slice.sparseComponents
  -- the archetypes are the old ones and the new one
  have old : w.archetypes.arches <+: (w.createArchetype slice).2.archetypes.arches :=
    prefix_append _ _
  have cases : ∀ {id : ArcheId} {a : Archetype},
      (w.createArchetype slice).2.archetypes.arches[id]? = some a →
      w.archetypes.arches[id]? = some a ∨ (w.archetypes.arches[id]? = none ∧
          a = Archetype.new (w.tables.register slice.denseComponents).1 slice) := by
    intro id a hf
    change (w.archetypes.arches ++ [Archetype.new _ slice])[id]? = some a at hf
    rw [getElem?_append] at hf
    split at hf
    · exact .inl hf
    · next ho =>
      refine .inr ⟨getElem?_eq_none (Nat.le_of_not_lt ho), ?_⟩
      exact mem_singleton.mp (mem_of_getElem? hf)
  have htk : ∀ {id : TableId} {key : List ComponentId},
      w.tables.tables[id]?.map Table.components = some key →
      (w.tables.register slice.denseComponents).2.tables[id]?.map Table.components = some key := by
    intro id key hf
    obtain ⟨t, hst, rfl⟩ := map_eq_some_iff.mp hf
    rw [hte, getElem?_grow (prefix_append _ _) hst]
    rfl
  refine ⟨{ reg with
    tables := tables
    tableSorted := ?_
    maps := maps.indexed
    mapSound := ?_
    archetypes := reg.archetypes.registerUnique hu _
    archeSplit := ?_
    archeTable := ?_
    archeMaps := ?_
    archeBundle := ?_
    afterInsert := ?_
    afterRemove := ?_ }, { Grew.refl w with
    arches := fun id a hf => ⟨a, getElem?_grow old hf, rfl, rfl⟩
    tables := ?_
    maps := maps.known
    rows := fun id a hf => ⟨a, getElem?_grow old hf, rfl, rfl⟩
    freshArches := ?_
    freshTables := ?_
    freshMaps := maps.fresh }, ?_⟩
  · intro t mem
    change t ∈ (w.tables.register slice.denseComponents).2.tables at mem
    rw [hte] at mem
    rcases mem_append.mp mem with old | new
    · exact reg.tableSorted t old
    · rw [hae t new]
      exact split.denseSorted
  · exact maps.sound reg.mapSound
  · intro a mem
    obtain ⟨id, hf⟩ := mem_iff_getElem?.mp mem
    rcases cases hf with hst | ⟨-, rfl⟩
    · exact reg.archeSplit a (mem_of_getElem? hst)
    · exact split
  · intro a mem
    obtain ⟨id, hf⟩ := mem_iff_getElem?.mp mem
    rcases cases hf with hst | ⟨-, rfl⟩
    · exact htk (reg.archeTable a (mem_of_getElem? hst))
    · exact hta
  · intro a mem c hin
    obtain ⟨id, hf⟩ := mem_iff_getElem?.mp mem
    rcases cases hf with hst | ⟨-, rfl⟩
    · have hk := reg.archeMaps a (mem_of_getElem? hst) c hin
      have hke := maps.known c hk
      exact (congrArg isSome hke).trans hk
    · exact maps.prepared c hin
  · intro b id hf
    obtain ⟨info, a, he, hst, hsa⟩ := reg.archeBundle b id hf
    exact ⟨info, a, he, getElem?_grow old hst, hsa⟩
  · intro id a b res hf hc
    rcases cases hf with hst | ⟨-, rfl⟩
    · exact Cached.grow (reg.afterInsert id a b res hst hc) prefix_rfl old
    · cases hc
  · intro id a b res hf hc
    rcases cases hf with hst | ⟨-, rfl⟩
    · exact Cached.grow (reg.afterRemove id a b res hst hc) prefix_rfl old
    · cases hc
  · change _ <+: (w.tables.register slice.denseComponents).2.tables.map Table.components
    rw [hte, map_append]
    exact prefix_append _ _
  · intro id a hf ha
    rcases cases hf with hst | ⟨-, rfl⟩
    · cases hst.symm.trans ha
    · exact ⟨rfl, rfl⟩
  · refine ⟨ad, hte, fun t mem => ?_⟩
    rw [hae t mem]
    rfl
  · refine ⟨Archetype.new (w.tables.register slice.denseComponents).1 slice, ?_, rfl⟩
    change (w.archetypes.arches ++ [Archetype.new _ slice])[ w.archetypes.arches.length]? = _
    rw [getElem?_append_right le_rfl, Nat.sub_self]
    rfl

/-- Finding the archetype of a slice. -/
theorem Registered.findArchetype (reg : Registered P w)
    (hs : ComponentSlice.Split P w.components slice) : Registered P (w.findArchetype slice).2 ∧
      Grew w (w.findArchetype slice).2 ∧ ∃ a, (w.findArchetype slice).2.archetypes.arches[
          (w.findArchetype slice).1]? = some a ∧ a.components = slice.components := by
  unfold World.findArchetype
  cases hk : w.archetypes.getId slice.components with
  | none => exact reg.createArchetype hs hk
  | some id =>
    refine ⟨reg, Grew.refl w, ?_⟩
    have hf := (reg.archetypes _ id).mp hk
    rw [getElem?_map] at hf
    exact map_eq_some_iff.mp hf

/-! ## Bundles -/

/-- The dense and the sparse list of a collector together are what was collected. -/
theorem mem_collected (hs : col.Stands P types) {id : ComponentId} :
    id ∈ col.dense ∨ id ∈ col.sparse ↔ id ∈ col.collected := by
  rw [hs.dense, hs.sparse, ← and_or_left]
  exact and_iff_left_of_imp fun mem => Components.storage_cases P (hs.lt_length mem)

/-- The sorted result of a collector is a well-formed slice of the collected types. -/
theorem slice_sorted (hs : col.Stands P types) : ComponentSlice.Split P col.components
        (ofParts col.sorted.dense col.sorted.sparse) ∧ ∀ type, col.components.Has
        (ofParts col.sorted.dense col.sorted.sparse).components type ↔ type ∈ types := by
  refine ⟨split_ofParts (fun id mem => ((hs.dense id).mp mem).2)
    (fun id mem => ((hs.sparse id).mp mem).2), fun type => ?_⟩
  have hm : ∀ id, id ∈ (ofParts col.sorted.dense
      col.sorted.sparse).components ↔ id ∈ col.collected := by
    intro id
    rw [mem_components, denseComponents_ofParts, sparseComponents_ofParts, sorted, mem_sortDedup,
      mem_sortDedup, mem_collected hs]
  constructor
  · rintro ⟨id, mem, n⟩
    exact (hs.mem_iff n).mp ((hm id).mp mem)
  · intro mem
    have hma : some type ∈ col.collected.map (col.components.infos[·]?) := by
      rw [hs.numbers]
      exact mem_map_of_mem mem
    obtain ⟨id, hin, n⟩ := mem_map.mp hma
    exact ⟨id, (hm id).mpr hin, n⟩

/-- What was collected is interned and entered for some bundle types. -/
theorem Registered.ofCollected (reg : Registered P w)
    (hr : ComponentCollector.Registers P w.components col.components)
    (hsa : col.Stands P types) (hso : slice = .ofParts col.sorted.dense col.sorted.sparse)
    (explicit required : BundleType τ → Option BundleId)
    (hna : ∀ type id, explicit type = some id → w.bundles.explicit type = some id ∨
      id = (w.bundles.intern slice).1 ∧ ∀ c, c ∈ types ↔ c ∈ type.components)
    (hn : ∀ type id, required type = some id → w.bundles.required type = some id ∨
      id = (w.bundles.intern slice).1 ∧ ∀ c,
        c ∈ types ↔ ∃ root ∈ type.components, Reaches P.requires root c) : Registered P { w with
        components := col.components
        bundles := { (w.bundles.intern slice).2 with
          explicit := explicit, required := required } } ∧
      Grew w { w with
        components := col.components
        bundles := { (w.bundles.intern slice).2 with
          explicit := explicit, required := required } } := by
  obtain ⟨hs, has⟩ := slice_sorted hsa
  rw [← hso] at hs has
  obtain ⟨mid, hgf⟩ := reg.ofComponents hr
  obtain ⟨hsu, ⟨a, hi, hae⟩, hf, -, -⟩ :=
    Bundles.intern_spec reg.bundles slice
  obtain ⟨en, hst, hsm⟩ := map_eq_some_iff.mp hf
  have hg : w.bundles.infos <+: (w.bundles.intern slice).2.infos := by
    rw [hi]
    exact prefix_append _ _
  have hl : ∀ {type : τ → Prop}, (∀ c, c ∈ types ↔ type c) →
      Lists col.components (w.bundles.intern slice).2.infos
        (w.bundles.intern slice).1 type := fun hm =>
    ⟨en, hst, fun c => by rw [hsm, has, hm]⟩
  refine And.imp_right hgf.trans (@Registered.ofBundles _ _ _ _ mid
    { (w.bundles.intern slice).2 with explicit := explicit, required := required } hsu hg
    (fun other mem => ?_) (fun type id hk => ?_) (fun type id hk => ?_))
  · change other ∈ (w.bundles.intern slice).2.infos at mem
    rw [hi, mem_append] at mem
    rcases mem with old | new
    · exact mid.bundleSplit other old
    · rw [hae other new]
      exact hs
  · rcases hna type id hk with old | ⟨rfl, hm⟩
    · exact Lists.grow (mid.explicit type id old) hg
    · exact hl hm
  · rcases hn type id hk with old | ⟨rfl, hm⟩
    · exact Lists.grow (mid.required type id old) hg
    · exact hl hm

section Types

variable [DecidableEq τ] [Fintype τ]

/-- `register_explicit_bundle` returns the components the bundle names. -/
theorem Registered.registerExplicitBundle (reg : Registered P w) (type : BundleType τ) :
    Registered P (w.registerExplicitBundle P type).2 ∧ Grew w (w.registerExplicitBundle P type).2 ∧
      Lists (w.registerExplicitBundle P type).2.components
        (w.registerExplicitBundle P type).2.bundles.infos
        (w.registerExplicitBundle P type).1 (· ∈ type.components) := by
  unfold World.registerExplicitBundle
  cases hk : w.bundles.explicit type with
  | some id => exact ⟨reg, Grew.refl w, reg.explicit type id hk⟩
  | none =>
    obtain ⟨hr, types, hs, hm⟩ :=
      collectExplicit_all P type.components (ComponentCollector.Stands.new P reg.components)
    obtain ⟨-, -, -, hee, hre⟩ := Bundles.intern_spec reg.bundles _
    refine And.elim (fun hf hg => ⟨hf, hg, hf.explicit type _ (update_self _ _ _)⟩)
      (reg.ofCollected hr hs rfl (update _ type (some _)) _
        (fun other id he => ?_) (fun other id he => .inl (hre ▸ he)))
    rcases entry_of_update he with ⟨rfl, rfl⟩ | old
    · refine .inr ⟨rfl, fun c => ?_⟩
      rw [hm]
      exact or_iff_right not_mem_nil
    · exact .inl (hee ▸ old)

/-- `register_required_bundle` returns the components the bundle names and all they
require. -/
theorem Registered.registerRequiredBundle (reg : Registered P w) (type : BundleType τ) :
    Registered P (w.registerRequiredBundle P type).2 ∧ Grew w (w.registerRequiredBundle P type).2 ∧
      Lists (w.registerRequiredBundle P type).2.components
        (w.registerRequiredBundle P type).2.bundles.infos (w.registerRequiredBundle P type).1
        fun c => ∃ root ∈ type.components, Reaches P.requires root c := by
  unfold World.registerRequiredBundle
  cases hk : w.bundles.required type with
  | some id => exact ⟨reg, Grew.refl w, reg.required type id hk⟩
  | none =>
    obtain ⟨hr, types, hs, hex⟩ :=
      collectRequired_all P type.components (ComponentCollector.Stands.new P reg.components)
    obtain ⟨-, -, -, hee, hre⟩ := Bundles.intern_spec reg.bundles _
    refine And.elim (fun hf hg => ⟨hf, hg, hf.required type _ (update_self _ _ _)⟩)
      (reg.ofCollected hr hs rfl _ (update _ type (some _))
        (fun other id he => .inl (hee ▸ he)) (fun other id he => ?_))
    rcases entry_of_update he with ⟨rfl, rfl⟩ | old
    · exact .inr ⟨rfl, fun c => hex.mem_iff⟩
    · exact .inl (hre ▸ old)

end Types

/-! ## Archetypes -/

/-- An archetype of the right components is found, and at most registered. -/
def Arrives (P : Program τ V) (world : World τ V) (outcome : Option (ArcheId × World τ V))
    (Target : Components τ → ComponentSlice → Prop) : Prop :=
  ∃ result after, outcome = some (result, after) ∧ Registered P after ∧ Grew world after ∧
    ∃ target, after.archetypes.arches[result]? = some target ∧
      Target after.components target.toComponentSlice

/-- `register_archetype` returns the archetype of the bundle. -/
theorem Registered.registerArchetype (reg : Registered P w) {b : BundleId}
    {info : ComponentSlice} (he : w.bundles.infos[b]? = some info) :
    Arrives P w (w.registerArchetype b) fun _ t => t.components = info.components := by
  unfold World.registerArchetype
  cases hk : w.archetypes.bundles b with
  | some id =>
    obtain ⟨slice, a, hst, hf, hs⟩ := reg.archeBundle b id hk
    obtain rfl := some.inj (he.symm.trans hst)
    exact ⟨id, w, rfl, reg, Grew.refl w, a, hf, hs⟩
  | none =>
    obtain ⟨mid, hg, a, hf, hs⟩ :=
      reg.findArchetype (reg.bundleSplit info (mem_of_getElem? he))
    rw [he]
    refine ⟨_, _, rfl, { mid with archeBundle := ?_ },
      hg.trans { Grew.refl (w.findArchetype info).2 with }, a, hf, hs⟩
    intro other id hm
    rcases entry_of_update hm with ⟨rfl, rfl⟩ | hm
    · exact ⟨info, a, getElem?_grow hg.bundles he, hf, hs⟩
    · exact mid.archeBundle other id hm

end Voker.Ecs.World
