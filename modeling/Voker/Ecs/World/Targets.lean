import Voker.Ecs.World.Layout

/-!
# Where an operation leads

Spawning, inserting and removing begin with registrations, which find the archetype to go
to.  Here their first part is summed up: **what is known about the archetype found, in the
world in which rows start to move**.
-/

namespace Voker.Ecs

open Foundation List

variable {τ V α : Type} {P : Program τ V}

/-- The slice has the components of a bundle type and all they require. -/
def ComponentSlice.Spans (P : Program τ V) (components : Components τ) (type : BundleType τ)
    (slice : ComponentSlice) : Prop :=
  ∀ component, components.Has slice.components component ↔
    ∃ root ∈ type.components, Reaches P.requires root component

theorem ComponentSlice.Spans.grow {pre post : Components τ}
    (hg : pre.infos <+: post.infos) {type : BundleType τ} {s : ComponentSlice}
    (hs : ComponentSlice.Split P pre s) (hsp : s.Spans P pre type) :
    s.Spans P post type := by
  intro c
  rw [Components.has_of_prefix hg fun id mem => hs.registered mem]
  exact hsp c

namespace World

variable {world : World τ V} {fails : Fault → World τ V → Prop} {e : Entity}
  {ret : Unit → World τ V → Prop}

/-- The archetype of a spawned entity exists. -/
theorem Settled.arche (hs : world.Settled e) {loc : EntityLocation}
    (ha : world.entities.located e = some loc) :
    ∃ a, world.archetypes.arches[loc.archeId]? = some a := by
  obtain ⟨a, hf, -⟩ := Option.map_eq_some_iff.mp (hs.link loc ha)
  exact ⟨a, hf⟩

/-- What is known when a new entity gets its rows. -/
structure Spawning (P : Program τ V) (before middle : World τ V) (type : BundleType τ)
    (target : ArcheId) : Prop where
  registered : Registered P middle
  grew : Grew before middle
  leads : ∃ slice, middle.sliceOf target = some slice ∧ slice.Spans P middle.components type

/-- What is known when an insertion starts to move rows. -/
structure Inserting (P : Program τ V) (before middle : World τ V) (type : BundleType τ)
    (source target : ArcheId) : Prop where
  registered : Registered P middle
  grew : Grew before middle
  leads : ∃ old info new, middle.sliceOf source = some old ∧
    middle.sliceOf target = some new ∧ InsertTarget old info new ∧
    info.Spans P middle.components type

/-- What is known when a removal starts to move rows. -/
structure Removing (P : Program τ V) (before middle : World τ V) (bundle : BundleId)
    (source target : ArcheId) : Prop where
  registered : Registered P middle
  grew : Grew before middle
  leads : ∃ old info new, middle.sliceOf source = some old ∧
    middle.sliceOf target = some new ∧ before.bundles.infos[bundle]? = some info ∧
    RemoveTarget P middle.components old info new

variable [DecidableEq τ] [Fintype τ]

/-- `BundleSpawner::new` finds the archetype of what the bundle requires. -/
theorem sat_spawnArchetype (reg : Registered P world) (type : BundleType τ) :
    Sat (spawnArchetype P type) world
      (fun t mid => Spawning P world mid type t) (fun _ _ => False) := by
  obtain ⟨mid, hg, s, he, hsp⟩ := reg.registerRequiredBundle type
  obtain ⟨id, post, out, hfi, hga, a, hf, hsa⟩ := mid.registerArchetype he
  unfold spawnArchetype
  rw [sat_bind, sat_modifyGet]
  refine sat_registering.mpr ⟨fun res hsh => ?_, fun ha => ?_⟩
  · obtain rfl := Option.some.inj (out.symm.trans hsh)
    refine ⟨hfi, hg.trans hga, a.toComponentSlice, ?_, ?_⟩
    · exact sliceOf_eq hf
    · have hs : s.Spans P post.components type :=
        ComponentSlice.Spans.grow hga.components
          (mid.bundleSplit s (mem_of_getElem? he)) hsp
      intro c
      rw [← hs c]
      rw [hsa]
  · cases out.symm.trans ha

/-- The first part of `insert`: the location of the entity, the explicit bundle and the
archetype to go to. -/
def insertTarget (P : Program τ V) (entity : Entity) (bundle : Bundle τ V) :
    Exec τ V (EntityLocation × BundleId × ArcheId) := do
  let location ← spawnedLocation entity
  let required ← modifyGet fun world => world.registerRequiredBundle P bundle.type
  let explicit ← modifyGet fun world => world.registerExplicitBundle P bundle.type
  let target ← registering P .bundle fun world =>
    world.archeAfterInsert location.archeId required
  return (location, explicit, target)

theorem insert_eq (P : Program τ V) (e : Entity) (b : Bundle τ V) :
    insert P e b = insertTarget P e b >>= fun be =>
      guarded P e (if be.1.archeId = be.2.2 then
          insertLocal P e be.1 b
        else insertMoved P e be.1 be.2.2 b) := by
  unfold insert insertTarget
  simp only [bind_assoc, pure_bind]

/-- The first part of `insert` succeeds for a spawned entity. -/
theorem sat_insertTarget (reg : Registered P world) (hs : world.Settled e)
    (b : Bundle τ V) : Sat (insertTarget P e b) world
      (fun be mid => world.entities.located e = some be.1 ∧
        Inserting P world mid b.type be.1.archeId be.2.2 ∧
        ∃ info, mid.bundles.infos[be.2.1]? = some info ∧
          ∀ c, mid.components.Has info.components c ↔ c ∈ b.type.components)
      (fun f post => f = .panic .notSpawned ∧ post = world) := by
  unfold insertTarget
  rw [sat_bind]
  refine sat_spawnedLocation.mpr ⟨fun loc hf => ?_, fun _ _ => ⟨rfl, rfl⟩⟩
  have hal := Entities.locate_eq_ok.mp hf
  obtain ⟨a, her⟩ := hs.arche hal
  obtain ⟨one, hgr, info, he, hsa⟩ := reg.registerRequiredBundle b.type
  obtain ⟨two, hg, exact_info, exact_entry, hn⟩ := one.registerExplicitBundle b.type
  have hsp := one.bundleSplit info (mem_of_getElem? he)
  have exact_split := two.bundleSplit exact_info (mem_of_getElem? exact_entry)
  obtain ⟨old, hst, hsm, -⟩ := (hgr.trans hg).arches _ _ her
  obtain ⟨t, post, out, hfi, grew'', new, aim, hl⟩ :=
    two.archeAfterInsert hst (hg.toStatics.bundle he)
  rw [sat_bind, sat_modifyGet, sat_bind, sat_modifyGet, sat_bind]
  refine sat_registering.mpr ⟨fun res hsh => ?_, fun ha => ?_⟩
  · obtain rfl := Option.some.inj (out.symm.trans hsh)
    refine ⟨hal, ⟨hfi, (hgr.trans hg).trans grew'', ?_⟩, exact_info,
      grew''.toStatics.bundle exact_entry, fun c => ?_⟩
    · refine ⟨old.toComponentSlice, info, new.toComponentSlice, ?_, ?_, hl, ?_⟩
      · exact grew''.toStatics.sliceOf (sliceOf_eq hst)
      · exact sliceOf_eq aim
      · exact ComponentSlice.Spans.grow (hg.trans grew'').components hsp hsa
    · rw [Components.has_of_prefix grew''.components fun id mem => exact_split.registered mem]
      exact hn c
  · cases out.symm.trans ha

/-- `insert` of a spawned entity starts to move rows in the end. -/
theorem sat_insert (reg : Registered P world) (hs : world.Settled e)
    {b : Bundle τ V} (hr : fails (.panic .notSpawned) world)
    (hm : ∀ loc t mid, world.entities.located e = some loc →
      Inserting P world mid b.type loc.archeId t → Sat (guarded P e
        (if loc.archeId = t then insertLocal P e loc b else insertMoved P e loc t b)) mid ret fails)
    : Sat (insert P e b) world ret fails := by
  rw [insert_eq, sat_bind]
  refine (sat_insertTarget reg hs b).mono ?_ ?_
  · rintro ⟨loc, ex, t⟩ mid ⟨ha, hi, -⟩
    exact hm loc t mid ha hi
  · rintro f post ⟨rfl, rfl⟩
    exact hr

/-- `remove_dynamic` of a spawned entity with a registered bundle starts to move rows in
the end. -/
theorem sat_removeDynamic (reg : Registered P world) {b : BundleId}
    (hr : fails (.panic .notSpawned) world) (hu : fails (violation P .bundle) world)
    (hm : ∀ loc t mid, world.entities.located e = some loc →
      Removing P world mid b loc.archeId t → Sat (guarded P e
        (if loc.archeId = t then pure () else removeMoved P e loc t)) mid ret fails)
    : Sat (removeDynamic P e b) world ret fails := by
  unfold removeDynamic
  rw [sat_bind]
  refine sat_spawnedLocation.mpr ⟨fun loc hf => ?_, fun _ _ => hr⟩
  have ha := Entities.locate_eq_ok.mp hf
  rw [sat_bind]
  refine sat_registering.mpr ⟨fun res hs => ?_, fun _ => hu⟩
  obtain ⟨a, info, her, he⟩ := archeAfterRemove_entry reg hs
  obtain ⟨t, post, out, hfi, hg, new, aim, hl⟩ := reg.archeAfterRemove her he
  obtain rfl := Option.some.inj (out.symm.trans hs)
  refine hm loc t post ha ⟨hfi, hg, ?_⟩
  refine ⟨a.toComponentSlice, info, new.toComponentSlice, ?_, ?_, he, hl⟩
  · exact hg.toStatics.sliceOf (sliceOf_eq her)
  · exact sliceOf_eq aim

end World

end Voker.Ecs
