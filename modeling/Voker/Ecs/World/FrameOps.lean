import Voker.Ecs.World.Dynamic
import Voker.Ecs.World.Frame
import Voker.Ecs.World.Stores

/-!
# Every operation respects its scope

The walk through the operations for `Evolves`: primitives first, then the writers, the
guarded parts, and the operations.  Reads change nothing; every write is one of the
elementary changes.
-/

namespace Voker.Ecs.World

open Foundation List Option Function Moves

variable {τ V α : Type} {P : Program τ V} {scope : Scope}

/-! ## Rows -/

variable {id t : ArcheId} {entity : Entity} {world : World τ V}

theorem moves_allocArcheRow (subject : scope.subjects entity) (t : scope.targets id) :
    Moves (Evolves P scope) (allocArcheRow P id entity) := by
  intro world
  refine sat_allocArcheRow.mpr ⟨fun a hf => ?_, fun _ => refl_of _ world⟩
  refine evolves_archeRows hf fun o mem => ?_
  rcases mem_append.mp mem with old | new
  · exact .inl old
  · rw [mem_singleton.mp new]
    exact .inr ⟨subject, t⟩

/-- A swap-removal brings nothing new. -/
theorem mem_of_mem_swapRemove {rows : List Entity} {row : ℕ} (mem : entity ∈ swapRemove rows row) :
    entity ∈ rows := by
  unfold swapRemove at mem
  cases hl : rows.getLast? with
  | none =>
    rw [hl] at mem
    exact absurd mem not_mem_nil
  | some item =>
    rw [hl] at mem
    rcases mem_or_eq_of_mem_set (mem_of_mem_dropLast mem) with old | hs
    · exact old
    · rw [hs]
      exact mem_of_getLast? hl

theorem moves_deallocArcheRow (id : ArcheId) (row : ℕ) :
    Moves (Evolves P scope) (deallocArcheRow P id row) := by
  intro world
  refine sat_deallocArcheRow.mpr ⟨fun a hf => ?_, fun _ => refl_of _ world⟩
  split
  · exact evolves_archeRows hf fun o mem => .inl (mem_of_mem_swapRemove mem)
  · exact refl_of _ world

theorem moves_allocTableRow (id : TableId) (e : Entity) :
    Moves (Evolves P scope) (allocTableRow P id e) := fun world =>
  sat_allocTableRow.mpr ⟨fun _ hf => evolves_setTable hf rfl, fun _ => refl_of _ world⟩

theorem moves_deallocTableRow (drop : Bool) (id : TableId) (row : ℕ) :
    Moves (Evolves P scope) (deallocTableRow P drop id row) := by
  intro world
  refine sat_deallocTableRow.mpr ⟨fun ta hf => ⟨fun res out => ?_,
    fun _ => refl_of _ world⟩, fun _ => refl_of _ world⟩
  have hin : row < ta.entities.length := by
    by_contra ho
    rw [Table.deallocRow, if_neg ho] at out
    cases out
  obtain ⟨post, hs, cs, -⟩ := @Table.deallocRow_eq _ drop _ _ hin
  obtain rfl := some.inj (out.symm.trans hs)
  exact evolves_setTable hf cs

theorem moves_moveTableRow (drop : Bool) {src t : TableId} (ne : src ≠ t)
    (row : ℕ) : Moves (Evolves P scope) (moveTableRow P drop src t row) := by
  intro world
  refine sat_moveTableRow.mpr ⟨fun fst hif => ⟨fun snd his =>
    ⟨fun res out => ?_, fun _ => refl_of _ world⟩, fun _ => refl_of _ world⟩,
    fun _ => refl_of _ world⟩
  cases he : fst.entities[row]? with
  | none =>
    rw [Table.moveRow, he] at out
    cases out
  | some entity =>
    obtain ⟨left, r, hs, hle, -, hre, -⟩ := @Table.moveRow_eq _ drop _ snd _ _ he
    obtain rfl := some.inj (out.symm.trans hs)
    refine trans_of (Evolves P scope) (evolves_setTable hif hle) ?_
    refine evolves_setTable ?_ hre
    unfold setTable
    rw [getElem?_set_ne ne]
    exact his

/-! ## Sparse rows -/

theorem moves_allocMapRow (c : ComponentId) (subject : scope.subjects entity) :
    Moves (Evolves P scope) (allocMapRow P c entity) := by
  intro world
  refine sat_allocMapRow.mpr ⟨fun hf he => ?_, fun _ => refl_of _ world⟩
  refine evolves_setMap (mapAt_eq_some he).2 (Map.component_allocRow ..)
    (fun hs => hs.allocRow P.growth entity) fun o ha => ?_
  rw [Map.mapper_allocRow, update_of_ne]
  rintro rfl
  exact ha subject

/-- Taking back the row of a subject. -/
theorem evolves_deallocRow {id : MapId} {map post : Map V}
    (hf : world.maps.maps[id]? = some map) (subject : scope.subjects entity) {row : MapRow}
    (ho : map.getMapRow entity = some row) {drop : Bool}
    (out : map.deallocRow drop row = some post) : Evolves P scope world (world.setMap id post) := by
  intro reg
  have hs := reg.mapSound map (mem_of_getElem? hf)
  obtain ⟨res, hsh, c, hm, -⟩ := Map.deallocRow_eq drop hs ho
  obtain rfl := some.inj (out.symm.trans hsh)
  refine evolves_setMap hf c (fun hs => hs.deallocRow ho out) (fun o ha => ?_) reg
  rw [hm, update_of_ne]
  rintro rfl
  exact ha subject

theorem moves_deallocMapRow (drop : Bool) (c : ComponentId) (subject : scope.subjects entity) :
    Moves (Evolves P scope) (deallocMapRow P drop c entity) := by
  intro world
  refine sat_deallocMapRow.mpr ⟨fun hf he => ⟨fun row ho => ⟨fun post out => ?_,
    fun _ => refl_of _ world⟩, fun _ => refl_of _ world⟩, fun _ => refl_of _ world⟩
  exact evolves_deallocRow (mapAt_eq_some he).2 subject ho out

/-! ## The entity table -/

theorem archeId_setRow (loc : EntityLocation) (row : Row) :
    (loc.setRow row).archeId = loc.archeId := by
  cases row with
  | arche row => rfl
  | table row => rfl

/-- Following a swap-removal moves nobody to another archetype. -/
theorem evolves_updateRow {m : MovedEntityRow} {es : Entities}
    (hok : world.entities.updateRow m = .ok es) :
    Evolves P scope world { world with entities := es } := by
  rcases Entities.updateRow_inv hok with ⟨-, rfl⟩ | ⟨o, loc, -, ha, hl, ht⟩
  · exact refl_of _ world
  · refine evolves_entities ht fun entity _ => ?_
    rw [hl, update_apply]
    unfold archeOf
    split
    · next hs =>
      rw [hs, ha, map_some, map_some, archeId_setRow]
    · rfl

theorem moves_updateRow (m : MovedEntityRow) :
    Moves (Evolves P scope) (updateRow m) := fun world =>
  sat_updateRow.mpr ⟨fun _ hok => evolves_updateRow hok, fun _ _ => refl_of _ world⟩

theorem moves_tryUpdateRow (m : MovedEntityRow) :
    Moves (Evolves P scope) (tryUpdateRow m) := fun world =>
  sat_tryUpdateRow.mpr ⟨fun _ hok => evolves_updateRow hok, fun _ _ => refl_of _ world⟩

section

variable (subject : scope.subjects entity)

include subject

/-- The location of a subject changes. -/
theorem evolves_located {es : Entities} {new : Option EntityLocation}
    (hl : es.located = update world.entities.located entity new)
    (ht : Entities.TagsKept world.entities es) :
    Evolves P scope world { world with entities := es } := by
  refine evolves_entities ht fun o ha => ?_
  have ne : o ≠ entity := by
    rintro rfl
    exact ha subject
  rw [hl, update_of_ne ne]
  rfl

theorem moves_updateLocation (loc : EntityLocation) :
    Moves (Evolves P scope) (updateLocation entity loc) := by
  intro world
  refine sat_updateLocation.mpr ⟨fun es hok => ?_, fun _ _ => refl_of _ world⟩
  obtain ⟨old, -, hl, ht⟩ := Entities.modifyLocation_inv hok
  exact evolves_located subject hl ht

theorem moves_setSpawned (loc : EntityLocation) :
    Moves (Evolves P scope) (setSpawned P entity loc) := by
  intro world
  refine sat_setSpawned.mpr ⟨fun es hok => ?_, fun _ _ => refl_of _ world⟩
  obtain ⟨-, hl, ht⟩ := Entities.setSpawned_ok hok
  exact evolves_located subject hl ht

theorem moves_setDespawned : Moves (Evolves P scope) (setDespawned P entity) := by
  intro world
  refine sat_setDespawned.mpr ⟨fun res hok => ?_, fun _ _ => refl_of _ world⟩
  obtain ⟨-, hl, -, ht⟩ := Entities.setDespawned_ok hok
  exact evolves_located subject hl ht

theorem moves_dropLocation : Moves (Evolves P scope) (dropLocation entity) := by
  intro world
  unfold dropLocation
  rw [sat_modify]
  cases out : world.entities.setDespawned entity with
  | error err => exact refl_of _ world
  | ok res =>
    obtain ⟨-, hl, -, ht⟩ := Entities.setDespawned_ok out
    exact evolves_located subject hl ht

end

theorem moves_allocMut : Moves (Evolves P scope) (allocMut : Exec τ V Entity) := fun _ =>
  sat_allocMut.mpr ⟨fun _ _ => evolves_allocator _, fun _ => evolves_allocator _⟩

/-- Stores respect every scope. -/
theorem storing_evolves : Storing (Evolves P scope) where
  dense := fun _ _ _ _ hf => evolves_setTable hf rfl
  sparse := fun _ _ _ _ hf => evolves_setMap hf rfl
    (fun hs => ⟨hs.index, hs.free, hs.nodup⟩) fun _ _ => rfl

/-! ## Forgetting -/

theorem moves_forgetArche (e : Entity) (id : ArcheId) :
    Moves (Evolves P scope) (forgetArche P e id) := by
  refine (moves_archetype id).bind fun a => ?_
  cases a.getArcheRow e with
  | none => exact .pure _
  | some row =>
    exact (moves_deallocArcheRow id row).bind fun m => moves_updateRow m

theorem moves_forgetTable (e : Entity) (id : TableId) :
    Moves (Evolves P scope) (forgetTable P e id) := by
  refine (moves_table id).bind fun ta => ?_
  cases ta.getTableRow e with
  | none => exact .pure _
  | some row =>
    exact (moves_deallocTableRow false id row).bind fun m => moves_updateRow m

section

variable (subject : scope.subjects entity)

include subject

theorem moves_forgetMap (id : MapId) : Moves (Evolves P scope) (forgetMap P entity id) := by
  intro world
  unfold forgetMap
  rw [sat_bind, sat_get, sat_bind]
  refine sat_unwrapChecked.mpr ⟨fun map hf => ?_, fun _ => refl_of _ world⟩
  cases ho : map.getMapRow entity with
  | none => exact refl_of (Evolves P scope) world
  | some row =>
    rw [sat_bind]
    refine sat_unwrapChecked.mpr ⟨fun post out => ?_, fun _ => refl_of _ world⟩
    exact evolves_deallocRow hf subject ho out

theorem moves_forget : Moves (Evolves P scope) (forget P entity) := by
  refine (moves_dropLocation subject).bind fun _ => bind .read fun world => ?_
  refine bind (.forM fun id _ => moves_forgetArche entity id) fun _ => ?_
  refine bind (.forM fun id _ => moves_forgetTable entity id) fun _ => ?_
  exact .forM fun id _ => moves_forgetMap subject id

theorem moves_guarded {body : Exec τ V α} (hi : Moves (Evolves P scope) body) :
    Moves (Evolves P scope) (guarded P entity body) :=
  moves_onPanic (moves_forget subject) hi

/-! ## Guarded parts -/

theorem moves_allocRows (t : scope.targets id) :
    Moves (Evolves P scope) (allocRows P id entity) := by
  refine (moves_archetype id).bind fun a => ?_
  refine (moves_allocArcheRow subject t).bind fun ar => ?_
  refine (moves_allocTableRow a.tableId entity).bind fun tr => ?_
  refine bind (.forM fun c _ => moves_allocMapRow c subject) ?_
  exact fun _ => .pure _

/-- The guarded part of `spawnInto`. -/
theorem moves_spawnBody (t : scope.targets id) (b : Bundle τ V) : Moves (Evolves P scope) (do
      let loc ← allocRows P id entity
      let w ← b.writeExplicit P
        (ComponentWriter.new entity loc.tableId loc.tableRow)
      let _ ← b.type.writeRequired P w
      setSpawned P entity loc) := by
  refine (moves_allocRows subject t).bind fun loc => ?_
  refine (moves_bundle_writeExplicit storing_evolves b _).bind fun w => ?_
  refine (moves_bundle_writeRequired storing_evolves b.type w).bind fun _ => ?_
  exact moves_setSpawned subject loc

theorem moves_spawnInto (t : scope.targets id) (b : Bundle τ V) :
    Moves (Evolves P scope) (spawnInto P id b entity) :=
  (moves_debugCanSpawn entity).bind fun _ =>
    moves_guarded subject (moves_spawnBody subject t b)

/-- The guarded part of `spawnUninit`. -/
theorem moves_uninitBody (t : scope.targets id) : Moves (Evolves P scope) (do
      let loc ← allocRows P id entity
      setSpawned P entity loc
      return (entity, loc)) := by
  refine (moves_allocRows subject t).bind fun loc => ?_
  exact (moves_setSpawned subject loc).bind fun _ => .pure _

end

theorem moves_spawnUninit (subject : ∀ entity, scope.subjects entity) (t : scope.targets id) :
    Moves (Evolves P scope) (spawnUninit P id) :=
  bind moves_allocMut fun entity => (moves_debugCanSpawn entity).bind fun _ =>
    moves_guarded (subject entity) (moves_uninitBody (subject entity) t)

theorem moves_moveRows (drop : Bool) (subject : scope.subjects entity) (loc : EntityLocation)
    (aim : scope.targets t) (tt : TableId) :
    Moves (Evolves P scope) (moveRows P drop entity loc t tt) := by
  refine (moves_archetype _).bind fun old => ?_
  refine (moves_debugAssert _).bind fun _ => ?_
  refine (moves_deallocArcheRow _ _).bind fun m => ?_
  refine (moves_updateRow m).bind fun _ => ?_
  refine (moves_allocArcheRow subject aim).bind fun ar => ?_
  split
  · exact .pure _
  · next ne =>
    refine (moves_moveTableRow drop ne _).bind fun res => ?_
    exact (moves_updateRow res.1).bind fun _ => .pure _

section

variable (subject : scope.subjects entity)

include subject

section

variable (loc : EntityLocation)

theorem moves_insertMoved (aim : scope.targets t) (b : Bundle τ V) :
    Moves (Evolves P scope) (insertMoved P entity loc t b) := by
  refine (moves_archetype _).bind fun old => ?_
  refine (moves_archetype _).bind fun new => ?_
  refine (moves_moveRows false subject loc aim new.tableId).bind fun loc => ?_
  refine (moves_bundle_writeExplicit storing_evolves b _).bind fun w => ?_
  refine (moves_bundle_writeRequired storing_evolves b.type w).bind fun _ => ?_
  exact moves_updateLocation subject loc

theorem moves_removeMoved (aim : scope.targets t) :
    Moves (Evolves P scope) (removeMoved P entity loc t) := by
  refine (moves_archetype _).bind fun old => ?_
  refine (moves_archetype _).bind fun new => ?_
  refine (moves_moveRows true subject loc aim new.tableId).bind fun loc => ?_
  refine bind (.forM fun c _ => ?_) fun _ => moves_updateLocation subject loc
  split
  · exact .pure _
  · exact moves_deallocMapRow true c subject

theorem moves_despawnRows : Moves (Evolves P scope) (despawnRows P entity loc) := by
  refine (moves_archetype _).bind fun a => ?_
  refine (moves_setDespawned subject).bind fun hf => ?_
  refine (moves_debugAssert _).bind fun _ => ?_
  refine (moves_deallocArcheRow _ _).bind fun am => ?_
  refine (moves_tryUpdateRow am).bind fun fst => ?_
  refine (moves_deallocTableRow true _ _).bind fun tm => ?_
  refine (moves_tryUpdateRow tm).bind fun snd => ?_
  refine bind (.forM fun c _ => moves_deallocMapRow true c subject) ?_
  exact fun _ => .pure _

end

theorem moves_clear (aim : scope.targets 0) : Moves (Evolves P scope) (clear P entity) := by
  refine (moves_spawnedLocation entity).bind fun loc => ?_
  split
  · exact .pure _
  · refine moves_guarded subject ?_
    refine (moves_archetype _).bind fun old => ?_
    refine (moves_moveRows true subject loc aim 0).bind fun loc => ?_
    refine bind (.forM fun c _ => moves_deallocMapRow true c subject) fun _ => ?_
    exact moves_updateLocation subject loc

end

theorem moves_despawn (subject : scope.subjects entity) (hf : scope.frees) :
    Moves (Evolves P scope) (despawn P entity) := by
  refine bind .read fun world => ?_
  cases world.entities.locate entity with
  | error err => exact .pure _
  | ok loc =>
    refine bind ?_ fun next => bind (fun _ => evolves_allocator _) fun _ => .pure _
    refine (moves_guarded subject (moves_despawnRows subject loc)).bind fun _ => ?_
    refine (moves_unwrapOk _ _).bind fun _ => ?_
    refine (moves_unwrapOk _ _).bind fun _ => ?_
    exact fun _ => evolves_free hf _

/-! ## Registrations -/

/-- Only the registries change, and they stay in order. -/
def Extends (P : Program τ V) (before after : World τ V) : Prop :=
  Registered P before → Registered P after ∧ Grew before after

instance (P : Program τ V) : Std.Refl (Extends P) :=
  ⟨fun world registered => ⟨registered, Grew.refl world⟩⟩

instance (P : Program τ V) : IsTrans (World τ V) (Extends P) :=
  ⟨fun _ _ _ one two registered =>
    ⟨(two (one registered).1).1, (one registered).2.trans (two (one registered).1).2⟩⟩

/-- Registrations respect every scope. -/
theorem evolves_of_extends {comp : Exec τ V α} (hm : Moves (Extends P) comp) :
    Moves (Evolves P scope) comp :=
  hm.mono fun _ _ hg => evolves_of_grew hg

/-- A registration that may be refused. -/
theorem extends_registering {c : Contract} {r : World τ V → Option (α × World τ V)}
    (hk : ∀ world res, r world = some res → Extends P world res.2) :
    Moves (Extends P) (registering P c r) := fun world =>
  sat_registering.mpr ⟨fun res out => hk world res out,
    fun _ => refl_of _ world⟩

theorem extends_registerArchetype (b : BundleId) :
    Moves (Extends P) (registering P .bundle fun world => world.registerArchetype b) := by
  refine extends_registering fun world res out reg => ?_
  obtain ⟨info, he⟩ := registerArchetype_entry reg out
  obtain ⟨id, post, hs, hf, hg, -⟩ := reg.registerArchetype he
  obtain rfl := some.inj (out.symm.trans hs)
  exact ⟨hf, hg⟩

theorem extends_archeAfterInsert (id : ArcheId) (b : BundleId) : Moves (Extends P)
      (registering P .bundle fun world => world.archeAfterInsert id b) := by
  refine extends_registering fun world res out reg => ?_
  obtain ⟨a, info, her, he⟩ := archeAfterInsert_entry reg out
  obtain ⟨t, post, hs, hf, hg, -⟩ := reg.archeAfterInsert her he
  obtain rfl := some.inj (out.symm.trans hs)
  exact ⟨hf, hg⟩

/-- `prepare_component`. -/
theorem extends_prepareComponent (w : World τ V) (id : ComponentId) :
    Extends P w (w.prepareComponent P id) := by
  intro reg
  unfold prepareComponent
  split
  · have hg := Maps.grows_prepare reg.maps id
    refine ⟨{ reg with
      maps := hg.indexed
      mapSound := hg.sound reg.mapSound
      archeMaps := ?_ }, { Grew.refl w with maps := hg.known, freshMaps := hg.fresh }⟩
    intro a mem c hin
    have hk := reg.archeMaps a mem c hin
    exact (congrArg isSome (hg.known c hk)).trans hk
  · exact ⟨reg, Grew.refl w⟩

section Types

variable [DecidableEq τ] [Fintype τ]

theorem extends_archeAfterRemove (id : ArcheId) (b : BundleId) : Moves (Extends P)
      (registering P .bundle fun world => world.archeAfterRemove P id b) := by
  refine extends_registering fun world res out reg => ?_
  obtain ⟨a, info, her, he⟩ := archeAfterRemove_entry reg out
  obtain ⟨t, post, hs, hf, hg, -⟩ := reg.archeAfterRemove her he
  obtain rfl := some.inj (out.symm.trans hs)
  exact ⟨hf, hg⟩

theorem extends_registerExplicitBundle (w : World τ V) (type : BundleType τ) :
    Extends P w (w.registerExplicitBundle P type).2 := fun reg =>
  ⟨(reg.registerExplicitBundle type).1, (reg.registerExplicitBundle type).2.1⟩

theorem extends_registerRequiredBundle (w : World τ V) (type : BundleType τ) :
    Extends P w (w.registerRequiredBundle P type).2 := fun reg =>
  ⟨(reg.registerRequiredBundle type).1, (reg.registerRequiredBundle type).2.1⟩

theorem extends_spawnArchetype (type : BundleType τ) : Moves (Extends P) (spawnArchetype P type) :=
  bind (fun world => extends_registerRequiredBundle world type) fun b =>
    extends_registerArchetype b

/-! ## Operations -/

theorem moves_spawn (subject : ∀ entity, scope.subjects entity)
    (t : ∀ id, scope.targets id) (b : Bundle τ V) : Moves (Evolves P scope) (spawn P b) :=
  (evolves_of_extends (extends_spawnArchetype b.type)).bind fun id =>
    bind moves_allocMut fun entity =>
      (moves_spawnInto (subject entity) (t id) b).bind fun _ => .pure _

variable {e : Entity}

theorem moves_spawnAt (subject : scope.subjects e) (t : ∀ id, scope.targets id)
    (b : Bundle τ V) : Moves (Evolves P scope) (spawnAt P b e) := by
  refine bind .read fun world => ?_
  cases world.entities.canSpawn e with
  | error err => exact .pure _
  | ok _ =>
    refine (evolves_of_extends (extends_spawnArchetype b.type)).bind fun id => ?_
    exact (moves_spawnInto subject (t id) b).bind fun _ => .pure _

theorem moves_insert (subject : scope.subjects e) (t : ∀ id, scope.targets id)
    (b : Bundle τ V) : Moves (Evolves P scope) (insert P e b) := by
  refine (moves_spawnedLocation e).bind fun loc => ?_
  refine bind (fun world => evolves_of_grew
    (extends_registerRequiredBundle world b.type)) fun r => ?_
  refine bind (fun world => evolves_of_grew
    (extends_registerExplicitBundle world b.type)) fun _ => ?_
  refine bind (evolves_of_extends (extends_archeAfterInsert loc.archeId r)) fun aim => ?_
  refine moves_guarded subject ?_
  split
  · exact moves_insertLocal storing_evolves e loc b
  · exact moves_insertMoved subject loc (t aim) b

theorem moves_removeDynamic (subject : scope.subjects e) (t : ∀ id, scope.targets id)
    (b : BundleId) : Moves (Evolves P scope) (removeDynamic P e b) := by
  refine (moves_spawnedLocation e).bind fun loc => ?_
  refine bind (evolves_of_extends (extends_archeAfterRemove loc.archeId b)) fun aim => ?_
  refine moves_guarded subject ?_
  split
  · exact .pure _
  · exact moves_removeMoved subject loc (t aim)

end Types

/-! ## Cloning -/

section

variable (subject : ∀ entity, scope.subjects entity)

include subject

theorem moves_cloneEntity (t : ∀ id, scope.targets id) (link : Bool)
    (c : EntityCloner V) (src : Entity) :
    Moves (Evolves P scope) (cloneEntity P link c src) := by
  refine bind .read fun world => ?_
  cases world.entities.locate src with
  | error err => exact .pure _
  | ok loc =>
    refine (moves_spawnUninit subject (t loc.archeId)).bind fun made => ?_
    refine (moves_guarded (subject made.1) ?_).bind fun _ => .pure _
    exact moves_cloneComponents storing_evolves link src made.1 made.2 c

theorem moves_forgetCloned (c : EntityCloner V) :
    Moves (Evolves P scope) (forgetCloned P c) :=
  .forM fun entity _ => moves_forget (subject entity)

theorem moves_cloneAll (t : ∀ id, scope.targets id) (link : Bool) (fuel : ℕ)
    (c : EntityCloner V) : Moves (Evolves P scope) (cloneAll P link fuel c) := by
  induction fuel generalizing c with
  | zero =>
    unfold cloneAll
    split
    · exact .pure _
    · exact .throw _
    · next ha => exact absurd ha (by simp)
  | succ fuel ih =>
    unfold cloneAll
    split
    · exact .pure _
    · exact .throw _
    · next src rest p _ he =>
      obtain rfl := Nat.succ.inj he
      refine (moves_onPanic (moves_forgetCloned subject c) ?_).bind fun next => ih next
      exact moves_cloneEntity subject t link _ src

theorem moves_spawnCloneBatch (t : ∀ id, scope.targets id) (link : Bool) (fuel : ℕ)
    (s : List Entity) : Moves (Evolves P scope) (spawnCloneBatch P link fuel s) := by
  refine (moves_cloneAll subject t link fuel _).bind fun c => ?_
  refine (moves_onPanic (moves_forgetCloned subject c) ?_).bind fun _ => .pure _
  exact .foldlM (fun m ca _ =>
    moves_runCallback storing_evolves m ca) c.mapper

end

/-! ## Observing -/

/-- Removing an observer leaves the others. -/
theorem evolves_removeObserver (id : ObserverId) (w : World τ V) :
    Evolves P scope w (w.removeObserver id) := by
  refine evolves_observers fun o now hf => ?_
  rw [getElem?_set] at hf
  split at hf
  · split at hf
    · cases hf
    · cases hf
  · exact ⟨now, hf, rfl, rfl⟩

theorem evolves_unwatch (id : ObserverId) (e : Entity) (w : World τ V) :
    Evolves P scope w (w.unwatch id e) := by
  refine evolves_observers fun o now hf => ?_
  rw [getElem?_modify] at hf
  obtain ⟨slot, hst, hs⟩ := map_eq_some_iff.mp hf
  rw [hst]
  split at hs
  · obtain ⟨obs, rfl, rfl⟩ := map_eq_some_iff.mp hs
    exact ⟨obs, rfl, rfl, rfl⟩
  · exact ⟨now, by rw [hs], rfl, rfl⟩

/-- Merging flags, archetype by archetype. -/
theorem getElem?_mergeFlags (obs : Observer) (a : Archetypes) (id : ArcheId) :
    (mergeFlags obs a).arches[id]? = a.arches[id]?.map fun ar =>
        match obs.flags with
        | none => ar
        | some f =>
          if obs.listensTo ar.toComponentSlice then ar.mergeObserverFlags f
          else ar := by
  unfold mergeFlags
  cases obs.flags with
  | none => exact map_id'.symm
  | some f => exact getElem?_map

/-- Flags are all that differs. -/
theorem exists_mergeFlags (obs : Observer) (a : Archetypes) : ∃ flags : Archetype → ObserverFlags,
    ∀ id : ArcheId, (mergeFlags obs a).arches[id]? =
      a.arches[id]?.map fun ar => { ar with observers := flags ar } := by
  cases hf : obs.flags with
  | none =>
    refine ⟨Archetype.observers, fun id => ?_⟩
    rw [getElem?_mergeFlags, hf]
  | some f =>
    refine ⟨fun ar => if obs.listensTo ar.toComponentSlice then
      (ar.mergeObserverFlags f).observers else ar.observers, fun id => ?_⟩
    rw [getElem?_mergeFlags, hf]
    refine congrArg (Option.map · _) (funext fun ar => ?_)
    dsimp only
    split
    · rfl
    · rfl

theorem mergeFlags_back {obs : Observer} {a : Archetypes} {id : ArcheId}
    {now : Archetype} (hf : (mergeFlags obs a).arches[id]? = some now) :
    ∃ ar, a.arches[id]? = some ar ∧
      now = { ar with observers := now.observers } := by
  obtain ⟨flags, hm⟩ := exists_mergeFlags obs a
  rw [hm] at hf
  obtain ⟨ar, hst, rfl⟩ := map_eq_some_iff.mp hf
  exact ⟨ar, hst, rfl⟩

theorem mergeFlags_forth (obs : Observer) {a : Archetypes} {id : ArcheId}
    {ar : Archetype} (hf : a.arches[id]? = some ar) :
    ∃ now, (mergeFlags obs a).arches[id]? = some now ∧
      now = { ar with observers := now.observers } := by
  obtain ⟨flags, hm⟩ := exists_mergeFlags obs a
  exact ⟨_, by rw [hm, hf, map_some], rfl⟩

/-- **Merging flags leaves the registries in order.** -/
theorem Registered.mergeFlags {w : World τ V} (reg : Registered P w) (obs : Observer) :
    Registered P { w with archetypes := mergeFlags obs w.archetypes } ∧
      Statics w { w with archetypes := World.mergeFlags obs w.archetypes } := by
  obtain ⟨flags, hm⟩ := exists_mergeFlags obs w.archetypes
  refine reg.mapArches ?_ ?_ hm (fun _ _ => ⟨rfl, rfl⟩)
    (fun id a hst b res he => reg.afterInsert id a b res hst he)
    (fun id a hst b res he => reg.afterRemove id a b res hst he)
  · unfold World.mergeFlags
    split
    · rfl
    · rfl
  · unfold World.mergeFlags
    split
    · rfl
    · rfl

section Types

variable [DecidableEq τ] [Fintype τ]

theorem moves_watchEntities (subject : ∀ entity, scope.subjects entity)
    (t : ∀ id, scope.targets id) (id : ObserverId) (es : List Entity) :
    Moves (Evolves P scope) (watchEntities P id es) := by
  induction es with
  | nil => exact .pure _
  | cons entity rest ih =>
    refine bind .read fun world => ?_
    cases world.entities.locate entity with
    | error err =>
      refine bind (fun world => evolves_unwatch id entity world) fun _ => ?_
      refine bind .read fun world => ?_
      split
      · exact fun world => evolves_removeObserver id world
      · exact ih
    | ok loc =>
      refine bind (moves_pushObservedBy storing_evolves entity loc id) fun p => ?_
      split
      · exact ih
      · exact (moves_insert (subject entity) t _).bind fun _ => ih

/-! ## All operations -/

theorem extends_exec {op : Op τ V} (hr : op.Registers) : Moves (Extends P) (exec P op) := by
  cases op with
  | registerComponent type =>
    intro world reg
    exact reg.ofComponents (ComponentCollector.registers_register P reg.components type)
  | prepareComponent id => exact fun world => extends_prepareComponent world id
  | registerExplicitBundle type => exact fun world => extends_registerExplicitBundle world type
  | registerRequiredBundle type => exact fun world => extends_registerRequiredBundle world type
  | registerDynamicBundle i =>
    intro world
    unfold exec
    rw [sat_bind, sat_get, sat_bind]
    refine sat_unwrapSome.mpr ⟨fun res out reg => ?_, fun _ => refl_of _ world⟩
    have he := reg.registerDynamicBundle out
    exact ⟨he.registered, he.grew⟩
  | registerArchetype b =>
    exact (extends_registerArchetype b).bind fun _ => .pure _
  | archeAfterInsert a b =>
    exact (extends_archeAfterInsert a b).bind fun _ => .pure _
  | archeAfterRemove a b =>
    exact (extends_archeAfterRemove a b).bind fun _ => .pure _
  | _ => exact absurd hr id

/-- What an operation is about. -/
def scopeOf : Op τ V → Scope
  | .spawn _ | .clone _ _ _ | .registerObserver _ => ⟨fun _ => True, fun _ => True, False⟩
  | .spawnAt _ entity | .insert entity _ | .removeExplicit entity _
  | .removeRequired entity _ | .removeDynamic entity _ => ⟨(· = entity), fun _ => True, False⟩
  | .clear entity => ⟨(· = entity), (· = 0), False⟩
  | .forget entity => ⟨(· = entity), fun _ => False, False⟩
  | .despawn entity => ⟨(· = entity), fun _ => False, True⟩
  | _ => ⟨fun _ => False, fun _ => False, False⟩

/-- **Every operation respects its scope.**  The registration of an observer is the
exception: it sets flags and adds the observer. -/
theorem moves_exec {op : Op τ V} (ho : ∀ obs, op ≠ .registerObserver obs) :
    Moves (Evolves P (scopeOf op)) (exec P op) := by
  cases op with
  | spawn b =>
    exact (moves_spawn (fun _ => trivial) (fun _ => trivial) b).bind fun _ => .pure _
  | spawnAt b entity =>
    exact (moves_spawnAt rfl (fun _ => trivial) b).bind fun _ => .pure _
  | insert entity b => exact moves_insert rfl (fun _ => trivial) b
  | removeExplicit entity type =>
    exact bind (fun world => evolves_of_grew (extends_registerExplicitBundle world type))
      fun b => moves_removeDynamic rfl (fun _ => trivial) b
  | removeRequired entity type =>
    exact bind (fun world => evolves_of_grew (extends_registerRequiredBundle world type))
      fun b => moves_removeDynamic rfl (fun _ => trivial) b
  | removeDynamic entity b => exact moves_removeDynamic rfl (fun _ => trivial) b
  | clear entity => exact moves_clear rfl rfl
  | despawn entity =>
    exact (moves_despawn rfl trivial).bind fun _ => .pure _
  | forget entity => exact moves_forget rfl
  | clone link fuel s =>
    exact bind (moves_spawnCloneBatch (fun _ => trivial) (fun _ => trivial) link fuel
      s) fun _ => .pure _
  | registerObserver obs => exact absurd rfl (ho obs)
  | removeObserver id => exact fun world => evolves_removeObserver id world
  | _ => exact evolves_of_extends (extends_exec trivial)

end Types

end Voker.Ecs.World
