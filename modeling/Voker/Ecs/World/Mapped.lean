import Voker.Ecs.World.MapRows

/-!
# Sparse rows are exact

An entity should have a row in the map of a component exactly if the component is among the
sparse components of its archetype.  Spawning and cloning hand the rows out, removing,
clearing and despawning take them back, and a cleanup takes all.  **Inserting hands out
none**: where an entity gains a sparse component by insertion, the row is missing, and
whoever looks it up next does not find it.

The main theorem says that nothing else goes wrong: as long as no insertion gains a sparse
component, rows are exact and no lookup misses.
-/

namespace Voker.Ecs.World

open Foundation List Option Function Scope Entities Voker.Ecs.Bundle ComponentSlice

variable {τ V α : Type} {P : Program τ V}

/-! ## Entities that are left alone -/

section Frame

variable {pre post w : World τ V} {e : Entity}

/-- An entity that stays in its archetype keeps its components. -/
theorem Statics.sliceAt (hs : Statics pre post) (hse : pre.Settled e)
    (hst : post.archeOf e = pre.archeOf e) : post.sliceAt e = pre.sliceAt e := by
  unfold World.sliceAt
  rw [hst]
  unfold archeOf
  cases ha : pre.entities.located e with
  | none => rfl
  | some loc =>
    obtain ⟨a, hf⟩ := hse.arche ha
    have slice := sliceOf_eq hf
    rw [map_some, bind_some, bind_some, slice, hs.sliceOf slice]

variable {scope : Scope} {id : ArcheId}

/-- An operation leaves the components of others alone. -/
theorem Kept.sliceAt (hk : Kept scope pre post) (ho : ¬ scope.frees)
    (hs : pre.Settled e) (hot : ¬ scope.subjects e) : post.sliceAt e = pre.sliceAt e :=
  hk.toStatics.sliceAt hs (hk.places ho e hot)

theorem Mapped.kept (hm : pre.Mapped e) (hk : Kept scope pre post)
    (hol : ¬ scope.frees) (hs : pre.Settled e) (ho : ¬ scope.subjects e) :
    post.Mapped e := by
  intro c
  rw [hk.mapRows e ho, hk.sliceAt hol hs ho]
  exact hm c

/-- The scope of what moves nobody. -/
def Scope.nobody : Scope := ⟨fun _ => False, fun _ => False, False⟩

/-- The scope of an operation on one entity. -/
def Scope.only (entity : Entity) : Scope := ⟨(· = entity), fun _ => True, False⟩

theorem Mapped.extend (hm : pre.Mapped e) (hs : pre.Settled e)
    (reg : Registered P pre) (hg : Extends P pre post) : post.Mapped e := by
  obtain ⟨hf, hgr⟩ := hg reg
  have hk : Kept nobody pre post := hgr.kept reg hf
  exact hm.kept hk id hs id

theorem Mapped.stored (hm : pre.Mapped e) (hst : Stored pre post) : post.Mapped e := by
  intro c
  have slice : post.sliceAt e = pre.sliceAt e := by
    unfold sliceAt archeOf sliceOf
    rw [hst.entities, hst.archetypes]
  rw [hst.rows, slice]
  exact hm c

/-- What is nowhere needs no rows. -/
theorem mapped_of_nowhere (hn : Nowhere e w) : w.Mapped e := by
  intro c
  have slice : w.sliceAt e = none := by
    rw [sliceAt, archeOf, hn.1]
    rfl
  rw [hn.2 c, slice]
  simp

variable {slice : ComponentSlice}

/-- The entity has exactly the rows of the sparse components. -/
def HasRows (world : World τ V) (entity : Entity) (slice : ComponentSlice) : Prop :=
  ∀ component, (world.maps.rowOf component entity).isSome = true ↔
    component ∈ slice.sparseComponents

/-- The rows of an entity with a known archetype. -/
theorem Mapped.hasRows (hm : w.Mapped e) {loc : EntityLocation}
    (ha : w.entities.located e = some loc)
    (hf : w.sliceOf loc.archeId = some slice) : w.HasRows e slice := by
  intro c
  have he : w.sliceAt e = some slice := by
    rw [sliceAt, archeOf, ha, map_some, bind_some, hf]
  rw [hm c, he]
  simp

/-- The entity has reached an archetype and has the rows of its sparse components. -/
structure Arrived (entity : Entity) (id : ArcheId) (slice : ComponentSlice)
    (world : World τ V) : Prop where
  arche : world.archeOf entity = some id
  rows : world.HasRows entity slice

theorem Arrived.sliceAt (ha : Arrived e id slice w)
    (aim : w.sliceOf id = some slice) : w.sliceAt e = some slice := by
  rw [World.sliceAt, ha.arche, bind_some, aim]

theorem Arrived.mapped (ha : Arrived e id slice w)
    (aim : w.sliceOf id = some slice) : w.Mapped e := by
  intro c
  rw [ha.rows, ha.sliceAt aim]
  simp

end Frame

/-! ## Failures that spare the index -/

/-- The fault is not a missing row, and something holds if it is caught. -/
def Spared (Holds : World τ V → Prop) (fault : Fault) (after : World τ V) : Prop :=
  RowsFound fault after ∧ (fault.Caught → Holds after)

theorem Spared.mono {Holds Weaker : World τ V → Prop} {f : Fault} {post : World τ V}
    (hs : Spared Holds f post) (hw : Holds post → Weaker post) :
    Spared Weaker f post :=
  ⟨hs.1, fun hc => hw (hs.2 hc)⟩

theorem mends_spared (Inv : World τ V → Prop) : Mends (Spared Inv) Inv where
  caught := fun c _ hf => hf.2 ⟨c, rfl⟩
  resumed := fun _ _ _ hf hk => ⟨hf.1, fun _ => hk⟩
  abort := fun _ => ⟨fun hm => hm, Fault.not_caught (by simp)⟩
  outOfFuel := fun _ => ⟨fun hm => hm, Fault.not_caught (by simp)⟩

/-- It holds afterwards, whether the computation returns or fails. -/
def Spares (comp : Exec τ V α) (world : World τ V) (Holds : World τ V → Prop) : Prop :=
  Sat comp world (fun _ after => Holds after) (Spared Holds)

section Spared

variable {w : World τ V} {e : Entity} {comp : Exec τ V α} {Holds : World τ V → Prop} {id : ArcheId}
  {slice : ComponentSlice}

/-- An invariant that is kept in any case can be added. -/
theorem sat_spared_and {Inv : World τ V → Prop} (hk : Keeps Fault.Caught Inv comp)
    (inv : Inv w) (hs : Spares comp w Holds) :
    Spares comp w fun post => Inv post ∧ Holds post :=
  ((hk w inv).and hs).mono (fun _ _ hb => hb)
    fun _ _ hb => ⟨hb.2.1, fun hc => ⟨hb.1 hc, hb.2.2 hc⟩⟩

/-- An operation on one entity has to care for that entity only. -/
theorem sat_only (reg : Registered P w) (hs : ∀ o, w.Settled o)
    (hm : ∀ o, w.Mapped o) (hmo : Moves (Evolves P (only e)) comp)
    (own : Spares comp w (Mapped · e)) : Spares comp w fun post => ∀ o, post.Mapped o := by
  have all : ∀ post, Evolves P (only e) w post → post.Mapped e → ∀ o, post.Mapped o := by
    intro post he her o
    by_cases hsa : o = e
    · rw [hsa]
      exact her
    · exact (hm o).kept (he reg).2 id (hs o) hsa
  exact ((hmo w).and own).mono (fun _ post hb => all post hb.1 hb.2)
    fun _ post hb => hb.2.mono (all post hb.1)

/-- What only stores values keeps the rows exact, if its lookups succeed. -/
theorem sat_stored (hm : Moves Stored comp) (hf : Sat comp w (fun _ _ => True) RowsFound)
    (hk : ∀ post, Stored w post → Holds post) : Spares comp w Holds :=
  ((hm w).and hf).mono (fun _ post hb => hk post hb.1)
    fun _ post hb => ⟨hb.2, fun _ => hk post hb.1⟩

/-- A guarded part that brings its entity to an archetype. -/
theorem guarded_arrived (reg : Registered P w) (hm : Moves (Evolves P all) comp)
    (aim : w.sliceOf id = some slice)
    (hi : Sat comp w (fun _ post => Arrived e id slice post) RowsFound) :
    Sat (guarded P e comp) w (fun _ post => post.Mapped e ∧ post.sliceAt e = some slice)
      (Spared fun post => post.Mapped e ∧ post.sliceAt e = none) := by
  have hg : Moves (Evolves P all) (guarded P e comp) := moves_guarded trivial hm
  refine ((hg w).and (guarded_rows reg hm hi)).mono ?_ ?_
  · rintro _ post ⟨he, ha⟩
    have hr := (he reg).2.toStatics.sliceOf aim
    exact ⟨ha.mapped hr, ha.sliceAt hr⟩
  · rintro f post ⟨-, hf, hn⟩
    refine ⟨hf, fun hc => ⟨mapped_of_nowhere (hn hc), ?_⟩⟩
    rw [sliceAt, archeOf, (hn hc).1]
    rfl

/-- The same, where only the rows matter. -/
theorem guarded_mapped (reg : Registered P w) (hm : Moves (Evolves P all) comp)
    (aim : w.sliceOf id = some slice)
    (hi : Sat comp w (fun _ post => Arrived e id slice post) RowsFound) :
    Spares (guarded P e comp) w (Mapped · e) :=
  (guarded_arrived reg hm aim hi).mono (fun _ _ hb => hb.1)
    fun _ _ hf => hf.mono And.left

end Spared

/-! ## Spawning -/

section Spawning

variable {base w : World τ V} {e : Entity} {slice : ComponentSlice} {id : ArcheId}

/-- Components of an archetype have rows, so the writers find them. -/
theorem served_of_has (reg : Registered P base) (hf : base.sliceOf id = some slice)
    (cs : w.components = base.components)
    (rows : ∀ c ∈ slice.sparseComponents, (w.maps.rowOf c e).isSome = true)
    {ty : List τ} (has : ∀ type ∈ ty, (P.decl type).storage = .sparse →
      base.components.Has slice.components type) : Served P w e ty := by
  intro type mem hs n hk
  rw [cs] at hk
  obtain ⟨a, hst, rfl⟩ := map_eq_some_iff.mp hf
  have hsp := reg.archeSplit a (mem_of_getElem? hst)
  have hn := (reg.components type n).mp hk
  refine rows n (hsp.mem_sparse.mpr ⟨?_, ?_⟩)
  · exact (reg.components.has_iff hn).mp (has type mem hs)
  · rw [Components.storage, hn, map_some, hs]

/-- The entity has the rows of an archetype's sparse components beside those it had, and
still its old location. -/
structure Equipped (base : World τ V) (entity : Entity) (slice : ComponentSlice)
    (world : World τ V) : Prop where
  components : world.components = base.components
  entities : world.entities = base.entities
  rows : ∀ component, (world.maps.rowOf component entity).isSome = true ↔
    component ∈ slice.sparseComponents ∨ (base.maps.rowOf component entity).isSome = true

theorem Equipped.stored {post : World τ V} (he : Equipped base e slice w)
    (hst : Stored w post) : Equipped base e slice post where
  components := hst.components.trans he.components
  entities := hst.entities.trans he.entities
  rows := by
    intro c
    rw [hst.rows]
    exact he.rows c

/-- Recording the location of a new entity. -/
theorem Equipped.arrive (he : Equipped base e slice w)
    (hm : base.Mapped e) (loc : EntityLocation) : Sat (setSpawned P e loc) w
      (fun _ post => Arrived e loc.archeId slice post) RowsFound := by
  refine sat_setSpawned.mpr ⟨fun es hok => ?_, fun _ _ => not_false⟩
  obtain ⟨hd, hl, -⟩ := setSpawned_ok hok
  refine ⟨?_, fun c => ?_⟩
  · unfold archeOf
    rw [hl, update_self, map_some]
  · -- an entity without location had no rows
    have hn : ¬ (base.maps.rowOf c e).isSome = true := by
      rw [he.entities] at hd
      rw [hm c, sliceAt, archeOf, hd]
      simp
    exact (he.rows c).trans (or_iff_left hn)

theorem equipped_allocRows (reg : Registered P w) (aim : w.sliceOf id = some slice) :
    Sat (allocRows P id e) w (fun loc post => loc.archeId = id ∧ Equipped w e slice post)
      RowsFound := by
  refine (rows_allocRows reg id).mono ?_ fun _ _ hf => hf
  rintro loc post ⟨hs, cs, es, hf, hst, rows⟩
  obtain rfl := some.inj (aim.symm.trans hst)
  exact ⟨hs, cs, es, rows⟩

/-- A failed check spares everything. -/
theorem spared_debugCanSpawn {comp : Exec τ V α} {ret : α → World τ V → Prop}
    {Holds : World τ V → Prop} (ho : Holds w) (hn : Sat comp w ret (Spared Holds)) :
    Sat (debugCanSpawn P e >>= fun _ => comp) w ret (Spared Holds) := by
  rw [sat_bind, sat_debugCanSpawn]
  split
  · exact ⟨fun _ => hn, fun _ _ => ⟨not_false, fun _ => ho⟩⟩
  · exact hn

/-- Spawning into the archetype of the bundle. -/
theorem mapped_spawnInto (reg : Registered P w) (hm : w.Mapped e)
    (aim : w.sliceOf id = some slice) {b : Bundle τ V} (hsp : slice.Spans P w.components b.type) :
    Spares (spawnInto P id b e) w (Mapped · e) := by
  refine spared_debugCanSpawn hm ?_
  refine guarded_mapped reg (moves_spawnBody trivial trivial b) aim ?_
  refine (equipped_allocRows reg aim).bind ?_
  rintro loc one ⟨rfl, he⟩
  have hs : ∀ ty, (∀ type ∈ ty,
      ∃ root ∈ b.type.components, Reaches P.requires root type) →
      Served P one e ty := fun ty hr =>
    served_of_has reg aim he.components (fun c hin => (he.rows c).mpr (.inl hin))
      fun type mem _ => (hsp type).mpr (hr type mem)
  refine Sat.bind (found_bundle_writeExplicit b _ (hs _ fun type mem => ⟨type, mem,
    Relation.ReflTransGen.refl⟩)) ?_
  rintro wr two ⟨hsa, hst⟩
  refine (found_bundle_writeRequired b.type wr fun root mem => ?_).bind ?_
  · rw [hsa]
    exact (hs _ fun type hed => ⟨root, mem, Relation.ReflTransGen.single hed⟩).sameIndex
      hst.toSameIndex
  · rintro _ th ⟨-, hso⟩
    exact (he.stored (hst.trans hso)).arrive hm loc

/-- Rows without values. -/
theorem mapped_uninit (reg : Registered P w) (hm : w.Mapped e)
    (aim : w.sliceOf id = some slice) : Spares (debugCanSpawn P e >>= fun _ => guarded P e do
        let loc ← allocRows P id e
        setSpawned P e loc
        return (e, loc)) w (Mapped · e) := by
  refine spared_debugCanSpawn hm ?_
  refine guarded_mapped reg (moves_uninitBody trivial trivial) aim ?_
  refine (equipped_allocRows reg aim).bind ?_
  rintro loc one ⟨rfl, he⟩
  exact (he.arrive hm loc).bind (fun _ _ ha => ha)

end Spawning

/-! ## Moving to another archetype -/

section Moving

variable {w : World τ V} {e : Entity} {loc : EntityLocation}

theorem entity_setAllWrited (wr : ComponentWriter) (cs : List ComponentId) :
    (wr.setAllWrited cs).entity = wr.entity := by
  induction cs generalizing wr with
  | nil => rfl
  | cons c rest ih => exact ih (wr.setWrited c)

variable {slice : ComponentSlice}

/-- Recording where the entity has arrived. -/
theorem arrived_updateLocation (rows : w.HasRows e slice) : Sat (updateLocation e loc) w
      (fun _ post => Arrived e loc.archeId slice post) RowsFound := by
  refine sat_updateLocation.mpr ⟨fun es hok => ?_, fun _ _ => not_false⟩
  obtain ⟨old, -, hl, -⟩ := modifyLocation_inv hok
  refine ⟨?_, rows⟩
  unfold archeOf
  rw [hl, update_self, map_some]

variable {b : Bundle τ V} {t : ArcheId}

/-- Inserting into the archetype the entity is in. -/
theorem arrived_insertLocal (ha : w.entities.located e = some loc)
    (rows : w.HasRows e slice) (hs : Served P w e b.type.components) :
    Sat (insertLocal P e loc b) w (fun _ post => Arrived e loc.archeId slice post) RowsFound := by
  refine sat_archetype_bind fun a _ => ?_
  refine (found_bundle_writeExplicit b _ ?_).bind ?_
  · rw [entity_setAllWrited]
    exact hs
  · rintro _ post ⟨-, hst⟩
    refine ⟨?_, fun c => ?_⟩
    · rw [archeOf, hst.entities, ha, map_some]
    · rw [hst.rows]
      exact rows c

/-- Inserting into another archetype with the same sparse components. -/
theorem arrived_insertMoved (rows : w.HasRows e slice) (he : Served P w e b.type.components)
    (hr : ∀ c ∈ b.type.components, Served P w e (P.requires c)) :
    Sat (insertMoved P e loc t b) w (fun _ post => Arrived e t slice post) RowsFound := by
  refine sat_archetype_bind fun old _ => ?_
  refine sat_archetype_bind fun new _ => ?_
  refine (found_moveRows false e loc t new.tableId).bind ?_
  rintro a one ⟨rfl, hs⟩
  refine (found_bundle_writeExplicit b _ ?_).bind ?_
  · rw [entity_setAllWrited]
    exact he.sameIndex hs
  rintro wr two ⟨hw, hst⟩
  rw [entity_setAllWrited] at hw
  refine (found_bundle_writeRequired b.type wr fun root mem => ?_).bind ?_
  · rw [hw]
    exact ((hr root mem).sameIndex hs).sameIndex hst.toSameIndex
  · rintro _ th ⟨-, hso⟩
    refine arrived_updateLocation fun c => ?_
    rw [hso.rows, hst.rows, hs.rows]
    exact rows c

/-- Removing: what the target lacks is taken back. -/
theorem arrived_removeMoved (reg : Registered P w) {old new : ComponentSlice}
    (src : w.sliceOf loc.archeId = some old) (aim : w.sliceOf t = some new) (rows : w.HasRows e old)
    (hsu : ∀ c ∈ new.sparseComponents, c ∈ old.sparseComponents) : Sat (removeMoved P e loc t) w
      (fun _ post => Arrived e t new post) RowsFound := by
  refine sat_archetype_bind fun fst hf => ?_
  refine sat_archetype_bind fun snd ha => ?_
  obtain rfl : fst.toComponentSlice = old := by
    rw [sliceOf, hf, map_some] at src
    exact some.inj src
  obtain rfl : snd.toComponentSlice = new := by
    rw [sliceOf, ha, map_some] at aim
    exact some.inj aim
  rw [sat_bind]
  have hm : Moves (Evolves P all) (moveRows P true e loc t snd.tableId) :=
    moves_moveRows true trivial loc trivial snd.tableId
  refine ((hm w).and (found_moveRows true e loc t snd.tableId)).mono ?_
    fun _ _ hfa => hfa.2
  rintro a one ⟨he, rfl, hs⟩
  have hsp := reg.archeSplit fst (mem_of_getElem? hf)
  refine Sat.bind (rows_release (he reg).1 hsp.sparseSorted.nodup (fun c
    hin => ?_) snd.containsSparseComponent) ?_
  · rw [hs.rows]
    exact (rows c).mpr hin
  · intro _ two hl
    refine arrived_updateLocation fun c => ?_
    rw [hl, hs.rows, rows]
    unfold containsSparseComponent
    rw [decide_eq_true_iff]
    exact ⟨fun hb => hb.1 hb.2, fun hin => ⟨fun _ => hin, hsu c hin⟩⟩

/-- Taking back all rows. -/
theorem rows_release_all {cs : List ComponentId} (reg : Registered P w) (hn : cs.Nodup)
    (rows : ∀ c, (w.maps.rowOf c e).isSome = true ↔ c ∈ cs) :
    Sat (cs.forM fun c => deallocMapRow P true c e) w
      (fun _ post => ∀ c, post.maps.rowOf c e = none) RowsFound := by
  have hr := rows_release reg hn (fun c => (rows c).mpr) (fun _ => false)
  simp only [Bool.false_eq_true, if_false] at hr
  refine hr.mono (fun _ post hl c => ?_) fun _ _ hf => hf
  rw [← not_isSome_iff_eq_none, hl, rows]
  exact fun hb => hb.1 hb.2

end Moving

/-! ## Operations on one entity -/

/-- The rows of every entity are exact. -/
def RowsExact (world : World τ V) : Prop := ∀ entity, world.Mapped entity

section Operations

variable {w : World τ V} {entity : Entity}

theorem exact_forget (ord : Orderly P w) (rows : RowsExact w) (e : Entity) :
    Spares (forget P e) w RowsExact :=
  sat_only ord.registered ord.settled rows (moves_forget rfl)
    ((forget_nowhere ord.registered.mapSound ord.settled e).mono
      (fun _ _ hn => mapped_of_nowhere hn) fun _ _ hne => hne.elim)

theorem exact_clear (ord : Orderly P w) (rows : RowsExact w) (e : Entity) :
    Spares (clear P e) w RowsExact := by
  refine sat_only ord.registered ord.settled rows (moves_clear rfl trivial) ?_
  unfold clear
  rw [Spares, sat_bind]
  refine sat_spawnedLocation.mpr ⟨fun loc hl => ?_, fun _ _ => ⟨not_false, fun _ => rows e⟩⟩
  have ha := locate_eq_ok.mp hl
  split
  · exact rows e
  have hm : Moves (Evolves P all) (moveRows P true e loc 0 0) :=
    moves_moveRows true trivial loc trivial 0
  refine guarded_mapped ord.registered ?_ ord.empty.1 ?_
  · refine (moves_archetype _).bind fun old => Moves.bind hm fun a => ?_
    exact Moves.bind (.forM fun c _ => moves_deallocMapRow true c trivial)
      fun _ => moves_updateLocation trivial a
  refine sat_archetype_bind fun old hf => ?_
  have src := sliceOf_eq hf
  have split := ord.registered.archeSplit old (mem_of_getElem? hf)
  rw [sat_bind]
  refine ((hm w).and (found_moveRows true e loc 0 0)).mono ?_ fun _ _ hfa => hfa.2
  rintro a one ⟨he, t, hsa⟩
  refine Sat.bind (rows_release_all (he ord.registered).1 split.sparseSorted.nodup fun
    c => ?_) ?_
  · rw [hsa.rows]
    exact (rows e).hasRows ha src c
  · intro _ two hg
    rw [← t]
    refine arrived_updateLocation fun c => ?_
    rw [hg c]
    simp [sparseComponents]

variable {loc : EntityLocation} {slice : ComponentSlice} {type : BundleType τ}
  {after : World τ V}

section

variable (ord : Orderly P w)

include ord

theorem Orderly.withAllocator (al : EntityAllocator) : Orderly P { w with allocator := al } :=
  ⟨{ ord.registered with }, ord.empty, fun entity =>
    (ord.settled entity).sameRows (sameRows_allocator w al)⟩

section

variable (rows : RowsExact w)

include rows

/-- The rows of a despawned entity. -/
theorem nowhere_despawnRows (ha : w.entities.located entity = some loc) :
    Sat (despawnRows P entity loc) w
      (fun _ after => ∀ c, after.maps.rowOf c entity = none) RowsFound := by
  have reg := ord.registered
  refine sat_archetype_bind fun ar hf => ?_
  have src := sliceOf_eq hf
  have hsp := reg.archeSplit ar (mem_of_getElem? hf)
  -- up to the maps nothing looks up a sparse row
  have ht : ∀ {β : Type} {comp : Exec τ V β}, Moves (Evolves P all) comp →
      Upholds RowsFound (SameIndex w) comp → ∀ mid : World τ V, Registered P mid ∧ SameIndex w mid →
      Sat comp mid (fun _ after => Registered P after ∧ SameIndex w after) RowsFound := by
    intro β comp hm hu mid hk
    exact ((hm mid).and (hu mid hk.2)).mono
      (fun _ _ hb => ⟨(hb.1 hk.1).1, hb.2⟩) fun _ _ hb => hb.2
  rw [sat_bind]
  refine sat_setDespawned.mpr ⟨fun res hok => ?_, fun _ _ => rowsFound_violation not_false⟩
  have hs : Registered P { w with entities := res.2 } ∧
      SameIndex w { w with entities := res.2 } :=
    ⟨{ reg with }, rfl, fun _ _ => rfl⟩
  refine (ht (moves_debugAssert _) (found_debugAssert _) _ hs).bind ?_
  intro _ one hk
  refine (ht (moves_deallocArcheRow _ _) (found_deallocArcheRow _ _) one hk).bind ?_
  intro am two hk
  refine (ht (moves_tryUpdateRow _) (found_tryUpdateRow _) two hk).bind ?_
  intro _ th hk
  refine Sat.bind (ht (moves_deallocTableRow true _ _) (found_deallocTableRow true _ _) th
    hk) ?_
  intro tm four hk
  refine (ht (moves_tryUpdateRow _) (found_tryUpdateRow _) four hk).bind ?_
  rintro _ five ⟨ho, hsa⟩
  refine (rows_release_all ho hsp.sparseSorted.nodup fun c => ?_).bind (fun _ _ hg => hg)
  rw [hsa.rows]
  exact (rows entity).hasRows ha src c

/-- The guarded part of a despawn. -/
theorem exact_despawnRows (ha : w.entities.located entity = some loc) :
    Sat (guarded P entity (despawnRows P entity loc)) w
      (fun r after => r = (.ok (), .ok ()) ∧ RowsExact after ∧
        after.entities.locationAt entity.id = none) (Spared RowsExact) := by
  have hs := guarded_despawnRows ord ha
  have own : Spares (guarded P entity (despawnRows P entity loc)) w (Mapped · entity) := by
    refine (hs.and (guarded_rows ord.registered (moves_despawnRows trivial loc)
      (nowhere_despawnRows ord rows ha))).mono ?_ ?_
    · rintro r after ⟨⟨-, -, hv⟩, hg⟩
      exact mapped_of_nowhere ⟨located_eq_none_of_locationAt hv, hg⟩
    · rintro f after ⟨-, hf, hn⟩
      exact ⟨hf, fun hc => mapped_of_nowhere (hn hc)⟩
  refine (hs.and (sat_only ord.registered ord.settled rows
    (moves_guarded rfl (moves_despawnRows rfl loc)) own)).mono ?_ fun _ _ hfa => hfa.2
  rintro r after ⟨⟨hsa, -, hv⟩, exact_⟩
  exact ⟨hsa, exact_, hv⟩

theorem exact_despawn (e : Entity) : Spares (despawn P e) w RowsExact := by
  unfold despawn
  rw [Spares, sat_bind, sat_get]
  cases hf : w.entities.locate e with
  | error err => exact rows
  | ok loc =>
    rw [sat_bind]
    refine (exact_despawnRows ord rows (locate_eq_ok.mp hf)).bind ?_
    rintro r after ⟨rfl, exact_, hv⟩ o c
    -- freeing the id changes the meaning of no handle
    have hl : (after.entities.free P.growth e.id 1).2.located =
        after.entities.located := located_free hv
    have slice : sliceAt { after with
        entities := (after.entities.free P.growth e.id 1).2 } o =
        after.sliceAt o := by
      unfold sliceAt archeOf
      rw [hl]
      rfl
    exact (exact_ o c).trans (by rw [← slice]; rfl)

/-- Registrations hand out no rows. -/
theorem exact_extends {comp : Exec τ V α} (hg : Moves (Extends P) comp)
    (hf : Sat comp w (fun _ _ => True) RowsFound) : Spares comp w RowsExact := by
  have hk : ∀ after, Extends P w after → RowsExact after := fun after extends_ o =>
    (rows o).extend (ord.settled o) ord.registered extends_
  exact ((hg w).and hf).mono (fun _ after hb => hk after hb.1)
    fun _ after hb => ⟨hb.2, fun _ => hk after hb.1⟩

theorem exact_spawnInto {id : ArcheId} (aim : w.sliceOf id = some slice) {b : Bundle τ V}
    (hs : slice.Spans P w.components b.type) (e : Entity) :
    Spares (spawnInto P id b e) w RowsExact :=
  sat_only ord.registered ord.settled rows (moves_spawnInto rfl trivial b)
    (mapped_spawnInto ord.registered (rows e) aim hs)

end

/-! ## Cloning -/

/-- A new entity with the rows of an archetype in use. -/
theorem exact_spawnUninit (rows : RowsExact w) {id : ArcheId}
    (aim : w.sliceOf id = some slice) : Spares (spawnUninit P id) w RowsExact := by
  unfold spawnUninit
  rw [Spares, sat_bind]
  refine sat_allocMut.mpr ⟨fun entity _ => ?_, fun _ => ⟨not_false, fun _ => rows⟩⟩
  have ho := ord.withAllocator w.allocator.allocMut.2
  refine sat_only ho.registered ho.settled rows ?_
    (mapped_uninit ho.registered (rows entity) aim)
  exact (moves_debugCanSpawn entity).bind fun _ => moves_guarded rfl (moves_uninitBody rfl trivial)

end

/-- What holds when the guarded part returns. -/
theorem guarded_returns {body : Exec τ V α} {ret : α → World τ V → Prop}
    (hi : Sat body w ret fun _ _ => True) :
    Sat (guarded P entity body) w ret fun _ _ => True := by
  unfold guarded
  rw [sat_onPanic]
  refine hi.mono (fun _ _ ho => ho) fun f after _ => ?_
  cases f with
  | panic c =>
    refine (sat_trivial (forget P entity) after).mono (fun _ _ _ => trivial) fun snd _ _ => ?_
    cases snd <;> trivial
  | _ => trivial

/-- The location of a new entity. -/
theorem located_spawnUninit (id : ArcheId) : Sat (spawnUninit P id) w
      (fun made after => after.entities.located made.1 = some made.2) (fun _ _ => True) := by
  unfold spawnUninit
  rw [sat_bind]
  refine sat_allocMut.mpr ⟨fun entity _ => ?_, fun _ => trivial⟩
  rw [sat_bind]
  refine (sat_trivial (debugCanSpawn P entity) _).mono (fun _ mid _ => ?_) fun _ _ _ => trivial
  refine guarded_returns ?_
  rw [sat_bind]
  refine (sat_trivial (allocRows P id entity) mid).mono (fun loc wr _ => ?_)
    fun _ _ _ => trivial
  rw [sat_bind]
  refine sat_setSpawned.mpr ⟨fun es hok => ?_, fun _ _ => trivial⟩
  obtain ⟨-, hl, -⟩ := setSpawned_ok hok
  change es.located entity = some loc
  rw [hl, update_self]

/-- Reading a component of a spawned entity finds its row. -/
theorem found_getById (hm : w.Mapped entity)
    (hal : w.entities.located entity = some loc) (id : ComponentId) :
    Sat (getById P entity loc id) w (fun hf after => after = w ∧ (hf.isSome = true → ∀ slice,
        w.sliceOf loc.archeId = some slice → id ∈ slice.components))
      RowsFound := by
  refine sat_archetype_bind fun a hf => ?_
  have src := sliceOf_eq hf
  have hin : id ∈ a.components → ∀ slice, w.sliceOf loc.archeId = some slice →
      id ∈ slice.components := by
    intro mem slice he
    obtain rfl := some.inj (src.symm.trans he)
    exact mem
  split
  · next hd =>
    rw [sat_bind]
    refine sat_table.mpr ⟨fun ta _ => ?_, fun _ => rowsFound_violation not_false⟩
    rw [sat_bind]
    exact sat_unwrapChecked.mpr ⟨fun _ _ => ⟨rfl, fun _ =>
      hin (mem_components.mpr (.inl hd))⟩, fun _ => rowsFound_violation not_false⟩
  · split
    · next hs =>
      have mem := decide_eq_true_iff.mp hs
      have row := (hm.hasRows hal src id).mpr mem
      rw [sat_bind]
      refine sat_mapOf.mpr ⟨fun map he => ?_, fun _ => rowsFound_violation not_false⟩
      rw [rowOf_of_mapAt he] at row
      rw [sat_bind]
      refine sat_unwrapChecked.mpr ⟨fun _ _ => ⟨rfl, fun _ =>
        hin (mem_components.mpr (.inr mem))⟩, fun ha => ?_⟩
      rw [ha] at row
      cases row
    · exact ⟨rfl, fun hab => absurd hab (by simp)⟩

/-- Writing a component the entity has finds its row. -/
theorem found_putById (hm : w.Mapped entity)
    (hal : w.entities.located entity = some loc) {id : ComponentId}
    (hin : ∀ slice, w.sliceOf loc.archeId = some slice → id ∈ slice.components) (v : Option V) :
    Sat (putById P entity loc id v) w (fun _ after => Stored w after)
      RowsFound := by
  refine sat_archetype_bind fun a hf => ?_
  have src := sliceOf_eq hf
  split
  · rw [sat_bind]
    refine sat_table.mpr ⟨fun ta hst => ?_, fun _ => rowsFound_violation not_false⟩
    exact storing_stored.dense w _ ta _ hst
  · next hs =>
    have mem := (mem_components.mp (hin _ src)).resolve_left hs
    have row := (hm.hasRows hal src id).mpr mem
    rw [sat_bind]
    refine sat_mapOf.mpr ⟨fun map he => ?_, fun _ => rowsFound_violation not_false⟩
    rw [rowOf_of_mapAt he] at row
    rw [sat_bind]
    refine sat_unwrapChecked.mpr ⟨fun _ _ => ?_, fun ha => ?_⟩
    · rw [sat_modify]
      exact storing_stored.sparse w _ _ _ (mapAt_eq_some he).2
    · rw [ha] at row
      cases row

variable {src t : Entity} {targetLocation : EntityLocation} {before : World τ V}

/-- Cloning a component finds the rows of source and target. -/
theorem found_cloneComponent {sl : EntityLocation} (link : Bool)
    (fst : w.Mapped src) (hfa : w.entities.located src = some sl)
    (snd : w.Mapped t)
    (hsa : w.entities.located t = some targetLocation) (c : EntityCloner V)
    (id : ComponentId) : Sat (cloneComponent P link src t sl targetLocation c id) w
      (fun _ after => Stored w after) RowsFound := by
  unfold cloneComponent
  rw [sat_bind, sat_get, sat_bind]
  refine sat_unwrapChecked.mpr ⟨fun type _ => ?_, fun _ => rowsFound_violation not_false⟩
  refine (found_getById fst hfa id).bind ?_
  rintro hf _ ⟨rfl, -⟩
  rw [sat_bind]
  refine sat_unwrapSome.mpr ⟨fun cell _ => ?_, fun _ => not_false⟩
  refine (found_getById snd hsa id).bind ?_
  rintro p _ ⟨rfl, hin⟩
  rw [sat_bind]
  refine sat_unwrapSome.mpr ⟨fun _ he => ?_, fun _ => not_false⟩
  have mem := hin (by rw [he]; rfl)
  cases (P.decl type).cloner with
  | copyable ca =>
    rw [sat_bind]
    exact found_putById snd hsa mem cell
  | custom call =>
    rw [sat_bind]
    refine sat_readValue.mpr ⟨fun v _ => ?_, fun _ => not_false⟩
    rw [sat_bind]
    refine sat_unwrapSome.mpr ⟨fun res _ => ?_, fun _ => not_false⟩
    rw [sat_bind]
    refine sat_unwrapSome.mpr ⟨fun wr _ => ?_, fun _ => not_false⟩
    rw [sat_bind]
    exact found_putById snd hsa mem _

theorem found_cloneComponents (link : Bool) (rows : RowsExact w)
    (ha : w.entities.located t = some targetLocation) (c : EntityCloner V) :
    Sat (cloneComponents P link src t targetLocation c) w
      (fun _ after => Stored w after) RowsFound := by
  unfold cloneComponents
  rw [sat_bind, sat_debugAssert]
  split
  · exact not_false
  rw [sat_bind]
  refine sat_spawnedLocation.mpr ⟨fun loc hf => ?_, fun _ _ => not_false⟩
  have hsa := locate_eq_ok.mp hf
  refine sat_archetype_bind fun a _ => ?_
  rw [sat_bind, sat_debugAssert]
  split
  · exact not_false
  refine @Sat.foldlM _ _ _ _ _ _ _ (fun _ _ mid => Stored w mid) _ ?_ _ (Stored.refl w)
  intro done id rest _ c mid hst
  refine (found_cloneComponent link ((rows src).stored hst) ?_ ((rows t).stored hst)
    ?_ c id).mono (fun _ _ hag => hst.trans hag) fun _ _ hf => hf
  · rw [hst.entities]
    exact hsa
  · rw [hst.entities]
    exact ha

theorem exact_cloneEntity (ord : Orderly P w) (rows : RowsExact w) (link : Bool)
    (c : EntityCloner V) (src : Entity) :
    Spares (cloneEntity P link c src) w RowsExact := by
  unfold cloneEntity
  rw [Spares, sat_bind, sat_get]
  cases hf : w.entities.locate src with
  | error err => exact rows
  | ok loc =>
    obtain ⟨a, he⟩ := (ord.settled src).arche (locate_eq_ok.mp hf)
    have aim := sliceOf_eq he
    rw [sat_bind]
    refine ((keeps_spawnUninit loc.archeId w ord).and
      ((exact_spawnUninit ord rows aim).and (located_spawnUninit loc.archeId))).mono ?_
      fun _ _ hfa => hfa.2.1
    rintro ⟨t, targetLocation⟩ mid ⟨ho, now, ha⟩
    rw [sat_bind]
    have hs : Moves (Evolves P all) (cloneComponents P link src t targetLocation c) :=
      moves_cloneComponents storing_evolves link src t targetLocation c
    have own : Sat (guarded P t (cloneComponents P link src t targetLocation c)) mid
        (fun _ after => after.Mapped t) (Spared fun after => after.Mapped t) :=
      (guarded_rows ho.registered hs (found_cloneComponents link now ha c)).mono
        (fun _ _ hst => (now t).stored hst)
        fun _ _ hfa => ⟨hfa.1, fun hc => mapped_of_nowhere (hfa.2 hc)⟩
    exact (sat_only ho.registered ho.settled now (moves_guarded rfl
      (moves_cloneComponents storing_evolves link src t targetLocation c))
      own).mono (fun _ _ exact_ => exact_) fun _ _ hfa => hfa

theorem exact_runCallback (rows : RowsExact w) (m : CloneEntityMapper)
    (c : PendingCallback V) : Spares (runCallback P m c) w RowsExact := by
  refine sat_stored (moves_runCallback storing_stored m c) ?_
    fun after hst o => (rows o).stored hst
  unfold runCallback
  rw [sat_bind]
  refine sat_spawnedLocation.mpr ⟨fun loc hf => ?_, fun _ _ => not_false⟩
  have ha := locate_eq_ok.mp hf
  refine (found_getById (rows _) ha _).bind ?_
  rintro hf _ ⟨rfl, hin⟩
  rw [sat_bind]
  refine sat_unwrapSome.mpr ⟨fun cell he => ?_, fun _ => not_false⟩
  rw [sat_bind]
  refine sat_readValue.mpr ⟨fun v _ => ?_, fun _ => not_false⟩
  rw [sat_bind]
  refine sat_unwrapSome.mpr ⟨fun res _ => ?_, fun _ => not_false⟩
  exact (found_putById (rows _) ha (hin (by rw [he]; rfl)) _).bind (fun _ _ _ => trivial)

/-! ## Inserting and removing -/

/-- Inserting a bundle of this type gives the entity no sparse component it does not have
already. -/
def GainsNoSparse (P : Program τ V) (world : World τ V) (entity : Entity)
    (type : BundleType τ) : Prop :=
  ∀ slice, world.sliceAt entity = some slice → ∀ root ∈ type.components, ∀ component,
    Reaches P.requires root component → (P.decl component).storage = .sparse →
      world.components.Has slice.components component

/-- Who has everything gains nothing. -/
theorem gainsNoSparse_of_spans (he : after.sliceAt entity = some slice)
    (has : ∀ c, (∃ root ∈ type.components, Reaches P.requires root c) →
      after.components.Has slice.components c) : GainsNoSparse P after entity type := by
  intro hf hs root mem c hp _
  obtain rfl := some.inj (he.symm.trans hs)
  exact has c ⟨root, mem, hp⟩

/-- Others gain as little as before. -/
theorem GainsNoSparse.kept {scope : Scope} (hg : GainsNoSparse P before entity type)
    (reg : Registered P before) (hk : Kept scope before after) (ho : ¬ scope.frees)
    (hs : before.Settled entity) (hot : ¬ scope.subjects entity) :
    GainsNoSparse P after entity type := by
  intro slice he root mem c hp hsp
  rw [hk.sliceAt ho hs hot] at he
  obtain ⟨id, -, hf⟩ := (hs.sliceAt_iff slice).mp he
  obtain ⟨a, hst, rfl⟩ := map_eq_some_iff.mp hf
  have hsl := reg.archeSplit a (mem_of_getElem? hst)
  rw [Components.has_of_prefix hk.components fun id hin => hsl.registered hin]
  exact hg _ he root mem c hp hsp

section Types

variable [DecidableEq τ] [Fintype τ] {b : Bundle τ V}

/-- Inserting, for the entity itself. -/
theorem mapped_insert (ord : Orderly P w) (rows : RowsExact w)
    (hg : GainsNoSparse P w entity b.type) : Sat (insert P entity b) w
      (fun _ after => after.Mapped entity ∧ GainsNoSparse P after entity b.type)
      (Spared fun after => after.Mapped entity ∧ GainsNoSparse P after entity b.type) := by
  refine sat_insert ord.registered (ord.settled entity)
    ⟨not_false, fun _ => ⟨rows entity, hg⟩⟩ ?_
  intro loc t mid ha hi
  obtain ⟨old, info, new, src, aim, hl, hsp⟩ := hi.leads
  have reg := hi.registered
  have hgr : Extends P w mid := fun _ => ⟨reg, hi.grew⟩
  have hm := (rows entity).extend (ord.settled entity) ord.registered hgr
  have hal : mid.entities.located entity = some loc := by
    rw [hi.grew.entities]
    exact ha
  have hoa : w.sliceAt entity = some old := by
    obtain ⟨a, hf⟩ := (ord.settled entity).arche ha
    have slice := sliceOf_eq hf
    obtain rfl := some.inj (src.symm.trans (hi.grew.toStatics.sliceOf slice))
    rw [sliceAt, archeOf, ha, map_some, bind_some, slice]
  obtain ⟨oa, hos, rfl⟩ := map_eq_some_iff.mp src
  obtain ⟨na, hns, rfl⟩ := map_eq_some_iff.mp aim
  have hol := reg.archeSplit oa (mem_of_getElem? hos)
  have hne := reg.archeSplit na (mem_of_getElem? hns)
  have has : ∀ c, (∃ root ∈ b.type.components, Reaches P.requires root c) →
      mid.components.Has na.components c := by
    intro c hr
    obtain ⟨id, mem, hn⟩ := (hsp c).mpr hr
    exact ⟨id, (hl id).mpr (.inr mem), hn⟩
  -- what is sparse in the target was there before
  have sparse : ∀ c, c ∈ na.sparseComponents ↔ c ∈ oa.sparseComponents := by
    intro c
    rw [hne.mem_sparse, hol.mem_sparse]
    refine and_congr_left fun hmd => ⟨fun mem => ?_, fun mem => (hl c).mpr (.inl mem)⟩
    rcases (hl c).mp mem with before | had
    · exact before
    · obtain ⟨type, hn, hsh⟩ := map_eq_some_iff.mp hmd
      obtain ⟨root, hib, hp⟩ := (hsp type).mp ⟨c, had, hn⟩
      have hel := hg _ hoa root hib type hp hsh
      exact (reg.components.has_iff hn).mp (hel.grow hi.grew.components)
  have hnr : ∀ c, (mid.maps.rowOf c entity).isSome = true ↔
      c ∈ na.sparseComponents := fun c => (hm.hasRows hal src c).trans (sparse c).symm
  have hs : ∀ ty, (∀ type ∈ ty,
      ∃ root ∈ b.type.components, Reaches P.requires root type) →
      Served P mid entity ty := fun ty hr =>
    served_of_has reg aim rfl (fun c => (hnr c).mpr)
      fun type mem _ => has type (hr type mem)
  have he := hs b.type.components fun type mem => ⟨type, mem, Relation.ReflTransGen.refl⟩
  have hbo : Sat (if loc.archeId = t then insertLocal P entity loc b
      else insertMoved P entity loc t b) mid
      (fun _ after => Arrived entity t na.toComponentSlice after) RowsFound := by
    split
    · next hsm =>
      rw [← hsm]
      exact arrived_insertLocal hal hnr he
    · exact arrived_insertMoved hnr he fun root mem =>
        hs _ fun type hed => ⟨root, mem, Relation.ReflTransGen.single hed⟩
  have hmo : Moves (Evolves P all) (if loc.archeId = t then
      insertLocal P entity loc b else insertMoved P entity loc t b) := by
    split
    · exact moves_insertLocal storing_evolves entity loc b
    · exact moves_insertMoved trivial loc trivial b
  have hgu : Moves (Evolves P all) (guarded P entity (if loc.archeId = t then
      insertLocal P entity loc b
        else insertMoved P entity loc t b)) := moves_guarded trivial hmo
  refine ((hgu mid).and (guarded_arrived reg hmo aim hbo)).mono ?_ ?_
  · rintro _ after ⟨hev, hm, her⟩
    exact ⟨hm, gainsNoSparse_of_spans her fun c hr =>
      (has c hr).grow (hev reg).2.components⟩
  · rintro f after ⟨-, hfa⟩
    exact hfa.mono fun hb => ⟨hb.1, fun _ ha => nomatch hb.2.symm.trans ha⟩

theorem exact_insert (ord : Orderly P w) (rows : RowsExact w)
    (hg : GainsNoSparse P w entity b.type) : Spares (insert P entity b) w RowsExact :=
  sat_only ord.registered ord.settled rows (moves_insert rfl (fun _ => trivial) b)
    ((mapped_insert ord rows hg).mono (fun _ _ hb => hb.1)
      fun _ _ hf => hf.mono And.left)

theorem exact_removeDynamic (hf : Complete P w) (rows : RowsExact w)
    (e : Entity) (b : BundleId) : Spares (removeDynamic P e b) w RowsExact := by
  have ord := hf.1
  refine sat_only ord.registered ord.settled rows (moves_removeDynamic rfl (fun _ => trivial) b) ?_
  refine sat_removeDynamic ord.registered ⟨not_false, fun _ => rows e⟩
    ⟨rowsFound_violation not_false, fun _ => rows e⟩ ?_
  intro loc t mid hal hr
  obtain ⟨old, info, new, src, aim, -, hl⟩ := hr.leads
  have reg := hr.registered
  have hg : Extends P w mid := fun _ => ⟨reg, hr.grew⟩
  have hm := (rows e).extend (ord.settled e) ord.registered hg
  have ha : mid.entities.located e = some loc := by
    rw [hr.grew.entities]
    exact hal
  have hor := hm.hasRows ha src
  -- a removal from a closed archetype adds nothing
  obtain ⟨slice, hst, closed⟩ := (hf.2.located (ord.settled e) hal).statics
    ord.registered reg hr.grew.toStatics
  obtain rfl := some.inj (src.symm.trans hst)
  obtain ⟨oa, hos, rfl⟩ := map_eq_some_iff.mp src
  obtain ⟨na, hns, rfl⟩ := map_eq_some_iff.mp aim
  have hol := reg.archeSplit oa (mem_of_getElem? hos)
  have hne := reg.archeSplit na (mem_of_getElem? hns)
  have hs : ∀ c ∈ na.sparseComponents, c ∈ oa.sparseComponents := by
    intro c mem
    rw [hne.mem_sparse] at mem
    exact hol.mem_sparse.mpr ⟨hl.subset closed c mem.1, mem.2⟩
  refine guarded_mapped reg ?_ aim ?_
  · split
    · exact .pure _
    · exact moves_removeMoved trivial loc trivial
  · split
    · next hsa =>
      subst hsa
      obtain rfl := some.inj (hos.symm.trans hns)
      refine ⟨?_, hor⟩
      rw [archeOf, ha, map_some]
    · exact arrived_removeMoved reg src aim hor hs

/-- Registering a bundle first makes no difference. -/
theorem exact_removeRegistered {mid : World τ V} (hf : Complete P w)
    (rows : RowsExact w) (hg : Extends P w mid) (e : Entity) (b : BundleId) :
    Sat (removeDynamic P e b) mid (fun _ after => RowsExact after) (Spared RowsExact) :=
  exact_removeDynamic
    ⟨(hf.1.extend hg).1, hf.2.extend hf.1.registered hg⟩
    (fun o => (rows o).extend (hf.1.settled o) hf.1.registered hg)
    e b

/-! ## Spawning bundles -/

theorem exact_spawn (ord : Orderly P w) (rows : RowsExact w) (b : Bundle τ V) :
    Spares (spawn P b) w RowsExact := by
  unfold spawn
  rw [Spares, sat_bind]
  refine (sat_spawnArchetype ord.registered b.type).mono ?_ fun _ _ hn => hn.elim
  intro t mid hs
  obtain ⟨slice, aim, hsp⟩ := hs.leads
  have hg : Extends P w mid := fun _ => ⟨hs.registered, hs.grew⟩
  have ho := (ord.extend hg).1
  have now : RowsExact mid := fun o =>
    (rows o).extend (ord.settled o) ord.registered hg
  rw [sat_bind]
  refine sat_allocMut.mpr ⟨fun entity _ => ?_, fun _ => ⟨not_false, fun _ => now⟩⟩
  rw [sat_bind]
  exact exact_spawnInto (ho.withAllocator mid.allocator.allocMut.2) now aim hsp entity

theorem exact_spawnAt (ord : Orderly P w) (rows : RowsExact w) (b : Bundle τ V)
    (e : Entity) : Spares (spawnAt P b e) w RowsExact := by
  unfold spawnAt
  rw [Spares, sat_bind, sat_get]
  cases w.entities.canSpawn e with
  | error err => exact rows
  | ok _ =>
    rw [sat_bind]
    refine (sat_spawnArchetype ord.registered b.type).mono ?_ fun _ _ hn => hn.elim
    intro t mid hs
    obtain ⟨slice, aim, hsp⟩ := hs.leads
    have hg : Extends P w mid := fun _ => ⟨hs.registered, hs.grew⟩
    have now : RowsExact mid := fun o =>
      (rows o).extend (ord.settled o) ord.registered hg
    rw [sat_bind]
    exact exact_spawnInto (ord.extend hg).1 now aim hsp e

end Types

/-! ## Observing -/

/-- Noting an observer asks before it writes. -/
theorem found_pushObservedBy (loc : EntityLocation) (id : ObserverId) :
    Sat (pushObservedBy P entity loc id) w (fun _ _ => True) RowsFound := by
  unfold pushObservedBy
  rw [sat_bind, sat_get]
  cases w.components.getId P.observedBy with
  | none => trivial
  | some c =>
    cases (P.decl P.observedBy).storage with
    | dense =>
      rw [sat_bind]
      refine sat_table.mpr ⟨fun ta _ => ?_, fun _ => rowsFound_violation not_false⟩
      split
      · rw [sat_bind]
        exact sat_readValue.mpr ⟨fun _ _ => trivial, fun _ => not_false⟩
      · trivial
    | sparse =>
      dsimp only
      split
      · trivial
      · rw [sat_bind]
        exact sat_readValue.mpr ⟨fun _ _ => trivial, fun _ => not_false⟩

/-- The world is complete and its rows are exact. -/
def Housed (P : Program τ V) (world : World τ V) : Prop := Complete P world ∧ RowsExact world

/-- What watching entities upholds: none of them gains a sparse component by the note. -/
def Noted (P : Program τ V) (entities : List Entity) (world : World τ V) : Prop :=
  Housed P world ∧ ∀ entity ∈ entities, GainsNoSparse P world entity ⟨1, [P.observedBy]⟩

variable {es : List Entity}

/-- Only values and observers change. -/
theorem Noted.next {post : World τ V} (hn : Noted P es before)
    (hf : Complete P post) (hst : Stored before post) : Noted P es post := by
  refine ⟨⟨hf, fun o => (hn.1.2 o).stored hst⟩, fun o mem => ?_⟩
  intro slice he
  have hs : post.sliceAt o = before.sliceAt o := by
    unfold sliceAt archeOf sliceOf
    rw [hst.entities, hst.archetypes]
  rw [hs] at he
  rw [hst.components]
  exact hn.2 o mem slice he

theorem noted_of_stored {comp : Exec τ V α} (hk : Keeps Fault.Caught (Complete P) comp)
    (hm : Moves Stored comp) (hf : ∀ w : World τ V, Sat comp w (fun _ _ => True) RowsFound) :
    Upholds (Spared (Noted P es)) (Noted P es) comp := fun w hn =>
  ((hk w hn.1.1).and ((hm w).and (hf w))).mono
    (fun _ _ hb => hn.next hb.1 hb.2.1)
    fun _ _ hb => ⟨hb.2.2, fun hc => hn.next (hb.1 hc) hb.2.1⟩

/-- Flags are not about rows. -/
theorem Noted.mergeFlags (hn : Noted P es w) (obs : Observer) : Noted P es
      { w with archetypes := mergeFlags obs w.archetypes } := by
  obtain ⟨⟨hf, rows⟩, hg⟩ := hn
  obtain ⟨-, hst⟩ := hf.1.registered.mergeFlags obs
  have hs : ∀ o, sliceAt { w with
      archetypes := World.mergeFlags obs w.archetypes } o = w.sliceAt o :=
    fun o => hst.sliceAt (hf.1.settled o) rfl
  refine ⟨⟨hf.mergeFlags obs, fun o c => ?_⟩, fun o mem slice => ?_⟩
  · rw [hs]
    exact rows o c
  · rw [hs]
    exact hg o mem slice

theorem stored_observers (w : World τ V) (observers : List (Option Observer)) :
    Stored w { w with observers := observers } :=
  ⟨⟨rfl, fun _ _ => rfl⟩, rfl, rfl⟩

/-- The map of a component has a row for an entity: `get_map_row` names it, and it holds the
entity. -/
def HasRow (world : World τ V) (component : ComponentId) (entity : Entity) (row : MapRow) : Prop :=
  ∃ found, world.mapAt component = some found ∧ found.2.getMapRow entity = some row ∧
    found.2.entities[row]? = some (some entity)

theorem Registered.existsUnique_hasRow (reg : Registered P w)
    (c : ComponentId) (e : Entity) : (∃! row, w.HasRow c e row) ↔
      (w.maps.rowOf c e).isSome = true := by
  rw [isSome_iff_exists]
  constructor
  · rintro ⟨row, ⟨hf, he, hn, -⟩, -⟩
    exact ⟨row, by rw [rowOf_of_mapAt he]; exact hn⟩
  · rintro ⟨row, hn⟩
    cases he : w.mapAt c with
    | none =>
      rw [rowOf_of_mapAt_none he] at hn
      cases hn
    | some hf =>
      rw [rowOf_of_mapAt he] at hn
      have hs := reg.mapSound hf.2 (mem_of_getElem? (mapAt_eq_some he).2)
      refine ⟨row, ⟨hf, he, hn, hs.index e row hn⟩, ?_⟩
      rintro o ⟨a, hsa, ha, -⟩
      obtain rfl := some.inj (he.symm.trans hsa)
      exact some.inj (ha.symm.trans hn)

section Types

variable [DecidableEq τ] [Fintype τ]

theorem noted_insert (mem : entity ∈ es) (v : List V) (hs : v.length = 1) :
    Upholds (Spared (Noted P es)) (Noted P es)
      (insert P entity ⟨⟨1, [P.observedBy]⟩, v, hs⟩) := by
  rintro w ⟨⟨hf, rows⟩, hg⟩
  have ord := hf.1
  have hm : Moves (Evolves P (only entity))
      (insert P entity ⟨⟨1, [P.observedBy]⟩, v, hs⟩) :=
    moves_insert rfl (fun _ => trivial) _
  have all : ∀ after, Evolves P (only entity) w after → Housed P after →
      GainsNoSparse P after entity ⟨1, [P.observedBy]⟩ → Noted P es after := by
    refine fun after he ho own => ⟨ho, fun o hin => ?_⟩
    by_cases hsa : o = entity
    · rw [hsa]
      exact own
    · exact (hg o hin).kept ord.registered (he ord.registered).2 id
        (ord.settled o) hsa
  refine ((hm w).and ((sat_spared_and (complete_insert entity _) hf
    (exact_insert ord rows (hg entity mem))).and
    (mapped_insert ord rows (hg entity mem)))).mono ?_ ?_
  · exact fun _ after hb => all after hb.1 hb.2.1 hb.2.2.2
  · exact fun f after hb => ⟨hb.2.1.1, fun hc =>
      all after hb.1 (hb.2.1.2 hc) (hb.2.2.2 hc).2⟩

theorem noted_registerObserver (obs : Observer) :
    Upholds (Spared (Noted P obs.entities)) (Noted P obs.entities) (registerObserver P obs) := by
  refine Upholds.bind (fun _ hn => hn.mergeFlags obs) fun _ => ?_
  refine Upholds.bind (fun w hn => hn.next (hn.1.1.withObservers _)
    (stored_observers w _)) fun id => ?_
  refine Upholds.bind (upholds_watchEntities (fun entity => ?_) ?_ (fun entity loc => ?_)
    obs.entities fun entity mem => noted_insert mem [P.observe none id] rfl) fun _ => .pure _
  · exact noted_of_stored (complete_unwatch id entity)
      (fun w => stored_observers w _) fun _ => trivial
  · exact noted_of_stored (complete_removeObserver id)
      (fun w => stored_observers w _) fun _ => trivial
  · exact noted_of_stored (complete_pushObservedBy entity loc id)
      (moves_pushObservedBy storing_stored entity loc id) fun _ => found_pushObservedBy loc id

/-! ## Runs -/

/-- No entity gains a sparse component by insertion. -/
def NoSparseGained (P : Program τ V) (world : World τ V) : Op τ V → Prop
  | .insert entity bundle => GainsNoSparse P world entity bundle.type
  | .registerObserver observer =>
    ∀ entity ∈ observer.entities, GainsNoSparse P world entity ⟨1, [P.observedBy]⟩
  | _ => True

variable {op : Op τ V}

/-- Registrations look up no row. -/
theorem found_registers (hre : op.Registers) :
    Sat (exec P op) w (fun _ _ => True) RowsFound := by
  have registering : ∀ {β : Type} (r : World τ V → Option (β × World τ V)),
      Sat (registering P .bundle r >>= fun _ => pure ()) w (fun _ _ => True)
        RowsFound := by
    intro β r
    rw [sat_bind]
    exact sat_registering.mpr ⟨fun _ _ => trivial, fun _ => rowsFound_violation not_false⟩
  cases op with
  | registerComponent _ => trivial
  | prepareComponent _ => trivial
  | registerExplicitBundle _ => trivial
  | registerRequiredBundle _ => trivial
  | registerDynamicBundle i =>
    unfold exec
    rw [sat_bind, sat_get, sat_bind]
    exact sat_unwrapSome.mpr ⟨fun _ _ => trivial, fun _ => not_false⟩
  | registerArchetype b => exact registering fun w => w.registerArchetype b
  | archeAfterInsert a b =>
    exact registering fun w => w.archeAfterInsert a b
  | archeAfterRemove a b =>
    exact registering fun w => w.archeAfterRemove P a b
  | _ => exact absurd hre id

/-- **Every operation that gains no sparse component by insertion keeps the rows exact and
misses no row**, whether it returns or panics. -/
theorem housed_exec (ho : Housed P w) (hg : NoSparseGained P w op) :
    Spares (exec P op) w (Housed P) := by
  obtain ⟨hf, rows⟩ := ho
  have ord := hf.1
  have ho : Spares (exec P op) w RowsExact → Spares (exec P op) w (Housed P) :=
    sat_spared_and (complete_exec op) hf
  have hr : op.Registers → Spares (exec P op) w (Housed P) := fun hr =>
    ho (exact_extends ord rows (extends_exec hr) (found_registers hr))
  cases op with
  | spawn b =>
    refine ho ?_
    unfold exec
    rw [Spares, sat_bind]
    exact exact_spawn ord rows b
  | spawnAt b entity =>
    refine ho ?_
    unfold exec
    rw [Spares, sat_bind]
    exact exact_spawnAt ord rows b entity
  | insert entity b => exact ho (exact_insert ord rows hg)
  | removeExplicit entity type =>
    exact ho (exact_removeRegistered hf rows (extends_registerExplicitBundle w type) entity _)
  | removeRequired entity type =>
    exact ho (exact_removeRegistered hf rows (extends_registerRequiredBundle w type) entity _)
  | removeDynamic entity b => exact ho (exact_removeDynamic hf rows entity b)
  | clear entity => exact ho (exact_clear ord rows entity)
  | despawn entity =>
    refine ho ?_
    unfold exec
    rw [Spares, sat_bind]
    exact exact_despawn ord rows entity
  | forget entity => exact ho (exact_forget ord rows entity)
  | clone link fuel s =>
    unfold exec
    rw [Spares, sat_bind]
    exact upholds_spawnCloneBatch (mends_spared (Housed P))
      (fun entity _ ho => sat_spared_and (complete_forget entity) ho.1
        (exact_forget ho.1.1 ho.2 entity))
      (fun cl src _ ho => sat_spared_and (complete_cloneEntity link cl src)
        ho.1 (exact_cloneEntity ho.1.1 ho.2 link cl src))
      (fun m c _ ho => sat_spared_and (complete_runCallback m c)
        ho.1 (exact_runCallback ho.2 m c)) fuel s w ⟨hf, rows⟩
  | registerObserver obs =>
    unfold exec
    rw [Spares, sat_bind]
    exact (noted_registerObserver obs w ⟨⟨hf, rows⟩, hg⟩).mono
      (fun _ _ hk => hk.1) fun _ _ hfa => hfa.mono And.left
  | removeObserver id => exact sat_spared_and (complete_removeObserver id) hf rows
  | _ => exact hr trivial

theorem housed_new : Housed P (new : World τ V) := by
  refine ⟨complete_run (run_nil _ _), fun entity c => ?_⟩
  have hd : (new : World τ V).sliceAt entity = none := rfl
  have row : (new : World τ V).maps.rowOf c entity = none := rfl
  rw [hd, row]
  simp

/-- **Sparse rows are exact as long as no insertion gains a sparse component.**  In every
world a program can reach by operations that meet this condition, an entity has exactly one
row in the map of a component if the component is among the sparse components of its
archetype, and none otherwise; and no operation that meets the condition fails because a
row is missing. -/
theorem run_rows_exact (P : Program τ V) {ops : List (Op τ V)} {world : World τ V}
    (ran : run (step P) ops new = some world)
    (gains : EachStep (step P) (fun op before _ => NoSparseGained P before op) ops new) :
    (∀ entity component, (∃! row, world.HasRow component entity row) ↔
      ∃ slice, world.sliceAt entity = some slice ∧ component ∈ slice.sparseComponents) ∧
    (∀ op fault after, NoSparseGained P world op → exec P op world = .error fault after →
      ¬ fault.MissesRow) := by
  have hk : ∀ op before after, Housed P before → step P op before = some after →
      NoSparseGained P before op → Housed P after := fun op before after ho hou hm =>
    step_sat ((housed_exec ho hm).mono (fun _ _ hk => hk) fun _ _ hf => hf.2)
      hou
  have ho : Housed P world := gains.invariant hk housed_new ran
  refine ⟨fun entity component => ?_, fun op fault after hm hou => ?_⟩
  · rw [ho.1.1.registered.existsUnique_hasRow]
    exact ho.2 entity component
  · have sat := housed_exec ho hm
    unfold Spares Sat at sat
    rw [hou] at sat
    exact sat.1

end Types

end Operations

/-- Rows at work: a sparse row is handed out, survives an insertion and is taken back. -/
theorem run_rows_exact_released : ∃ world, run (step denseAndSparse)
        [.spawn (zeros ⟨1, [true]⟩), .insert (entityFromU32 1) (zeros ⟨2, [false]⟩),
          .spawn (zeros ⟨1, [true]⟩), .removeExplicit (entityFromU32 128) ⟨1, [true]⟩]
        new = some world ∧ ∀ entity component, (∃! row, world.HasRow component entity row) ↔
        ∃ slice, world.sliceAt entity = some slice ∧ component ∈ slice.sparseComponents := by
  refine exists_of_isSome (by decide +kernel) fun world ran => ?_
  refine (run_rows_exact denseAndSparse ran ?_).1
  refine fun _ _ => ⟨trivial, fun _ _ => ⟨?_, fun _ _ => ⟨trivial, fun _ _ => ⟨trivial, trivial⟩⟩⟩⟩
  -- the inserted component is dense and requires nothing
  intro slice _ root hm component hp hs
  rw [mem_singleton.mp hm] at hp
  rcases hp.cases_head with rfl | ⟨next, he, -⟩
  · exact absurd hs (by decide)
  · exact absurd he not_mem_nil

/-- An insertion that returns leaves a sparse component without its row, and one that
writes a new sparse component does not find the row. -/
theorem inserted_sparse_rowless : (∃ world slice, run (step sparseEnd)
        [.spawn (zeros BundleType.unit), .insert (entityFromU32 1) (zeros ⟨1, [0]⟩)]
        new = some world ∧ world.sliceAt (entityFromU32 1) = some slice ∧
        2 ∈ slice.sparseComponents ∧ ∀ row, ¬ world.HasRow 2 (entityFromU32 1) row) ∧
    (∃ world after, run (step denseAndSparse) [.spawn (zeros ⟨1, [false]⟩)] new = some world ∧
      exec denseAndSparse (.insert (entityFromU32 1) (zeros ⟨2, [true]⟩)) world =
        .error (.undefined .mapRow) after) := by
  constructor
  · obtain ⟨world, hf⟩ := isSome_iff_exists.mp (show ((run (step sparseEnd)
      [.spawn (zeros BundleType.unit), .insert (entityFromU32 1) (zeros ⟨1, [0]⟩)]
      new).filter fun world =>
        (world.sliceAt (entityFromU32 1)).any (fun slice => 2 ∈ slice.sparseComponents) &&
        (world.maps.rowOf 2 (entityFromU32 1)).isNone).isSome = true by decide +kernel)
    obtain ⟨ran, ho⟩ := filter_eq_some_iff.mp hf
    obtain ⟨hia, hr⟩ := (Bool.and_eq_true _ _).mp ho
    obtain ⟨slice, he, hm⟩ := (any_eq_true _ _).mp hia
    refine ⟨world, slice, ran, he, of_decide_eq_true hm, ?_⟩
    rintro row ⟨map, hf, hn, -⟩
    rw [rowOf_of_mapAt hf, hn] at hr
    cases hr
  · obtain ⟨world, hf⟩ := isSome_iff_exists.mp (show ((run (step denseAndSparse)
      [.spawn (zeros ⟨1, [false]⟩)] new).filter fun world =>
        match exec denseAndSparse (.insert (entityFromU32 1) (zeros ⟨2, [true]⟩)) world with
        | .error f _ => f = .undefined .mapRow
        | .ok _ _ => false).isSome = true by decide +kernel)
    obtain ⟨ran, ho⟩ := filter_eq_some_iff.mp hf
    cases hou : exec denseAndSparse (.insert (entityFromU32 1) (zeros ⟨2, [true]⟩)) world with
    | ok _ _ =>
      rw [hou] at ho
      cases ho
    | error f after =>
      rw [hou] at ho
      obtain rfl := of_decide_eq_true ho
      exact ⟨world, after, ran, hou⟩

end Voker.Ecs.World
