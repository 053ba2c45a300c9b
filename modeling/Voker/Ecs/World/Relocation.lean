import Voker.Ecs.World.Forget

/-!
# Giving, moving and taking back rows

The parts of the operations that run under a guard.  Each starts with all entities settled
and, when it returns, has settled its entity again; **wherever it fails in between, its
entity is loose**, so that the guard can clean up.
-/

namespace Voker.Ecs.World

open Foundation List Function Option

variable {τ V α : Type} {P : Program τ V}

/-! ## Moving rows -/

section Moving

variable {base w : World τ V} {e : Entity} {place : Store → Option (ℕ × ℕ)}

/-- What moves nobody can run while the entity is adrift. -/
theorem Adrift.through (adrift : Adrift base e place w) {comp : Exec τ V α}
    (hm : Moves SameRows comp) : Sat comp w (fun _ post => Adrift base e place post)
      (fun _ post => post.Loose e) :=
  (hm w).mono (fun _ _ hs => adrift.sameRows hs)
    (fun _ _ hs => (adrift.sameRows hs).loose)

/-- Recording where the entity has arrived. -/
theorem Adrift.arrive {loc : EntityLocation}
    (adrift : Adrift base e (fun s => some (s.place loc)) w)
    (hli : base.tableOf loc.archeId = some loc.tableId) :
    Sat (updateLocation e loc) w (fun _ post => ∀ o, post.Settled o)
      (fun _ post => post.Loose e) := by
  refine sat_updateLocation.mpr ⟨fun es hok => ?_, fun _ _ => adrift.loose⟩
  obtain ⟨old, -, hl, -⟩ := Entities.modifyLocation_inv hok
  refine adrift.settle hl (fun s => rfl) ?_
  rintro _ ⟨⟩
  exact hli

variable {row : ℕ}

section

variable (adrift : Adrift base e place w)

include adrift

/-- The entity gives back its archetype row; the neighbour's new row can be recorded. -/
theorem Adrift.leaveArche {id : ArcheId} (hs : place .arche = some (id, row)) :
    Sat (deallocArcheRow P id row) w
      (fun m post => ∃ es, post.entities.updateRow m = .ok es ∧
        Adrift base e (update place .arche none) { post with entities := es })
      (fun _ _ => False) := by
  refine (removed_deallocArcheRow ((adrift.held .arche id row).mpr hs)).mono ?_
    fun _ _ hn => hn
  rintro m post ⟨rfl, hr⟩
  exact adrift.vacate hs hr

/-- The same for its table row. -/
theorem Adrift.leaveTable (drop : Bool) {id : TableId} (hs : place .table = some (id, row)) :
    Sat (deallocTableRow P drop id row) w
      (fun m post => ∃ es, post.entities.updateRow m = .ok es ∧
        Adrift base e (update place .table none) { post with entities := es })
      (fun _ _ => False) := by
  refine (removed_deallocTableRow drop ((adrift.held .table id row).mpr hs)).mono ?_
    fun _ _ hn => hn
  rintro m post ⟨rfl, hr⟩
  exact adrift.vacate hs hr

/-- The entity takes an archetype row. -/
theorem Adrift.enterArche (ha : place .arche = none) (id : ArcheId) :
    Sat (allocArcheRow P id e) w (fun row post =>
        Adrift base e (update place .arche (some (id, row))) post)
      (fun _ post => post.Loose e) := by
  refine sat_allocArcheRow.mpr ⟨fun a hf => ?_, fun _ => adrift.loose⟩
  rw [← rows_arche hf]
  have he := adrift.enter ha (added_setArche hf e)
  rw [rows_arche hf] at he ⊢
  exact he

/-- The entity changes from one table to another. -/
theorem Adrift.changeTable (drop : Bool) {src t : TableId} (ne : src ≠ t)
    (hs : place .table = some (src, row)) : Sat (moveTableRow P drop src t row) w
      (fun res post => ∃ es, post.entities.updateRow res.1 = .ok es ∧
        Adrift base e (update place .table (some (t, res.2))) { post with entities := es })
      (fun _ post => post.Loose e) := by
  refine (removed_moveTableRow drop ne ((adrift.held .table src row).mpr hs)).mono
    ?_ fun _ post hsa => ?_
  · rintro ⟨m, nr⟩ post ⟨rfl, rfl, b, hr, ha⟩
    obtain ⟨es, hre, hv⟩ := adrift.vacate hs hr
    refine ⟨es, by rw [ha.entities]; exact hre, ?_⟩
    -- the row of the target is not affected by the removal
    have hl : (rows { b with entities := es } .table t).length =
        (w.rows .table t).length := by
      rw [rows_entities, hr.rows, update_self,
        update_of_ne (Ne.symm ne)]
    have he := hv.enter (update_self ..) (ha.withEntities es)
    rw [update_idem, hl] at he
    exact he
  · rw [hsa]
    exact adrift.loose

end

/-- The archetype row moves, and the table row if the table changes. -/
theorem moveRows_adrift (settled : ∀ o, w.Settled o) {loc : EntityLocation}
    (alive : w.entities.located e = some loc) {t : ArcheId}
    {tt : TableId} (aim : w.tableOf t = some tt) (drop : Bool) :
    Sat (moveRows P drop e loc t tt) w
      (fun new post => Adrift w e (fun s => some (s.place new)) post ∧
        w.tableOf new.archeId = some new.tableId) (fun _ post => post.Loose e) := by
  have hs : Adrift w e (fun s => some (s.place loc)) w := by
    have adrift := adrift_of_settled settled e
    rw [alive] at adrift
    exact adrift
  unfold moveRows
  rw [sat_bind]
  refine sat_archetype.mpr ⟨fun old hf => ?_, fun _ => hs.loose⟩
  have hot : old.tableId = loc.tableId := by
    have hl := (settled e).link loc alive
    rw [tableOf_of_getElem hf] at hl
    exact some.inj hl
  rw [hot, sat_bind, sat_debugAssert]
  split
  · exact hs.loose
  rw [sat_bind]
  refine (hs.leaveArche rfl).mono ?_ fun _ _ hn => hn.elim
  rintro m mid ⟨es, hr, hv⟩
  rw [sat_bind]
  refine sat_updateRow_ok hr ?_
  refine (hv.enterArche (update_self ..) t).bind ?_
  intro ar it he
  split
  · next hsa =>
    refine ⟨?_, aim.trans (congrArg some hsa.symm)⟩
    convert he using 1
    funext s
    cases s with
    | arche => rfl
    | table => rfl
  · next ne =>
    refine (he.changeTable drop ne rfl).bind ?_
    rintro ⟨m, tr⟩ post ⟨es, hr, ha⟩
    rw [sat_bind]
    refine sat_updateRow_ok hr ⟨?_, aim⟩
    convert ha using 1
    funext s
    cases s with
    | arche => rfl
    | table => rfl

end Moving

/-! ## New entities -/

section Spawning

variable {w : World τ V} {e : Entity} {id : ArcheId} {loc : EntityLocation}
  {mid post base : World τ V} {table : TableId}

/-- A living entity that gets rows a second time is doubled in its table, or it stands in
two archetypes and two tables. -/
theorem loose_of_added (settled : ∀ o, w.Settled o)
    (alive : w.entities.located e = some loc) (hl : w.tableOf id = some table)
    (ha : Added .arche id e w mid) (ht : Added .table table e mid post) : post.Loose e := by
  have he := (settled e).held
  rw [alive] at he
  have hit : mid.rows .table = w.rows .table := by
    rw [ha.rows, update_of_ne (by decide)]
  refine ⟨fun o ne => ((settled o).added ne ha).added ne ht, ?_⟩
  by_cases hs : loc.tableId = table
  · -- the old row comes before the new one
    subst hs
    have old := ((he .table) loc.tableId loc.tableRow).mpr rfl
    have hin := (List.getElem?_eq_some_iff.mp old).1
    have hr : post.tableRows loc.tableId = w.rows .table loc.tableId ++ [e] := by
      change post.rows .table loc.tableId = _
      rw [ht.rows, update_self, update_self, hit]
    refine .inr ⟨loc.tableId, loc.tableRow, ?_, ?_, ?_⟩
    · rw [hr, getElem?_append_left hin, old]
    · rw [hr, length_append, length_singleton]
      omega
    · rw [hr, getLast?_concat]
  · have hap : loc.archeId ≠ id := by
      rintro rfl
      exact hs (some.inj (((settled e).link loc alive).symm.trans hl))
    refine .inl fun s => ?_
    cases s with
    | arche =>
      rw [ht.rows, update_of_ne (by decide), ha.rows, update_self]
      refine (he .arche).onceEach.push fun mem => ?_
      obtain ⟨row, hf⟩ := mem_iff_getElem?.mp mem
      exact hap (congrArg Prod.fst (some.inj ((he .arche).unique hf)))
    | table =>
      rw [ht.rows, update_self, hit]
      refine (he .table).onceEach.push fun mem => ?_
      obtain ⟨row, hf⟩ := mem_iff_getElem?.mp mem
      exact hs (congrArg Prod.fst (some.inj ((he .table).unique hf)))

/-- A new entity stands in the rows it was given. -/
theorem adrift_of_added (settled : ∀ o, w.Settled o)
    (hd : w.entities.located e = none) (ha : Added .arche id e w mid)
    (ht : Added .table table e mid post) : Adrift w e (fun s => some (s.place
      ⟨id, (w.rows .arche id).length, table, (mid.rows .table table).length⟩)) post := by
  have hs := adrift_of_settled settled e
  rw [hd] at hs
  have hia := hs.enter rfl ha
  have hit := hia.enter rfl ht
  convert hit using 1
  funext s
  cases s with
  | arche => rfl
  | table => rfl

/-- The state in which a new entity has its rows and no location yet. -/
def Entered (base : World τ V) (entity : Entity) (location : EntityLocation)
    (world : World τ V) : Prop :=
  world.Loose entity ∧ world.entities = base.entities ∧
    (base.entities.located entity = none →
      Adrift base entity (fun store => some (store.place location)) world ∧
        base.tableOf location.archeId = some location.tableId)

theorem entered_of_added (settled : ∀ o, w.Settled o)
    (hl : w.tableOf id = some table) (ha : Added .arche id e w mid)
    (ht : Added .table table e mid post) : Entered w e
      ⟨id, (w.rows .arche id).length, table, (mid.rows .table table).length⟩ post := by
  refine ⟨?_, ht.entities.trans ha.entities, fun hd =>
    ⟨adrift_of_added settled hd ha ht, hl⟩⟩
  cases alive : w.entities.located e with
  | some loc => exact loose_of_added settled alive hl ha ht
  | none => exact (adrift_of_added settled alive ha ht).loose

theorem Entered.sameRows {pre : World τ V} (he : Entered base e loc pre)
    (hs : SameRows pre post) : Entered base e loc post :=
  ⟨he.1.sameRows hs, hs.entities.trans he.2.1, fun hd =>
    ⟨(he.2.2 hd).1.sameRows hs, (he.2.2 hd).2⟩⟩

/-- What moves nobody can run in between. -/
theorem Entered.through (he : Entered base e loc w) {comp : Exec τ V α}
    (hm : Moves SameRows comp) : Sat comp w (fun _ post => Entered base e loc post)
      (fun _ post => post.Loose e) :=
  (hm w).mono (fun _ _ hs => he.sameRows hs)
    (fun _ _ hs => (he.sameRows hs).1)

theorem allocRows_entered (reg : Registered P w)
    (settled : ∀ o, w.Settled o) (id : ArcheId) (e : Entity) : Sat (allocRows P id e) w
      (fun loc post => Entered w e loc post) (fun _ post => post.Loose e) := by
  unfold allocRows
  rw [sat_bind]
  refine sat_archetype.mpr ⟨fun a hf => ?_, fun _ => loose_of_settled settled e⟩
  have hl := tableOf_of_getElem hf
  rw [sat_bind]
  refine sat_allocArcheRow.mpr ⟨fun ag hia => ?_, fun _ => loose_of_settled settled e⟩
  obtain rfl := some.inj (hf.symm.trans hia)
  have har := added_setArche hf e
  rw [sat_bind]
  refine sat_allocTableRow.mpr ⟨fun table hit => ?_, fun ha => ?_⟩
  · have ht := added_setTable hit e
    have he := entered_of_added settled hl har ht
    rw [rows_arche hf, rows_table hit] at he
    refine (he.through (.forM fun c _ => sameRows_allocMapRow c e)).bind (fun _ _ hke => hke)
  · -- the table of an archetype exists
    have hk := reg.archeTable a (mem_of_getElem? hf)
    change w.tables.tables[a.tableId]? = none at ha
    rw [ha] at hk
    cases hk

/-- Recording the location of a new entity. -/
theorem Entered.arrive (he : Entered base e loc w) :
    Sat (setSpawned P e loc) w (fun _ post => ∀ o, post.Settled o)
      (fun _ post => post.Loose e) := by
  refine sat_setSpawned.mpr ⟨fun es hok => ?_, fun _ _ => he.1⟩
  obtain ⟨hd, hl, -⟩ := Entities.setSpawned_ok hok
  rw [he.2.1] at hd
  obtain ⟨adrift, hli⟩ := he.2.2 hd
  refine adrift.settle hl (fun s => rfl) ?_
  rintro _ ⟨⟩
  exact hli

end Spawning

/-! ## Changing entities -/

section Changing

variable {w : World τ V} {e : Entity} {loc : EntityLocation}

section

variable (settled : ∀ other, w.Settled other)

include settled

theorem insertLocal_settles (b : Bundle τ V) : Sat (insertLocal P e loc b) w
      (fun _ post => ∀ o, post.Settled o) (fun _ post => post.Loose e) := by
  have hm : Moves SameRows (insertLocal P e loc b) := moves_insertLocal storing_sameRows e loc b
  exact (hm w).mono (fun _ _ hs o => (settled o).sameRows hs)
    (fun _ _ hs => (loose_of_settled settled e).sameRows hs)

section

variable (alive : w.entities.located e = some loc)

include alive

theorem insertMoved_settles (t : ArcheId) (b : Bundle τ V) : Sat (insertMoved P e loc t b) w
      (fun _ post => ∀ o, post.Settled o) (fun _ post => post.Loose e) := by
  have hl := loose_of_settled settled e
  unfold insertMoved
  rw [sat_bind]
  refine sat_archetype.mpr ⟨fun old _ => ?_, fun _ => hl⟩
  rw [sat_bind]
  refine sat_archetype.mpr ⟨fun new hf => ?_, fun _ => hl⟩
  refine (moveRows_adrift settled alive (tableOf_of_getElem hf) false).bind ?_
  rintro a m ⟨adrift, hli⟩
  refine (adrift.through (moves_bundle_writeExplicit storing_sameRows b _)).bind ?_
  intro wr wri adrift
  refine (adrift.through (moves_bundle_writeRequired storing_sameRows b.type wr)).bind ?_
  exact fun _ _ adrift => adrift.arrive hli

theorem removeMoved_settles (t : ArcheId) : Sat (removeMoved P e loc t) w
      (fun _ post => ∀ o, post.Settled o) (fun _ post => post.Loose e) := by
  have hl := loose_of_settled settled e
  unfold removeMoved
  rw [sat_bind]
  refine sat_archetype.mpr ⟨fun old _ => ?_, fun _ => hl⟩
  rw [sat_bind]
  refine sat_archetype.mpr ⟨fun new hf => ?_, fun _ => hl⟩
  refine (moveRows_adrift settled alive (tableOf_of_getElem hf) true).bind ?_
  rintro a m ⟨adrift, hli⟩
  refine (adrift.through (.forM fun c _ => ?_)).bind (fun _ _ adrift => adrift.arrive hli)
  split
  · exact .pure _
  · exact sameRows_deallocMapRow true c e

theorem despawnRows_settles : Sat (despawnRows P e loc) w
      (fun r post => r = (.ok (), .ok ()) ∧ (∀ o, post.Settled o) ∧
        post.entities.located e = none) (fun _ post => post.Loose e) := by
  have hs : Adrift w e (fun s => some (s.place loc)) w := by
    have adrift := adrift_of_settled settled e
    rw [alive] at adrift
    exact adrift
  unfold despawnRows
  rw [sat_bind]
  refine sat_archetype.mpr ⟨fun arche _ => ?_, fun _ => hs.loose⟩
  rw [sat_bind]
  refine sat_setDespawned.mpr ⟨fun res hok => ?_, fun _ _ => hs.loose⟩
  obtain ⟨-, hl, -⟩ := Entities.setDespawned_ok hok
  -- the location is gone, the rows are still there
  have adrift := hs.relocate hl
  have hd : res.2.located e = none := by rw [hl, update_self]
  rw [sat_bind, sat_debugAssert]
  split
  · exact adrift.loose
  rw [sat_bind]
  refine (adrift.leaveArche rfl).mono ?_ fun _ _ hn => hn.elim
  rintro am mid ⟨es, hr, ho⟩
  rw [sat_bind]
  refine sat_tryUpdateRow_ok hr ?_
  rw [sat_bind]
  refine (ho.leaveTable true rfl).mono ?_ fun _ _ hn => hn.elim
  rintro tm f ⟨es, hr, hno⟩
  rw [sat_bind]
  refine sat_tryUpdateRow_ok hr ?_
  refine Sat.bind (hno.through (.forM fun c _ => sameRows_deallocMapRow true c e)) ?_
  intro _ post gone
  have hu : post.entities.located e = none := gone.located.trans hd
  refine ⟨rfl, ?_, hu⟩
  refine gone.settle (update_eq_self e _).symm (fun s => ?_) fun hf alive => ?_
  · rw [hu]
    cases s with
    | arche => rfl
    | table => rfl
  · cases hu.symm.trans alive

end

end

end Changing

end Voker.Ecs.World
