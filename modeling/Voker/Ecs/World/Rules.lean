import Voker.Ecs.World.Ops

/-!
# What the primitive operations do

One rule per primitive: in which state it returns which value, and when it fails.  All
proofs about the operations of a world go through these rules and never look into a
primitive again.
-/

namespace Voker.Ecs.World

open Foundation

variable {τ V α : Type} {P : Program τ V} {w : World τ V}
  {fails : Fault → World τ V → Prop}

/-! ## Unwrapping -/

variable {v : Option α} {contract : Contract} {cause : Panic} {es : Entities}
  {loc : EntityLocation}

section

variable {ret : α → World τ V → Prop}

theorem sat_unwrapChecked : Sat (unwrapChecked P contract v) w ret fails ↔
      (∀ res, v = some res → ret res w) ∧ (v = none → fails (violation P contract) w) := by
  cases v with
  | none => simp [unwrapChecked]
  | some res => simp [unwrapChecked]

theorem sat_unwrapSome : Sat (unwrapSome cause v) w ret fails ↔
      (∀ res, v = some res → ret res w) ∧ (v = none → fails (.panic cause) w) := by
  cases v with
  | none => simp [unwrapSome]
  | some res => simp [unwrapSome]

theorem sat_unwrapOk {ε : Type} {v : Except ε α} : Sat (unwrapOk cause v) w ret fails ↔
      (∀ res, v = .ok res → ret res w) ∧ (∀ err, v = .error err → fails (.panic cause) w) := by
  cases v with
  | error err => simp [unwrapOk]
  | ok res => simp [unwrapOk]

end

variable {ret : Unit → World τ V → Prop} {id : ArcheId} {e : Entity} {row : ℕ}
  {drop : Bool} {c : ComponentId} {moved : MovedEntityRow}

theorem sat_debugAssert {cond : Bool} : Sat (debugAssert P cond) w ret fails ↔
      if P.debugAssertions && !cond then fails (.panic .assertion) w
      else ret () w := by
  unfold debugAssert
  split
  · exact Iff.rfl
  · exact Iff.rfl

/-! ## Archetypes -/

theorem sat_archetype {ret : Archetype → World τ V → Prop} : Sat (archetype P id) w ret fails ↔
      (∀ a, w.archetypes.arches[id]? = some a → ret a w) ∧
        (w.archetypes.arches[id]? = none → fails (violation P .archetype) w) := by
  unfold archetype
  rw [sat_bind, sat_get, sat_unwrapChecked]

theorem sat_allocArcheRow {ret : ℕ → World τ V → Prop} :
    Sat (allocArcheRow P id e) w ret fails ↔ (∀ a, w.archetypes.arches[id]? = some a →
        ret a.entities.length
          (w.setArche id { a with entities := a.entities ++ [e] })) ∧
        (w.archetypes.arches[id]? = none → fails (violation P .archetype) w) := by
  unfold allocArcheRow
  rw [sat_bind, sat_archetype]
  exact Iff.rfl

theorem sat_deallocArcheRow {ret : MovedEntityRow → World τ V → Prop} :
    Sat (deallocArcheRow P id row) w ret fails ↔ (∀ a, w.archetypes.arches[id]? = some a →
        if row < a.entities.length then
          ret (.inArche (swapped a.entities row) row)
            (w.setArche id { a with entities := swapRemove a.entities row })
        else fails (violation P .archeRow) w) ∧
        (w.archetypes.arches[id]? = none → fails (violation P .archetype) w) := by
  unfold deallocArcheRow
  rw [sat_bind, sat_archetype]
  refine and_congr_left fun _ => forall_congr' fun a => imp_congr_right fun _ => ?_
  rw [sat_bind, sat_unwrapChecked, Archetype.deallocRow]
  split
  · simp
  · simp

/-! ## Tables -/

theorem sat_table {id : TableId} {ret : Table V → World τ V → Prop} : Sat (table P id) w ret fails ↔
      (∀ table, w.tables.tables[id]? = some table → ret table w) ∧
        (w.tables.tables[id]? = none → fails (violation P .table) w) := by
  unfold table
  rw [sat_bind, sat_get, sat_unwrapChecked]

theorem sat_allocTableRow {id : TableId} {ret : ℕ → World τ V → Prop} :
    Sat (allocTableRow P id e) w ret fails ↔ (∀ t, w.tables.tables[id]? = some t →
        ret t.entities.length (w.setTable id (t.allocRow e).2)) ∧
        (w.tables.tables[id]? = none → fails (violation P .table) w) := by
  unfold allocTableRow
  rw [sat_bind, sat_table]
  exact Iff.rfl

theorem sat_deallocTableRow {id : TableId} {ret : MovedEntityRow → World τ V → Prop} :
    Sat (deallocTableRow P drop id row) w ret fails ↔
      (∀ t, w.tables.tables[id]? = some t → (∀ res, t.deallocRow drop row = some res →
          ret res.1 (w.setTable id res.2)) ∧
        (t.deallocRow drop row = none → fails (violation P .tableRow) w)) ∧
        (w.tables.tables[id]? = none → fails (violation P .table) w) := by
  unfold deallocTableRow
  rw [sat_bind, sat_table]
  refine and_congr_left fun _ => forall_congr' fun t => imp_congr_right fun _ => ?_
  rw [sat_bind, sat_unwrapChecked]
  exact Iff.rfl

theorem sat_moveTableRow {src t : TableId} {ret : MovedEntityRow × ℕ → World τ V → Prop} :
    Sat (moveTableRow P drop src t row) w ret fails ↔
      (∀ one, w.tables.tables[src]? = some one → (∀ two, w.tables.tables[t]? = some two →
          (∀ res, one.moveRow drop row two = some res → ret (res.1, res.2.1)
              ((w.setTable src res.2.2.1).setTable t res.2.2.2)) ∧
          (one.moveRow drop row two = none → fails (violation P .tableRow) w)) ∧
        (w.tables.tables[t]? = none → fails (violation P .table) w)) ∧
        (w.tables.tables[src]? = none → fails (violation P .table) w) := by
  unfold moveTableRow
  rw [sat_bind, sat_table]
  refine and_congr_left fun _ => forall_congr' fun one => imp_congr_right fun _ => ?_
  rw [sat_bind, sat_table]
  refine and_congr_left fun _ => forall_congr' fun two => imp_congr_right fun _ => ?_
  rw [sat_bind, sat_unwrapChecked]
  exact Iff.rfl

/-! ## Maps -/

/-- The map of a component. -/
def mapAt (world : World τ V) (component : ComponentId) : Option (MapId × Map V) :=
  (world.maps.getId component).bind fun id => world.maps.maps[id]?.map fun map => (id, map)

theorem sat_mapOf {ret : MapId × Map V → World τ V → Prop} : Sat (mapOf P c) w ret fails ↔
      (∀ hf, w.mapAt c = some hf → ret hf w) ∧ (w.mapAt c = none → fails (violation P .map) w) := by
  unfold mapOf mapAt
  rw [sat_bind, sat_get, sat_bind, sat_unwrapChecked]
  cases w.maps.getId c with
  | none => simp
  | some id =>
    simp only [sat_bind, sat_unwrapChecked, sat_pure, Option.some.injEq, forall_eq',
      Option.bind_some, reduceCtorEq, false_implies, and_true]
    cases w.maps.maps[id]? with
    | none => simp
    | some map => simp

theorem sat_allocMapRow : Sat (allocMapRow P c e) w ret fails ↔ (∀ hf, w.mapAt c = some hf →
        ret () (w.setMap hf.1 (hf.2.allocRow P.growth e).2)) ∧
        (w.mapAt c = none → fails (violation P .map) w) := by
  unfold allocMapRow
  rw [sat_bind, sat_mapOf]
  exact Iff.rfl

theorem sat_deallocMapRow : Sat (deallocMapRow P drop c e) w ret fails ↔
      (∀ hf, w.mapAt c = some hf → (∀ row, hf.2.getMapRow e = some row →
          (∀ post, hf.2.deallocRow drop row = some post → ret () (w.setMap hf.1 post)) ∧
          (hf.2.deallocRow drop row = none → fails (violation P .mapRow) w)) ∧
        (hf.2.getMapRow e = none → fails (.panic .mapRowMissing) w)) ∧
        (w.mapAt c = none → fails (violation P .map) w) := by
  unfold deallocMapRow
  rw [sat_bind, sat_mapOf]
  refine and_congr_left fun _ => forall_congr' fun hf => imp_congr_right fun _ => ?_
  rw [sat_bind, sat_unwrapSome]
  refine and_congr_left fun _ => forall_congr' fun row => imp_congr_right fun _ => ?_
  rw [sat_bind, sat_unwrapChecked]
  exact Iff.rfl

/-! ## The entity table and the allocator -/

theorem sat_updateRow : Sat (updateRow moved) w ret fails ↔
      (∀ es, w.entities.updateRow moved = .ok es → ret () { w with entities := es }) ∧
        (∀ err, w.entities.updateRow moved = .error err →
          fails (.panic .moveFailed) w) := by
  unfold updateRow
  rw [sat_bind, sat_get, sat_bind, sat_unwrapOk]
  exact Iff.rfl

/-- A row update whose result is known. -/
theorem sat_updateRow_ok (hr : w.entities.updateRow moved = .ok es)
    (ho : ret () { w with entities := es }) :
    Sat (updateRow moved) w ret fails := by
  refine sat_updateRow.mpr ⟨fun res out => ?_, fun err hf => ?_⟩
  · obtain rfl := Except.ok.inj (hr.symm.trans out)
    exact ho
  · cases hr.symm.trans hf

section

variable {ret : Except MoveError Unit → World τ V → Prop}

theorem sat_tryUpdateRow : Sat (tryUpdateRow moved) w ret fails ↔
      (∀ es, w.entities.updateRow moved = .ok es → ret (.ok ()) { w with entities := es }) ∧
        (∀ err, w.entities.updateRow moved = .error err →
          ret (.error err) w) := by
  unfold tryUpdateRow
  rw [sat_bind, sat_get]
  cases w.entities.updateRow moved with
  | ok es => simp
  | error err => simp

theorem sat_tryUpdateRow_ok (hr : w.entities.updateRow moved = .ok es)
    (ho : ret (.ok ()) { w with entities := es }) :
    Sat (tryUpdateRow moved) w ret fails := by
  refine sat_tryUpdateRow.mpr ⟨fun res out => ?_, fun err hf => ?_⟩
  · obtain rfl := Except.ok.inj (hr.symm.trans out)
    exact ho
  · cases hr.symm.trans hf

end

theorem sat_updateLocation : Sat (updateLocation e loc) w ret fails ↔
      (∀ es, w.entities.updateLocation e loc = .ok es → ret () { w with entities := es }) ∧
        (∀ err, w.entities.updateLocation e loc = .error err →
          fails (.panic .moveFailed) w) := by
  unfold updateLocation
  rw [sat_bind, sat_get, sat_bind, sat_unwrapOk]
  exact Iff.rfl

theorem sat_setSpawned : Sat (setSpawned P e loc) w ret fails ↔
      (∀ es, w.entities.setSpawned P.growth e loc = .ok es → ret () { w with entities := es }) ∧
        (∀ err, w.entities.setSpawned P.growth e loc = .error err →
          fails (.panic .cannotSpawn) w) := by
  unfold setSpawned
  rw [sat_bind, sat_get, sat_bind, sat_unwrapOk]
  exact Iff.rfl

theorem sat_setDespawned {ret : EntityLocation → World τ V → Prop} :
    Sat (setDespawned P e) w ret fails ↔ (∀ res, w.entities.setDespawned e = .ok res →
        ret res.1 { w with entities := res.2 }) ∧
        (∀ err, w.entities.setDespawned e = .error err →
          fails (violation P .spawned) w) := by
  unfold setDespawned
  rw [sat_bind, sat_get, sat_bind, sat_unwrapChecked]
  cases w.entities.setDespawned e with
  | ok res => simp [Except.toOption]
  | error err => simp [Except.toOption]

theorem sat_debugCanSpawn : Sat (debugCanSpawn P e) w ret fails ↔
      if P.debugAssertions then
        (w.entities.canSpawn e = .ok () → ret () w) ∧
          (∀ err, w.entities.canSpawn e = .error err → fails (.panic .cannotSpawn) w)
      else ret () w := by
  unfold debugCanSpawn
  split
  · rw [sat_bind, sat_get, sat_unwrapOk]
    refine and_congr_left fun _ => ?_
    exact ⟨fun all hok => all () hok, fun all _ hok => all hok⟩
  · exact Iff.rfl

theorem sat_allocMut {ret : Entity → World τ V → Prop} : Sat allocMut w ret fails ↔
      (∀ e, w.allocator.allocMut.1 = some e →
        ret e { w with allocator := w.allocator.allocMut.2 }) ∧
        (w.allocator.allocMut.1 = none →
          fails (.panic .tooManyEntities)
            { w with allocator := w.allocator.allocMut.2 }) := by
  unfold allocMut
  rw [sat_bind, sat_get, sat_bind, sat_set, sat_unwrapSome]

theorem sat_spawnedLocation {ret : EntityLocation → World τ V → Prop} :
    Sat (spawnedLocation e) w ret fails ↔ (∀ loc, w.entities.locate e = .ok loc → ret loc w) ∧
        (∀ err, w.entities.locate e = .error err → fails (.panic .notSpawned) w) := by
  unfold spawnedLocation
  rw [sat_bind, sat_get, sat_unwrapOk]

theorem sat_registering {r : World τ V → Option (α × World τ V)}
    {ret : α → World τ V → Prop} : Sat (registering P contract r) w ret fails ↔
      (∀ res, r w = some res → ret res.1 res.2) ∧
        (r w = none → fails (violation P contract) w) := by
  unfold registering
  rw [sat_bind, sat_get, sat_bind, sat_unwrapChecked]
  exact Iff.rfl

theorem sat_readValue {cell : Option V} {ret : V → World τ V → Prop} :
    Sat (readValue cell) w ret fails ↔ (∀ v, cell = some v → ret v w) ∧
        (cell = none → fails (.undefined .value) w) := by
  cases cell with
  | none => simp [readValue]
  | some v => simp [readValue]

/-! ## Guards -/

/-- A guard: the body's panics run the cleanup, whose panics abort. -/
theorem sat_onPanic {cl : Exec τ V Unit} {body : Exec τ V α} {ret : α → World τ V → Prop} :
    Sat (onPanic cl body) w ret fails ↔ Sat body w ret fun fa post =>
        match fa with
        | .panic cause =>
          Sat cl post (fun _ f => fails (.panic cause) f) fun two f =>
            match two with
            | .panic _ => fails .abort f
            | o => fails o f
        | o => fails o post := by
  unfold onPanic
  rw [sat_tryCatch]
  refine iff_of_eq (congrArg (Sat body w ret) ?_)
  funext fa post
  cases fa with
  | panic cause =>
    refine propext ?_
    rw [sat_bind]
    unfold abortOnPanic
    rw [sat_tryCatch]
    refine iff_of_eq (congrArg (Sat cl post _) ?_)
    funext two f
    cases two with
    | panic _ => rfl
    | _ => rfl
  | _ => rfl

end Voker.Ecs.World
