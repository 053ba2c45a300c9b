import Voker.Ecs.World.Rules

/-!
# What reads and stores can change

Reading changes nothing.  The writers, the cloning of components and the notes on
observed entities **change columns and nothing else**: `Storing R` says that a relation
between worlds allows that, and then all of them move by `R`.  Every frame condition gets
its walk through these parts from here.
-/

namespace Voker.Ecs.World

open Foundation Option ComponentWriter

variable {τ V α : Type} {P : Program τ V} {R : World τ V → World τ V → Prop} [Std.Refl R]

/-! ## Reads -/

theorem moves_unwrapChecked (co : Contract) (v : Option α) :
    Moves R (unwrapChecked P co v : Exec τ V α) := fun w =>
  sat_unwrapChecked.mpr ⟨fun _ _ => refl_of R w, fun _ => refl_of R w⟩

theorem moves_unwrapSome (ca : Panic) (v : Option α) :
    Moves R (unwrapSome ca v : Exec τ V α) := fun w =>
  sat_unwrapSome.mpr ⟨fun _ _ => refl_of R w, fun _ => refl_of R w⟩

theorem moves_unwrapOk {ε : Type} (ca : Panic) (v : Except ε α) :
    Moves R (unwrapOk ca v : Exec τ V α) := fun w =>
  sat_unwrapOk.mpr ⟨fun _ _ => refl_of R w, fun _ _ => refl_of R w⟩

theorem moves_debugAssert (cond : Bool) : Moves R (debugAssert P cond : Exec τ V Unit) := by
  intro w
  rw [sat_debugAssert]
  split
  · exact refl_of R w
  · exact refl_of R w

theorem moves_archetype (id : ArcheId) : Moves R (archetype P id : Exec τ V Archetype) :=
  fun w => sat_archetype.mpr ⟨fun _ _ => refl_of R w, fun _ => refl_of R w⟩

theorem moves_table (id : TableId) : Moves R (table P id : Exec τ V (Table V)) :=
  fun w => sat_table.mpr ⟨fun _ _ => refl_of R w, fun _ => refl_of R w⟩

theorem moves_spawnedLocation (e : Entity) :
    Moves R (spawnedLocation e : Exec τ V EntityLocation) := fun w =>
  sat_spawnedLocation.mpr ⟨fun _ _ => refl_of R w, fun _ _ => refl_of R w⟩

theorem moves_readValue (cell : Option V) : Moves R (readValue cell : Exec τ V V) :=
  fun w => sat_readValue.mpr ⟨fun _ _ => refl_of R w, fun _ => refl_of R w⟩

theorem moves_debugCanSpawn (e : Entity) : Moves R (debugCanSpawn P e : Exec τ V Unit) := by
  intro w
  rw [sat_debugCanSpawn]
  split
  · exact ⟨fun _ => refl_of R w, fun _ _ => refl_of R w⟩
  · exact refl_of R w

theorem moves_componentId (type : τ) : Moves R (componentId P type : Exec τ V ComponentId) := by
  intro w
  unfold componentId
  exact moves_unwrapChecked _ _ w

theorem moves_getById (e : Entity) (loc : EntityLocation) (id : ComponentId) :
    Moves R (getById P e loc id) := by
  intro w
  unfold getById
  rw [sat_bind]
  refine sat_archetype.mpr ⟨fun a _ => ?_, fun _ => refl_of R w⟩
  split
  · rw [sat_bind]
    refine sat_table.mpr ⟨fun t _ => ?_, fun _ => refl_of R w⟩
    rw [sat_bind]
    exact sat_unwrapChecked.mpr ⟨fun _ _ => refl_of R w, fun _ => refl_of R w⟩
  · split
    · rw [sat_bind]
      refine sat_mapOf.mpr ⟨fun hf _ => ?_, fun _ => refl_of R w⟩
      rw [sat_bind]
      exact sat_unwrapChecked.mpr ⟨fun _ _ => refl_of R w, fun _ => refl_of R w⟩
    · exact refl_of R w

omit [Std.Refl R] in
/-- A guard moves as its body and its cleanup do. -/
theorem moves_onPanic [IsTrans (World τ V) R] {cl : Exec τ V Unit} {body : Exec τ V α}
    (hc : Moves R cl) (hi : Moves R body) : Moves R (onPanic cl body) := by
  intro w
  rw [sat_onPanic]
  refine (hi w).mono (fun _ _ hm => hm) (fun f post hm => ?_)
  cases f with
  | panic ca =>
    refine (hc post).mono (fun _ _ ha => trans_of R hm ha) (fun two fi ha => ?_)
    cases two with
    | panic _ => exact trans_of R hm ha
    | _ => exact trans_of R hm ha
  | _ => exact hm

/-! ## Stores -/

omit [Std.Refl R] in
theorem mapAt_eq_some {w : World τ V} {c : ComponentId} {hf : MapId × Map V}
    (he : w.mapAt c = some hf) : w.maps.getId c = some hf.1 ∧ w.maps.maps[hf.1]? = some hf.2 := by
  obtain ⟨id, hk, hr⟩ := bind_eq_some_iff.mp he
  obtain ⟨map, hst, rfl⟩ := map_eq_some_iff.mp hr
  exact ⟨hk, hst⟩

/-- The relation allows columns to change. -/
structure Storing (R : World τ V → World τ V → Prop) : Prop where
  dense : ∀ (world : World τ V) (id : TableId) (table : Table V)
    (column : ComponentId → Column V), world.tables.tables[id]? = some table →
    R world (world.setTable id { table with column := column })
  sparse : ∀ (world : World τ V) (id : MapId) (map : Map V) (column : Column V),
    world.maps.maps[id]? = some map → R world (world.setMap id { map with column := column })

/-- Storing a value in a table column. -/
theorem moves_storeDense (stores : Storing R) (writer : ComponentWriter) (c : ComponentId)
    {s : Table V → Tick → Table V}
    (hsa : ∀ t tick, ∃ column, s t tick = { t with column := column }) :
    Moves R (writer.storeDense P c s) := by
  intro w
  unfold storeDense
  rw [sat_bind]
  refine sat_table.mpr ⟨fun t hf => ?_, fun _ => refl_of _ w⟩
  rw [sat_bind]
  refine sat_unwrapChecked.mpr ⟨fun _ _ => ?_, fun _ => refl_of _ w⟩
  rw [sat_modify]
  obtain ⟨column, hs⟩ := hsa t w.thisRun
  rw [hs]
  exact stores.dense w _ t column hf

/-- Storing a value in a map. -/
theorem moves_storeSparse (stores : Storing R) (writer : ComponentWriter) (c : ComponentId)
    {s : Map V → MapRow → Tick → Map V}
    (hsa : ∀ map row tick, ∃ column, s map row tick = { map with column := column }) :
    Moves R (writer.storeSparse P c s) := by
  intro w
  unfold storeSparse
  rw [sat_bind]
  refine sat_mapOf.mpr ⟨fun hf he => ?_, fun _ => refl_of _ w⟩
  rw [sat_bind]
  refine sat_unwrapChecked.mpr ⟨fun row _ => ?_, fun _ => refl_of _ w⟩
  rw [sat_modify]
  obtain ⟨column, hs⟩ := hsa hf.2 row w.thisRun
  rw [hs]
  exact stores.sparse w _ _ column (mapAt_eq_some he).2

variable [IsTrans (World τ V) R]

section

variable (stores : Storing R)

include stores

section

variable (writer : ComponentWriter)

section

variable (c : ComponentId)

theorem moves_initDense (v : V) : Moves R (writer.initDense P c v) :=
  (moves_storeDense stores writer c fun _ _ => ⟨_, rfl⟩).bind fun _ => .pure _

theorem moves_initSparse (v : V) : Moves R (writer.initSparse P c v) :=
  (moves_storeSparse stores writer c fun _ _ _ => ⟨_, rfl⟩).bind fun _ => .pure _

theorem moves_writeDense (v : V) : Moves R (writer.writeDense P c v) := by
  refine (moves_storeDense stores writer c fun t tick => ?_).bind fun _ => .pure _
  split
  · exact ⟨_, rfl⟩
  · exact ⟨_, rfl⟩

theorem moves_writeSparse (v : V) : Moves R (writer.writeSparse P c v) := by
  refine (moves_storeSparse stores writer c fun map row tick => ?_).bind fun _ => .pure _
  split
  · exact ⟨_, rfl⟩
  · exact ⟨_, rfl⟩

end

theorem moves_writeRequired (type : τ) : Moves R (writer.writeRequired P type) := by
  refine (moves_componentId type).bind fun c => ?_
  split
  · exact .pure _
  · refine (moves_unwrapSome _ _).bind fun v => ?_
    cases (P.decl type).storage with
    | dense => exact moves_initDense stores writer c v
    | sparse => exact moves_initSparse stores writer c v

theorem moves_writeExplicit (f : τ × V) : Moves R (writer.writeExplicit P f) := by
  refine (moves_componentId f.1).bind fun c => ?_
  cases (P.decl f.1).storage with
  | dense => exact moves_writeDense stores writer c f.2
  | sparse => exact moves_writeSparse stores writer c f.2

end

theorem moves_bundle_writeExplicit (b : Bundle τ V) (writer : ComponentWriter) :
    Moves R (b.writeExplicit P writer) :=
  .foldlM (fun writer f _ => moves_writeExplicit stores writer f) writer

theorem moves_bundle_writeRequired (type : BundleType τ) (writer : ComponentWriter) :
    Moves R (type.writeRequired P writer) :=
  .foldlM (fun writer _ _ =>
    .foldlM (fun writer r _ => moves_writeRequired stores writer r) writer) writer

/-- `insert_local`. -/
theorem moves_insertLocal (e : Entity) (loc : EntityLocation) (b : Bundle τ V) :
    Moves R (insertLocal P e loc b) :=
  (moves_archetype _).bind fun _ =>
    (moves_bundle_writeExplicit stores b _).bind fun _ => .pure _

/-! ## Cloned values -/

theorem moves_putById (e : Entity) (loc : EntityLocation) (id : ComponentId)
    (v : Option V) : Moves R (putById P e loc id v) := by
  refine (moves_archetype _).bind fun a => ?_
  split
  · intro w
    rw [sat_bind]
    refine sat_table.mpr ⟨fun t hf => ?_, fun _ => refl_of _ w⟩
    exact stores.dense w _ t _ hf
  · intro w
    rw [sat_bind]
    refine sat_mapOf.mpr ⟨fun hf he => ?_, fun _ => refl_of _ w⟩
    rw [sat_bind]
    refine sat_unwrapChecked.mpr ⟨fun row _ => ?_, fun _ => refl_of _ w⟩
    exact stores.sparse w _ _ _ (mapAt_eq_some he).2

theorem moves_cloneComponent (link : Bool) (src t : Entity)
    (sl tl : EntityLocation) (cl : EntityCloner V) (id : ComponentId) :
    Moves R (cloneComponent P link src t sl tl cl id) := by
  refine Moves.bind .read fun w => ?_
  refine (moves_unwrapChecked _ _).bind fun type => ?_
  refine (moves_getById src sl id).bind fun hf => ?_
  refine (moves_unwrapSome _ _).bind fun cell => ?_
  refine (moves_getById t tl id).bind fun p => ?_
  refine (moves_unwrapSome _ _).bind fun _ => ?_
  cases (P.decl type).cloner with
  | copyable ca =>
    exact (moves_putById stores t tl id cell).bind fun _ => .pure _
  | custom call =>
    refine (moves_readValue cell).bind fun v => ?_
    refine (moves_unwrapSome _ _).bind fun res => ?_
    refine (moves_unwrapSome _ _).bind fun wr => ?_
    exact (moves_putById stores t tl id _).bind fun _ => .pure _

theorem moves_cloneComponents (link : Bool) (src t : Entity)
    (tl : EntityLocation) (cl : EntityCloner V) : Moves R
      (cloneComponents P link src t tl cl) := by
  refine (moves_debugAssert _).bind fun _ => ?_
  refine (moves_spawnedLocation src).bind fun sl => ?_
  refine (moves_archetype _).bind fun a => ?_
  refine (moves_debugAssert _).bind fun _ => ?_
  exact .foldlM (fun cl id _ => moves_cloneComponent stores link src t
    sl tl cl id) cl

theorem moves_runCallback (m : CloneEntityMapper) (ca : PendingCallback V) :
    Moves R (runCallback P m ca) := by
  refine (moves_spawnedLocation _).bind fun loc => ?_
  refine (moves_getById _ loc _).bind fun hf => ?_
  refine (moves_unwrapSome _ _).bind fun cell => ?_
  refine (moves_readValue cell).bind fun v => ?_
  refine (moves_unwrapSome _ _).bind fun res => ?_
  exact (moves_putById stores _ loc _ _).bind fun _ => .pure _

/-! ## Observed entities -/

omit [IsTrans (World τ V) R] in
theorem moves_pushObservedBy (e : Entity) (loc : EntityLocation) (id : ObserverId) :
    Moves R (pushObservedBy P e loc id) := by
  intro w
  unfold pushObservedBy
  rw [sat_bind, sat_get]
  cases w.components.getId P.observedBy with
  | none => exact refl_of R w
  | some c =>
    cases (P.decl P.observedBy).storage with
    | dense =>
      rw [sat_bind]
      refine sat_table.mpr ⟨fun t hf => ?_, fun _ => refl_of _ w⟩
      split
      · rw [sat_bind]
        refine sat_readValue.mpr ⟨fun v _ => ?_, fun _ => refl_of _ w⟩
        exact stores.dense w _ t _ hf
      · exact refl_of R w
    | sparse =>
      dsimp only
      split
      · exact refl_of R w
      · next map hf row hp =>
        obtain ⟨n, -, hr⟩ := bind_eq_some_iff.mp hp
        obtain ⟨hst, he, hl⟩ := bind_eq_some_iff.mp hr
        obtain ⟨held, -, hs⟩ := map_eq_some_iff.mp hl
        obtain ⟨rfl, rfl, rfl⟩ : n = map ∧ hst = hf ∧ held = row := by
          simpa using hs
        rw [sat_bind]
        refine sat_readValue.mpr ⟨fun v _ => ?_, fun _ => refl_of _ w⟩
        exact stores.sparse w _ _ _ he

end

end Voker.Ecs.World
