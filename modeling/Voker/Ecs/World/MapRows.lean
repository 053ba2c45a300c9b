import Voker.Ecs.World.Requirements

/-!
# Lookups of sparse rows

A row of a sparse map is looked up by the entity: `get_map_row` answers, and the callers
unwrap the answer.  Here is what each part of an operation does to the answers, and **why
none of its lookups misses**: the writers find a row if every sparse component they write
has one, taking rows back finds them if the entity has them, and a guard's cleanup asks
before it takes.
-/

namespace Voker.Ecs

open Foundation List Option Function ComponentWriter

/-- A lookup of a sparse row found none. -/
def Fault.MissesRow : Fault → Prop
  | .panic .mapRowMissing | .panic (.contract .mapRow) | .undefined .mapRow => True
  | _ => False

namespace World

variable {τ V α : Type} {P : Program τ V} {contract : Contract}

@[simp]
theorem missesRow_violation : (violation P contract).MissesRow ↔ contract = .mapRow := by
  unfold violation
  split
  · cases contract <;> simp [Fault.MissesRow]
  · cases contract <;> simp [Fault.MissesRow]

/-- Whatever the fault is, it is not a missing row. -/
def RowsFound (fault : Fault) (_ : World τ V) : Prop := ¬ fault.MissesRow

-- At a given contract the hypothesis computes to `¬ False`.
theorem rowsFound_violation {w : World τ V} (ho : ¬ (Fault.undefined contract).MissesRow) :
    RowsFound (violation P contract) w :=
  fun hm => ho (by rw [missesRow_violation.mp hm]; trivial)

theorem sat_archetype_bind {β : Type} {w : World τ V} {id : ArcheId}
    {next : Archetype → Exec τ V β} {ret : β → World τ V → Prop}
    (he : ∀ a, w.archetypes.arches[id]? = some a → Sat (next a) w ret RowsFound) :
    Sat (archetype P id >>= next) w ret RowsFound := by
  rw [sat_bind]
  exact sat_archetype.mpr ⟨he, fun _ => rowsFound_violation not_false⟩

/-! ## The index -/

section Index

variable {w : World τ V} {e : Entity} {c : ComponentId} {hf : MapId × Map V}

theorem rowOf_of_mapAt (he : w.mapAt c = some hf) (e : Entity) :
    w.maps.rowOf c e = hf.2.getMapRow e := by
  obtain ⟨hk, hst⟩ := mapAt_eq_some he
  unfold Maps.rowOf
  rw [hk, bind_some, hst, bind_some]

/-- A component without a map has no rows. -/
theorem rowOf_of_mapAt_none (ha : w.mapAt c = none) (e : Entity) : w.maps.rowOf c e = none := by
  unfold mapAt at ha
  unfold Maps.rowOf
  cases hk : w.maps.getId c with
  | none => rfl
  | some id =>
    rw [hk, bind_some, map_eq_none_iff] at ha
    rw [bind_some, ha, bind_none]

/-- Replacing the map of a component concerns the rows of that component. -/
theorem rowOf_setMap (hi : w.maps.Indexed) (he : w.mapAt c = some hf)
    (post : Map V) (o : ComponentId) (e : Entity) : (w.setMap hf.1 post).maps.rowOf o e =
      if o = c then post.getMapRow e else w.maps.rowOf o e := by
  obtain ⟨hk, hst⟩ := mapAt_eq_some he
  have hin := (List.getElem?_eq_some_iff.mp hst).1
  unfold Maps.rowOf
  by_cases hs : o = c
  · subst hs
    rw [if_pos rfl]
    change ((w.maps.getId o).bind fun map => (w.maps.maps.set hf.1 post)[map]?).bind _ = _
    rw [hk, bind_some, getElem?_set_self hin, bind_some]
  · rw [if_neg hs]
    change ((w.maps.getId o).bind fun map => (w.maps.maps.set hf.1 post)[map]?).bind _ = _
    cases n : w.maps.getId o with
    | none => rfl
    | some id =>
      -- one map serves one component
      have ha : hf.1 ≠ id := by
        rintro rfl
        exact hs (some.inj (((hi o _).mp n).symm.trans ((hi c _).mp hk)))
      rw [bind_some, bind_some, getElem?_set_ne ha]

end Index

/-! ## What leaves the index alone -/

/-- Every entity has the rows it had. -/
structure SameIndex (before after : World τ V) : Prop where
  components : after.components = before.components
  rows : ∀ component entity,
    after.maps.rowOf component entity = before.maps.rowOf component entity

/-- Only values are stored. -/
structure Stored (before after : World τ V) : Prop extends SameIndex before after where
  archetypes : after.archetypes = before.archetypes
  entities : after.entities = before.entities

theorem Stored.refl (w : World τ V) : Stored w w :=
  ⟨⟨rfl, fun _ _ => rfl⟩, rfl, rfl⟩

theorem Stored.trans {fst snd t : World τ V} (one : Stored fst snd)
    (two : Stored snd t) : Stored fst t :=
  ⟨⟨two.components.trans one.components, fun c e =>
    (two.rows c e).trans (one.rows c e)⟩,
    two.archetypes.trans one.archetypes, two.entities.trans one.entities⟩

instance : Std.Refl (@Stored τ V) := ⟨Stored.refl⟩

instance : IsTrans (World τ V) Stored := ⟨fun _ _ _ => Stored.trans⟩

theorem storing_stored : Storing (@Stored τ V) where
  dense := fun _ _ _ _ _ => ⟨⟨rfl, fun _ _ => rfl⟩, rfl, rfl⟩
  sparse := fun w id map column hf => ⟨⟨rfl, fun c e =>
    @rowOf_setMap_of_mapper τ V w id map { map with column := column } hf e rfl
      c⟩, rfl, rfl⟩

/-! ## Writers -/

/-- The sparse ones among the types have a row for the entity. -/
def Served (P : Program τ V) (world : World τ V) (entity : Entity) (types : List τ) : Prop :=
  ∀ type ∈ types, (P.decl type).storage = .sparse → ∀ id,
    world.components.getId type = some id → (world.maps.rowOf id entity).isSome = true

section Writers

variable {w : World τ V} {e : Entity} {types : List τ}

theorem Served.sameIndex {post : World τ V} (hs : Served P w e types)
    (hsa : SameIndex w post) : Served P post e types := by
  intro type mem hsp id hk
  rw [hsa.components] at hk
  rw [hsa.rows]
  exact hs type mem hsp id hk

theorem Served.mono {f : List τ} (hs : Served P w e types)
    (hsu : ∀ type ∈ f, type ∈ types) : Served P w e f :=
  fun type mem => hs type (hsu type mem)

theorem found_storeDense (writer : ComponentWriter) (c : ComponentId)
    {s : Table V → Tick → Table V}
    (hsa : ∀ t tick, ∃ column, s t tick = { t with column := column }) :
    Sat (writer.storeDense P c s) w (fun _ post => Stored w post)
      RowsFound := by
  unfold storeDense
  rw [sat_bind]
  refine sat_table.mpr ⟨fun t hf => ?_, fun _ => rowsFound_violation not_false⟩
  rw [sat_bind]
  refine sat_unwrapChecked.mpr ⟨fun _ _ => ?_, fun _ => rowsFound_violation not_false⟩
  rw [sat_modify]
  obtain ⟨column, hs⟩ := hsa t w.thisRun
  rw [hs]
  exact storing_stored.dense w _ t column hf

variable {writer : ComponentWriter}

theorem found_storeSparse {c : ComponentId} (row : (w.maps.rowOf c writer.entity).isSome = true)
    {s : Map V → MapRow → Tick → Map V}
    (hsa : ∀ map row tick, ∃ column, s map row tick = { map with column := column }) :
    Sat (writer.storeSparse P c s) w (fun _ post => Stored w post)
      RowsFound := by
  unfold storeSparse
  rw [sat_bind]
  refine sat_mapOf.mpr ⟨fun hf he => ?_, fun _ => rowsFound_violation not_false⟩
  rw [rowOf_of_mapAt he] at row
  rw [sat_bind]
  refine sat_unwrapChecked.mpr ⟨fun held _ => ?_, fun ha => ?_⟩
  · rw [sat_modify]
    obtain ⟨column, hs⟩ := hsa hf.2 held w.thisRun
    rw [hs]
    exact storing_stored.sparse w _ _ column (mapAt_eq_some he).2
  · rw [ha] at row
    cases row

theorem found_componentId {type : τ} {ret : ComponentId → World τ V → Prop}
    (hk : ∀ id, w.components.getId type = some id → ret id w) :
    Sat (componentId P type : Exec τ V ComponentId) w ret RowsFound := by
  unfold componentId
  exact sat_unwrapChecked.mpr ⟨hk, fun _ => rowsFound_violation not_false⟩

theorem found_writeExplicit (writer : ComponentWriter) (f : τ × V)
    (hs : Served P w writer.entity [f.1]) : Sat (writer.writeExplicit P f) w
      (fun next post => next.entity = writer.entity ∧ Stored w post) RowsFound := by
  unfold writeExplicit
  rw [sat_bind]
  refine found_componentId fun id hk => ?_
  cases hm : (P.decl f.1).storage with
  | dense =>
    refine (found_storeDense writer id fun t tick => ?_).bind (fun _ _ hst => ⟨rfl, hst⟩)
    split
    · exact ⟨_, rfl⟩
    · exact ⟨_, rfl⟩
  | sparse =>
    refine (found_storeSparse (hs f.1 mem_cons_self hm id hk)
      fun map row tick => ?_).bind (fun _ _ hst => ⟨rfl, hst⟩)
    split
    · exact ⟨_, rfl⟩
    · exact ⟨_, rfl⟩

theorem found_writeRequired (writer : ComponentWriter) (type : τ)
    (hs : Served P w writer.entity [type]) : Sat (writer.writeRequired P type) w
      (fun next post => next.entity = writer.entity ∧ Stored w post) RowsFound := by
  unfold writeRequired
  rw [sat_bind]
  refine found_componentId fun id hk => ?_
  split
  · exact ⟨rfl, Stored.refl w⟩
  rw [sat_bind]
  refine sat_unwrapSome.mpr ⟨fun v _ => ?_, fun _ => not_false⟩
  cases hm : (P.decl type).storage with
  | dense =>
    exact (found_storeDense writer id fun _ _ => ⟨_, rfl⟩).bind (fun _ _ hst => ⟨rfl, hst⟩)
  | sparse =>
    exact (found_storeSparse (hs type mem_cons_self hm id hk)
      fun _ _ _ => ⟨_, rfl⟩).bind (fun _ _ hst => ⟨rfl, hst⟩)

/-- Writes one after the other. -/
theorem found_foldlM {β : Type} {i : List β}
    {body : ComponentWriter → β → Exec τ V ComponentWriter}
    (he : ∀ item ∈ i, ∀ (next : ComponentWriter) (mid : World τ V),
      next.entity = writer.entity → Stored w mid → Sat (body next item) mid
        (fun last post => last.entity = next.entity ∧ Stored mid post) RowsFound)
    : Sat (i.foldlM body writer) w
      (fun last post => last.entity = writer.entity ∧ Stored w post) RowsFound := by
  refine @Sat.foldlM _ _ _ _ _ _ _ (fun _ (next : ComponentWriter) mid =>
    next.entity = writer.entity ∧ Stored w mid) _ ?_ _ ⟨rfl, Stored.refl w⟩
  rintro done item rest hs next mid ⟨e, hst⟩
  refine (he item (by rw [hs]; simp) next mid e hst).mono ?_ fun _ _ hf => hf
  exact fun last post hk => ⟨hk.1.trans e, hst.trans hk.2⟩

/-- `Bundle::write_explicit` finds the rows of the bundle's components. -/
theorem found_bundle_writeExplicit (b : Bundle τ V) (writer : ComponentWriter)
    (hs : Served P w writer.entity b.type.components) : Sat (b.writeExplicit P writer) w
      (fun last post => last.entity = writer.entity ∧ Stored w post) RowsFound := by
  refine found_foldlM fun f mem next mid hsa hst => ?_
  refine found_writeExplicit next f ?_
  rw [hsa]
  refine (hs.sameIndex hst.toSameIndex).mono fun type he => ?_
  rw [mem_singleton.mp he, ← map_fst_zip b.sized.ge]
  exact mem_map_of_mem mem

/-- `Bundle::write_required` finds the rows of what the components require directly. -/
theorem found_bundle_writeRequired (type : BundleType τ) (writer : ComponentWriter)
    (hs : ∀ c ∈ type.components, Served P w writer.entity (P.requires c)) :
    Sat (type.writeRequired P writer) w
      (fun last post => last.entity = writer.entity ∧ Stored w post) RowsFound := by
  refine found_foldlM fun c mem next mid hsa hst => ?_
  refine found_foldlM fun r hin last l ha hm => ?_
  refine found_writeRequired last r ?_
  rw [ha, hsa]
  refine ((hs c mem).sameIndex (hst.trans hm).toSameIndex).mono fun type he => ?_
  rw [mem_singleton.mp he]
  exact hin

end Writers

/-! ## Rows that come and go -/

section Rows

variable {w : World τ V} {e : Entity}

section

variable (reg : Registered P w)

include reg

/-- The map of a component hands out a row. -/
theorem rows_allocMapRow (c : ComponentId) : Sat (allocMapRow P c e) w
      (fun _ post => post.components = w.components ∧ post.entities = w.entities ∧
        ∀ o, (post.maps.rowOf o e).isSome = true ↔
          o = c ∨ (w.maps.rowOf o e).isSome = true)
      RowsFound := by
  refine sat_allocMapRow.mpr ⟨fun hf he => ⟨rfl, rfl, fun o => ?_⟩,
    fun _ => rowsFound_violation not_false⟩
  rw [rowOf_setMap reg.maps he]
  by_cases hs : o = c
  · rw [if_pos hs, Map.getMapRow, Map.mapper_allocRow, update_self]
    simp [hs]
  · rw [if_neg hs]
    simp [hs]

/-- The map of a component takes a row back. -/
theorem rows_deallocMapRow (drop : Bool) {c : ComponentId}
    (hel : (w.maps.rowOf c e).isSome = true) : Sat (deallocMapRow P drop c e) w
      (fun _ post => ∀ o, (post.maps.rowOf o e).isSome = true ↔
          o ≠ c ∧ (w.maps.rowOf o e).isSome = true)
      RowsFound := by
  refine sat_deallocMapRow.mpr ⟨fun hf he => ?_, fun _ => rowsFound_violation not_false⟩
  have hso := reg.mapSound hf.2 (mem_of_getElem? (mapAt_eq_some he).2)
  rw [rowOf_of_mapAt he] at hel
  refine ⟨fun row ho => ?_, fun ha => ?_⟩
  · obtain ⟨res, hsh, -, hm, -⟩ := Map.deallocRow_eq drop hso ho
    refine ⟨fun post out o => ?_, fun ha => ?_⟩
    · obtain rfl := some.inj (hsh.symm.trans out)
      rw [rowOf_setMap reg.maps he]
      by_cases hs : o = c
      · rw [if_pos hs, Map.getMapRow, hm, update_self]
        simp [hs]
      · rw [if_neg hs]
        simp [hs]
    · cases hsh.symm.trans ha
  · rw [ha] at hel
    cases hel

/-- Rows of the archetype, its table and the maps of its sparse components. -/
theorem rows_allocRows (id : ArcheId) : Sat (allocRows P id e) w
      (fun loc post => loc.archeId = id ∧ post.components = w.components ∧
        post.entities = w.entities ∧ ∃ s, w.sliceOf id = some s ∧
          ∀ c, (post.maps.rowOf c e).isSome = true ↔ c ∈ s.sparseComponents ∨
              (w.maps.rowOf c e).isSome = true)
      RowsFound := by
  refine sat_archetype_bind fun ar hf => ?_
  rw [sat_bind]
  refine sat_allocArcheRow.mpr ⟨fun ag hia => ?_, fun _ => rowsFound_violation not_false⟩
  have hwi := (@evolves_archeRows τ V P Scope.all w id ag hia
    (ag.entities ++ [e]) (fun _ _ => .inr ⟨trivial, trivial⟩) reg).1
  rw [sat_bind]
  refine sat_allocTableRow.mpr ⟨fun t hit => ?_, fun _ => rowsFound_violation not_false⟩
  have hwr := (@evolves_setTable τ V P Scope.all _ _ t hit
    (t.allocRow e).2 rfl hwi).1
  rw [sat_bind]
  -- a row in the map of each component visited, and the rows from before
  refine (@Sat.forM _ _ _ _ _ _ (fun done (mid : World τ V) => Registered P mid ∧
    mid.components = w.components ∧ mid.entities = w.entities ∧
    ∀ c, (mid.maps.rowOf c e).isSome = true ↔
      c ∈ done ∨ (w.maps.rowOf c e).isSome = true) _ ?_ ?_).mono ?_ fun _ _ hf => hf
  · rintro done item rest - mid ⟨ho, cs, es, rows⟩
    have hm : Moves (Evolves P Scope.all) (allocMapRow P item e) :=
      moves_allocMapRow item trivial
    refine ((hm mid).and (rows_allocMapRow ho item)).mono ?_ fun _ _ hfa => hfa.2
    rintro _ post ⟨he, hsc, hse, ha⟩
    refine ⟨(he ho).1, hsc.trans cs, hse.trans es, fun c => ?_⟩
    rw [ha, rows, mem_append, mem_singleton]
    exact or_left_comm.trans or_assoc.symm
  · exact ⟨hwr, rfl, rfl, fun c => ⟨.inr, fun hei => hei.resolve_left not_mem_nil⟩⟩
  · rintro _ post ⟨-, cs, es, rows⟩
    exact ⟨rfl, cs, es, ar.toComponentSlice, sliceOf_eq hf, rows⟩

/-- Taking back the rows of some components, except those that are to stay. -/
theorem rows_release {cs : List ComponentId} (hn : cs.Nodup)
    (hel : ∀ c ∈ cs, (w.maps.rowOf c e).isSome = true)
    (s : ComponentId → Bool) : Sat (cs.forM fun c =>
        if s c then pure () else deallocMapRow P true c e) w
      (fun _ post => ∀ c, (post.maps.rowOf c e).isSome = true ↔ (c ∈ cs → s c = true) ∧
          (w.maps.rowOf c e).isSome = true)
      RowsFound := by
  refine (@Sat.forM _ _ _ _ _ _ (fun done (mid : World τ V) => Registered P mid ∧
    ∀ c, (mid.maps.rowOf c e).isSome = true ↔ (c ∈ done → s c = true) ∧
        (w.maps.rowOf c e).isSome = true) _ ?_ ?_).mono (fun _ _ hk => hk.2) fun _ _ hf => hf
  · rintro done item rest split mid ⟨ho, hr⟩
    split
    · next hst =>
      refine ⟨ho, fun c => ?_⟩
      rw [hr, mem_append, mem_singleton]
      refine and_congr_left fun _ => ⟨?_, fun all hin => all (.inl hin)⟩
      rintro he (hin | rfl)
      · exact he hin
      · exact hst
    · next hl =>
      rw [split] at hn hel
      have hu : item ∉ done := fun hin =>
        (nodup_append.mp hn).2.2 item hin item mem_cons_self rfl
      have row : (mid.maps.rowOf item e).isSome = true :=
        (hr item).mpr ⟨fun hin => absurd hin hu, hel item (by simp)⟩
      have hm : Moves (Evolves P Scope.all) (deallocMapRow P true item e) :=
        moves_deallocMapRow true item trivial
      refine ((hm mid).and (rows_deallocMapRow ho true row)).mono ?_
        fun _ _ hfa => hfa.2
      rintro _ post ⟨hev, ht⟩
      refine ⟨(hev ho).1, fun c => ?_⟩
      rw [ht, hr, mem_append, mem_singleton, ← and_assoc]
      refine and_congr_left fun _ => ⟨?_, fun all => ⟨?_, fun hin => all (.inl hin)⟩⟩
      · rintro ⟨ne, he⟩ (hin | hsa)
        · exact he hin
        · exact absurd hsa ne
      · rintro rfl
        exact hl (all (.inr rfl))
  · exact ⟨reg, fun c => by simp⟩

end

end Rows

/-! ## Rows of archetypes and tables -/

section Moving

variable {base w : World τ V} {e : Entity}

theorem found_archetype (id : ArcheId) :
    Upholds RowsFound (SameIndex base) (archetype P id : Exec τ V Archetype) :=
  fun _ hs => sat_archetype.mpr ⟨fun _ _ => hs,
    fun _ => rowsFound_violation not_false⟩

theorem found_debugAssert (cond : Bool) :
    Upholds RowsFound (SameIndex base) (debugAssert P cond : Exec τ V Unit) := by
  intro w hs
  rw [sat_debugAssert]
  split
  · exact not_false
  · exact hs

theorem found_allocArcheRow (id : ArcheId) (e : Entity) :
    Upholds RowsFound (SameIndex base) (allocArcheRow P id e) :=
  fun _ hs => sat_allocArcheRow.mpr ⟨fun _ _ => ⟨hs.components, hs.rows⟩,
    fun _ => rowsFound_violation not_false⟩

theorem found_deallocArcheRow (id : ArcheId) (row : ℕ) :
    Upholds RowsFound (SameIndex base) (deallocArcheRow P id row : Exec τ V MovedEntityRow) := by
  intro w hs
  refine sat_deallocArcheRow.mpr ⟨fun a _ => ?_, fun _ => rowsFound_violation not_false⟩
  split
  · exact ⟨hs.components, hs.rows⟩
  · exact rowsFound_violation not_false

theorem found_deallocTableRow (drop : Bool) (id : TableId) (row : ℕ) :
    Upholds RowsFound (SameIndex base) (deallocTableRow P drop id row : Exec τ V MovedEntityRow) :=
  fun _ hs => sat_deallocTableRow.mpr ⟨fun _ _ =>
    ⟨fun _ _ => ⟨hs.components, hs.rows⟩, fun _ => rowsFound_violation not_false⟩,
    fun _ => rowsFound_violation not_false⟩

theorem found_moveTableRow (drop : Bool) (src t : TableId) (row : ℕ) :
    Upholds RowsFound (SameIndex base)
      (moveTableRow P drop src t row : Exec τ V (MovedEntityRow × ℕ)) :=
  fun _ hs => sat_moveTableRow.mpr ⟨fun _ _ => ⟨fun _ _ =>
    ⟨fun _ _ => ⟨hs.components, hs.rows⟩, fun _ => rowsFound_violation not_false⟩,
    fun _ => rowsFound_violation not_false⟩, fun _ => rowsFound_violation not_false⟩

theorem found_updateRow (m : MovedEntityRow) :
    Upholds RowsFound (SameIndex base) (updateRow m : Exec τ V Unit) :=
  fun _ hs => sat_updateRow.mpr ⟨fun _ _ => ⟨hs.components, hs.rows⟩,
    fun _ _ => not_false⟩

theorem found_tryUpdateRow (m : MovedEntityRow) : Upholds RowsFound (SameIndex base)
      (tryUpdateRow m : Exec τ V (Except MoveError Unit)) :=
  fun _ hs => sat_tryUpdateRow.mpr ⟨fun _ _ => ⟨hs.components, hs.rows⟩,
    fun _ _ => hs⟩

/-- Moving to another archetype looks up no sparse row. -/
theorem found_moveRows (drop : Bool) (e : Entity) (loc : EntityLocation)
    (t : ArcheId) (tt : TableId) : Sat (moveRows P drop e loc t tt) w
      (fun new post => new.archeId = t ∧ SameIndex w post) RowsFound := by
  refine (found_archetype _ w ⟨rfl, fun _ _ => rfl⟩).bind ?_
  intro old one hs
  refine (found_debugAssert _ one hs).bind ?_
  intro _ two hs
  refine (found_deallocArcheRow _ _ two hs).bind ?_
  intro m th hs
  refine (found_updateRow m th hs).bind ?_
  intro _ four hs
  refine (found_allocArcheRow t e four hs).bind ?_
  intro ar five hs
  split
  · exact ⟨rfl, hs⟩
  · refine (found_moveTableRow drop _ _ _ five hs).bind ?_
    rintro ⟨m, tr⟩ six hs
    exact (found_updateRow m six hs).bind (fun _ _ hs => ⟨rfl, hs⟩)

end Moving

/-! ## Cleanups -/

section Forget

variable {w : World τ V} {e : Entity}

/-- The entity is nowhere: it has no location and no sparse row. -/
def Nowhere (entity : Entity) (world : World τ V) : Prop :=
  world.entities.located entity = none ∧
    ∀ component, world.maps.rowOf component entity = none

variable {victim : Entity} {maps : Maps V}

theorem found_forgetArche (id : ArcheId) : Upholds RowsFound (fun w : World τ V => w.maps = maps ∧
      w.entities.located victim = none) (forgetArche P e id) := by
  rintro w ⟨hs, hd⟩
  refine sat_archetype_bind fun a _ => ?_
  cases a.getArcheRow e with
  | none => exact ⟨hs, hd⟩
  | some row =>
    rw [sat_bind]
    refine sat_deallocArcheRow.mpr ⟨fun a _ => ?_, fun _ => rowsFound_violation not_false⟩
    split
    · exact sat_updateRow.mpr ⟨fun es hok => ⟨hs, dead_updateRow hd hok⟩, fun _ _ => not_false⟩
    · exact rowsFound_violation not_false

theorem found_forgetTable (id : TableId) : Upholds RowsFound (fun w : World τ V => w.maps = maps ∧
      w.entities.located victim = none) (forgetTable P e id) := by
  rintro w ⟨hs, hd⟩
  unfold forgetTable
  rw [sat_bind]
  refine sat_table.mpr ⟨fun t _ => ?_, fun _ => rowsFound_violation not_false⟩
  cases t.getTableRow e with
  | none => exact ⟨hs, hd⟩
  | some row =>
    rw [sat_bind]
    refine sat_deallocTableRow.mpr ⟨fun t _ => ⟨fun res _ => ?_,
      fun _ => rowsFound_violation not_false⟩, fun _ => rowsFound_violation not_false⟩
    exact sat_updateRow.mpr ⟨fun es hok => ⟨hs, dead_updateRow hd hok⟩, fun _ _ => not_false⟩

/-- The cleanup asks a map before it takes a row back. -/
theorem rows_forgetMap (hs : ∀ map ∈ w.maps.maps, map.Sound) (id : MapId) :
    Sat (forgetMap P e id) w (fun _ post => post.entities = w.entities ∧
        post.maps.maps.length = w.maps.maps.length ∧ (∀ map ∈ post.maps.maps, map.Sound) ∧
        ∀ (o : MapId) (map : Map V), post.maps.maps[o]? = some map →
          map.getMapRow e = none ∨ o ≠ id ∧ w.maps.maps[o]? = some map)
      (fun _ _ => w.maps.maps.length ≤ id) := by
  unfold forgetMap
  rw [sat_bind, sat_get, sat_bind]
  refine sat_unwrapChecked.mpr ⟨fun map hf => ?_, getElem?_eq_none_iff.mp⟩
  cases ho : map.getMapRow e with
  | none =>
    refine ⟨rfl, rfl, hs, fun o now hst => ?_⟩
    by_cases he : o = id
    · subst he
      obtain rfl := some.inj (hf.symm.trans hst)
      exact .inl ho
    · exact .inr ⟨he, hst⟩
  | some row =>
    have pre := hs map (mem_of_getElem? hf)
    obtain ⟨res, hsh, -, hm, -⟩ := Map.deallocRow_eq false pre ho
    rw [sat_bind]
    refine sat_unwrapChecked.mpr ⟨fun post out => ?_, fun ha => ?_⟩
    · obtain rfl := some.inj (hsh.symm.trans out)
      refine ⟨rfl, length_set, fun o mem => ?_, fun o now hst => ?_⟩
      · rcases mem_or_eq_of_mem_set mem with old | rfl
        · exact hs o old
        · exact pre.deallocRow ho out
      · change (w.maps.maps.set id res)[o]? = some now at hst
        by_cases he : o = id
        · subst he
          rw [List.getElem?_set_self (List.getElem?_eq_some_iff.mp hf).1] at hst
          obtain rfl := some.inj hst
          refine .inl ?_
          rw [Map.getMapRow, hm, update_self]
        · rw [getElem?_set_ne (Ne.symm he)] at hst
          exact .inr ⟨he, hst⟩
    · cases hsh.symm.trans ha

/-- Rows come from maps. -/
theorem rowOf_eq_none (hv : ∀ (id : MapId) (map : Map V),
    w.maps.maps[id]? = some map → map.getMapRow e = none) (c : ComponentId) :
    w.maps.rowOf c e = none := by
  cases he : w.mapAt c with
  | none => exact rowOf_of_mapAt_none he e
  | some hf =>
    rw [rowOf_of_mapAt he]
    exact hv hf.1 hf.2 (mapAt_eq_some he).2

/-- The last part of the cleanup: map after map. -/
theorem rows_forgetMaps {co : ℕ} (hs : w.maps.maps.length = co)
    (hso : ∀ map ∈ w.maps.maps, map.Sound) (hd : w.entities.located e = none) :
    Sat ((range co).forM (forgetMap P e)) w
      (fun _ post => Nowhere e post) (fun _ _ => False) := by
  -- a map that still has a row for the entity is yet to be visited
  refine (@Sat.forM _ _ _ _ _ _ (fun done (mid : World τ V) => mid.maps.maps.length = co ∧
    mid.entities.located e = none ∧ (∀ map ∈ mid.maps.maps, map.Sound) ∧
    ∀ (id : MapId) (map : Map V), mid.maps.maps[id]? = some map →
      map.getMapRow e = none ∨ id ∉ done) _ ?_
    ⟨hs, hd, hso, fun _ _ _ => .inr not_mem_nil⟩).mono ?_ fun _ _ hn => hn
  · rintro done id rest hsp mid ⟨hs, hd, hso, hl⟩
    refine (rows_forgetMap hso id).mono ?_ fun _ _ hb => ?_
    · rintro _ post ⟨es, hle, hsu, now⟩
      refine ⟨hle.trans hs, by rw [es]; exact hd, hsu, fun o map hst => ?_⟩
      rcases now o map hst with hg | ⟨ne, pre⟩
      · exact .inl hg
      · refine (hl o map pre).imp_right fun hu => ?_
        rw [mem_append, mem_singleton]
        exact fun he => he.elim hu ne
    · have hin : id < co := by
        rw [← mem_range, hsp]
        simp
      rw [hs] at hb
      exact Nat.not_le_of_lt hin hb
  · rintro _ post ⟨hs, hd, -, hl⟩
    refine ⟨hd, rowOf_eq_none fun id map hst => ?_⟩
    refine (hl id map hst).resolve_right fun hu => hu (mem_range.mpr ?_)
    rw [← hs]
    exact (List.getElem?_eq_some_iff.mp hst).1

/-- **A cleanup misses no row, and then the entity is nowhere.** -/
theorem rows_forget (hso : ∀ map ∈ w.maps.maps, map.Sound) (e : Entity) :
    Sat (forget P e) w (fun _ post => Nowhere e post) RowsFound := by
  unfold forget
  rw [sat_bind]
  refine sat_dropLocation fun es hl => ?_
  have hst : w.maps = w.maps ∧ es.located e = none := ⟨rfl, by rw [hl, update_self]⟩
  refine (Upholds.forM (fun id _ => found_forgetArche id) _ hst).bind ?_
  intro _ one hk
  refine Sat.bind (Upholds.forM (fun id _ => found_forgetTable id) one hk) ?_
  rintro _ two ⟨hs, hd⟩
  exact (rows_forgetMaps (by rw [hs]) (by rw [hs]; exact hso) hd).mono
    (fun _ _ hn => hn) fun _ _ hne => hne.elim

/-- Forgetting never fails where all entities are settled. -/
theorem forget_nowhere (hso : ∀ map ∈ w.maps.maps, map.Sound)
    (hs : ∀ o, w.Settled o) (e : Entity) :
    Sat (forget P e) w (fun _ post => Nowhere e post) (fun _ _ => False) := by
  unfold forget
  rw [sat_bind]
  refine sat_dropLocation fun es hl => ?_
  have hst : w.maps = w.maps ∧ es.located e = none := ⟨rfl, by rw [hl, update_self]⟩
  have hfo := forgetting_dropped (fun o _ => hs o)
    (fun s => ((hs e).held s).onceEach) hl
  rw [sat_bind, sat_get, sat_bind]
  refine ((forgetting_forM .arche hfo).and
    (Upholds.forM (fun id _ => found_forgetArche id) _ hst)).mono ?_ fun _ _ hb => hb.1
  rintro _ one ⟨hfo, hk⟩
  rw [sat_bind]
  refine ((forgetting_forM .table hfo).and
    (Upholds.forM (fun id _ => found_forgetTable id) one hk)).mono ?_ fun _ _ hb => hb.1
  rintro _ two ⟨-, hsa, hd⟩
  exact rows_forgetMaps (by rw [hsa]) (by rw [hsa]; exact hso) hd

/-- A guard around what misses no row: the cleanup misses none either, and then the entity
is nowhere. -/
theorem guarded_rows {body : Exec τ V α} {ret : α → World τ V → Prop}
    (reg : Registered P w) (hmo : Moves (Evolves P Scope.all) body)
    (hi : Sat body w ret RowsFound) : Sat (guarded P e body) w ret
      (fun f post => RowsFound f post ∧ (f.Caught → Nowhere e post)) := by
  unfold guarded
  rw [sat_onPanic]
  refine ((hmo w).and hi).mono (fun _ _ hb => hb.2) ?_
  rintro f post ⟨he, hf⟩
  cases f with
  | panic ca =>
    refine (rows_forget (he reg).1.mapSound e).mono
      (fun _ _ hn => ⟨hf, fun _ => hn⟩) fun snd fi ha => ?_
    cases snd with
    | panic _ => exact ⟨fun hm => hm, Fault.not_caught (by simp)⟩
    | _ => exact ⟨ha, Fault.not_caught (by simp)⟩
  | _ => exact ⟨hf, Fault.not_caught (by simp)⟩

end Forget

end World

end Voker.Ecs
