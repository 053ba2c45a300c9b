import Voker.Ecs.Storage.Table
import Voker.Foundation.Runs

/-!
# Sparse storage

A sparse component has a map of its own: rows that are handed out to entities, reused
smallest first, with an index from entities to rows.

`Sound` says that the rows the index names hold their entities and that the rows of the
free heap are vacant; it survives everything.  `Consistent` says that **the index is a
bijection onto the occupied rows and that the free heap holds exactly the others**; it
survives handing out a row to an entity that has none and taking a row back.
-/

namespace Voker.Ecs

open Foundation List Option Function

/-- `MapId`. -/
abbrev MapId := ℕ

/-- `MapRow`. -/
abbrev MapRow := ℕ

/-- `Map`.  The heap of free rows is a list; only its smallest element is ever taken. -/
structure Map (V : Type) where
  component : ComponentId
  entities : List (Option Entity)
  free : List MapRow
  mapper : Entity → Option MapRow
  column : Column V

variable {V : Type}

namespace Map

/-- `new`. -/
def new (component : ComponentId) : Map V :=
  ⟨component, [], [], fun _ => none, Column.new⟩

/-- `get_map_row`. -/
def getMapRow (map : Map V) (entity : Entity) : Option MapRow := map.mapper entity

/-- `reserve_many`: grow the row vector to its new capacity, keep the first new row for
the caller and put the others into the heap. -/
def reserveMany (growth : ℕ → ℕ) (map : Map V) : MapRow × Map V :=
  let oldCap := map.entities.length
  let newCap := oldCap + 1 + growth (oldCap + 1)
  (oldCap,
    { map with
      entities := map.entities ++ replicate (newCap - oldCap) none
      free := map.free ++ range' (oldCap + 1) (newCap - (oldCap + 1)) })

/-- Take the smallest free row, or make room. -/
def takeRow (growth : ℕ → ℕ) (map : Map V) : MapRow × Map V :=
  match map.free.min? with
  | some row => (row, { map with free := map.free.erase row })
  | none => map.reserveMany growth

/-- `alloc_row`. -/
def allocRow (growth : ℕ → ℕ) (map : Map V) (entity : Entity) : MapRow × Map V :=
  let taken := map.takeRow growth
  (taken.1,
    { taken.2 with
      entities := taken.2.entities.set taken.1 (some entity)
      mapper := update taken.2.mapper entity (some taken.1)
      column := taken.2.column.handOut taken.1 })

/-- `dealloc_row`; `none` if the row is not occupied, which the callers must rule out. -/
def deallocRow (drop : Bool) (map : Map V) (row : MapRow) : Option (Map V) :=
  match map.entities[row]? with
  | some (some entity) =>
    some { map with
      entities := map.entities.set row none
      mapper := update map.mapper entity none
      free := row :: map.free
      column := if drop then map.column.removeItem row else map.column }
  | _ => none

/-- `init_item`. -/
def initItem (map : Map V) (row : MapRow) (value : V) (tick : Tick) : Map V :=
  { map with column := map.column.initItem row value tick }

/-- `replace_item`. -/
def replaceItem (map : Map V) (row : MapRow) (value : V) (tick : Tick) : Map V :=
  { map with column := map.column.replaceItem row value tick }

/-- The values of the index.  The index of a map that is sound has no other keys than the
entities of its rows. -/
def values (map : Map V) : List MapRow := (map.entities.filterMap id).filterMap map.mapper

/-- `check_ticks`: the greatest row of the index is passed on as the number of rows. -/
def checkTicks (map : Map V) (now : Tick) : Map V :=
  match map.values.max? with
  | some row => { map with column := map.column.checkTicks row now }
  | none => map

/-! ## Rows are handed out once -/

/-- What the index and the heap name is there: rows of the index hold their entity, rows
of the heap are vacant. -/
structure Sound (map : Map V) : Prop where
  index : ∀ (entity : Entity) (row : ℕ), map.mapper entity = some row →
    map.entities[row]? = some (some entity)
  free : ∀ row : ℕ, row ∈ map.free → map.entities[row]? = some none
  nodup : map.free.Nodup

/-- And nothing else is there: the index has all occupied rows, the heap all vacant
ones. -/
structure Consistent (map : Map V) : Prop extends Sound map where
  complete : ∀ (entity : Entity) (row : ℕ), map.entities[row]? = some (some entity) →
    map.mapper entity = some row
  vacant : ∀ row : ℕ, map.entities[row]? = some none → row ∈ map.free

theorem consistent_new (c : ComponentId) : (new c : Map V).Consistent where
  index := by simp [new]
  free := by simp [new]
  nodup := nodup_nil
  complete := by simp [new]
  vacant := by simp [new]

/-- Taking a row out of the heap: the row is vacant, and only it has left the heap. -/
structure Taken (map : Map V) (row : ℕ) (after : Map V) : Prop where
  component : after.component = map.component
  mapper : after.mapper = map.mapper
  column : after.column = map.column
  vacant : after.entities[row]? = some none
  others : ∀ (entity : Entity) (line : ℕ), after.entities[line]? = some (some entity) ↔
    map.entities[line]? = some (some entity)
  free : ∀ line : ℕ, line ∈ after.free → after.entities[line]? = some none ∧ line ≠ row
  nodup : after.free.Nodup
  complete : (∀ line : ℕ, map.entities[line]? = some none → line ∈ map.free) →
    ∀ line : ℕ, after.entities[line]? = some none → line ≠ row → line ∈ after.free

section

variable (growth : ℕ → ℕ) {map : Map V}

theorem taken_reserveMany (he : map.free = []) :
    Taken map (map.reserveMany growth).1 (map.reserveMany growth).2 := by
  have hr : ∀ line, (map.reserveMany growth).2.entities[line]? =
      if line < map.entities.length then map.entities[line]?
      else if line < map.entities.length + 1 + growth (map.entities.length + 1)
        then some none else none := by
    intro line
    unfold reserveMany
    rw [getElem?_append]
    split
    · rfl
    · rw [getElem?_replicate]
      split
      · rw [if_pos (by omega)]
      · rw [if_neg (by omega)]
  have hea : ∀ line : ℕ, line ∈ (map.reserveMany growth).2.free ↔ map.entities.length + 1 ≤ line ∧
        line < map.entities.length + 1 + growth (map.entities.length + 1) := by
    intro line
    unfold reserveMany
    dsimp only
    rw [he, nil_append, mem_range'_1, Nat.add_sub_cancel_left]
  refine ⟨rfl, rfl, rfl, ?_, fun e line => ?_, fun line mem => ?_, ?_,
    fun hf line hv ne => ?_⟩
  · rw [hr, if_neg (by unfold reserveMany; exact Nat.lt_irrefl _),
      if_pos (by unfold reserveMany; dsimp only; omega)]
  · rw [hr]
    split
    · rfl
    · next ho =>
      rw [getElem?_eq_none (Nat.le_of_not_lt ho)]
      split
      · simp
      · rfl
  · obtain ⟨hl, hu⟩ := (hea line).mp mem
    rw [hr, if_neg (by omega), if_pos hu]
    refine ⟨rfl, ?_⟩
    unfold reserveMany
    dsimp only
    omega
  · unfold reserveMany
    dsimp only
    rw [he, nil_append]
    exact nodup_range'
  · rw [hr] at hv
    unfold reserveMany at ne
    dsimp only at ne
    split_ifs at hv with old new
    · have mem := hf line hv
      rw [he] at mem
      exact absurd mem not_mem_nil
    · exact (hea line).mpr ⟨by omega, new⟩

theorem taken_takeRow (hs : map.Sound) :
    Taken map (map.takeRow growth).1 (map.takeRow growth).2 := by
  unfold takeRow
  cases hsm : map.free.min? with
  | none => exact taken_reserveMany growth (min?_eq_none_iff.mp hsm)
  | some row =>
    have mem : row ∈ map.free := min?_mem hsm
    refine ⟨rfl, rfl, rfl, hs.free row mem, fun _ _ => Iff.rfl, fun line hin => ?_,
      hs.nodup.erase row, fun hf line hv ne => ?_⟩
    · obtain ⟨ne, hin⟩ := hs.nodup.mem_erase_iff.mp hin
      exact ⟨hs.free line hin, ne⟩
    · exact hs.nodup.mem_erase_iff.mpr ⟨ne, hf line hv⟩

theorem component_allocRow (map : Map V) (e : Entity) :
    (map.allocRow growth e).2.component = map.component := by
  unfold allocRow takeRow
  cases map.free.min? with
  | none => rfl
  | some row => rfl

theorem mapper_allocRow (map : Map V) (e : Entity) : (map.allocRow growth e).2.mapper =
      update map.mapper e (some (map.takeRow growth).1) := by
  unfold allocRow takeRow
  cases map.free.min? with
  | none => rfl
  | some row => rfl

/-- The rows after one was handed out. -/
theorem getElem?_allocRow (hs : map.Sound) (e : Entity) (line : ℕ) :
    (map.allocRow growth e).2.entities[line]? =
      if (map.takeRow growth).1 = line then some (some e)
      else (map.takeRow growth).2.entities[line]? := by
  have ht := taken_takeRow growth hs
  have hin := (List.getElem?_eq_some_iff.mp ht.vacant).1
  unfold allocRow
  rw [List.getElem?_set, if_pos hin]

/-- Handing out a row keeps the rows of others. -/
theorem Sound.allocRow (hs : map.Sound) (e : Entity) : (map.allocRow growth e).2.Sound := by
  have ht := taken_takeRow growth hs
  refine ⟨fun o line hf => ?_, fun line mem => ?_, ht.nodup⟩
  · rw [mapper_allocRow, update_apply] at hf
    rw [getElem?_allocRow growth hs]
    by_cases hsa : o = e
    · rw [if_pos hsa] at hf
      rw [if_pos (some.inj hf), hsa]
    · rw [if_neg hsa] at hf
      have hst := (ht.others o line).mpr (hs.index o line hf)
      rw [if_neg]
      · exact hst
      · rintro rfl
        cases ht.vacant.symm.trans hst
  · obtain ⟨hv, ne⟩ := ht.free line mem
    rw [getElem?_allocRow growth hs, if_neg (Ne.symm ne)]
    exact hv

theorem Consistent.allocRow (con : map.Consistent) {e : Entity}
    (ha : map.getMapRow e = none) : (map.allocRow growth e).2.Consistent := by
  have ht := taken_takeRow growth con.toSound
  refine ⟨con.toSound.allocRow growth e, fun o line he => ?_, fun line hv => ?_⟩
  · rw [getElem?_allocRow growth con.toSound] at he
    rw [mapper_allocRow, update_apply]
    split_ifs at he with here
    · cases he
      rw [if_pos rfl, here]
    · have hk := con.complete o line ((ht.others o line).mp he)
      rw [if_neg, hk]
      rintro rfl
      cases ha.symm.trans hk
  · rw [getElem?_allocRow growth con.toSound] at hv
    split_ifs at hv with here
    · cases hv
    · exact ht.complete con.vacant line hv (Ne.symm here)

/-- The row that is handed out is the smallest of the heap. -/
theorem takeRow_least (map : Map V) : (map.free ≠ [] → (map.takeRow growth).1 ∈ map.free) ∧
      ∀ row ∈ map.free, (map.takeRow growth).1 ≤ row := by
  unfold takeRow
  cases hs : map.free.min? with
  | none =>
    rw [min?_eq_none_iff.mp hs]
    exact ⟨fun some => absurd rfl some, fun row mem => absurd mem not_mem_nil⟩
  | some row =>
    obtain ⟨mem, hl⟩ := min?_eq_some_iff.mp hs
    exact ⟨fun _ => mem, hl⟩

end

/-- Taking a row back: its entity has none any more. -/
theorem deallocRow_eq (drop : Bool) {map : Map V} (hs : map.Sound) {e : Entity}
    {row : MapRow} (ho : map.getMapRow e = some row) :
    ∃ post, map.deallocRow drop row = some post ∧ post.component = map.component ∧
      post.mapper = update map.mapper e none ∧
      post.entities = map.entities.set row none ∧ post.free = row :: map.free := by
  unfold deallocRow
  rw [hs.index e row ho]
  exact ⟨_, rfl, rfl, rfl, rfl, rfl⟩

theorem Sound.deallocRow {drop : Bool} {map post : Map V} (hs : map.Sound)
    {e : Entity} {row : MapRow} (ho : map.getMapRow e = some row)
    (out : map.deallocRow drop row = some post) : post.Sound := by
  have he := hs.index e row ho
  have hin : row < map.entities.length := (List.getElem?_eq_some_iff.mp he).1
  obtain ⟨res, hsh, -, hm, es, hfr⟩ := deallocRow_eq drop hs ho
  obtain rfl := some.inj (out.symm.trans hsh)
  refine ⟨fun o line hf => ?_, fun line mem => ?_, ?_⟩
  · rw [hm, update_apply] at hf
    split_ifs at hf with same
    rw [es, getElem?_set_ne]
    · exact hs.index o line hf
    · rintro rfl
      have heq := he.symm.trans (hs.index o row hf)
      exact same (some.inj (some.inj heq)).symm
  · rw [hfr, mem_cons] at mem
    rw [es, getElem?_set]
    split_ifs with here
    · rfl
    · rcases mem with same | old
      · exact absurd same.symm here
      · exact hs.free line old
  · rw [hfr]
    refine nodup_cons.mpr ⟨fun mem => ?_, hs.nodup⟩
    cases he.symm.trans (hs.free row mem)

theorem Consistent.deallocRow {drop : Bool} {map post : Map V} (con : map.Consistent)
    {row : MapRow} (out : map.deallocRow drop row = some post) : post.Consistent := by
  have he : ∃ e, map.entities[row]? = some (some e) := by
    unfold Map.deallocRow at out
    split at out
    · next e he => exact ⟨e, he⟩
    · cases out
  obtain ⟨e, he⟩ := he
  have ho := con.complete e row he
  obtain ⟨res, hs, -, hm, es, hfr⟩ := deallocRow_eq drop con.toSound ho
  obtain rfl := some.inj (out.symm.trans hs)
  refine ⟨con.toSound.deallocRow ho out, fun o line hf => ?_, fun line hv => ?_⟩
  · rw [es, getElem?_set] at hf
    split_ifs at hf with here
    · cases hf
    · have hk := con.complete o line hf
      rw [hm, update_of_ne, hk]
      rintro rfl
      exact here (some.inj (ho.symm.trans hk))
  · rw [hfr, mem_cons]
    rw [es, getElem?_set] at hv
    split_ifs at hv with here
    · exact .inl here.symm
    · exact .inr (con.vacant line hv)

/-! ## Runs -/

/-- The calls that change a map.  `Vec` chooses at each one how far it grows. -/
inductive Operation (V : Type)
  | allocRow (growth : ℕ → ℕ) (entity : Entity)
  | deallocRow (drop : Bool) (row : MapRow)
  | initItem (row : MapRow) (value : V) (tick : Tick)
  | replaceItem (row : MapRow) (value : V) (tick : Tick)
  | checkTicks (now : Tick)

/-- One call, if its preconditions hold. -/
def step : Operation V → Map V → Option (Map V)
  | .allocRow growth entity, map =>
    if map.getMapRow entity = none then some (map.allocRow growth entity).2 else none
  | .deallocRow drop row, map => map.deallocRow drop row
  | .initItem row value tick, map => some (map.initItem row value tick)
  | .replaceItem row value tick, map => some (map.replaceItem row value tick)
  | .checkTicks now, map => some (map.checkTicks now)

variable {map : Map V}

/-- What is in the column does not matter. -/
theorem Consistent.withColumn (con : map.Consistent) (column : Column V) :
    { map with column := column }.Consistent :=
  ⟨⟨con.index, con.free, con.nodup⟩, con.complete,
    con.vacant⟩

theorem Consistent.step (o : Operation V) (map post : Map V)
    (con : map.Consistent) (hm : step o map = some post) : post.Consistent := by
  cases o with
  | allocRow growth e =>
    obtain ⟨ha, res⟩ := ite_none_right_eq_some.mp hm
    cases res
    exact con.allocRow growth ha
  | deallocRow drop row => exact con.deallocRow hm
  | initItem row v tick =>
    cases hm
    exact con.withColumn _
  | replaceItem row v tick =>
    cases hm
    exact con.withColumn _
  | checkTicks now =>
    cases hm
    unfold checkTicks
    split
    · exact con.withColumn _
    · exact con

section Reached

variable {operations : List (Operation V)} {c : ComponentId}
  (reached : run step operations (new c) = some map)

include reached

theorem consistent_of_reached : map.Consistent :=
  run_invariant Consistent.step (consistent_new c) reached

/-- **Index, heap and rows stay a partition**, and a new row is the smallest free one. -/
theorem reached_partition : (∀ entity (row : ℕ), map.getMapRow entity = some row ↔
      map.entities[row]? = some (some entity)) ∧
    (∀ row : ℕ, row ∈ map.free ↔ map.entities[row]? = some none) ∧ map.free.Nodup ∧
    ∀ growth entity, map.getMapRow entity = none →
      (∀ other, map.entities[(map.allocRow growth entity).1]? ≠ some (some other)) ∧
      (map.free ≠ [] → (map.allocRow growth entity).1 ∈ map.free) ∧
      ∀ row ∈ map.free, (map.allocRow growth entity).1 ≤ row := by
  have hc := consistent_of_reached reached
  refine ⟨fun entity row => ⟨hc.index entity row, hc.complete entity row⟩,
    fun row => ⟨hc.free row, hc.vacant row⟩, hc.nodup,
    fun growth entity _ => ⟨fun other he => ?_, takeRow_least growth map⟩⟩
  have ht := taken_takeRow growth hc.toSound
  cases ht.vacant.symm.trans ((ht.others other _).mpr he)

theorem mem_values {row : MapRow} : row ∈ map.values ↔ ∃ e, map.getMapRow e = some row := by
  unfold values
  rw [mem_filterMap]
  constructor
  · rintro ⟨e, -, hk⟩
    exact ⟨e, hk⟩
  · rintro ⟨e, hk⟩
    have he := (consistent_of_reached reached).index e row hk
    exact ⟨e, mem_filterMap.mpr ⟨_, mem_of_getElem? he, rfl⟩, hk⟩

/-- **The greatest live row is not checked**: after `check_ticks` the ticks of all live
rows are within the greatest age exactly if those of the greatest one were before. -/
theorem reached_checkTicks_iff (now : Tick) : (∀ entity row, map.getMapRow entity = some row →
      (Tick.Within now ((map.checkTicks now).column.added row) ∧
        Tick.Within now ((map.checkTicks now).column.changed row)) ∧
      (Tick.Within now (map.column.added row) →
        (map.checkTicks now).column.added row = map.column.added row) ∧
      (Tick.Within now (map.column.changed row) →
        (map.checkTicks now).column.changed row = map.column.changed row)) ↔
    ∀ entity row, map.getMapRow entity = some row →
      (∀ other line, map.getMapRow other = some line → line ≤ row) →
      Tick.Within now (map.column.added row) ∧ Tick.Within now (map.column.changed row) := by
  unfold checkTicks
  cases hg : map.values.max? with
  | none =>
    have he := max?_eq_none_iff.mp hg
    have hv : ∀ entity row, map.getMapRow entity = some row → False := by
      intro entity row hk
      have hm := (mem_values reached).mpr ⟨entity, hk⟩
      rw [he] at hm
      exact not_mem_nil hm
    exact iff_of_true (fun entity row hk => (hv entity row hk).elim)
      (fun entity row hk => (hv entity row hk).elim)
  | some top =>
    obtain ⟨hm, hab⟩ := max?_eq_some_iff.mp hg
    dsimp only [Column.checkTicks]
    constructor
    · intro hch entity row hk hl
      obtain ⟨o, ho⟩ := (mem_values reached).mp hm
      obtain rfl : row = top := le_antisymm
        (hab row ((mem_values reached).mpr ⟨entity, hk⟩)) (hl o top ho)
      obtain ⟨⟨ha, hc⟩, -⟩ := hch entity row hk
      rw [Column.within_checkSliceTick] at ha hc
      exact ⟨ha.resolve_left (lt_irrefl row), hc.resolve_left (lt_irrefl row)⟩
    · intro hr entity row hk
      refine ⟨?_, Column.checkSliceTick_eq_self, Column.checkSliceTick_eq_self⟩
      rw [Column.within_checkSliceTick, Column.within_checkSliceTick]
      rcases (hab row ((mem_values reached).mpr ⟨entity, hk⟩)).lt_or_eq with
        hb | rfl
      · exact ⟨.inl hb, .inl hb⟩
      · have ⟨ha, hc⟩ := hr entity row hk
          (fun other line hel => hab line ((mem_values reached).mpr ⟨other, hel⟩))
        exact ⟨.inr ha, .inr hc⟩

end Reached

/-- Two entities come, the first one leaves. -/
def visits : List (Operation Unit) :=
  [.allocRow (fun _ => 2) ⟨⟨1⟩, ⟨0⟩⟩, .initItem 0 () 0, .allocRow (fun _ => 0) ⟨⟨2⟩, ⟨0⟩⟩,
    .initItem 1 () 0, .deallocRow true 0]

theorem reached_partition_visits :
    ∃ map, run step visits (new 0) = some map ∧ map.free = [0, 2] ∧ map.free.Nodup := by
  have reached : run step visits (new 0) = some _ := rfl
  exact ⟨_, reached, rfl, (reached_partition reached).2.2.1⟩

theorem reached_checkTicks_iff_visits : ∃ map, run step visits (new 0) = some map ∧
      ∀ entity row, map.getMapRow entity = some row →
        Tick.Within 1 ((map.checkTicks 1).column.added row) := by
  have reached : run step visits (new 0) = some _ := rfl
  refine ⟨_, reached, fun entity row hk =>
    ((reached_checkTicks_iff reached 1).mpr (fun _ line _ _ => ?_) entity row hk).1.1⟩
  have he : ∀ t : ℕ → Tick, t = Function.update (Function.update (fun _ => 0) 0 0) 1 0 →
        Tick.Within 1 (t line) := by
    rintro _ rfl
    rw [update_apply, update_apply, ite_self, ite_self]
    decide
  exact ⟨he _ rfl, he _ rfl⟩

theorem checkTicks_misses_greatest :
    ∃ map, run step visits (new 0) = some map ∧ map.getMapRow ⟨⟨2⟩, ⟨0⟩⟩ = some 1 ∧
      ¬ Tick.Within (maxTickAge + 1) ((map.checkTicks (maxTickAge + 1)).column.added 1) :=
  ⟨_, rfl, rfl, by decide⟩

end Map

/-! ## The maps of a world -/

/-- `Maps`: one map for each sparse component met so far. -/
structure Maps (V : Type) where
  maps : List (Map V)
  mapper : ComponentId → Option MapId

namespace Maps

/-- `new`. -/
def new : Maps V := ⟨[], fun _ => none⟩

/-- `get_id`. -/
def getId (maps : Maps V) (id : ComponentId) : Option MapId := maps.mapper id

/-- `prepare`: make sure the component has a map. -/
def prepare (maps : Maps V) (id : ComponentId) : Maps V :=
  match maps.mapper id with
  | some _ => maps
  | none =>
    { maps := maps.maps ++ [Map.new id]
      mapper := update maps.mapper id (some maps.maps.length) }

/-- `register`. -/
def register (maps : Maps V) (idents : List ComponentId) : Maps V :=
  idents.foldl prepare maps

/-- Every component has at most one map. -/
def Indexed (maps : Maps V) : Prop :=
  Interned (maps.maps.map Map.component) maps.mapper

theorem indexed_new : (new : Maps V).Indexed := interned_nil

/-- Preparing components keeps the maps that exist and adds empty ones. -/
structure Grows (before after : Maps V) (idents : List ComponentId) : Prop where
  indexed : after.Indexed
  fresh : ∃ added, after.maps = before.maps ++ added ∧ ∀ map ∈ added, ∃ id, map = Map.new id
  known : ∀ id, (before.getId id).isSome → after.getId id = before.getId id
  prepared : ∀ id ∈ idents, (after.getId id).isSome

variable {maps post pre : Maps V} {idents : List ComponentId}

theorem grows_prepare (hi : maps.Indexed) (id : ComponentId) :
    Grows maps (maps.prepare id) [id] := by
  unfold prepare
  cases hk : maps.mapper id with
  | some hf =>
    refine ⟨hi, ⟨[], by simp⟩, fun _ _ => rfl, ?_⟩
    intro o mem
    rw [mem_singleton] at mem
    subst mem
    rw [getId, hk]
    rfl
  | none =>
    refine ⟨?_, ⟨[Map.new id], rfl, ?_⟩, fun o some => ?_, ?_⟩
    · have hp := Interned.push hi hk
      rw [length_map] at hp
      unfold Indexed
      rw [map_append]
      exact hp
    · intro map mem
      exact ⟨id, mem_singleton.mp mem⟩
    · have ne : o ≠ id := by
        rintro rfl
        rw [getId, hk] at some
        cases some
      exact update_of_ne ne ..
    · intro o mem
      rw [mem_singleton] at mem
      subst mem
      have hf : (update maps.mapper o (some maps.maps.length) o).isSome := by
        rw [update_self]
        rfl
      exact hf

theorem Grows.append {fst snd t : Maps V} {one two : List ComponentId}
    (pre : Grows fst snd one) (post : Grows snd t two) : Grows fst t (one ++ two) where
  indexed := post.indexed
  fresh := by
    obtain ⟨left, hle, hln⟩ := pre.fresh
    obtain ⟨r, hre, hrn⟩ := post.fresh
    refine ⟨left ++ r, by rw [hre, hle, append_assoc], ?_⟩
    intro map mem
    rcases mem_append.mp mem with hil | hir
    · exact hln map hil
    · exact hrn map hir
  known := by
    intro id hs
    have mid := pre.known id hs
    rw [post.known id (by rw [mid]; exact hs), mid]
  prepared := by
    intro id mem
    rcases mem_append.mp mem with hio | hit
    · have mid := pre.prepared id hio
      rw [post.known id mid]
      exact mid
    · exact post.prepared id hit

theorem grows_register (hi : maps.Indexed) (idents : List ComponentId) :
    Grows maps (maps.register idents) idents := by
  unfold register
  induction idents generalizing maps with
  | nil => exact ⟨hi, ⟨[], by simp⟩, fun _ _ => rfl, by simp⟩
  | cons id rest ih =>
    have fst := grows_prepare hi id
    exact fst.append (ih fst.indexed)

/-- New maps are sound. -/
theorem Grows.sound (hg : Grows pre post idents) (hso : ∀ map ∈ pre.maps, map.Sound) :
    ∀ map ∈ post.maps, map.Sound := by
  intro map mem
  obtain ⟨a, hs, new⟩ := hg.fresh
  rw [hs, mem_append] at mem
  rcases mem with old | hf
  · exact hso map old
  · obtain ⟨id, rfl⟩ := new map hf
    exact (Map.consistent_new id).toSound

/-- The row of an entity in the map of a component. -/
def rowOf (maps : Maps V) (id : ComponentId) (entity : Entity) : Option MapRow :=
  ((maps.getId id).bind fun map => maps.maps[map]?).bind fun map => map.getMapRow entity

/-- New maps hold no row. -/
theorem Grows.rowOf_eq (hi : pre.Indexed) (hg : Grows pre post idents)
    (id : ComponentId) (e : Entity) : post.rowOf id e = pre.rowOf id e := by
  obtain ⟨a, split, new⟩ := hg.fresh
  unfold rowOf
  cases old : pre.getId id with
  | some map =>
    rw [hg.known id (by rw [old]; rfl), old]
    have hin : map < pre.maps.length := by
      have hf := (hi id map).mp old
      simpa using (List.getElem?_eq_some_iff.mp hf).1
    rw [bind_some, bind_some, split, getElem?_append_left hin]
  | none =>
    cases now : post.getId id with
    | none => rfl
    | some map =>
      rw [bind_some]
      have hf := (hg.indexed id map).mp now
      rw [split, map_append, getElem?_append] at hf
      split at hf
      · next hin =>
        -- an old map of this component would have been found before
        rw [getId, (hi id map).mpr hf] at old
        cases old
      · next ho =>
        rw [length_map] at ho
        rw [split, getElem?_append_right (Nat.le_of_not_lt ho)]
        cases hst : a[map - pre.maps.length]? with
        | none => rfl
        | some nm =>
          obtain ⟨c, rfl⟩ := new nm (mem_of_getElem? hst)
          rfl

end Maps

end Voker.Ecs
