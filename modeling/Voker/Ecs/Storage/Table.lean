import Voker.Ecs.Component.Components
import Voker.Ecs.Entity.Info
import Voker.Ecs.Tick
import Voker.Foundation.Rows

/-!
# Dense storage

A table holds the entities of one set of dense components, one row per entity and one
column per component.  Rows are appended and swap-removed, in the entity list and in
every column alike.

A column cell that holds no value is `none`: memory that was handed out and not written,
or whose value was moved out.  Ticks are plain memory and keep whatever was stored last,
also in rows that are not in use.
-/

namespace Voker.Ecs

open Foundation List Function MovedEntityRow

/-- `Column`: the values of one component with their ticks, by row. -/
structure Column (V : Type) where
  data : ℕ → Option V
  added : ℕ → Tick
  changed : ℕ → Tick

variable {V : Type}

namespace Column

/-- `new`. -/
def new : Column V := ⟨fun _ => none, fun _ => 0, fun _ => 0⟩

section

variable (column : Column V)

/-- A row is handed out: its memory holds no value yet. -/
def handOut (row : ℕ) : Column V :=
  { column with data := update column.data row none }

/-- `init_item`. -/
def initItem (row : ℕ) (value : V) (tick : Tick) : Column V where
  data := update column.data row (some value)
  added := update column.added row tick
  changed := update column.changed row tick

/-- `replace_item`. -/
def replaceItem (row : ℕ) (value : V) (tick : Tick) : Column V :=
  { column with
    data := update column.data row (some value)
    changed := update column.changed row tick }

/-- `remove_item`, `drop_item`: the value leaves its row. -/
def removeItem (row : ℕ) : Column V :=
  { column with data := update column.data row none }

/-- `swap_forget_not_last`, `swap_drop_not_last`: the last row moves to `row`.  The two
differ in whether the old value is dropped, which no column shows. -/
def swapNotLast (row last : ℕ) : Column V where
  data := update (update column.data row (column.data last)) last none
  added := update column.added row (column.added last)
  changed := update column.changed row (column.changed last)

end

/-- `move_item_to`, the receiving column: value and ticks arrive at `dst`. -/
def receiveItem (other column : Column V) (src dst : ℕ) : Column V where
  data := update other.data dst (column.data src)
  added := update other.added dst (column.added src)
  changed := update other.changed dst (column.changed src)

/-- `check_slice_tick`, on the first `len` ticks. -/
def checkSliceTick (len : ℕ) (now : Tick) (ticks : ℕ → Tick) : ℕ → Tick :=
  fun row => if row < len then Tick.checkTick (ticks row) now else ticks row

variable (column : Column V)

/-- `check_ticks`. -/
def checkTicks (len : ℕ) (now : Tick) : Column V :=
  { column with
    added := checkSliceTick len now column.added
    changed := checkSliceTick len now column.changed }

theorem within_checkSliceTick {len row : ℕ} {now : Tick} {t : ℕ → Tick} :
    Tick.Within now (checkSliceTick len now t row) ↔
      row < len ∨ Tick.Within now (t row) := by
  unfold checkSliceTick
  split
  · next hin => exact iff_of_true (Tick.within_checkTick _ now) (.inl hin)
  · next ho => exact (or_iff_right ho).symm

theorem checkSliceTick_eq_self {len row : ℕ} {now : Tick} {t : ℕ → Tick}
    (hw : Tick.Within now (t row)) : checkSliceTick len now t row = t row := by
  unfold checkSliceTick
  split
  · exact Tick.checkTick_eq_self hw
  · rfl

/-- What a row holds: the value and its ticks. -/
def item (row : ℕ) : Option V × Tick × Tick :=
  (column.data row, column.added row, column.changed row)

theorem item_removeItem {row line : ℕ} (other : line ≠ row) :
    (column.removeItem row).item line = column.item line :=
  Prod.ext (update_of_ne other ..) rfl

/-- The last row moves, the others stay. -/
theorem item_swapNotLast {row last line : ℕ} (hi : row ≠ last) (other : line ≠ row) :
    (column.swapNotLast row last).item (if line = last then row else line) = column.item line := by
  unfold item swapNotLast
  dsimp only
  split
  · next hs => rw [update_of_ne hi, update_self, update_self, update_self, hs]
  · next ne => rw [update_of_ne ne, update_of_ne other, update_of_ne other, update_of_ne other]

end Column

/-- `Table`.  A column is addressed by its component instead of its position. -/
structure Table (V : Type) where
  components : List ComponentId
  column : ComponentId → Column V
  entities : List Entity

namespace Table

/-- `new`. -/
def new (idents : List ComponentId) : Table V := ⟨idents, fun _ => Column.new, []⟩

/-- `get_table_col`: whether the table has a column for the component.  The component
list is sorted, so the source's binary search finds it. -/
def hasCol (table : Table V) (id : ComponentId) : Bool := id ∈ table.components

/-- `get_table_row`: the first row that holds the entity. -/
def getTableRow (table : Table V) (entity : Entity) : Option ℕ :=
  table.entities.findIdx? (· = entity)

/-- `alloc_row`. -/
def allocRow (table : Table V) (entity : Entity) : ℕ × Table V :=
  let row := table.entities.length
  (row,
    { table with
      entities := table.entities ++ [entity]
      column := fun id => (table.column id).handOut row })

/-- `dealloc_row`; `none` if the row is not occupied, which the callers must rule out. -/
def deallocRow (drop : Bool) (table : Table V) (row : ℕ) : Option (MovedEntityRow × Table V) :=
  let last := table.entities.length - 1
  if row < table.entities.length then
    some (inTable (swapped table.entities row) row,
      { table with
        entities := swapRemove table.entities row
        column := fun id =>
          if row ≠ last then (table.column id).swapNotLast row last
          else if drop then (table.column id).removeItem last
          else table.column id })
  else none

/-- What `move_row` leaves of one column of the source table. -/
def columnAfterMove (drop : Bool) (table other : Table V) (row : ℕ) (id : ComponentId) : Column V :=
  let last := table.entities.length - 1
  let column := table.column id
  if row ≠ last then
    if other.hasCol id then (column.removeItem row).swapNotLast row last
    else column.swapNotLast row last
  else if other.hasCol id then column.removeItem row
  else if drop then column.removeItem last
  else column

/-- `move_row`: the entity of a row moves to another table, with the values of the
columns the tables share.  Returns the moved neighbour, the new row and both tables. -/
def moveRow (drop : Bool) (table : Table V) (row : ℕ) (other : Table V) :
    Option (MovedEntityRow × ℕ × Table V × Table V) :=
  match table.entities[row]? with
  | none => none
  | some moved =>
    let allocated := other.allocRow moved
    some (inTable (swapped table.entities row) row, allocated.1,
      { table with
        entities := swapRemove table.entities row
        column := fun id =>
          if table.hasCol id then columnAfterMove drop table other row id
          else table.column id },
      { allocated.2 with
        column := fun id =>
          if table.hasCol id ∧ other.hasCol id then
            (allocated.2.column id).receiveItem (table.column id) row allocated.1
          else allocated.2.column id })

/-- `init_item` of a column. -/
def initItem (table : Table V) (id : ComponentId) (row : ℕ) (value : V) (tick : Tick) : Table V :=
  { table with
    column := update table.column id ((table.column id).initItem row value tick) }

/-- `replace_item` of a column. -/
def replaceItem (table : Table V) (id : ComponentId) (row : ℕ) (value : V) (tick : Tick) :
    Table V :=
  { table with
    column := update table.column id ((table.column id).replaceItem row value tick) }

/-- The value in a cell. -/
def cell (table : Table V) (id : ComponentId) (row : ℕ) : Option V :=
  (table.column id).data row

/-! ## What the operations do to rows and cells -/

/-- A found row holds the entity, and no row before it does. -/
theorem getTableRow_eq_some {table : Table V} {e : Entity} {row : ℕ}
    (hf : table.getTableRow e = some row) : table.entities[row]? = some e ∧
      ∀ other, table.entities[other]? = some e → row ≤ other := by
  obtain ⟨hin, ho, one⟩ := findIdx?_eq_some_iff_getElem.mp hf
  refine ⟨?_, fun other hel => ?_⟩
  · rw [List.getElem?_eq_getElem hin]
    simpa using ho
  · by_contra he
    obtain ⟨hb, heq⟩ := List.getElem?_eq_some_iff.mp hel
    exact one other (Nat.lt_of_not_le he) (decide_eq_true heq)

theorem getTableRow_eq_none {table : Table V} {e : Entity} :
    table.getTableRow e = none ↔ e ∉ table.entities := by
  unfold getTableRow
  rw [findIdx?_eq_none_iff]
  constructor
  · intro all mem
    exact of_decide_eq_false (all e mem) rfl
  · intro ha other mem
    simpa using fun he => ha (by rwa [← he])

theorem deallocRow_eq {drop : Bool} {table : Table V} {row : ℕ}
    (hin : row < table.entities.length) : ∃ post, table.deallocRow drop row =
        some (inTable (swapped table.entities row) row, post) ∧
      post.components = table.components ∧ post.entities = swapRemove table.entities row := by
  refine ⟨_, if_pos hin, rfl, rfl⟩

theorem moveRow_eq {drop : Bool} {table other : Table V} {row : ℕ} {e : Entity}
    (hf : table.entities[row]? = some e) : ∃ s t, table.moveRow drop row other =
        some (inTable (swapped table.entities row) row, other.entities.length, s, t) ∧
      s.components = table.components ∧ s.entities = swapRemove table.entities row ∧
      t.components = other.components ∧ t.entities = other.entities ++ [e] ∧
      ∀ id, t.cell id other.entities.length =
        if table.hasCol id ∧ other.hasCol id then table.cell id row else none := by
  unfold moveRow
  rw [hf]
  refine ⟨_, _, rfl, rfl, rfl, rfl, rfl, fun id => ?_⟩
  unfold cell
  dsimp only [allocRow]
  split
  · exact update_self ..
  · exact update_self ..

/-! ## Rows that leave -/

/-- Where a row stands after another one was swap-removed. -/
def follow (table : Table V) (row line : ℕ) : ℕ :=
  if line = table.entities.length - 1 then row else line

/-- A row has left the table: every other entity keeps what it holds in every column, and
the one whose row number changed is reported with its new row. -/
structure Leaves (table : Table V) (row : ℕ) (report : MovedEntityRow) (after : Table V) :
    Prop where
  length : after.entities.length + 1 = table.entities.length
  entities : ∀ line : ℕ, line ≠ row → line < table.entities.length →
    after.entities[table.follow row line]? = table.entities[line]?
  items : ∀ line : ℕ, line ≠ row → line < table.entities.length → ∀ id ∈ table.components,
    (after.column id).item (table.follow row line) = (table.column id).item line
  moved : ∀ entity newRow, report = ⟨some entity, newRow⟩ ↔ newRow = .table row ∧
    ∃ line, line ≠ row ∧ table.entities[line]? = some entity ∧ table.follow row line ≠ line
  last : report.entity = none ↔ row + 1 = table.entities.length

variable {table other : Table V} {row : ℕ}

theorem leaves_of_items {post : Table V} (hin : row < table.entities.length)
    (es : post.entities = swapRemove table.entities row)
    (items : ∀ line : ℕ, line ≠ row → ∀ id ∈ table.components,
      (post.column id).item (table.follow row line) = (table.column id).item line) :
    Leaves table row (.inTable (swapped table.entities row) row) post where
  length := by
    rw [es, length_swapRemove hin]
    omega
  entities := by
    intro line other hb
    rw [es, getElem?_swapRemove hin]
    unfold follow
    split
    · next hs => rw [if_pos (by omega), if_pos rfl, hs]
    · rw [if_pos (by omega)]
  items := fun line other _ => items line other
  moved := by
    intro e nr
    unfold MovedEntityRow.inTable follow
    constructor
    · intro he
      obtain ⟨hm, rfl⟩ := MovedEntityRow.mk.inj he
      obtain ⟨hi, last⟩ := swapped_eq_some hm
      refine ⟨rfl, _, ?_, last, ?_⟩
      · omega
      · rw [if_pos rfl]
        omega
    · rintro ⟨rfl, line, ne, hf, hc⟩
      split at hc
      · next hs =>
        subst hs
        unfold swapped
        rw [if_neg (by omega), getLast?_eq_getElem?, hf]
      · exact absurd rfl hc
  last := by
    have hn : table.entities ≠ [] := ne_nil_of_length_pos (by omega)
    unfold inTable swapped
    split
    · next hs => exact iff_of_true rfl hs
    · next hi =>
      rw [getLast?_eq_some_getLast hn]
      exact iff_of_false (by simp) hi

theorem leaves_deallocRow (drop : Bool) (hin : row < table.entities.length) :
    ∃ m post, table.deallocRow drop row = some (m, post) ∧ Leaves table row m post := by
  refine ⟨_, _, if_pos hin, leaves_of_items hin rfl fun line other id _ => ?_⟩
  unfold follow
  dsimp only
  by_cases hi : row = table.entities.length - 1
  · have hs : line ≠ table.entities.length - 1 := hi ▸ other
    rw [if_neg (not_not.mpr hi), if_neg hs]
    cases drop with
    | true => exact Column.item_removeItem _ hs
    | false => rfl
  · rw [if_pos hi]
    exact Column.item_swapNotLast _ hi other

theorem item_columnAfterMove (drop : Bool) {line : ℕ} (ne : line ≠ row) (id : ComponentId) :
    (columnAfterMove drop table other row id).item (table.follow row line) =
      (table.column id).item line := by
  unfold columnAfterMove follow
  by_cases hi : row = table.entities.length - 1
  · have hs : line ≠ table.entities.length - 1 := hi ▸ ne
    rw [if_neg (not_not.mpr hi), if_neg hs]
    split_ifs
    · exact Column.item_removeItem _ ne
    · exact Column.item_removeItem _ hs
    · rfl
  · rw [if_pos hi]
    cases other.hasCol id with
    | true =>
      refine (Column.item_swapNotLast _ hi ne).trans ?_
      exact Column.item_removeItem _ ne
    | false => exact Column.item_swapNotLast _ hi ne

/-- **Rows move as a whole.**  `dealloc_row` and `move_row` disturb no other entity of
either table, and `move_row` takes the items along for which both tables have a column. -/
theorem leaves_deallocRow_and_moveRow {entity : Entity}
    (found : table.entities[row]? = some entity) (drop : Bool) (other : Table V) :
    (∃ moved after, table.deallocRow drop row = some (moved, after) ∧
      Leaves table row moved after) ∧ ∃ moved source target, table.moveRow drop row other =
        some (moved, other.entities.length, source, target) ∧
      Leaves table row moved source ∧ target.entities = other.entities ++ [entity] ∧
      (∀ line < other.entities.length, ∀ id,
        (target.column id).item line = (other.column id).item line) ∧
      ∀ id ∈ table.components, id ∈ other.components →
        (target.column id).item other.entities.length = (table.column id).item row := by
  have hi := (List.getElem?_eq_some_iff.mp found).1
  refine ⟨leaves_deallocRow drop hi, ?_⟩
  unfold moveRow
  rw [found]
  refine ⟨_, _, _, rfl, leaves_of_items hi rfl fun line hd id hm => ?_, rfl,
    fun line hb id => ?_, fun id hfi hs => ?_⟩
  · have own : table.hasCol id = true := decide_eq_true hm
    dsimp only
    rw [if_pos own]
    exact item_columnAfterMove drop hd id
  · have hf := Column.item_removeItem (other.column id) hb.ne
    dsimp only [allocRow]
    split
    · refine Eq.trans ?_ hf
      unfold Column.item Column.receiveItem
      dsimp only
      rw [update_of_ne hb.ne, update_of_ne hb.ne, update_of_ne hb.ne]
      rfl
    · exact hf
  · have hbo : table.hasCol id = true ∧ other.hasCol id = true :=
      ⟨decide_eq_true hfi, decide_eq_true hs⟩
    dsimp only
    rw [if_pos hbo]
    unfold Column.item Column.receiveItem allocRow
    dsimp only
    rw [update_self, update_self, update_self]

/-- Three rows with one column each; the first one moves. -/
def trio : Table ℕ where
  components := [0]
  column := fun _ => ⟨some, fun _ => 0, fun _ => 0⟩
  entities := [⟨⟨1⟩, ⟨0⟩⟩, ⟨⟨2⟩, ⟨0⟩⟩, ⟨⟨3⟩, ⟨0⟩⟩]

theorem leaves_deallocRow_and_moveRow_trio :
    ∃ moved source target, trio.moveRow true 0 (new [0, 1]) = some (moved, 0, source, target) ∧
      Leaves trio 0 moved source ∧ (target.column 0).item 0 = (some 0, 0, 0) := by
  obtain ⟨-, moved, source, target, he, hl, -, -, hi⟩ :=
    @leaves_deallocRow_and_moveRow ℕ trio 0 ⟨⟨1⟩, ⟨0⟩⟩ rfl true (new [0, 1])
  exact ⟨moved, source, target, he, hl, hi 0 (by decide) (by decide)⟩

end Table

/-! ## The tables of a world -/

/-- `Tables`: the tables, and the interning of their component lists. -/
structure Tables (V : Type) where
  tables : List (Table V)
  mapper : List ComponentId → Option TableId

namespace Tables

/-- `new`: the empty table has number zero. -/
def new : Tables V where
  tables := [Table.new []]
  mapper := update (fun _ => none) [] (some 0)

/-- `register`: the table of a component list. -/
def register (tables : Tables V) (idents : List ComponentId) : TableId × Tables V :=
  match tables.mapper idents with
  | some id => (id, tables)
  | none =>
    (tables.tables.length,
      { tables := tables.tables ++ [Table.new idents]
        mapper := update tables.mapper idents (some tables.tables.length) })

/-- The interning is exact. -/
def Consistent (tables : Tables V) : Prop :=
  Interned (tables.tables.map Table.components) tables.mapper

theorem consistent_new : (new : Tables V).Consistent :=
  Interned.push interned_nil rfl

/-- Registering keeps the tables that exist and returns the table of the list. -/
theorem register_spec {t : Tables V} (con : t.Consistent)
    (i : List ComponentId) : (t.register i).2.Consistent ∧
      (∃ f, (t.register i).2.tables = t.tables ++ f ∧
        ∀ table ∈ f, table = Table.new i) ∧
      ((t.register i).2.tables[(t.register i).1]?).map Table.components =
        some i := by
  unfold register
  cases hk : t.mapper i with
  | some id =>
    refine ⟨con, ⟨[], by simp⟩, ?_⟩
    rw [← getElem?_map]
    exact (con i id).mp hk
  | none =>
    refine ⟨?_, ⟨[Table.new i], rfl, by simp⟩, ?_⟩
    · have hp := Interned.push con hk
      rw [length_map] at hp
      unfold Consistent
      rw [map_append]
      exact hp
    · rw [getElem?_append_right le_rfl, Nat.sub_self]
      rfl

end Tables

end Voker.Ecs
