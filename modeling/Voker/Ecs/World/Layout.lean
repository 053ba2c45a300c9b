import Voker.Ecs.World.FrameOps

/-!
# Where entities stand

An entity occupies a row of an archetype and a row of a table, and its location records
both.  An entity is *settled* if the rows that hold it are exactly the ones its location
names.  The operations unsettle one entity at a time: while an operation moves it, the
entity is *adrift*, standing at known places whatever its location says, and **every other
entity stays settled, because the one neighbour that a swap-removal moves gets its new row
recorded**.

Archetypes and tables are treated alike, as two stores.
-/

namespace Voker.Ecs.World

open Foundation List Option Function

variable {τ V : Type} {P : Program τ V}

/-! ## The two stores -/

/-- The two kinds of rows. -/
inductive Store where
  | arche
  | table
  deriving DecidableEq, Repr

namespace Store

/-- A row of a store, as a swap-removal reports it. -/
def row : Store → ℕ → Row
  | arche => Row.arche
  | table => Row.table

/-- The list and the row of a store that a location names. -/
def place : Store → EntityLocation → ℕ × ℕ
  | arche, location => (location.archeId, location.archeRow)
  | table, location => (location.tableId, location.tableRow)

theorem place_setRow (store : Store) (loc : EntityLocation) (row : ℕ) :
    store.place (loc.setRow (store.row row)) = ((store.place loc).1, row) := by
  cases store with
  | arche => rfl
  | table => rfl

theorem place_setRow_of_ne {store o : Store} (ne : o ≠ store)
    (loc : EntityLocation) (row : ℕ) :
    o.place (loc.setRow (store.row row)) = o.place loc := by
  cases store with
  | arche =>
    cases o with
    | arche => exact absurd rfl ne
    | table => rfl
  | table =>
    cases o with
    | arche => rfl
    | table => exact absurd rfl ne

end Store

theorem tableId_setRow (loc : EntityLocation) (row : Row) :
    (loc.setRow row).tableId = loc.tableId := by
  cases row with
  | arche row => rfl
  | table row => rfl

/-- The rows of a store. -/
def rows (world : World τ V) : Store → ℕ → List Entity
  | .arche => world.archeRows
  | .table => world.tableRows

variable {w post pre : World τ V} {store : Store} {list : ℕ} {e : Entity} {id : ArcheId}
  {arche : Archetype} {table : Table V} {entities : Entities}

theorem rows_arche (hf : w.archetypes.arches[id]? = some arche) :
    w.rows .arche id = arche.entities :=
  archeRows_of_getElem hf

theorem rows_table {id : TableId} (hf : w.tables.tables[id]? = some table) :
    w.rows .table id = table.entities :=
  tableRows_of_getElem hf

/-- The number of lists in a store. -/
def lists (world : World τ V) : Store → ℕ
  | .arche => world.archetypes.arches.length
  | .table => world.tables.tables.length

/-- Beyond the lists that exist there are no rows. -/
theorem rows_eq_nil (hb : w.lists store ≤ list) : w.rows store list = [] := by
  cases store with
  | arche =>
    change w.archeRows list = []
    rw [archeRows, getElem?_eq_none hb]
    rfl
  | table =>
    change w.tableRows list = []
    rw [tableRows, getElem?_eq_none hb]
    rfl

/-- A list with a row exists. -/
theorem lt_lists {row : ℕ} (he : (w.rows store list)[row]? = some e) : list < w.lists store := by
  by_contra hb
  rw [rows_eq_nil (Nat.le_of_not_lt hb)] at he
  cases he

theorem rows_setArche (hf : w.archetypes.arches[id]? = some arche) (post : Archetype) :
    (w.setArche id post).rows = update w.rows .arche (update (w.rows .arche) id post.entities) := by
  funext store
  cases store with
  | arche => exact archeRows_setArche hf post
  | table => rfl

theorem rows_setTable {id : TableId} (hf : w.tables.tables[id]? = some table)
    (post : Table V) : (w.setTable id post).rows = update w.rows .table
      (update (w.rows .table) id post.entities) := by
  funext store
  cases store with
  | arche => rfl
  | table => exact tableRows_setTable hf post

section

variable (w : World τ V)

theorem lists_entities (es : Entities) : lists { w with entities := es } = w.lists := by
  funext store
  cases store with
  | arche => rfl
  | table => rfl

theorem rows_entities (es : Entities) : rows { w with entities := es } = w.rows := by
  funext store
  cases store with
  | arche => rfl
  | table => rfl

theorem lists_setArche (id : ArcheId) (arche : Archetype) :
    (w.setArche id arche).lists = w.lists := by
  funext store
  cases store with
  | arche => exact length_set
  | table => rfl

theorem lists_setTable (id : TableId) (table : Table V) :
    (w.setTable id table).lists = w.lists := by
  funext store
  cases store with
  | arche => rfl
  | table => exact length_set

end

/-! ## Settled entities -/

/-- The entity stands where its location says, in the archetype and in its table, and
nowhere else. -/
structure Settled (world : World τ V) (entity : Entity) : Prop where
  held : ∀ store, HeldAt (world.rows store) entity
    ((world.entities.located entity).map (Store.place store))
  link : ∀ location, world.entities.located entity = some location →
    world.tableOf location.archeId = some location.tableId

/-- Nothing moves; at most new archetypes appear. -/
structure SameRows (before after : World τ V) : Prop where
  entities : after.entities = before.entities
  rows : after.rows = before.rows
  tableOf : ∀ id table, before.tableOf id = some table → after.tableOf id = some table

instance : Std.Refl (@SameRows τ V) :=
  ⟨fun _ => ⟨rfl, rfl, fun _ _ found => found⟩⟩

instance : IsTrans (World τ V) SameRows :=
  ⟨fun _ _ _ one two => ⟨two.entities.trans one.entities, two.rows.trans one.rows,
    fun id table found => two.tableOf id table (one.tableOf id table found)⟩⟩

theorem Settled.sameRows (hs : pre.Settled e) (hsa : SameRows pre post) : post.Settled e where
  held := by
    rw [hsa.rows, hsa.entities]
    exact hs.held
  link := by
    intro loc ha
    rw [hsa.entities] at ha
    exact hsa.tableOf _ _ (hs.link loc ha)

/-- A new location of one entity does not concern the others. -/
theorem Settled.relocate {o : Entity} {loc : Option EntityLocation}
    (hs : w.Settled o) (ne : o ≠ e)
    (hl : entities.located = update w.entities.located e loc) :
    Settled { w with entities := entities } o where
  held := by
    intro store
    rw [rows_entities, hl, update_of_ne ne]
    exact hs.held store
  link := by
    intro hf ha
    rw [hl, update_of_ne ne] at ha
    exact hs.link hf ha

/-- Changes of the entity table that no handle sees. -/
theorem Settled.sameLocated (hs : w.Settled e)
    (hl : entities.located = w.entities.located) :
    Settled { w with entities := entities } e where
  held := by
    rw [rows_entities, hl]
    exact hs.held
  link := by
    rw [hl]
    exact hs.link

/-- Maps do not touch the rows of the two stores. -/
theorem sameRows_setMap (w : World τ V) (id : MapId) (map : Map V) :
    SameRows w (w.setMap id map) := by
  refine ⟨rfl, ?_, fun _ _ hf => hf⟩
  funext store
  cases store with
  | arche => rfl
  | table => rfl

theorem storing_sameRows : Storing (@SameRows τ V) where
  dense := by
    intro w id table c hf
    refine ⟨rfl, ?_, fun _ _ hf => hf⟩
    rw [rows_setTable hf]
    funext store
    by_cases he : store = .table
    · subst he
      rw [update_self, ← tableRows_of_getElem hf]
      exact update_eq_self _ _
    · rw [update_of_ne he]
  sparse := fun w id map _ _ => sameRows_setMap w id _

theorem sameRows_allocMapRow (c : ComponentId) (e : Entity) :
    Moves SameRows (allocMapRow P c e) := fun w =>
  sat_allocMapRow.mpr ⟨fun _ _ => sameRows_setMap w _ _, fun _ => refl_of _ w⟩

theorem sameRows_deallocMapRow (drop : Bool) (c : ComponentId) (e : Entity) :
    Moves SameRows (deallocMapRow P drop c e) := fun w =>
  sat_deallocMapRow.mpr ⟨fun _ _ => ⟨fun _ _ => ⟨fun _ _ => sameRows_setMap w _ _,
    fun _ => refl_of _ w⟩, fun _ => refl_of _ w⟩, fun _ => refl_of _ w⟩

theorem sameRows_forgetMap (id : MapId) : Moves SameRows (forgetMap P e id) := by
  refine Moves.bind .read fun w => ?_
  refine (moves_unwrapChecked _ _).bind fun map => ?_
  cases map.getMapRow e with
  | none => exact .pure _
  | some row =>
    exact (moves_unwrapChecked _ _).bind fun post w => sameRows_setMap w id post

theorem sameRows_allocator (w : World τ V) (al : EntityAllocator) :
    SameRows w { w with allocator := al } := by
  refine ⟨rfl, ?_, fun _ _ hf => hf⟩
  funext store
  cases store with
  | arche => rfl
  | table => rfl

theorem sameRows_allocMut : Moves SameRows (allocMut : Exec τ V Entity) := fun w =>
  sat_allocMut.mpr ⟨fun _ _ => sameRows_allocator w _, fun _ => sameRows_allocator w _⟩

/-- Registrations add empty lists. -/
theorem Grew.sameRows (hg : Grew pre post) : SameRows pre post := by
  refine ⟨hg.entities, ?_, fun _ _ hf => hg.toStatics.tableOf hf⟩
  funext store list
  cases store with
  | arche =>
    change post.archeRows list = pre.archeRows list
    unfold archeRows
    cases he : pre.archetypes.arches[list]? with
    | some old =>
      obtain ⟨now, hst, hr, -⟩ := hg.rows list old he
      rw [hst, map_some, map_some, hr]
    | none =>
      cases hl : post.archetypes.arches[list]? with
      | none => rfl
      | some arche =>
        rw [map_some, (hg.freshArches list arche hl he).1]
        rfl
  | table =>
    change post.tableRows list = pre.tableRows list
    unfold tableRows
    obtain ⟨a, split, hem⟩ := hg.freshTables
    rw [split, getElem?_append]
    split
    · rfl
    · next ho =>
      rw [getElem?_eq_none (Nat.le_of_not_lt ho)]
      cases hl : a[list - pre.tables.tables.length]? with
      | none => rfl
      | some table =>
        rw [map_some, hem table (mem_of_getElem? hl)]
        rfl

/-! ## Rows come and go -/

/-- A row of a store was swap-removed. -/
structure Removed (store : Store) (list row : ℕ) (before after : World τ V) : Prop where
  rows : after.rows = update before.rows store
    (update (before.rows store) list (swapRemove (before.rows store list) row))
  lists : after.lists = before.lists
  entities : after.entities = before.entities
  tableOf : after.tableOf = before.tableOf

/-- An entity was appended to a list of a store. -/
structure Added (store : Store) (list : ℕ) (entity : Entity) (before after : World τ V) : Prop where
  rows : after.rows = update before.rows store
    (update (before.rows store) list (before.rows store list ++ [entity]))
  entities : after.entities = before.entities
  tableOf : after.tableOf = before.tableOf

/-- Rows and locations are kept apart. -/
theorem Added.withEntities (ha : Added store list e pre post) (es : Entities) :
    Added store list e { pre with entities := es }
      { post with entities := es } where
  rows := by
    exact ha.rows
  entities := rfl
  tableOf := ha.tableOf

/-- What a swap-removal reports. -/
def movedRow (world : World τ V) (store : Store) (list row : ℕ) : MovedEntityRow :=
  ⟨swapped (world.rows store list) row, store.row row⟩

section Follow

variable {pre post : World τ V} {store : Store} {list row : ℕ} {e : Entity}

/-- The neighbour that a swap-removal moves is alive. -/
theorem located_of_swapped {o : Entity} (hs : pre.Settled o)
    (hm : swapped (pre.rows store list) row = some o) :
    ∃ loc, pre.entities.located o = some loc ∧ (store.place loc).1 = list := by
  have place := (hs.held store).unique (swapped_eq_some hm).2
  obtain ⟨loc, ha, hl⟩ := map_eq_some_iff.mp place
  exact ⟨loc, ha, by rw [hl]⟩

/-- **Following a swap-removal.**  The report can be recorded, and then all others are
settled again. -/
theorem Removed.follow (hre : Removed store list row pre post)
    (ho : ∀ o ≠ e, pre.Settled o) (hf : (pre.rows store list)[row]? = some e)
    (hap : swapped (pre.rows store list) row ≠ some e) :
    ∃ entities, post.entities.updateRow (pre.movedRow store list row) = .ok entities ∧
      entities.located e = pre.entities.located e ∧
      ∀ o ≠ e, Settled { post with entities := entities } o := by
  -- the others' rows, with the row of the moved neighbour replaced
  have hst : ∀ o ≠ e, ∀ kind, HeldAt (post.rows kind) o (if kind = store then
        followSwap (pre.rows store list) list row o
          ((pre.entities.located o).map (Store.place store))
      else (pre.entities.located o).map (Store.place kind)) := by
    intro o ne kind
    rw [hre.rows]
    split
    · next hs =>
      rw [hs, update_self]
      exact ((ho o ne).held store).swapRemove_other hf ne
    · next hs =>
      rw [update_of_ne hs]
      exact (ho o ne).held kind
  -- it remains to compare the places with the updated locations
  suffices hrc : ∃ entities,
      post.entities.updateRow (pre.movedRow store list row) = .ok entities ∧
      entities.located e = pre.entities.located e ∧ ∀ o ≠ e,
        (∀ kind, (entities.located o).map (Store.place kind) =
          if kind = store then
            followSwap (pre.rows store list) list row o
              ((pre.entities.located o).map (Store.place store))
          else (pre.entities.located o).map (Store.place kind)) ∧
        ∀ loc, entities.located o = some loc → pre.tableOf loc.archeId = some loc.tableId by
    obtain ⟨entities, hr, own, places⟩ := hrc
    refine ⟨entities, hr, own, fun o ne => ⟨fun kind => ?_, fun loc ha => ?_⟩⟩
    · rw [rows_entities, (places o ne).1 kind]
      exact hst o ne kind
    · exact (congrFun hre.tableOf _).trans ((places o ne).2 loc ha)
  unfold Entities.updateRow movedRow
  rw [hre.entities]
  cases hm : swapped (pre.rows store list) row with
  | none =>
    refine ⟨pre.entities, rfl, rfl, fun o ne => ⟨fun kind => ?_, ?_⟩⟩
    · rw [followSwap, hm, if_neg (some_ne_none _).symm]
      split
      · next hs => rw [hs]
      · rfl
    · exact (ho o ne).link
  | some neighbour =>
    have own : neighbour ≠ e := fun heq => hap (by rw [hm, heq])
    obtain ⟨loc, ha, hil⟩ := located_of_swapped (ho neighbour own) hm
    obtain ⟨entities, hr, hl, -⟩ := @Entities.modifyLocation_ok _ _
      (fun loc => loc.setRow (store.row row)) _ ha
    refine ⟨entities, hr, ?_, fun o ne => ⟨fun kind => ?_, ?_⟩⟩
    · rw [hl, update_of_ne (Ne.symm own)]
    · rw [hl]
      by_cases hs : o = neighbour
      · subst hs
        rw [update_self, followSwap, if_pos hm, ha, map_some]
        split
        · next he => rw [he, Store.place_setRow, hil]
        · next he => rw [Store.place_setRow_of_ne he, map_some]
      · have hsa : swapped (pre.rows store list) row ≠ some o := by
          rw [hm]
          exact fun heq => hs (some.inj heq).symm
        rw [update_of_ne hs, followSwap, if_neg hsa]
        split
        · next he => rw [he]
        · rfl
    · intro place
      rw [hl]
      by_cases hs : o = neighbour
      · subst hs
        rw [update_self]
        rintro ⟨⟩
        rw [archeId_setRow, tableId_setRow]
        exact (ho o own).link loc ha
      · rw [update_of_ne hs]
        exact (ho o ne).link place

end Follow

/-! ### The primitives -/

section Primitives

variable {w : World τ V} {row : ℕ} {e : Entity} {id : ArcheId}

theorem removed_deallocArcheRow (he : (w.rows .arche id)[row]? = some e) :
    Sat (deallocArcheRow P id row) w (fun m post => m = w.movedRow .arche id row ∧
        Removed .arche id row w post) (fun _ _ => False) := by
  refine sat_deallocArcheRow.mpr ⟨fun arche hf => ?_, fun ha => ?_⟩
  · have hs := rows_arche hf
    rw [hs] at he
    rw [if_pos (List.getElem?_eq_some_iff.mp he).1]
    refine ⟨?_, ?_, lists_setArche _ _ _, rfl, tableOf_setArche hf rfl⟩
    · rw [movedRow, hs]
      rfl
    · rw [rows_setArche hf, hs]
  · exact absurd (getElem?_eq_none_iff.mp ha) (Nat.not_le_of_lt (lt_lists he))

theorem removed_deallocTableRow (drop : Bool) {id : TableId}
    (he : (w.rows .table id)[row]? = some e) : Sat (deallocTableRow P drop id row) w
      (fun m post => m = w.movedRow .table id row ∧ Removed .table id row w post)
      (fun _ _ => False) := by
  refine sat_deallocTableRow.mpr ⟨fun table hf => ?_, fun ha => ?_⟩
  · have hs := rows_table hf
    rw [hs] at he
    obtain ⟨post, hsh, -, entities⟩ := @Table.deallocRow_eq _ drop _ _
      (List.getElem?_eq_some_iff.mp he).1
    refine ⟨fun res out => ?_, fun hfa => absurd (hsh.symm.trans hfa) (by simp)⟩
    obtain rfl := some.inj (out.symm.trans hsh)
    refine ⟨?_, ?_, lists_setTable _ _ _, rfl, rfl⟩
    · rw [movedRow, hs]
      rfl
    · rw [rows_setTable hf, hs, entities]
  · exact absurd (getElem?_eq_none_iff.mp ha) (Nat.not_le_of_lt (lt_lists he))

theorem added_setArche {arche : Archetype} (hf : w.archetypes.arches[id]? = some arche)
    (e : Entity) : Added .arche id e w
      (w.setArche id { arche with entities := arche.entities ++ [e] }) := by
  refine ⟨?_, rfl, tableOf_setArche hf rfl⟩
  rw [rows_setArche hf, rows_arche hf]

theorem added_setTable {id : TableId} {table : Table V}
    (hf : w.tables.tables[id]? = some table) (e : Entity) :
    Added .table id e w (w.setTable id (table.allocRow e).2) := by
  refine ⟨?_, rfl, rfl⟩
  rw [rows_setTable hf, rows_table hf]
  rfl

/-- Moving a row between tables is removing it here and appending its entity there. -/
theorem removed_moveTableRow (drop : Bool) {src t : TableId} (ne : src ≠ t)
    (hel : (w.rows .table src)[row]? = some e) : Sat (moveTableRow P drop src t row) w
      (fun res post => res.1 = w.movedRow .table src row ∧ res.2 = (w.rows .table t).length ∧
        ∃ b, Removed .table src row w b ∧ Added .table t e b post)
      (fun _ post => post = w) := by
  refine sat_moveTableRow.mpr ⟨fun fst hif => ⟨fun snd his =>
    ⟨fun res out => ?_, fun _ => rfl⟩, fun _ => rfl⟩, fun _ => rfl⟩
  have he := rows_table hif
  rw [he] at hel
  obtain ⟨left, r, hsh, -, hlr, -, hrr, -⟩ :=
    @Table.moveRow_eq _ drop _ snd _ _ hel
  obtain rfl := some.inj (out.symm.trans hsh)
  have hs : (w.setTable src left).tables.tables[t]? = some snd := by
    unfold setTable
    rw [getElem?_set_ne ne]
    exact his
  refine ⟨?_, ?_, w.setTable src left, ⟨?_, lists_setTable _ _ _, rfl, rfl⟩, ⟨?_, rfl, rfl⟩⟩
  · rw [movedRow, he]
    rfl
  · rw [rows_table his]
  · rw [rows_setTable hif, he, hlr]
  · rw [rows_setTable hs, rows_table hs, hrr]

end Primitives

/-! ## Entities adrift -/

/-- Since the world `base` an operation has been moving the entity.  It stands at the given
places; its location has not been touched. -/
structure Adrift (base : World τ V) (entity : Entity) (place : Store → Option (ℕ × ℕ))
    (world : World τ V) : Prop where
  others : ∀ other ≠ entity, world.Settled other
  held : ∀ store, HeldAt (world.rows store) entity (place store)
  located : world.entities.located entity = base.entities.located entity
  tableOf : ∀ id table, base.tableOf id = some table → world.tableOf id = some table

section Adrift

variable {base pre post w : World τ V} {store : Store} {list row : ℕ}
  {e : Entity} {place : Store → Option (ℕ × ℕ)}

/-- At first the entity stands where its location says. -/
theorem adrift_of_settled (hs : ∀ e, w.Settled e) (e : Entity) : Adrift w e
      (fun store => (w.entities.located e).map (Store.place store)) w :=
  ⟨fun o _ => hs o, (hs e).held, rfl, fun _ _ hf => hf⟩

/-- Appending moves nobody else. -/
theorem Settled.added {o : Entity} (hs : pre.Settled o)
    (ne : o ≠ e) (ha : Added store list e pre post) : post.Settled o where
  held := by
    intro kind
    rw [ha.rows, ha.entities]
    by_cases hsa : kind = store
    · subst hsa
      rw [update_self]
      exact (hs.held kind).push_other ne
    · rw [update_of_ne hsa]
      exact hs.held kind
  link := by
    intro loc hal
    rw [ha.entities] at hal
    exact (congrFun ha.tableOf _).trans (hs.link loc hal)

variable {es : Entities} {loc : Option EntityLocation}

/-- Its location changes, its rows do not. -/
theorem Adrift.relocate (adrift : Adrift base e place w)
    (located : es.located = update w.entities.located e loc) :
    Adrift { w with entities := es } e place
      { w with entities := es } where
  others := fun o ne => (adrift.others o ne).relocate ne located
  held := by
    exact adrift.held
  located := rfl
  tableOf := fun _ _ hf => hf

/-- The entity has arrived: its location is where it stands. -/
theorem Adrift.settle (adrift : Adrift base e place w)
    (hl : es.located = update w.entities.located e loc)
    (har : ∀ store, place store = loc.map (Store.place store))
    (hli : ∀ hf, loc = some hf → base.tableOf hf.archeId = some hf.tableId) :
    ∀ o, Settled { w with entities := es } o := by
  intro o
  by_cases hs : o = e
  · subst hs
    refine ⟨fun store => ?_, fun hf ha => ?_⟩
    · rw [rows_entities, hl, update_self, ← har store]
      exact adrift.held store
    · rw [hl, update_self] at ha
      exact adrift.tableOf _ _ (hli hf ha)
  · exact (adrift.others o hs).relocate hs hl

section

variable (adrift : Adrift base e place pre)

include adrift

theorem Adrift.sameRows (hs : SameRows pre post) : Adrift base e place post where
  others := fun o ne => (adrift.others o ne).sameRows hs
  held := by
    rw [hs.rows]
    exact adrift.held
  located := by rw [hs.entities, adrift.located]
  tableOf := fun id table hf => hs.tableOf id table (adrift.tableOf id table hf)

/-- The entity leaves a store. -/
theorem Adrift.vacate (hst : place store = some (list, row))
    (hr : Removed store list row pre post) :
    ∃ es, post.entities.updateRow (pre.movedRow store list row) = .ok es ∧
      Adrift base e (update place store none) { post with entities := es } := by
  have he := adrift.held store
  rw [hst] at he
  have hf : (pre.rows store list)[row]? = some e := (he list row).mpr rfl
  obtain ⟨es, hre, own, ho⟩ := hr.follow adrift.others hf
    (he.onceEach.swapped_ne hf)
  refine ⟨es, hre, ho, fun kind => ?_, own.trans adrift.located, ?_⟩
  · rw [rows_entities, hr.rows]
    by_cases hs : kind = store
    · subst hs
      rw [update_self, update_self]
      exact he.swapRemove_self
    · rw [update_of_ne hs, update_of_ne hs]
      exact adrift.held kind
  · intro id table hk
    exact (congrFun hr.tableOf id).trans (adrift.tableOf id table hk)

/-- The entity enters a store in which it does not stand. -/
theorem Adrift.enter (ha : place store = none) (had : Added store list e pre post) :
    Adrift base e (update place store (some (list, (pre.rows store list).length))) post where
  others := fun o ne => (adrift.others o ne).added ne had
  held := by
    intro kind
    rw [had.rows]
    by_cases hs : kind = store
    · subst hs
      rw [update_self, update_self]
      have held := adrift.held kind
      rw [ha] at held
      exact held.push_self
    · rw [update_of_ne hs, update_of_ne hs]
      exact adrift.held kind
  located := by rw [had.entities, adrift.located]
  tableOf := fun id table hk =>
    (congrFun had.tableOf id).trans (adrift.tableOf id table hk)

end

end Adrift

/-! ## Loose entities -/

/-- Some table holds the entity twice, one time in its last row. -/
def Doubled (world : World τ V) (entity : Entity) : Prop :=
  ∃ table row, (world.tableRows table)[row]? = some entity ∧
    row + 1 < (world.tableRows table).length ∧
    (world.tableRows table).getLast? = some entity

/-- What a guard finds when it has to clean up: no list holds the entity twice, or some
table does, which will end the process. -/
structure Loose (world : World τ V) (entity : Entity) : Prop where
  others : ∀ other ≠ entity, world.Settled other
  once : (∀ store, OnceEach (world.rows store) entity) ∨ world.Doubled entity

theorem Adrift.loose {base : World τ V} {place : Store → Option (ℕ × ℕ)}
    (adrift : Adrift base e place w) : w.Loose e :=
  ⟨adrift.others, .inl fun store => (adrift.held store).onceEach⟩

theorem Loose.sameRows (hl : pre.Loose e) (hs : SameRows pre post) : post.Loose e where
  others := fun o ne => (hl.others o ne).sameRows hs
  once := by
    have ht : post.tableRows = pre.tableRows := congrFun hs.rows .table
    unfold Doubled
    rw [hs.rows, ht]
    exact hl.once

theorem loose_of_settled (hs : ∀ e, w.Settled e) (e : Entity) : w.Loose e :=
  (adrift_of_settled hs e).loose

end Voker.Ecs.World
