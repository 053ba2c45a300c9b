import Voker.Ecs.World.Layout

/-!
# What a guard's cleanup leaves behind

`forget` takes an entity out of every archetype and every table, one row per list.  If no
list holds the entity twice, **all entities are settled afterwards**, this one as nobody.

A list can hold it twice: a release build does not check a handle before it gives it rows,
so spawning at a handle that is alive appends a second row.  Then the table reports the
entity itself as the moved neighbour, which has no location any more, and **the panic
inside the cleanup ends the process**.  Nobody sees the doubled rows.
-/

namespace Voker.Ecs.World

open Foundation List Option Function

variable {τ V : Type} {P : Program τ V}

/-! ## List after list -/

/-- Between the steps of `forget`: the entity has no location and leaves list after list. -/
structure Forgetting (base : World τ V) (entity : Entity) (gone : Store → ℕ → Prop)
    (world : World τ V) : Prop where
  lists : world.lists = base.lists
  others : ∀ other ≠ entity, world.Settled other
  dead : world.entities.located entity = none
  once : ∀ store, OnceEach (world.rows store) entity
  gone : ∀ store list, gone store list → entity ∉ world.rows store list

section Forget

variable {base w : World τ V} {e : Entity} {gone : Store → ℕ → Prop} {store : Store} {es : Entities}
  {table : TableId}

/-- Any other list is done after one removal. -/
theorem Forgetting.remove {pre post : World τ V}
    (forgetting : Forgetting base e gone pre) {list row : ℕ}
    (hf : (pre.rows store list)[row]? = some e) (hr : Removed store list row pre post) :
    ∃ es, post.entities.updateRow (pre.movedRow store list row) = .ok es ∧
      Forgetting base e (fun kind o => gone kind o ∨ kind = store ∧ o = list)
        { post with entities := es } := by
  have ho := forgetting.once store
  obtain ⟨es, hre, own, hot⟩ := hr.follow forgetting.others hf (ho.swapped_ne hf)
  refine ⟨es, hre, ?_, hot, own.trans forgetting.dead, fun kind => ?_, ?_⟩
  · rw [lists_entities, hr.lists, forgetting.lists]
  · rw [rows_entities, hr.rows]
    by_cases hs : kind = store
    · subst hs
      rw [update_self]
      exact ho.swapRemove hf
    · rw [update_of_ne hs]
      exact forgetting.once kind
  · intro kind o hl
    rw [rows_entities, hr.rows]
    by_cases hs : kind = store
    · subst hs
      rw [update_self]
      by_cases her : o = list
      · subst her
        rw [update_self]
        exact ho.swapRemove_not_mem hf
      · rw [update_of_ne her]
        rcases hl with pre | ⟨-, he⟩
        · exact forgetting.gone kind o pre
        · exact absurd he her
    · rw [update_of_ne hs]
      rcases hl with pre | ⟨he, -⟩
      · exact forgetting.gone kind o pre
      · exact absurd he hs

/-- `set_despawned`, with its result ignored: the entity has no location any more. -/
theorem sat_dropLocation {ret : Unit → World τ V → Prop} {f : Fault → World τ V → Prop}
    (hd : ∀ es, es.located = update w.entities.located e none →
      ret () { w with entities := es }) :
    Sat (dropLocation e) w ret f := by
  unfold dropLocation
  rw [sat_modify]
  cases out : w.entities.setDespawned e with
  | ok res => exact hd res.2 (Entities.setDespawned_ok out).2.1
  | error err =>
    refine hd w.entities ?_
    cases ha : w.entities.located e with
    | none => rw [← ha, update_eq_self]
    | some loc =>
      obtain ⟨post, hok⟩ := Entities.setDespawned_of_located ha
      cases out.symm.trans hok

/-- The parts of `forget` that go through the lists of a store. -/
def forgetList (P : Program τ V) (entity : Entity) : Store → ℕ → Exec τ V Unit
  | .arche => forgetArche P entity
  | .table => forgetTable P entity

/-- A list is left alone if it does not hold the entity; otherwise the row found is removed, in a
table the first one, and the neighbour that moves is recorded. -/
theorem sat_forgetList {list : ℕ} {ret : Unit → World τ V → Prop}
    {f : Fault → World τ V → Prop} (hb : w.lists store ≤ list → ∀ fa, f fa w)
    (ha : e ∉ w.rows store list → ret () w) (hp : ∀ row post, (w.rows store list)[row]? = some e →
      (store = .table → ∀ o, (w.rows store list)[o]? = some e → row ≤ o) →
      Removed store list row w post → Sat (updateRow (w.movedRow store list row)) post ret f) :
    Sat (forgetList P e store list) w ret f := by
  cases store with
  | arche =>
    refine sat_bind.mpr (sat_archetype.mpr ⟨fun arche hf => ?_, fun none =>
      hb (getElem?_eq_none_iff.mp none) _⟩)
    rw [rows_arche hf] at ha
    cases pos : arche.getArcheRow e with
    | none => exact ha (Archetype.getArcheRow_eq_none.mp pos)
    | some row =>
      have he := Archetype.getArcheRow_eq_some pos
      rw [← rows_arche hf] at he
      refine sat_bind.mpr ((removed_deallocArcheRow he).mono ?_ fun _ _ hn => hn.elim)
      rintro m post ⟨rfl, hr⟩
      exact hp row post he (fun table => by cases table) hr
  | table =>
    refine sat_bind.mpr (sat_table.mpr ⟨fun table hf => ?_, fun none =>
      hb (getElem?_eq_none_iff.mp none) _⟩)
    rw [rows_table hf] at ha
    cases pos : table.getTableRow e with
    | none => exact ha (Table.getTableRow_eq_none.mp pos)
    | some row =>
      obtain ⟨he, one⟩ := Table.getTableRow_eq_some pos
      rw [← rows_table hf] at he one
      refine sat_bind.mpr ((removed_deallocTableRow false he).mono ?_ fun _ _ hn => hn.elim)
      rintro m post ⟨rfl, hr⟩
      exact hp row post he (fun _ => one) hr

/-- The entity has lost its location and stands where it stood. -/
theorem forgetting_dropped (ho : ∀ o ≠ e, w.Settled o)
    (hon : ∀ store, OnceEach (w.rows store) e)
    (hl : es.located = update w.entities.located e none) :
    Forgetting w e (fun store list => w.lists store ≤ list) { w with entities := es } := by
  refine ⟨lists_entities .., fun o ne => (ho o ne).relocate ne hl,
    by rw [hl, update_self], ?_, ?_⟩
  · rw [rows_entities]
    exact hon
  · intro store list hb
    rw [rows_entities, rows_eq_nil hb]
    exact not_mem_nil

section

variable (forgetting : Forgetting base e gone w)

include forgetting

theorem Forgetting.mono {less : Store → ℕ → Prop}
    (hw : ∀ store list, less store list → gone store list) : Forgetting base e less w :=
  { forgetting with gone := fun store list hl =>
      forgetting.gone store list (hw store list hl) }

/-- A list that does not hold the entity is done. -/
theorem Forgetting.skip {store : Store} {list : ℕ} (ha : e ∉ w.rows store list) :
    Forgetting base e (fun kind o => gone kind o ∨ kind = store ∧ o = list)
      w := by
  refine { forgetting with gone := ?_ }
  rintro kind o (hl | ⟨rfl, rfl⟩)
  · exact forgetting.gone kind o hl
  · exact ha

theorem forgetting_forgetList {list : ℕ} (hin : list < base.lists store) :
    Sat (forgetList P e store list) w (fun _ post => Forgetting base e
        (fun kind o => gone kind o ∨ kind = store ∧ o = list) post)
      (fun _ _ => False) := by
  rw [← forgetting.lists] at hin
  refine sat_forgetList (fun hb => absurd hin (Nat.not_lt_of_le hb)) forgetting.skip ?_
  intro row post he _ hre
  obtain ⟨es, hr, hk⟩ := forgetting.remove he hre
  exact sat_updateRow_ok hr hk

/-- An entity that stands nowhere and has no location is settled. -/
theorem Forgetting.settled (all : ∀ store list, gone store list) (o : Entity) :
    w.Settled o := by
  by_cases hs : o = e
  · subst hs
    refine ⟨fun store => ?_, fun loc ha => ?_⟩
    · rw [forgetting.dead, map_none, heldAt_none_iff]
      exact fun list => forgetting.gone store list (all store list)
    · rw [forgetting.dead] at ha
      cases ha
  · exact forgetting.others o hs

end

/-- Visiting the lists of a store one by one. -/
theorem forgetting_forM (store : Store) (forgetting : Forgetting base e gone w) :
    Sat ((range (base.lists store)).forM (forgetList P e store)) w (fun _ post => Forgetting base e
        (fun kind o => gone kind o ∨ kind = store ∧ o < base.lists store) post)
      (fun _ _ => False) := by
  refine (@Sat.forM _ _ _ _ _ _ (fun done post => Forgetting base e
    (fun kind o => gone kind o ∨ kind = store ∧ o ∈ done) post) _ ?_ ?_).mono ?_
      fun _ _ hn => hn
  · intro done list rest hsp mid hk
    have hin : list < base.lists store := by
      rw [← mem_range, hsp]
      simp
    refine (forgetting_forgetList hk hin).mono (fun _ post ha => ha.mono ?_)
      fun _ _ hn => hn
    rintro kind o (hl | ⟨hs, hin⟩)
    · exact .inl (.inl hl)
    · rcases mem_append.mp hin with he | now
      · exact .inl (.inr ⟨hs, he⟩)
      · exact .inr ⟨hs, mem_singleton.mp now⟩
  · refine forgetting.mono ?_
    rintro kind o (hl | ⟨-, hin⟩)
    · exact hl
    · exact absurd hin not_mem_nil
  · intro _ post hk
    refine hk.mono ?_
    rintro kind o (hl | ⟨hs, hin⟩)
    · exact .inl hl
    · exact .inr ⟨hs, mem_range.mpr hin⟩

/-- **Forgetting an entity that no list holds twice settles it.** -/
theorem forget_of_once (ho : ∀ o ≠ e, w.Settled o)
    (hon : ∀ store, OnceEach (w.rows store) e) :
    Sat (forget P e) w (fun _ post => ∀ o, post.Settled o)
      (fun _ post => ∀ o, post.Settled o) := by
  unfold forget
  rw [sat_bind]
  refine sat_dropLocation fun es hl => ?_
  have hst := forgetting_dropped ho hon hl
  rw [sat_bind, sat_get, sat_bind]
  refine (forgetting_forM .arche hst).mono
    (fun _ aa hk => ?_) fun _ _ hn => hn.elim
  rw [sat_bind]
  refine (forgetting_forM .table hk).mono
    (fun _ af gone => ?_) fun _ _ hn => hn.elim
  -- what is left are the maps, which hold no rows of the two stores
  have hs := gone.settled fun store list => by
    rcases Nat.lt_or_ge list (w.lists store) with hin | hb
    · cases store with
      | arche => exact .inl (.inr ⟨rfl, hin⟩)
      | table => exact .inr ⟨rfl, hin⟩
    · exact .inl (.inl hb)
  exact (Moves.forM (fun id _ => sameRows_forgetMap id) af).mono
    (fun _ post hsa o => (hs o).sameRows hsa)
    (fun _ post hsa o => (hs o).sameRows hsa)

/-! ## An entity that stands twice -/

/-- The dead entity stands twice in a table, one time in its last row. -/
structure Stuck (entity : Entity) (table : TableId) (world : World τ V) : Prop where
  dead : world.entities.located entity = none
  twice : ∃ row, (world.tableRows table)[row]? = some entity ∧
    row + 1 < (world.tableRows table).length ∧
    (world.tableRows table).getLast? = some entity

/-- Recording a row does not bring anybody back. -/
theorem dead_updateRow {post : Entities} {m : MovedEntityRow}
    (hd : es.located e = none) (hok : es.updateRow m = .ok post) : post.located e = none := by
  rcases Entities.updateRow_inv hok with ⟨-, rfl⟩ | ⟨o, loc, -, ha, hl, -⟩
  · exact hd
  · have ne : e ≠ o := by
      rintro rfl
      cases hd.symm.trans ha
    rw [hl, update_of_ne ne]
    exact hd

/-- The removal of a row elsewhere. -/
theorem Stuck.removed (hs : Stuck e table w) {list row : ℕ} {post : World τ V}
    (hr : Removed store list row w post) (he : store = .table → list ≠ table)
    (hok : post.entities.updateRow (w.movedRow store list row) = .ok es) :
    Stuck e table { post with entities := es } := by
  rw [hr.entities] at hok
  have hro : post.rows .table table = w.rows .table table := by
    rw [hr.rows, update_apply]
    split
    · next hsa => rw [update_of_ne (he hsa.symm).symm, hsa]
    · rfl
  refine ⟨dead_updateRow hs.dead hok, ?_⟩
  change ∃ row, (post.rows .table table)[row]? = some e ∧
    row + 1 < (post.rows .table table).length ∧ (post.rows .table table).getLast? = some e
  rw [hro]
  exact hs.twice

theorem stuck_forgetArche (hs : Stuck e table w) (id : ArcheId) :
    Sat (forgetArche P e id) w (fun _ post => Stuck e table post) (fun _ _ => True) := by
  refine @sat_forgetList _ _ P _ _ .arche _ _ _ (fun _ _ => trivial) (fun _ => hs) ?_
  intro row post _ _ hr
  exact sat_updateRow.mpr ⟨fun es hok => hs.removed hr nofun hok, fun _ _ => trivial⟩

theorem stuck_forgetTable (hs : Stuck e table w) (id : TableId) :
    Sat (forgetTable P e id) w (fun _ post => id ≠ table ∧ Stuck e table post)
      (fun _ _ => True) := by
  obtain ⟨twin, ho, hnl, last⟩ := hs.twice
  refine @sat_forgetList _ _ P _ _ .table _ _ _ (fun _ _ => trivial) (fun ha => ⟨?_, hs⟩) ?_
  · rintro rfl
    exact ha (mem_of_getElem? ho)
  intro row post _ one hr
  refine sat_updateRow.mpr ⟨fun es hok => ?_, fun _ _ => trivial⟩
  by_cases he : id = table
  · -- the row found is not the last one, so the entity itself is reported as moved
    subst he
    have pre := one rfl twin ho
    have hm : swapped (w.rows .table id) row = some e := by
      change swapped (w.tableRows id) row = some e
      rw [swapped, if_neg (by omega), last]
    obtain ⟨err, hf⟩ := @Entities.modifyLocation_of_dead _ _
      (fun loc => loc.setRow (Store.table.row row)) hs.dead
    rw [hr.entities, movedRow, hm] at hok
    cases hok.symm.trans hf
  · exact ⟨he, hs.removed hr (fun _ => he) hok⟩

/-- **Forgetting an entity that stands twice never returns.** -/
theorem forget_of_doubled (hd : w.Doubled e) :
    Sat (forget P e) w (fun _ _ => False) (fun _ _ => True) := by
  obtain ⟨table, ht⟩ := hd
  have hin : table < w.lists .table := by
    obtain ⟨row, ho, -⟩ := ht
    exact lt_lists ho
  unfold forget
  rw [sat_bind]
  refine sat_dropLocation fun es hl => ?_
  have hst : Stuck e table { w with entities := es } := ⟨by rw [hl, update_self], ht⟩
  rw [sat_bind, sat_get, sat_bind]
  refine (Sat.forM_const (fun id _ _ hs => stuck_forgetArche hs id) hst).mono
    (fun _ mid hs => ?_) fun _ _ _ => trivial
  rw [sat_bind]
  refine (@Sat.forM _ _ _ _ _ _ (fun done post => table ∉ done ∧ Stuck e table post)
    (fun _ _ => True) ?_ ⟨not_mem_nil, hs⟩).mono (fun _ post hk => ?_) fun _ _ _ => trivial
  · rintro done id rest _ mid ⟨hu, hs⟩
    refine (stuck_forgetTable hs id).mono (fun _ post hk => ⟨?_, hk.2⟩) fun _ _ _ => trivial
    rw [mem_append, mem_singleton]
    rintro (he | rfl)
    · exact hu he
    · exact hk.1 rfl
  · exact absurd (mem_range.mpr hin) hk.1

/-- A guard's cleanup settles everything or never returns. -/
theorem forget_settles (hl : w.Loose e) :
    Sat (forget P e) w (fun _ post => ∀ o, post.Settled o) (fun _ _ => True) := by
  rcases hl.once with ho | hd
  · exact (forget_of_once hl.others ho).mono (fun _ _ hs => hs) fun _ _ _ => trivial
  · exact (forget_of_doubled hd).mono (fun _ _ hn => hn.elim) fun _ _ _ => trivial

end Forget

end Voker.Ecs.World
