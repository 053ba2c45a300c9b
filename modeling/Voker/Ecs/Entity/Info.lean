import Voker.Ecs.Entity.Ident

/-!
# The entity table

`Entities` maps every id to its current generation and, while the entity is spawned,
to its location: a row of an archetype and a row of that archetype's table.  Every
access checks the handle's generation against the table.

Proofs see the table through two functions: `located`, the location a handle leads
to, and `tagAt`, the current generation of an id.  Each operation has one lemma that
says what it does to them: **a write through a handle updates `located` at that handle
and nowhere else**, and only `free` changes the generation of an id in the table.
-/

namespace Voker.Ecs

open List Option Function

/-- `ArcheId`. -/
abbrev ArcheId := ℕ

/-- `TableId`. -/
abbrev TableId := ℕ

/-- `EntityLocation`: a row of an archetype and a row of a table. -/
structure EntityLocation where
  archeId : ArcheId
  archeRow : ℕ
  tableId : TableId
  tableRow : ℕ
  deriving DecidableEq, Repr

/-- `EntityInfo`: the generation of a slot and the location of its entity. -/
structure EntityInfo where
  tag : EntityTag
  location : Option EntityLocation
  deriving DecidableEq, Repr

/-- `DEFAULT_INFO`: what slots beyond the table stand for. -/
def EntityInfo.default : EntityInfo := ⟨EntityTag.first, none⟩

/-- `Entities`: the slots, indexed by entity id. -/
structure Entities where
  infos : List EntityInfo

/-- `FetchError`. -/
inductive FetchError where
  | notFound (id : EntityId)
  | mismatch (expect actual : Entity)
  | notSpawned (entity : Entity)
  deriving DecidableEq, Repr

/-- `SpawnError`. -/
inductive SpawnError where
  | mismatch (expect actual : Entity)
  | alreadySpawned (entity : Entity)
  deriving DecidableEq, Repr

/-- `DespawnError`. -/
inductive DespawnError where
  | notFound (id : EntityId)
  | mismatch (expect actual : Entity)
  | notSpawned (entity : Entity)
  deriving DecidableEq, Repr

/-- `MoveError`. -/
inductive MoveError where
  | notFound (id : EntityId)
  | mismatch (expect actual : Entity)
  | notSpawned (entity : Entity)
  deriving DecidableEq, Repr

/-- `Row`: which row of a location a move has changed. -/
inductive Row where
  | arche (row : ℕ)
  | table (row : ℕ)
  deriving DecidableEq, Repr

/-- `MovedEntityRow`: the entity a swap-removal has moved, if any, and its new row. -/
structure MovedEntityRow where
  entity : Option Entity
  newRow : Row
  deriving DecidableEq, Repr

namespace MovedEntityRow

/-- `in_table`. -/
def inTable (entity : Option Entity) (row : ℕ) : MovedEntityRow := ⟨entity, .table row⟩

/-- `in_arche`. -/
def inArche (entity : Option Entity) (row : ℕ) : MovedEntityRow := ⟨entity, .arche row⟩

end MovedEntityRow

/-- Store a new row in a location. -/
def EntityLocation.setRow (location : EntityLocation) : Row → EntityLocation
  | .arche row => { location with archeRow := row }
  | .table row => { location with tableRow := row }

namespace Entities

/-- `new`: an empty table. -/
def new : Entities := ⟨[]⟩

/-- The current generation of an id. -/
def tagAt (entities : Entities) (id : EntityId) : EntityTag :=
  (entities.infos[id.index]?.getD EntityInfo.default).tag

/-- `resolve`: the current handle of an id. -/
def resolve (entities : Entities) (id : EntityId) : Entity := ⟨id, entities.tagAt id⟩

/-- `locate`: the location of a spawned entity. -/
def locate (entities : Entities) (entity : Entity) : Except FetchError EntityLocation :=
  match entities.infos[entity.id.index]? with
  | none => .error (.notFound entity.id)
  | some info =>
    if info.tag ≠ entity.tag then .error (.mismatch entity ⟨entity.id, info.tag⟩)
    else match info.location with
      | none => .error (.notSpawned entity)
      | some location => .ok location

/-- `resize`: room for `len` slots; the vector grows to its new capacity, which is
`len` plus whatever the allocation policy adds. -/
def resize (growth : ℕ → ℕ) (entities : Entities) (len : ℕ) : Entities :=
  ⟨entities.infos ++
    replicate (len + growth len - entities.infos.length) EntityInfo.default⟩

/-- Make sure the slot of an id exists. -/
def ensure (growth : ℕ → ℕ) (entities : Entities) (id : EntityId) : Entities :=
  if entities.infos.length ≤ id.index then entities.resize growth (id.index + 1)
  else entities

/-- Overwrite one slot. -/
def setInfo (entities : Entities) (id : EntityId) (info : EntityInfo) : Entities :=
  ⟨entities.infos.set id.index info⟩

/-- `free`: advance the generation of an id by `version` and return its new handle. -/
def free (growth : ℕ → ℕ) (entities : Entities) (id : EntityId) (version : BitVec 32) :
    Entity × Entities :=
  let entities := entities.ensure growth id
  let info := entities.infos[id.index]?.getD EntityInfo.default
  let newTag := (info.tag.checkedAdd version).1
  (⟨id, newTag⟩, entities.setInfo id { info with tag := newTag })

/-- `can_spawn`: the slot is empty and the generation is the handle's. -/
def canSpawn (entities : Entities) (entity : Entity) : Except SpawnError Unit :=
  let info := entities.infos[entity.id.index]?.getD EntityInfo.default
  if info.location.isSome then .error (.alreadySpawned entity)
  else if info.tag ≠ entity.tag then .error (.mismatch entity ⟨entity.id, info.tag⟩)
  else .ok ()

/-- `set_spawned`: record the location of a new entity.  A slot beyond the table is
created with the handle's generation, so that nothing can fail there. -/
def setSpawned (growth : ℕ → ℕ) (entities : Entities) (entity : Entity)
    (location : EntityLocation) : Except SpawnError Entities :=
  match entities.infos[entity.id.index]? with
  | none =>
    .ok ((entities.resize growth (entity.id.index + 1)).setInfo entity.id
      ⟨entity.tag, some location⟩)
  | some info =>
    if info.tag ≠ entity.tag then .error (.mismatch entity ⟨entity.id, info.tag⟩)
    else if info.location.isSome then .error (.alreadySpawned entity)
    else .ok (entities.setInfo entity.id ⟨info.tag, some location⟩)

section

variable (entities : Entities)

/-- `set_despawned`: take the location out of the slot. -/
def setDespawned (entity : Entity) : Except DespawnError (EntityLocation × Entities) :=
  match entities.infos[entity.id.index]? with
  | none => .error (.notFound entity.id)
  | some info =>
    if info.tag ≠ entity.tag then .error (.mismatch entity ⟨entity.id, info.tag⟩)
    else match info.location with
      | none => .error (.notSpawned entity)
      | some location => .ok (location, entities.setInfo entity.id ⟨info.tag, none⟩)

/-- Change the location of a spawned entity: the common part of `update_location` and
`update_row`. -/
def modifyLocation (entity : Entity) (change : EntityLocation → EntityLocation) :
    Except MoveError Entities :=
  match entities.infos[entity.id.index]? with
  | none => .error (.notFound entity.id)
  | some info =>
    if info.tag ≠ entity.tag then .error (.mismatch entity ⟨entity.id, info.tag⟩)
    else match info.location with
      | none => .error (.notSpawned entity)
      | some location =>
        .ok (entities.setInfo entity.id ⟨info.tag, some (change location)⟩)

/-- `update_location`. -/
def updateLocation (entity : Entity) (location : EntityLocation) : Except MoveError Entities :=
  entities.modifyLocation entity fun _ => location

/-- `update_row`: follow a swap-removal. -/
def updateRow (moved : MovedEntityRow) : Except MoveError Entities :=
  match moved.entity with
  | none => .ok entities
  | some entity => entities.modifyLocation entity fun location => location.setRow moved.newRow

end

/-! ## The two views -/

/-- The location a handle leads to, if it is alive. -/
def located (entities : Entities) (entity : Entity) : Option EntityLocation :=
  match entities.locate entity with
  | .ok location => some location
  | .error _ => none

variable {es post : Entities} {e : Entity} {loc : EntityLocation} {id : EntityId}
  {growth : ℕ → ℕ}

theorem located_eq_some : es.located e = some loc ↔
      es.infos[e.id.index]? = some ⟨e.tag, some loc⟩ := by
  unfold located locate
  cases hsl : es.infos[e.id.index]? with
  | none => simp
  | some info =>
    obtain ⟨tag, hst⟩ := info
    by_cases hs : tag = e.tag
    · cases hst with
      | none => simp [hs]
      | some hst => simp [hs]
    · simp [hs]

theorem locate_eq_ok : es.locate e = .ok loc ↔ es.located e = some loc := by
  unfold located
  cases es.locate e with
  | ok hf => simp
  | error err => simp

/-- The location stored for an id, under whatever generation. -/
def locationAt (entities : Entities) (id : EntityId) : Option EntityLocation :=
  (entities.infos[id.index]?.getD EntityInfo.default).location

/-- The two halves of a slot determine where its handles lead. -/
theorem located_eq_ite (es : Entities) (e : Entity) : es.located e =
      if es.tagAt e.id = e.tag then es.locationAt e.id
      else none := by
  unfold tagAt locationAt located locate
  cases es.infos[e.id.index]? with
  | none => exact (ite_self _).symm
  | some info =>
    obtain ⟨tag, hst⟩ := info
    by_cases hs : tag = e.tag
    · cases hst with
      | none => simp [hs]
      | some hst => simp [hs]
    · simp [hs]

theorem located_eq_none_of_locationAt (hv : es.locationAt e.id = none) :
    es.located e = none := by
  rw [located_eq_ite, hv, ite_self]

/-- Generations survive: the table does not shrink and keeps the generations of its
slots. -/
structure TagsKept (before after : Entities) : Prop where
  length : before.infos.length ≤ after.infos.length
  tags : ∀ id : EntityId, id.index < before.infos.length → after.tagAt id = before.tagAt id

theorem TagsKept.refl (es : Entities) : TagsKept es es :=
  ⟨le_rfl, fun _ _ => rfl⟩

theorem TagsKept.trans {one two t : Entities} (pre : TagsKept one two)
    (post : TagsKept two t) : TagsKept one t := by
  refine ⟨pre.length.trans post.length, fun id hin => ?_⟩
  rw [post.tags id (lt_of_lt_of_le hin pre.length), pre.tags id hin]

section

variable (hin : id.index < es.infos.length)

include hin

theorem tagAt_setInfo (info : EntityInfo) :
    (es.setInfo id info).tagAt = update es.tagAt id info.tag := by
  funext o
  by_cases hs : o = id
  · subst hs
    rw [update_self, tagAt, setInfo, getElem?_set_self hin]
    rfl
  · rw [update_of_ne hs, tagAt, setInfo,
      getElem?_set_ne (fun i => hs (EntityId.index_inj.mp i).symm)]
    rfl

theorem locationAt_setInfo (info : EntityInfo) : (es.setInfo id info).locationAt =
      update es.locationAt id info.location := by
  funext o
  by_cases hs : o = id
  · subst hs
    rw [update_self, locationAt, setInfo, getElem?_set_self hin]
    rfl
  · rw [update_of_ne hs, locationAt, setInfo,
      getElem?_set_ne (fun i => hs (EntityId.index_inj.mp i).symm)]
    rfl

theorem tagsKept_setInfo {info : EntityInfo} (tag : info.tag = es.tagAt id) :
    TagsKept es (es.setInfo id info) := by
  refine ⟨by simp [setInfo], fun o _ => ?_⟩
  rw [tagAt_setInfo hin, tag, update_eq_self]

end

/-- Overwriting a slot that is vacant or has the handle's generation changes `located`
at that handle only. -/
theorem located_setInfo (hin : e.id.index < es.infos.length)
    (own : es.tagAt e.id = e.tag ∨ es.locationAt e.id = none)
    (new : Option EntityLocation) : (es.setInfo e.id ⟨e.tag, new⟩).located =
      update es.located e new := by
  funext o
  rw [located_eq_ite, tagAt_setInfo hin, locationAt_setInfo hin]
  by_cases same : o.id = e.id
  · rw [same, update_self, update_self]
    by_cases ht : e.tag = o.tag
    · rw [if_pos ht, Entity.ext same ht.symm, update_self]
    · -- the same slot under another generation leads nowhere, before and after
      have ne : o ≠ e := fun he => ht (congrArg Entity.tag he).symm
      rw [if_neg ht, update_of_ne ne, located_eq_ite, same]
      rcases own with tag | hv
      · rw [tag, if_neg ht]
      · rw [hv, ite_self]
  · have ne : o ≠ e := fun he => same (congrArg Entity.id he)
    rw [update_of_ne same, update_of_ne same, update_of_ne ne, located_eq_ite]

/-! ## Growing the table -/

section

variable (growth : ℕ → ℕ)

section

variable (es : Entities)

theorem getElem?_resize (len i : ℕ) : ((es.resize growth len).infos[i]?.getD EntityInfo.default) =
      es.infos[i]?.getD EntityInfo.default := by
  rw [resize, getElem?_append]
  split
  · rfl
  · next ho =>
    rw [getElem?_eq_none (Nat.le_of_not_lt ho), getD_none, getElem?_replicate]
    split
    · rfl
    · rfl

/-- New slots are empty, so growing changes neither view. -/
theorem tagAt_resize (len : ℕ) (id : EntityId) : (es.resize growth len).tagAt id = es.tagAt id := by
  rw [tagAt, getElem?_resize, tagAt]

theorem locationAt_resize (len : ℕ) (id : EntityId) :
    (es.resize growth len).locationAt id = es.locationAt id := by
  rw [locationAt, getElem?_resize, locationAt]

theorem length_resize (len : ℕ) : (es.resize growth len).infos.length =
      max es.infos.length (len + growth len) := by
  rw [resize, length_append, length_replicate]
  omega

theorem located_resize (len : ℕ) : (es.resize growth len).located = es.located := by
  funext e
  rw [located_eq_ite, located_eq_ite, tagAt_resize, locationAt_resize]

end

end

/-! ## The operations -/

/-- A slot of the table, by its two halves. -/
theorem getElem?_eq_some {info : EntityInfo} (hs : es.infos[id.index]? = some info) :
    id.index < es.infos.length ∧ es.tagAt id = info.tag ∧ es.locationAt id = info.location := by
  refine ⟨(List.getElem?_eq_some_iff.mp hs).1, ?_, ?_⟩
  · rw [tagAt, hs, getD_some]
  · rw [locationAt, hs, getD_some]

/-- A living handle is current. -/
theorem tagAt_of_located (ha : es.located e = some loc) :
    e.id.index < es.infos.length ∧ es.tagAt e.id = e.tag := by
  obtain ⟨hin, tag, -⟩ := getElem?_eq_some (located_eq_some.mp ha)
  exact ⟨hin, tag⟩

theorem setSpawned_ok (hok : es.setSpawned growth e loc = .ok post) : es.located e = none ∧
      post.located = update es.located e (some loc) ∧ TagsKept es post := by
  unfold setSpawned at hok
  cases hs : es.infos[e.id.index]? with
  | none =>
    rw [hs] at hok
    obtain rfl := Except.ok.inj hok
    have hv : es.locationAt e.id = none := by
      rw [locationAt, hs]
      rfl
    have ho : es.infos.length ≤ e.id.index := getElem?_eq_none_iff.mp hs
    have hin : e.id.index < (es.resize growth (e.id.index + 1)).infos.length := by
      rw [length_resize]
      omega
    refine ⟨located_eq_none_of_locationAt hv, ?_, ?_, ?_⟩
    · rw [located_setInfo hin (.inr (by rw [locationAt_resize, hv])), located_resize]
    · rw [setInfo, length_set, length_resize]
      omega
    · intro id hb
      have ne : id ≠ e.id := by
        rintro rfl
        omega
      rw [tagAt_setInfo hin, update_of_ne ne, tagAt_resize]
  | some info =>
    obtain ⟨hin, tag, hst⟩ := getElem?_eq_some hs
    simp only [hs] at hok
    split at hok
    · cases hok
    · next hsa =>
      have ht : info.tag = e.tag := not_not.mp hsa
      split at hok
      · cases hok
      · next hv =>
        obtain rfl := Except.ok.inj hok
        have he : info.location = none := by simpa using hv
        refine ⟨located_eq_none_of_locationAt (hst.trans he), ?_, ?_⟩
        · rw [ht, located_setInfo hin (.inl (tag.trans ht))]
        · exact tagsKept_setInfo hin tag.symm

theorem setDespawned_ok (hok : es.setDespawned e = .ok (loc, post)) : es.located e = some loc ∧
      post.located = update es.located e none ∧ post.locationAt e.id = none ∧ TagsKept es post := by
  unfold setDespawned at hok
  cases hs : es.infos[e.id.index]? with
  | none =>
    rw [hs] at hok
    cases hok
  | some info =>
    obtain ⟨hin, tag, hst⟩ := getElem?_eq_some hs
    simp only [hs] at hok
    split at hok
    · cases hok
    · next hsa =>
      have ht : info.tag = e.tag := not_not.mp hsa
      cases hp : info.location with
      | none =>
        rw [hp] at hok
        cases hok
      | some hf =>
        rw [hp] at hok
        obtain ⟨rfl, rfl⟩ := Prod.mk.inj (Except.ok.inj hok)
        refine ⟨?_, ?_, ?_, tagsKept_setInfo hin tag.symm⟩
        · rw [located_eq_ite, tag, if_pos ht, hst, hp]
        · rw [ht, located_setInfo hin (.inl (tag.trans ht))]
        · rw [locationAt_setInfo hin, update_self]

/-- Despawning succeeds exactly on living handles. -/
theorem setDespawned_of_located (ha : es.located e = some loc) :
    ∃ post, es.setDespawned e = .ok (loc, post) := by
  rw [located_eq_some] at ha
  refine ⟨es.setInfo e.id ⟨e.tag, none⟩, ?_⟩
  unfold setDespawned
  rw [ha]
  simp

theorem modifyLocation_ok {es : Entities} {e : Entity}
    {c : EntityLocation → EntityLocation} {loc : EntityLocation}
    (ha : es.located e = some loc) : ∃ post, es.modifyLocation e c = .ok post ∧
      post.located = update es.located e (some (c loc)) ∧ TagsKept es post := by
  rw [located_eq_some] at ha
  obtain ⟨hin, tag, -⟩ := getElem?_eq_some ha
  refine ⟨es.setInfo e.id ⟨e.tag, some (c loc)⟩, ?_, ?_, ?_⟩
  · unfold modifyLocation
    rw [ha]
    simp
  · exact located_setInfo hin (.inl tag) _
  · exact tagsKept_setInfo hin tag.symm

theorem modifyLocation_of_dead {es : Entities} {e : Entity}
    {c : EntityLocation → EntityLocation} (hd : es.located e = none) :
    ∃ err, es.modifyLocation e c = .error err := by
  unfold modifyLocation
  rw [located_eq_ite] at hd
  cases hsl : es.infos[e.id.index]? with
  | none => exact ⟨_, rfl⟩
  | some info =>
    obtain ⟨-, tag, hst⟩ := getElem?_eq_some hsl
    by_cases hs : info.tag = e.tag
    · rw [tag, if_pos hs, hst] at hd
      simp [hs, hd]
    · simp [hs]

/-- Changing a location succeeds on living handles only. -/
theorem modifyLocation_inv {c : EntityLocation → EntityLocation}
    (hok : es.modifyLocation e c = .ok post) : ∃ loc, es.located e = some loc ∧
      post.located = update es.located e (some (c loc)) ∧ TagsKept es post := by
  cases ha : es.located e with
  | none =>
    obtain ⟨err, hf⟩ := @modifyLocation_of_dead _ _ c ha
    cases hok.symm.trans hf
  | some loc =>
    obtain ⟨res, out, hl, ht⟩ := @modifyLocation_ok _ _ c _ ha
    obtain rfl := Except.ok.inj (hok.symm.trans out)
    exact ⟨loc, rfl, hl, ht⟩

/-- Following a swap-removal changes nothing, or the row of one living entity. -/
theorem updateRow_inv {m : MovedEntityRow} (hok : es.updateRow m = .ok post) :
    (m.entity = none ∧ post = es) ∨ ∃ e loc, m.entity = some e ∧ es.located e = some loc ∧
        post.located = update es.located e (some (loc.setRow m.newRow)) ∧ TagsKept es post := by
  unfold updateRow at hok
  cases who : m.entity with
  | none =>
    rw [who] at hok
    exact .inl ⟨rfl, (Except.ok.inj hok).symm⟩
  | some e =>
    rw [who] at hok
    obtain ⟨loc, ha, hl, ht⟩ := modifyLocation_inv hok
    exact .inr ⟨e, loc, rfl, ha, hl, ht⟩

/-! ### Recycling -/

section

variable (growth : ℕ → ℕ)

section

variable (es : Entities)

section

variable (id : EntityId)

theorem index_lt_ensure : id.index < (es.ensure growth id).infos.length := by
  unfold ensure
  split
  · rw [length_resize]
    omega
  · next hin => exact Nat.lt_of_not_le hin

theorem tagAt_ensure : (es.ensure growth id).tagAt = es.tagAt := by
  funext o
  unfold ensure
  split
  · exact tagAt_resize ..
  · rfl

theorem locationAt_ensure : (es.ensure growth id).locationAt = es.locationAt := by
  funext o
  unfold ensure
  split
  · exact locationAt_resize ..
  · rfl

theorem free_eq (v : BitVec 32) : es.free growth id v =
      (⟨id, (es.tagAt id).wrappingAdd v⟩, (es.ensure growth id).setInfo id
          ⟨(es.tagAt id).wrappingAdd v, es.locationAt id⟩) := by
  rw [← tagAt_ensure growth es id, ← locationAt_ensure growth es id]
  rfl

end

end

end

/-- Freeing a vacant slot changes no location. -/
theorem located_free {v : BitVec 32} (hv : es.locationAt id = none) :
    (es.free growth id v).2.located = es.located := by
  funext e
  rw [located_eq_ite, free_eq, tagAt_setInfo (index_lt_ensure ..), tagAt_ensure,
    locationAt_setInfo (index_lt_ensure ..), locationAt_ensure, hv]
  by_cases hs : e.id = id
  · subst hs
    rw [update_self, update_self, ite_self, located_eq_none_of_locationAt hv]
  · rw [update_of_ne hs, update_of_ne hs, located_eq_ite]

end Entities

end Voker.Ecs
