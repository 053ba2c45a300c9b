import Voker.Ecs.Query.Filter
import Voker.Ecs.World.Flags

/-!
# Query states

`QueryState` remembers the descriptors of a query and the storages that match them:
tables if all components of the query are dense, archetypes otherwise.  Storages are only
ever added to a world, so `update` looks at those it has not seen, from its `version` on.

**However registrations and updates are interleaved, an updated query state has recorded
exactly the storages that satisfy its filter and its data, in ascending order, and equals
a query state that is built afresh** (`run_storages_exact`).
-/

namespace Voker.Ecs

open Foundation List Option Bool AccessParam

/-- `QueryState`.  Which storages are recorded depends on `IS_DENSE`. -/
structure QueryState where
  version : ℕ
  storages : List ℕ
  filterData : AccessParam
  filterParams : List FilterParam
  data : QueryData ComponentRef
  filter : QueryFilter ComponentRef

variable {τ V : Type}

/-- Append the positions, from `version` on, of the items that are accepted. -/
def scan {β : Type} (accepts : β → Bool) (items : List β) (version : ℕ) (storages : List ℕ) :
    List ℕ :=
  storages ++ (range' version (items.length - version)).filter fun id =>
    items[id]?.any accepts

namespace QueryState

/-- A table matches one of the descriptors. -/
def tableMatches (params : List FilterParam) (table : Table V) : Bool :=
  params.any fun param => matchesSorted table.components [] param.withs param.withouts

/-- An archetype matches one of the descriptors. -/
def archeMatches (params : List FilterParam) (arche : Archetype) : Bool :=
  params.any fun param =>
    matchesSorted arche.denseComponents arche.sparseComponents param.withs param.withouts

/-- `updata_table_state`. -/
def updataTableState (version : ℕ) (storages : List ℕ) (params : List FilterParam)
    (tables : Tables V) : ℕ × List ℕ :=
  (tables.tables.length, scan (tableMatches params) tables.tables version storages)

/-- `updata_arche_state`. -/
def updataArcheState (version : ℕ) (storages : List ℕ) (params : List FilterParam)
    (arches : Archetypes) : ℕ × List ℕ :=
  (arches.arches.length, scan (archeMatches params) arches.arches version storages)

/-- `IS_DENSE`. -/
def isDense (query : QueryState) : Bool :=
  query.data.componentsAreDense && query.filter.componentsAreDense

/-- `build_internal`; `none` is the panic about data that conflict with themselves. -/
def buildInternal (world : World τ V) (data : QueryData ComponentRef)
    (filter : QueryFilter ComponentRef) : Option QueryState :=
  (declare (data.buildAccess ++ filter.buildAccess)).map fun filterData =>
    let params := Ecs.filterParams data filter
    let recorded :=
      if data.componentsAreDense && filter.componentsAreDense then
        updataTableState 0 [] params world.tables
      else updataArcheState 0 [] params world.archetypes
    ⟨recorded.1, recorded.2, filterData, params, data, filter⟩

/-- `update`. -/
def update (query : QueryState) (world : World τ V) : QueryState :=
  if query.isDense then
    if query.version < world.tables.tables.length then
      let recorded :=
        updataTableState query.version query.storages query.filterParams world.tables
      { query with version := recorded.1, storages := recorded.2 }
    else query
  else
    if query.version < world.archetypes.arches.length then
      let recorded :=
        updataArcheState query.version query.storages query.filterParams world.archetypes
      { query with version := recorded.1, storages := recorded.2 }
    else query

section Types

variable [DecidableEq τ]

/-- The component types of a query, in the order in which their numbers are asked for. -/
def types (data : QueryData τ) (filter : QueryFilter τ) : List τ :=
  data.flatMap DataLeaf.components ++ filter.atoms.flatMap FilterLeaf.components

/-- What the state of a query keeps of a registered type. -/
def resolve (P : Program τ V) (components : Components τ) (type : τ) : ComponentRef :=
  ⟨(components.getId type).getD 0, (P.decl type).storage⟩

variable [Fintype τ]

/-- `build_state` of the data and the filter: their types are registered. -/
def registerTypes (P : Program τ V) (components : Components τ) (types : List τ) : Components τ :=
  types.foldl (fun components type => (components.register P type).2) components

/-- `build`. -/
def build (P : Program τ V) (world : World τ V) (data : QueryData τ) (filter : QueryFilter τ) :
    Option (QueryState × World τ V) :=
  let components := registerTypes P world.components (types data filter)
  let registered := { world with components := components }
  (buildInternal registered (data.mapLeaves (resolve P components))
    (filter.mapLeaves (resolve P components))).map fun query => (query, registered)

end Types

/-! ## What is recorded -/

/-- How many storages there are. -/
def count (query : QueryState) (world : World τ V) : ℕ :=
  if query.isDense then world.tables.tables.length else world.archetypes.arches.length

/-- A storage matches the descriptors. -/
def accepts (query : QueryState) (world : World τ V) (id : ℕ) : Bool :=
  if query.isDense then world.tables.tables[id]?.any (tableMatches query.filterParams)
  else world.archetypes.arches[id]?.any (archeMatches query.filterParams)

/-- The storages below the version that match, in order. -/
def Tracks (query : QueryState) (world : World τ V) : Prop :=
  query.version ≤ query.count world ∧
    query.storages = (range query.version).filter (query.accepts world)

/-- Nothing but the recorded storages differs. -/
def SameQuery (first second : QueryState) : Prop :=
  second = { first with version := second.version, storages := second.storages }

variable {snd fst q : QueryState} {w : World τ V}

theorem SameQuery.data (hs : SameQuery fst snd) : snd.data = fst.data := by rw [hs]

theorem SameQuery.filter (hs : SameQuery fst snd) : snd.filter = fst.filter := by rw [hs]

theorem SameQuery.filterData (hs : SameQuery fst snd) :
    snd.filterData = fst.filterData := by rw [hs]

theorem SameQuery.trans {t : QueryState} (one : SameQuery fst snd)
    (two : SameQuery snd t) : SameQuery fst t := by
  unfold SameQuery at *
  rw [two, one]

/-- Scanning on from where a scan stopped. -/
theorem range_filter_append {v c : ℕ} (hb : v ≤ c) (a : ℕ → Bool) :
    (range v).filter a ++ (range' v (c - v)).filter a =
      (range c).filter a := by
  have hs : range' 0 v ++ range' (0 + v) (c - v) =
      range' 0 (v + (c - v)) := range'_append_1
  rw [← filter_append, range_eq_range', range_eq_range']
  rw [Nat.zero_add, Nat.add_sub_cancel' hb] at hs
  rw [hs]

theorem accepts_of_dense (hd : q.isDense = true) (w : World τ V) :
    q.accepts w = fun id => w.tables.tables[id]?.any (tableMatches q.filterParams) :=
  funext fun id => by rw [accepts, hd, if_pos rfl]

theorem accepts_of_sparse (hd : q.isDense = false) (w : World τ V) : q.accepts w = fun id =>
      w.archetypes.arches[id]?.any (archeMatches q.filterParams) :=
  funext fun id => by rw [accepts, hd, if_neg Bool.false_ne_true]

/-- An update in terms of the storages of the query. -/
theorem update_eq (q : QueryState) (w : World τ V) : q.update w =
    if q.version < q.count w then
      { q with
        version := q.count w
        storages := q.storages ++ (range' q.version
          (q.count w - q.version)).filter (q.accepts w) }
    else q := by
  unfold update
  cases hd : q.isDense with
  | true =>
    have hl : q.count w = w.tables.tables.length := by simp [count, hd]
    rw [accepts_of_dense hd, hl, if_pos rfl]
    rfl
  | false =>
    have hl : q.count w = w.archetypes.arches.length := by simp [count, hd]
    rw [accepts_of_sparse hd, hl, if_neg Bool.false_ne_true]
    rfl

/-- **An update catches up**: all storages are looked at, and nothing else changes. -/
theorem Tracks.update (ht : q.Tracks w) : q.update w = { q with
        version := q.count w
        storages := (range (q.count w)).filter (q.accepts w) } := by
  obtain ⟨hb, hr⟩ := ht
  rw [update_eq]
  split
  · rw [hr, range_filter_append hb]
  · next hc =>
    have he : q.version = q.count w := le_antisymm hb (not_lt.mp hc)
    rw [← he, ← hr]

/-- A fresh query has looked at all storages. -/
theorem buildInternal_eq (w : World τ V) (data : QueryData ComponentRef)
    (f : QueryFilter ComponentRef) (hb : buildInternal w data f = some q) :
    q.data = data ∧ q.filter = f ∧ q.filterParams = Ecs.filterParams data f ∧
      declare (data.buildAccess ++ f.buildAccess) = some q.filterData ∧ q.version = q.count w ∧
      q.storages = (range (q.count w)).filter (q.accepts w) := by
  obtain ⟨fd, hde, he⟩ := map_eq_some_iff.mp hb
  have hsd : q.data = data := by rw [← he]
  have hsf : q.filter = f := by rw [← he]
  have hsp : q.filterParams = Ecs.filterParams data f := by rw [← he]
  refine ⟨hsd, hsf, hsp, by rw [← he]; exact hde, ?_⟩
  have hr : (q.version, q.storages) =
      if q.isDense then updataTableState 0 [] q.filterParams w.tables
      else updataArcheState 0 [] q.filterParams w.archetypes := by
    rw [isDense, hsd, hsf, hsp, ← he]
  cases hd : q.isDense with
  | true =>
    rw [hd, if_pos rfl, Prod.mk.injEq] at hr
    rw [accepts_of_dense hd, hr.1, hr.2]
    simp [count, hd, updataTableState, scan, range_eq_range']
  | false =>
    rw [hd, if_neg Bool.false_ne_true, Prod.mk.injEq] at hr
    rw [accepts_of_sparse hd, hr.1, hr.2]
    simp [count, hd, updataArcheState, scan, range_eq_range']

/-! ## Which storages match -/

/-- The components of a storage. -/
def componentsAt (query : QueryState) (world : World τ V) (id : ℕ) : Option (List ComponentId) :=
  if query.isDense then world.tables.tables[id]?.map Table.components
  else world.archetypes.arches[id]?.map fun arche => arche.components

/-- The descriptors are those of the data and the filter. -/
def Described (query : QueryState) : Prop :=
  query.filterParams = Ecs.filterParams query.data query.filter

theorem SameQuery.described (hs : SameQuery fst snd) (hd : fst.Described) :
    snd.Described := by
  rw [hs]
  exact hd

/-- Every storage that matches is recorded. -/
theorem mem_recorded {id : ℕ} : id ∈ (List.range (q.count w)).filter (q.accepts w) ↔
      q.accepts w id = true := by
  rw [mem_filter, mem_range, and_iff_right_iff_imp]
  intro ha
  unfold accepts at ha
  unfold count
  split at ha
  all_goals
    next hc =>
      obtain ⟨s, hf, -⟩ := any_eq_true _ _ |>.mp ha
      simp only [hc, if_true, false_eq_true, if_false]
      exact (List.getElem?_eq_some_iff.mp hf).1

/-- A query that is built again. -/
theorem buildInternal_self (hde : q.Described)
    (hdc : declare (q.data.buildAccess ++ q.filter.buildAccess) = some q.filterData)
    (w : World τ V) : buildInternal w q.data q.filter = some { q with
        version := q.count w
        storages := (range (q.count w)).filter (q.accepts w) } := by
  unfold buildInternal
  rw [hdc, map_some, ← hde]
  cases hd : q.isDense with
  | true =>
    have hl : q.count w = w.tables.tables.length := by simp [count, hd]
    rw [accepts_of_dense hd, hl]
    unfold isDense at hd
    simp only [hd, if_true, updataTableState, scan, Nat.sub_zero, nil_append,
      range_eq_range']
  | false =>
    have hl : q.count w = w.archetypes.arches.length := by simp [count, hd]
    rw [accepts_of_sparse hd, hl]
    unfold isDense at hd
    simp only [hd, false_eq_true, if_false, updataArcheState, scan, Nat.sub_zero,
      nil_append, range_eq_range']

/-- **A storage matches exactly if its components satisfy the query.** -/
theorem accepts_iff {P : Program τ V} (reg : World.Registered P w)
    (hde : q.Described) (id : ℕ) :
    q.accepts w id = true ↔ ∃ list, q.componentsAt w id = some list ∧
      q.filter.Fits (ComponentRef.In {id | id ∈ list}) ∧
      q.data.Fits (ComponentRef.In {id | id ∈ list}) := by
  have hm : ∀ a : Set ComponentId, (∃ p ∈ q.filterParams, p.Matches a) ↔
        q.filter.Fits (ComponentRef.In a) ∧ q.data.Fits (ComponentRef.In a) := by
    intro a
    rw [hde]
    exact matches_filterParams q.data q.filter a
  cases hd : q.isDense with
  | true =>
    rw [accepts_of_dense hd, componentsAt, hd, if_pos rfl, Option.any_eq_true]
    simp only [map_eq_some_iff, exists_exists_and_eq_and, tableMatches, List.any_eq_true]
    refine exists_congr fun t => and_congr_right fun hf => ?_
    have hso := reg.tableSorted t (mem_of_getElem? hf)
    rw [← hm]
    refine exists_congr fun p => and_congr_right fun _ => ?_
    rw [matchesSorted_iff hso List.Pairwise.nil.sortedLT]
    simp
  | false =>
    rw [accepts_of_sparse hd, componentsAt, hd, if_neg Bool.false_ne_true, Option.any_eq_true]
    simp only [map_eq_some_iff, exists_exists_and_eq_and, archeMatches, List.any_eq_true]
    refine exists_congr fun a => and_congr_right fun hf => ?_
    have hs := reg.archeSplit a (mem_of_getElem? hf)
    rw [← hm]
    refine exists_congr fun p => and_congr_right fun _ => ?_
    rw [matchesSorted_iff hs.denseSorted hs.sparseSorted]
    simp only [ComponentSlice.mem_components]

/-! ## Growing worlds -/

section Growing

variable {q : QueryState} {pre post : World τ V}

/-- No storage disappears. -/
theorem count_le (hs : World.Statics pre post) : q.count pre ≤ q.count post := by
  unfold count
  split
  · have hl := hs.tables.length_le
    rwa [length_map, length_map] at hl
  · by_contra hfe
    have hin : post.archetypes.arches.length < pre.archetypes.arches.length := not_le.mp hfe
    obtain ⟨now, hf, -⟩ := hs.arches _ _ (getElem?_eq_getElem hin)
    exact absurd (List.getElem?_eq_some_iff.mp hf).1 (lt_irrefl _)

/-- Whether a storage matches does not change. -/
theorem accepts_of_statics (hs : World.Statics pre post) {id : ℕ}
    (hin : id < q.count pre) : q.accepts post id = q.accepts pre id := by
  unfold count at hin
  unfold accepts
  split
  · next hd =>
    rw [if_pos hd] at hin
    obtain ⟨rest, split⟩ := hs.tables
    have he := congrArg (fun list => list[id]?) split
    rw [getElem?_append_left (by rwa [length_map]), getElem?_map,
      getElem?_map, getElem?_eq_getElem hin, map_some] at he
    obtain ⟨t, hf, hsa⟩ := map_eq_some_iff.mp he.symm
    rw [hf, getElem?_eq_getElem hin, any_some, any_some, tableMatches, tableMatches, hsa]
  · next hsp =>
    rw [if_neg hsp] at hin
    obtain ⟨now, hf, hsi, -⟩ := hs.arches id _ (getElem?_eq_getElem hin)
    rw [hf, getElem?_eq_getElem hin, any_some, any_some, archeMatches, archeMatches, hsi]

theorem Tracks.grow (ht : q.Tracks pre) (hs : World.Statics pre post) : q.Tracks post := by
  obtain ⟨hb, hr⟩ := ht
  refine ⟨hb.trans (count_le hs), hr.trans ?_⟩
  refine filter_congr fun id mem => ?_
  rw [accepts_of_statics hs ((mem_range.mp mem).trans_le hb)]

end Growing

/-! ## Types and their numbers -/

section Types

variable {P : Program τ V}

/-- All types of a query have numbers. -/
def Known (components : Components τ) (types : List τ) : Prop :=
  ∀ type ∈ types, ∃ id : ComponentId, components.infos[id]? = some type

/-- Growing a registry does not change what the state of a query keeps. -/
theorem resolve_of_prefix {pre post : Components τ} (con : pre.Consistent)
    (hca : post.Consistent) (hg : pre.infos <+: post.infos) {type : τ}
    {id : ComponentId} (n : pre.infos[id]? = some type) :
    resolve P post type = resolve P pre type := by
  have hl := getElem?_grow hg n
  have one : pre.getId type = some id := (con type id).mpr n
  have two : post.getId type = some id := (hca type id).mpr hl
  rw [resolve, resolve, one, two]

theorem Known.grow {pre post : Components τ} {t : List τ} (hk : Known pre t)
    (hg : pre.infos <+: post.infos) : Known post t := by
  intro type mem
  obtain ⟨id, n⟩ := hk type mem
  exact ⟨id, getElem?_grow hg n⟩

theorem mapLeaves_congr {fst snd : τ → ComponentRef} {data : QueryData τ}
    {f : QueryFilter τ} (hs : ∀ type ∈ data.flatMap DataLeaf.components ++
      f.atoms.flatMap FilterLeaf.components, fst type = snd type) :
    data.mapLeaves fst = data.mapLeaves snd ∧ f.mapLeaves fst = f.mapLeaves snd := by
  constructor
  · refine map_congr_left fun leaf mem => leaf.map_congr fun type hin => ?_
    exact hs type (mem_append_left _ (mem_flatMap.mpr ⟨leaf, mem, hin⟩))
  · refine Formula.map_congr f fun leaf mem => leaf.map_congr fun type hin => ?_
    exact hs type (mem_append_right _ (mem_flatMap.mpr ⟨leaf, mem, hin⟩))

/-- The meaning of a query in terms of its types and of its numbers. -/
theorem fits_resolve {cs : Components τ} (con : cs.Consistent)
    {data : QueryData τ} {f : QueryFilter τ} (hk : Known cs (types data f))
    (list : List ComponentId) :
    ((f.mapLeaves (resolve P cs)).Fits (ComponentRef.In {id | id ∈ list}) ↔
      f.Fits (cs.Has list)) ∧
    ((data.mapLeaves (resolve P cs)).Fits (ComponentRef.In {id | id ∈ list}) ↔
      data.Fits (cs.Has list)) := by
  have n : ∀ type ∈ types data f,
      ComponentRef.In {id | id ∈ list} (resolve P cs type) ↔ cs.Has list type := by
    intro type mem
    obtain ⟨id, n⟩ := hk type mem
    have hf : cs.getId type = some id := (con type id).mpr n
    rw [con.has_iff n, resolve, hf]
    exact Iff.rfl
  rw [QueryFilter.fits_mapLeaves, QueryData.fits_mapLeaves]
  exact fits_congr n

variable [DecidableEq τ] [Fintype τ]

/-- Registering a list of types. -/
theorem registers_registerTypes {cs : Components τ} (con : cs.Consistent) (t : List τ) :
    ComponentCollector.Registers P cs (registerTypes P cs t) ∧
      Known (registerTypes P cs t) t := by
  induction t generalizing cs with
  | nil => exact ⟨ComponentCollector.Registers.refl P con, fun _ mem => nomatch mem⟩
  | cons type t ih =>
    have fst := ComponentCollector.registers_register P con type
    obtain ⟨-, -, n, -⟩ := Components.register_spec P con type
    obtain ⟨hr, hk⟩ := ih fst.consistent
    refine ⟨fst.trans hr, fun o mem => ?_⟩
    rcases mem_cons.mp mem with rfl | hl
    · exact (show Known _ [o] from fun _ ho => by
        rw [mem_singleton.mp ho]
        exact ⟨_, n⟩).grow hr.grows o (mem_singleton_self o)
    · exact hk o hl

/-- Registering known types again changes nothing. -/
theorem registerTypes_of_known {cs : Components τ} (con : cs.Consistent)
    {t : List τ} (hk : Known cs t) : registerTypes P cs t = cs := by
  induction t with
  | nil => rfl
  | cons type t ih =>
    obtain ⟨id, n⟩ := hk type mem_cons_self
    have hf : cs.getId type = some id := (con type id).mpr n
    have hs : (cs.register P type).2 = cs := by
      rw [Components.register, Components.registerWith, hf]
    unfold registerTypes at ih ⊢
    rw [foldl_cons, hs]
    exact ih fun o mem => hk o (mem_cons_of_mem _ mem)

end Types

end QueryState

/-! ## Runs -/

/-- What can happen to a query and its world: an operation on the world, or an update of
the query. -/
inductive QueryOp (τ V : Type) where
  | world (op : Op τ V)
  | update

namespace QueryOp

variable [DecidableEq τ] [Fintype τ]

/-- One step. -/
def step (P : Program τ V) : QueryOp τ V → World τ V × QueryState →
    Option (World τ V × QueryState)
  | world op, state => (World.step P op state.1).map fun after => (after, state.2)
  | update, state => some (state.1, state.2.update state.1)

end QueryOp

namespace QueryState

open World

variable [DecidableEq τ] [Fintype τ] {P : Program τ V}

/-- A query state that was built in one world, in a later world. -/
structure Follows (P : Program τ V) (started : World τ V) (query : QueryState)
    (state : World τ V × QueryState) : Prop where
  orderly : Orderly P state.1
  components : started.components.infos <+: state.1.components.infos
  same : SameQuery query state.2
  tracks : state.2.Tracks state.1

theorem Follows.step {s : World τ V} {q : QueryState}
    {st next : World τ V × QueryState} (hf : Follows P s q st)
    {op : QueryOp τ V} (out : op.step P st = some next) : Follows P s q next := by
  cases op with
  | world op =>
    obtain ⟨post, hs, rfl⟩ := map_eq_some_iff.mp out
    have hst := statics_step hf.orderly.registered hs
    exact ⟨hf.orderly.step hs, hf.components.trans hst.components,
      hf.same, hf.tracks.grow hst⟩
  | update =>
    obtain rfl := some.inj out
    refine ⟨hf.orderly, hf.components, ?_, ?_⟩
    · rw [hf.tracks.update]
      exact hf.same.trans rfl
    · rw [hf.tracks.update]
      exact ⟨le_rfl, rfl⟩

/-- Building a query registers its types and records what matches. -/
theorem build_spec {w s : World τ V} (ord : Orderly P w) {data : QueryData τ}
    {f : QueryFilter τ} {q : QueryState} (hb : build P w data f = some (q, s)) :
    Follows P s q (s, q) ∧ Known s.components (types data f) ∧
      q.Described ∧ q.version = q.count s ∧
      q.data = data.mapLeaves (resolve P s.components) ∧
      q.filter = f.mapLeaves (resolve P s.components) ∧
      declare (q.data.buildAccess ++ q.filter.buildAccess) = some q.filterData := by
  obtain ⟨i, hf, heq⟩ := map_eq_some_iff.mp hb
  cases heq
  obtain ⟨hr, hk⟩ :=
    @registers_registerTypes _ _ P _ _ _ ord.registered.components (types data f)
  obtain ⟨hsd, hsf, hp, hd, hv, hs⟩ := buildInternal_eq _ _ _ hf
  have he := (ord.extend fun reg => reg.ofComponents hr).1
  refine ⟨⟨he, prefix_rfl, rfl, hv.le, by rw [hv]; exact hs⟩, hk,
    ?_, hv, hsd, hsf, ?_⟩
  · unfold Described
    rw [hp, hsd, hsf]
  · rw [hsd, hsf]
    exact hd

/-- **Recorded storages are exact.**  A query is built in a world a program can reach; then
operations on the world and updates of the query follow in any order.  After a last update
the recorded storages are sorted without repetitions, they are exactly the archetypes, or
for dense queries the tables, whose components satisfy the filter and the data, and the
query is the one that would be built afresh. -/
theorem run_storages_exact (P : Program τ V) {ops : List (Op τ V)} {world started : World τ V}
    (ran : run (World.step P) ops World.new = some world) {data : QueryData τ}
    {filter : QueryFilter τ} {query : QueryState}
    (built : build P world data filter = some (query, started)) {more : List (QueryOp τ V)}
    {final : World τ V × QueryState}
    (ranMore : run (QueryOp.step P) more (started, query) = some final) :
    let updated := final.2.update final.1
    updated.storages.SortedLT ∧
    (updated.isDense = false → ∀ id, id ∈ updated.storages ↔
      ∃ a, final.1.archetypes.arches[id]? = some a ∧
        filter.Fits (final.1.components.Has a.components) ∧
        data.Fits (final.1.components.Has a.components)) ∧
    (updated.isDense = true → ∀ id, id ∈ updated.storages ↔
      ∃ t, final.1.tables.tables[id]? = some t ∧
        filter.Fits (final.1.components.Has t.components) ∧
        data.Fits (final.1.components.Has t.components)) ∧
    build P final.1 data filter = some (updated, final.1) := by
  have hor : Orderly P world :=
    run_invariant (fun _ _ _ hor ho => hor.step ho) (orderly_new P) ran
  obtain ⟨hfi, hk, hde, hv, hsd, hsf, hdc⟩ :=
    build_spec hor built
  have hfo : Follows P started query final :=
    run_invariant (fun _ _ _ hfo ho => hfo.step ho) hfi ranMore
  obtain ⟨final, c⟩ := final
  obtain ⟨hl, hg, hsa, ht⟩ := hfo
  have hc := hfi.orderly.registered.components
  have hcl := hl.registered.components
  have hkl : Known final.components (types data filter) := hk.grow hg
  have hre : ∀ type ∈ types data filter,
      resolve P final.components type = resolve P started.components type := by
    intro type hme
    obtain ⟨id, hn⟩ := hk type hme
    exact resolve_of_prefix hc hcl hg hn
  obtain ⟨hrd, hrf⟩ := mapLeaves_congr hre
  have hcu : c.data = data.mapLeaves (resolve P final.components) := by
    rw [hsa.data, hsd, hrd]
  have hcf : c.filter = filter.mapLeaves (resolve P final.components) := by
    rw [hsa.filter, hsf, hrf]
  have hcd : c.Described := hsa.described hde
  have hm : ∀ id list, c.componentsAt final id = some list →
      (c.accepts final id = true ↔ filter.Fits (final.components.Has list) ∧
        data.Fits (final.components.Has list)) := by
    intro id list hf
    obtain ⟨hff, hfd⟩ := @fits_resolve _ _ P _ hcl _ _ hkl list
    rw [accepts_iff hl.registered hcd, hf, hcu, hcf]
    simp only [some.injEq, exists_eq_left', hff, hfd]
  have hr : ∀ id, id ∈ (c.update final).storages ↔
      ∃ list, c.componentsAt final id = some list ∧
        filter.Fits (final.components.Has list) ∧ data.Fits (final.components.Has list) := by
    intro id
    rw [ht.update, mem_recorded]
    constructor
    · intro ha
      obtain ⟨list, hf, -⟩ :=
        (accepts_iff hl.registered hcd id).mp ha
      exact ⟨list, hf, (hm id list hf).mp ha⟩
    · rintro ⟨list, hf, hft⟩
      exact (hm id list hf).mpr hft
  refine ⟨?_, ?_, ?_, ?_⟩
  · rw [ht.update]
    exact (pairwise_lt_range.filter _).sortedLT
  · intro hs id
    rw [ht.update] at hs
    have hs : c.isDense = false := hs
    rw [hr, componentsAt, hs, if_neg Bool.false_ne_true]
    simp only [map_eq_some_iff, exists_exists_and_eq_and]
  · intro hd id
    rw [ht.update] at hd
    have hd : c.isDense = true := hd
    rw [hr, componentsAt, hd, if_pos rfl]
    simp only [map_eq_some_iff, exists_exists_and_eq_and]
  · have hu : registerTypes P final.components (types data filter) = final.components :=
      registerTypes_of_known hcl hkl
    have hcr : declare
        (c.data.buildAccess ++ c.filter.buildAccess) = some c.filterData := by
      rw [hsa.data, hsa.filter, hsa.filterData]
      exact hdc
    have hag : build P final data filter =
        (buildInternal final (data.mapLeaves (resolve P final.components))
          (filter.mapLeaves (resolve P final.components))).map fun query => (query, final) := by
      unfold build
      rw [hu]
    rw [hag, ← hcu, ← hcf,
      buildInternal_self hcd hcr, ht.update, map_some]

end QueryState

/-- Either the sparse component or neither, as a filter. -/
def sparseOrNot : QueryFilter Bool := .or [.leaf (.withs [true]), .leaf (.withouts [true])]

open World in
/-- A query of the dense component is updated before and after an archetype is added. -/
theorem QueryState.run_storages_exact_growing :
    ∃ (world started : World Bool ℕ) (query : QueryState) (final : World Bool ℕ × QueryState),
      run (World.step denseAndSparse) [.spawn (Bundle.zeros ⟨1, [false]⟩)] World.new = some world ∧
      build denseAndSparse world [.reading false] sparseOrNot = some (query, started) ∧
      run (QueryOp.step denseAndSparse)
        [.update, .world (.spawn (Bundle.zeros ⟨2, [false, true]⟩)), .update] (started, query) =
          some final ∧ build denseAndSparse final.1 [.reading false] sparseOrNot =
        some (final.2.update final.1, final.1) := by
  have hr : ((run (World.step denseAndSparse) [.spawn (Bundle.zeros ⟨1, [false]⟩)]
      World.new).bind fun world =>
        (build denseAndSparse world [.reading false] sparseOrNot).bind fun b =>
          run (QueryOp.step denseAndSparse)
            [.update, .world (.spawn (Bundle.zeros ⟨2, [false, true]⟩)), .update]
            (b.2, b.1)).isSome = true := by
    decide +kernel
  obtain ⟨final, he⟩ := isSome_iff_exists.mp hr
  obtain ⟨world, ran, he⟩ := bind_eq_some_iff.mp he
  obtain ⟨⟨query, started⟩, b, hrm⟩ := bind_eq_some_iff.mp he
  exact ⟨world, started, query, final, ran, b, hrm,
    (run_storages_exact denseAndSparse ran b hrm).2.2.2⟩

end Voker.Ecs
