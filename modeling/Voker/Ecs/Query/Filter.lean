import Voker.Ecs.System.AccessParam
import Voker.Ecs.System.Filter
import Voker.Foundation.Formula
import Voker.Foundation.Search

/-!
# What a query asks for

A query has data, which it fetches from the entities it visits, and a filter, which says
what entities to visit.  Filters are conjunctions and disjunctions of `With`, `Without`,
`Added` and `Changed`; data are the fields of a tuple.  Both contribute to the filter
descriptors of the query: the filter is brought into disjunctive form, and the data add
the components they need to every clause.

**An archetype satisfies one of the descriptors exactly if it satisfies the filter and has
the components the data need** (`matches_filterParams`), and `matches_sorted`, which jumps
through the sorted parts of an archetype, decides it (`matchesSorted_iff`).
-/

namespace Voker.Ecs

open Foundation List FilterParamBuilder

/-- What the code knows of a component type `T` of a query: its registration number and
`T::STORAGE`. -/
structure ComponentRef where
  id : ComponentId
  storage : StorageMode
  deriving DecidableEq, Repr

/-- The component is in a set. -/
def ComponentRef.In (arche : Set ComponentId) (component : ComponentRef) : Prop :=
  component.id ∈ arche

/-! ## Filters -/

/-- The filters a query is composed of: `()`, `With`, `Without`, `Added` and `Changed`. -/
inductive FilterLeaf (κ : Type) where
  | unit
  | withs (components : List κ)
  | withouts (components : List κ)
  | added (component : κ)
  | changed (component : κ)
  deriving DecidableEq

namespace FilterLeaf

variable {κ ι : Type}

/-- The components a filter names. -/
def components : FilterLeaf κ → List κ
  | unit => []
  | withs components => components
  | withouts components => components
  | added component => [component]
  | changed component => [component]

/-- Replace the components. -/
def map (change : κ → ι) : FilterLeaf κ → FilterLeaf ι
  | unit => unit
  | withs components => withs (components.map change)
  | withouts components => withouts (components.map change)
  | added component => added (change component)
  | changed component => changed (change component)

/-- `ENABLE_ENTITY_FILTER`. -/
def enableEntityFilter : FilterLeaf κ → Bool
  | added _ | changed _ => true
  | _ => false

/-- `COMPONENTS_ARE_DENSE`. -/
def componentsAreDense (leaf : FilterLeaf ComponentRef) : Bool :=
  leaf.components.all fun component => component.storage = .dense

/-- `build_filter`. -/
def buildFilter : FilterLeaf ComponentRef → List FilterParamBuilder
  | unit => [.new]
  | withs components =>
    [components.foldl (fun builder component => builder.addWith component.id) .new]
  | withouts components =>
    [components.foldl (fun builder component => builder.addWithout component.id) .new]
  | added component => [new.addWith component.id]
  | changed component => [new.addWith component.id]

/-- `build_access`. -/
def buildAccess : FilterLeaf ComponentRef → List AccessCall
  | added component | changed component => [.force component.id]
  | _ => []

/-- The meaning of a filter for an archetype that has certain components; that a
component was added or changed means that it is there. -/
def Fits (has : κ → Prop) : FilterLeaf κ → Prop
  | unit => True
  | withs components => ∀ component ∈ components, has component
  | withouts components => ∀ component ∈ components, ¬ has component
  | added component => has component
  | changed component => has component

theorem fits_map (ch : κ → ι) (has : ι → Prop) (leaf : FilterLeaf κ) :
    (leaf.map ch).Fits has ↔ leaf.Fits fun c => has (ch c) := by
  cases leaf <;> simp [map, Fits]

theorem fits_congr {one two : κ → Prop} (leaf : FilterLeaf κ)
    (hs : ∀ c ∈ leaf.components, one c ↔ two c) : leaf.Fits one ↔ leaf.Fits two := by
  cases leaf with
  | unit => exact Iff.rfl
  | withs cs => exact forall₂_congr fun c mem => hs c mem
  | withouts cs =>
    exact forall₂_congr fun c mem => not_congr (hs c mem)
  | added c => exact hs c (mem_singleton_self c)
  | changed c => exact hs c (mem_singleton_self c)

theorem map_congr {one two : κ → ι} (leaf : FilterLeaf κ)
    (hs : ∀ c ∈ leaf.components, one c = two c) : leaf.map one = leaf.map two := by
  cases leaf with
  | unit => rfl
  | withs cs => exact congrArg withs (map_congr_left hs)
  | withouts cs => exact congrArg withouts (map_congr_left hs)
  | added c => exact congrArg added (hs c (mem_singleton_self c))
  | changed c =>
    exact congrArg changed (hs c (mem_singleton_self c))

theorem matches_foldl_addWith (cs : List ComponentRef) (b : FilterParamBuilder)
    (a : Set ComponentId) : (cs.foldl (fun b c => b.addWith c.id) b).Matches
      a ↔ b.Matches a ∧ ∀ c ∈ cs, c.id ∈ a := by
  induction cs generalizing b with
  | nil => simp
  | cons one rest ih =>
    rw [foldl_cons, ih, matches_addWith, forall_mem_cons, and_assoc]

theorem matches_foldl_addWithout (cs : List ComponentRef) (b : FilterParamBuilder)
    (a : Set ComponentId) :
    (cs.foldl (fun b c => b.addWithout c.id) b).Matches
      a ↔ b.Matches a ∧ ∀ c ∈ cs, c.id ∉ a := by
  induction cs generalizing b with
  | nil => simp
  | cons one rest ih =>
    rw [foldl_cons, ih, matches_addWithout, forall_mem_cons, and_assoc]

/-- The clauses of a leaf mean the leaf. -/
theorem buildFilter_iff (leaf : FilterLeaf ComponentRef) (a : Set ComponentId) :
    (∃ b ∈ leaf.buildFilter, b.Matches a) ↔ leaf.Fits (ComponentRef.In a) := by
  cases leaf with
  | unit => simp [buildFilter, Fits]
  | withs cs => simp [buildFilter, Fits, matches_foldl_addWith, ComponentRef.In]
  | withouts cs => simp [buildFilter, Fits, matches_foldl_addWithout, ComponentRef.In]
  | added c => simp [buildFilter, Fits, ComponentRef.In]
  | changed c => simp [buildFilter, Fits, ComponentRef.In]

end FilterLeaf

/-- A filter: `And` and `Or` of tuples of filters. -/
abbrev QueryFilter (κ : Type) := Formula (FilterLeaf κ)

namespace QueryFilter

/-- `COMPONENTS_ARE_DENSE`. -/
def componentsAreDense (filter : QueryFilter ComponentRef) : Bool :=
  filter.atoms.all FilterLeaf.componentsAreDense

/-- `ENABLE_ENTITY_FILTER`. -/
def enableEntityFilter {κ : Type} (filter : QueryFilter κ) : Bool :=
  filter.atoms.any FilterLeaf.enableEntityFilter

/-- `build_filter`: `Or` collects the clauses of its parts, `And` merges them. -/
def buildFilter (filter : QueryFilter ComponentRef) : List FilterParamBuilder :=
  filter.dnf FilterLeaf.buildFilter .new merge

/-- `build_access`. -/
def buildAccess (filter : QueryFilter ComponentRef) : List AccessCall :=
  filter.atoms.flatMap FilterLeaf.buildAccess

/-- The meaning of a filter for an archetype that has certain components. -/
def Fits {κ : Type} (has : κ → Prop) (filter : QueryFilter κ) : Prop :=
  filter.Holds (FilterLeaf.Fits has)

/-- Replace the components. -/
def mapLeaves {κ ι : Type} (change : κ → ι) (filter : QueryFilter κ) : QueryFilter ι :=
  filter.map (FilterLeaf.map change)

/-- **The clauses of a filter mean the filter.** -/
theorem buildFilter_iff (f : QueryFilter ComponentRef) (a : Set ComponentId) :
    (∃ b ∈ f.buildFilter, b.Matches a) ↔
      f.Fits (ComponentRef.In a) := by
  refine (@Formula.dnf_iff _ _ FilterLeaf.buildFilter .new merge
    (fun b => b.Matches a) (matches_new a)
    (fun _ _ => merge_matches) f).trans ?_
  exact Formula.holds_congr f fun leaf _ => leaf.buildFilter_iff a

theorem fits_mapLeaves {κ ι : Type} (ch : κ → ι) (has : ι → Prop) (f : QueryFilter κ) :
    (f.mapLeaves ch).Fits has ↔ f.Fits fun c => has (ch c) := by
  unfold Fits mapLeaves
  rw [Formula.holds_map]
  exact Formula.holds_congr f fun leaf _ => leaf.fits_map ch has

end QueryFilter

/-! ## Data -/

/-- The data a query is composed of: `Entity`, `EntityRef`, `EntityMut`, a component that
is read (`&T`, `Ref<T>`) or written (`&mut T`, `Mut<T>`), and the `Option` of one. -/
inductive DataLeaf (κ : Type) where
  | entity
  | entityRef
  | entityMut
  | reading (component : κ)
  | optReading (component : κ)
  | writing (component : κ)
  | optWriting (component : κ)
  deriving DecidableEq

namespace DataLeaf

variable {κ ι : Type}

/-- The components a field names. -/
def components : DataLeaf κ → List κ
  | reading component | optReading component | writing component | optWriting component =>
    [component]
  | _ => []

/-- Replace the component. -/
def map (change : κ → ι) : DataLeaf κ → DataLeaf ι
  | entity => entity
  | entityRef => entityRef
  | entityMut => entityMut
  | reading component => reading (change component)
  | optReading component => optReading (change component)
  | writing component => writing (change component)
  | optWriting component => optWriting (change component)

/-- `COMPONENTS_ARE_DENSE`. -/
def componentsAreDense : DataLeaf ComponentRef → Bool
  | entity | entityRef | entityMut => true
  | reading component | writing component => component.storage = .dense
  | optReading _ | optWriting _ => false

/-- `build_filter`: a component that has to be there is added to every clause. -/
def buildFilter (leaf : DataLeaf ComponentRef) (builders : List FilterParamBuilder) :
    List FilterParamBuilder :=
  match leaf with
  | reading component | writing component =>
    builders.map fun builder => builder.addWith component.id
  | _ => builders

/-- `build_access`. -/
def buildAccess : DataLeaf ComponentRef → List AccessCall
  | entity => []
  | entityRef => [.entityRef]
  | entityMut => [.entityMut]
  | reading component | optReading component => [.reading component.id]
  | writing component | optWriting component => [.writing component.id]

/-- The component that has to be there. -/
def Fits (has : κ → Prop) : DataLeaf κ → Prop
  | reading component | writing component => has component
  | _ => True

theorem fits_map (ch : κ → ι) (has : ι → Prop) (leaf : DataLeaf κ) :
    (leaf.map ch).Fits has ↔ leaf.Fits fun c => has (ch c) := by
  cases leaf <;> rfl

theorem fits_congr {one two : κ → Prop} (leaf : DataLeaf κ)
    (hs : ∀ c ∈ leaf.components, one c ↔ two c) : leaf.Fits one ↔ leaf.Fits two := by
  cases leaf with
  | reading c => exact hs c (mem_singleton_self c)
  | writing c => exact hs c (mem_singleton_self c)
  | _ => exact Iff.rfl

theorem map_congr {one two : κ → ι} (leaf : DataLeaf κ)
    (hs : ∀ c ∈ leaf.components, one c = two c) : leaf.map one = leaf.map two := by
  cases leaf with
  | reading c => exact congrArg reading (hs c (mem_singleton_self c))
  | optReading c =>
    exact congrArg optReading (hs c (mem_singleton_self c))
  | writing c => exact congrArg writing (hs c (mem_singleton_self c))
  | optWriting c =>
    exact congrArg optWriting (hs c (mem_singleton_self c))
  | _ => rfl

theorem buildFilter_iff (leaf : DataLeaf ComponentRef) (bu : List FilterParamBuilder)
    (a : Set ComponentId) : (∃ b ∈ leaf.buildFilter bu, b.Matches a) ↔
      (∃ b ∈ bu, b.Matches a) ∧ leaf.Fits (ComponentRef.In a) := by
  cases leaf with
  | reading c =>
    simp [buildFilter, Fits, ComponentRef.In, ← exists_and_right, and_assoc]
  | writing c =>
    simp [buildFilter, Fits, ComponentRef.In, ← exists_and_right, and_assoc]
  | _ => simp [buildFilter, Fits]

end DataLeaf

/-- Data: the fields of a tuple, in order.  The fields of a tuple within a tuple are
visited in the same order as if they stood in the outer one. -/
abbrev QueryData (κ : Type) := List (DataLeaf κ)

namespace QueryData

section

variable (data : QueryData ComponentRef)

/-- `COMPONENTS_ARE_DENSE`. -/
def componentsAreDense : Bool :=
  data.all DataLeaf.componentsAreDense

/-- `build_filter`. -/
def buildFilter (builders : List FilterParamBuilder) : List FilterParamBuilder :=
  data.foldl (fun builders leaf => leaf.buildFilter builders) builders

/-- `build_access`. -/
def buildAccess : List AccessCall :=
  data.flatMap DataLeaf.buildAccess

end

/-- The components that have to be there. -/
def Fits {κ : Type} (has : κ → Prop) (data : QueryData κ) : Prop :=
  ∀ leaf ∈ data, leaf.Fits has

/-- Replace the components. -/
def mapLeaves {κ ι : Type} (change : κ → ι) (data : QueryData κ) : QueryData ι :=
  data.map (DataLeaf.map change)

theorem fits_mapLeaves {κ ι : Type} (ch : κ → ι) (has : ι → Prop) (data : QueryData κ) :
    (data.mapLeaves ch).Fits has ↔ data.Fits fun c => has (ch c) := by
  simp [Fits, mapLeaves, DataLeaf.fits_map]

theorem buildFilter_iff (data : QueryData ComponentRef) (b : List FilterParamBuilder)
    (a : Set ComponentId) : (∃ bu ∈ data.buildFilter b, bu.Matches a) ↔
      (∃ bu ∈ b, bu.Matches a) ∧ data.Fits (ComponentRef.In a) := by
  induction data generalizing b with
  | nil => simp [buildFilter, Fits]
  | cons leaf data ih =>
    have hr := ih (leaf.buildFilter b)
    unfold buildFilter Fits at hr ⊢
    rw [foldl_cons, hr, leaf.buildFilter_iff, forall_mem_cons, and_assoc]

end QueryData

/-- The meaning of a query depends on the components it names. -/
theorem fits_congr {κ : Type} {data : QueryData κ} {f : QueryFilter κ}
    {one two : κ → Prop} (hs : ∀ c ∈ data.flatMap DataLeaf.components ++
      f.atoms.flatMap FilterLeaf.components, one c ↔ two c) :
    (f.Fits one ↔ f.Fits two) ∧ (data.Fits one ↔ data.Fits two) := by
  constructor
  · refine Formula.holds_congr f fun leaf mem => leaf.fits_congr fun c hin => ?_
    exact hs c (mem_append_right _ (mem_flatMap.mpr ⟨leaf, mem, hin⟩))
  · refine forall₂_congr fun leaf mem => leaf.fits_congr fun c hin => ?_
    exact hs c (mem_append_left _ (mem_flatMap.mpr ⟨leaf, mem, hin⟩))

/-! ## Descriptors -/

/-- `collect_param`: clauses that contradict themselves are dropped, and equal ones
kept once. -/
def collectParam (builders : List FilterParamBuilder) : List FilterParam :=
  (builders.filterMap build).dedup

/-- The descriptors of a query.  The filter comes first: it creates the clauses to which
the data add. -/
def filterParams (data : QueryData ComponentRef) (filter : QueryFilter ComponentRef) :
    List FilterParam :=
  collectParam (data.buildFilter filter.buildFilter)

/-- **The descriptors mean the query.** -/
theorem matches_filterParams (data : QueryData ComponentRef) (f : QueryFilter ComponentRef)
    (a : Set ComponentId) : (∃ p ∈ filterParams data f, p.Matches a) ↔
      f.Fits (ComponentRef.In a) ∧ data.Fits (ComponentRef.In a) := by
  rw [← f.buildFilter_iff, ← data.buildFilter_iff]
  simp only [filterParams, collectParam, mem_dedup, mem_filterMap]
  constructor
  · rintro ⟨p, ⟨b, mem, hb⟩, hf⟩
    exact ⟨b, mem, build_matches.mp ⟨p, hb, hf⟩⟩
  · rintro ⟨b, mem, hf⟩
    obtain ⟨p, hb, hfp⟩ := build_matches.mpr hf
    exact ⟨p, ⟨b, mem, hb⟩, hfp⟩

/-! ## Matching sorted components -/

/-- The first half of `matches_sorted`: each required component is searched in what
remains of the dense part, then in what remains of the sparse part. -/
def matchesWith : List ComponentId → List ComponentId → List ComponentId → Bool
  | [], _, _ => true
  | id :: withs, dense, sparse =>
    match jumpSearch id dense with
    | .ok index => matchesWith withs (dense.drop (index + 1)) sparse
    | .error _ =>
      match jumpSearch id sparse with
      | .ok index => matchesWith withs dense (sparse.drop (index + 1))
      | .error _ => false

/-- The second half of `matches_sorted`. -/
def matchesWithout : List ComponentId → List ComponentId → List ComponentId → Bool
  | [], _, _ => true
  | id :: withouts, dense, sparse =>
    match jumpSearch id dense with
    | .ok _ => false
    | .error index =>
      match jumpSearch id sparse with
      | .ok _ => false
      | .error other => matchesWithout withouts (dense.drop index) (sparse.drop other)

/-- `matches_sorted`. -/
def matchesSorted (dense sparse withs withouts : List ComponentId) : Bool :=
  matchesWith withs dense sparse && matchesWithout withouts dense sparse

theorem sortedLT_drop {s : List ComponentId} (hs : s.SortedLT) (c : ℕ) :
    (s.drop c).SortedLT :=
  (hs.pairwise.sublist (drop_sublist c s)).sortedLT

theorem matchesWith_iff {w d s : List ComponentId} (hws : w.SortedLT)
    (hds : d.SortedLT) (hss : s.SortedLT) :
    matchesWith w d s = true ↔ ∀ id ∈ w, id ∈ d ∨ id ∈ s := by
  induction w generalizing d s with
  | nil => simp [matchesWith]
  | cons id w ih =>
    obtain ⟨hl, hrs⟩ := pairwise_cons.mp hws.pairwise
    have hid := jumpSearch_spec hds.sortedLE id
    rw [matchesWith, forall_mem_cons]
    cases dense? : jumpSearch id d with
    | ok i =>
      rw [dense?] at hid
      rw [ih hrs.sortedLT (sortedLT_drop hds _) hss]
      have he : id ∈ d := mem_of_getElem? hid
      rw [and_iff_right (.inl he)]
      exact forall₂_congr fun o mem => or_congr
        (hid.mem_drop_succ hds (hl o mem)) Iff.rfl
    | error i =>
      rw [dense?] at hid
      have his := jumpSearch_spec hss.sortedLE id
      cases sparse? : jumpSearch id s with
      | ok i =>
        rw [sparse?] at his
        rw [ih hrs.sortedLT hds (sortedLT_drop hss _)]
        have he : id ∈ s := mem_of_getElem? his
        rw [and_iff_right (.inr he)]
        exact forall₂_congr fun o mem => or_congr Iff.rfl
          (his.mem_drop_succ hss (hl o mem))
      | error i =>
        rw [sparse?] at his
        exact iff_of_false Bool.false_ne_true fun hb => hb.1.elim hid.notMem his.notMem

theorem matchesWithout_iff {w d s : List ComponentId}
    (hws : w.SortedLT) (hds : d.SortedLT)
    (hss : s.SortedLT) : matchesWithout w d s = true ↔
      ∀ id ∈ w, ¬ (id ∈ d ∨ id ∈ s) := by
  induction w generalizing d s with
  | nil => simp [matchesWithout]
  | cons id w ih =>
    obtain ⟨hl, hrs⟩ := pairwise_cons.mp hws.pairwise
    have hid := jumpSearch_spec hds.sortedLE id
    rw [matchesWithout, forall_mem_cons]
    cases dense? : jumpSearch id d with
    | ok i =>
      rw [dense?] at hid
      exact iff_of_false Bool.false_ne_true fun hb => hb.1 (.inl (mem_of_getElem? hid))
    | error i =>
      rw [dense?] at hid
      have his := jumpSearch_spec hss.sortedLE id
      cases sparse? : jumpSearch id s with
      | ok i =>
        rw [sparse?] at his
        exact iff_of_false Bool.false_ne_true fun hb => hb.1 (.inr (mem_of_getElem? his))
      | error o =>
        rw [sparse?] at his
        rw [ih hrs.sortedLT (sortedLT_drop hds _) (sortedLT_drop hss _),
          and_iff_right (not_or.mpr ⟨hid.notMem, his.notMem⟩)]
        exact forall₂_congr fun l mem => not_congr (or_congr
          (hid.mem_drop (hl l mem)) (his.mem_drop (hl l mem)))

/-- **`matches_sorted` decides a descriptor** on the sorted parts of an archetype. -/
theorem matchesSorted_iff {d s : List ComponentId} (hds : d.SortedLT)
    (hss : s.SortedLT) (p : FilterParam) :
    matchesSorted d s p.withs p.withouts = true ↔
      p.Matches {id | id ∈ d ∨ id ∈ s} := by
  rw [matchesSorted, Bool.and_eq_true]
  exact and_congr (matchesWith_iff p.withSorted hds hss)
    (matchesWithout_iff p.withoutSorted hds hss)

/-- **`matches_sorted` is exact, and so is its search**, which may meet an id several times. -/
theorem matchesSorted_exact : (∀ dense sparse withs withouts : List ComponentId, dense.SortedLT →
      sparse.SortedLT → withs.SortedLT → withouts.SortedLT →
      (matchesSorted dense sparse withs withouts = true ↔
        (∀ id ∈ withs, id ∈ dense ∨ id ∈ sparse) ∧ ∀ id ∈ withouts, ¬ (id ∈ dense ∨ id ∈ sparse))) ∧
    ∀ (key : ComponentId) (slice : List ComponentId), slice.SortedLE →
      Found key slice (jumpSearch key slice) := by
  refine ⟨fun dense sparse withs withouts hd hs hwi hw => ?_,
    fun key slice hso => jumpSearch_spec hso key⟩
  rw [matchesSorted, Bool.and_eq_true]
  exact and_congr (matchesWith_iff hwi hd hs)
    (matchesWithout_iff hw hd hs)

end Voker.Ecs
