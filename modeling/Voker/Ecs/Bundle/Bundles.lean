import Voker.Ecs.Component.Collector

/-!
# Component slices and bundles

Bundles and archetypes store their components as one slice, the dense ones before the
sparse ones, each part sorted.  **A slice that is split this way is determined by its set
of components**; that is why slices can serve as interning keys.

`Bundles` interns the slices of bundle types, once for the components a bundle names and
once for those it requires.
-/

namespace Voker.Ecs

open Foundation List Option Function

/-- A slice `[..dense_len][dense_len..]` of component numbers. -/
structure ComponentSlice where
  components : List ComponentId
  denseLen : ℕ
  deriving DecidableEq, Repr

variable {τ V : Type}

namespace ComponentSlice

section

variable (slice : ComponentSlice)

/-- `dense_components`. -/
def denseComponents : List ComponentId :=
  slice.components.take slice.denseLen

/-- `sparse_components`. -/
def sparseComponents : List ComponentId :=
  slice.components.drop slice.denseLen

/-- `contains_component`. -/
def containsComponent (id : ComponentId) : Bool :=
  id ∈ slice.components

/-- `contains_sparse_component`. -/
def containsSparseComponent (id : ComponentId) : Bool :=
  id ∈ slice.sparseComponents

end

variable {slice : ComponentSlice} {id : ComponentId}

@[simp]
theorem containsComponent_iff : slice.containsComponent id = true ↔ id ∈ slice.components :=
  decide_eq_true_iff

/-- Append the sparse part to the dense part. -/
def ofParts (dense sparse : List ComponentId) : ComponentSlice :=
  ⟨dense ++ sparse, dense.length⟩

@[simp]
theorem denseComponents_ofParts (d s : List ComponentId) :
    (ofParts d s).denseComponents = d :=
  take_left

@[simp]
theorem sparseComponents_ofParts (d s : List ComponentId) :
    (ofParts d s).sparseComponents = s :=
  drop_left

theorem mem_components :
    id ∈ slice.components ↔ id ∈ slice.denseComponents ∨ id ∈ slice.sparseComponents := by
  rw [← mem_append, denseComponents, sparseComponents, take_append_drop]

/-- A well-formed slice: both parts strictly sorted, and split by storage. -/
structure Split (P : Program τ V) (components : Components τ) (slice : ComponentSlice) : Prop where
  denseSorted : slice.denseComponents.SortedLT
  sparseSorted : slice.sparseComponents.SortedLT
  dense : ∀ id ∈ slice.denseComponents, components.storage P id = some .dense
  sparse : ∀ id ∈ slice.sparseComponents, components.storage P id = some .sparse

section Split

variable {P : Program τ V} {cs : Components τ} {slice : ComponentSlice}

/-- The empty slice. -/
theorem split_nil (P : Program τ V) (cs : Components τ) : Split P cs ⟨[], 0⟩ := by
  refine ⟨List.Pairwise.nil.sortedLT, List.Pairwise.nil.sortedLT, ?_, ?_⟩
  · simp [denseComponents]
  · simp [sparseComponents]

section

variable (split : Split P cs slice)

include split

variable {id : ComponentId} {other : ComponentSlice}

theorem Split.registered (mem : id ∈ slice.components) : id < cs.infos.length := by
  have hst : ∃ mode, cs.storage P id = some mode := by
    rcases mem_components.mp mem with hid | his
    · exact ⟨_, split.dense id hid⟩
    · exact ⟨_, split.sparse id his⟩
  obtain ⟨mode, hf⟩ := hst
  obtain ⟨type, he, -⟩ := map_eq_some_iff.mp hf
  exact (List.getElem?_eq_some_iff.mp he).1

theorem Split.mem_dense : id ∈ slice.denseComponents ↔
      id ∈ slice.components ∧ cs.storage P id = some .dense := by
  refine ⟨fun mem => ⟨mem_components.mpr (.inl mem), split.dense id mem⟩, ?_⟩
  rintro ⟨mem, hd⟩
  rcases mem_components.mp mem with hid | his
  · exact hid
  · rw [split.sparse id his] at hd
    cases hd

theorem Split.mem_sparse : id ∈ slice.sparseComponents ↔
      id ∈ slice.components ∧ cs.storage P id = some .sparse := by
  refine ⟨fun mem => ⟨mem_components.mpr (.inr mem), split.sparse id mem⟩, ?_⟩
  rintro ⟨mem, hs⟩
  rcases mem_components.mp mem with hid | his
  · rw [split.dense id hid] at hs
    cases hs
  · exact his

theorem Split.nodup : slice.components.Nodup := by
  rw [← take_append_drop slice.denseLen slice.components]
  refine split.denseSorted.nodup.append split.sparseSorted.nodup ?_
  intro id hid his
  have hm := (split.dense id hid).symm.trans (split.sparse id his)
  cases hm

/-- The set of components determines both parts. -/
theorem Split.parts_eq (two : Split P cs other)
    (hs : ∀ id, id ∈ slice.components ↔ id ∈ other.components) :
    slice.denseComponents = other.denseComponents ∧
      slice.sparseComponents = other.sparseComponents := by
  constructor
  · refine split.denseSorted.eq_of_mem_iff two.denseSorted fun id => ?_
    rw [split.mem_dense, two.mem_dense, hs]
  · refine split.sparseSorted.eq_of_mem_iff two.sparseSorted fun id => ?_
    rw [split.mem_sparse, two.mem_sparse, hs]

/-- The set of components determines the slice. -/
theorem Split.components_eq (two : Split P cs other)
    (hsa : ∀ id, id ∈ slice.components ↔ id ∈ other.components) :
    slice.components = other.components := by
  obtain ⟨hd, hs⟩ := split.parts_eq two hsa
  calc slice.components = slice.denseComponents ++ slice.sparseComponents :=
        (take_append_drop _ _).symm
    _ = other.denseComponents ++ other.sparseComponents := by rw [hd, hs]
    _ = other.components := take_append_drop _ _

theorem Split.grow {post : Components τ} (hg : cs.infos <+: post.infos) :
    Split P post slice where
  denseSorted := split.denseSorted
  sparseSorted := split.sparseSorted
  dense := fun id mem => by
    rw [ComponentCollector.storage_of_initial hg
      (split.registered (mem_components.mpr (.inl mem)))]
    exact split.dense id mem
  sparse := fun id mem => by
    rw [ComponentCollector.storage_of_initial hg
      (split.registered (mem_components.mpr (.inr mem)))]
    exact split.sparse id mem

end

/-- Sorting and deduplicating two lists of the right storage gives a well-formed
slice. -/
theorem split_ofParts {dense sparse : List ComponentId}
    (hid : ∀ id ∈ dense, cs.storage P id = some .dense)
    (his : ∀ id ∈ sparse, cs.storage P id = some .sparse) :
    Split P cs (ofParts (sortDedup dense) (sortDedup sparse)) where
  denseSorted := by
    rw [denseComponents_ofParts]
    exact sortedLT_sortDedup dense
  sparseSorted := by
    rw [sparseComponents_ofParts]
    exact sortedLT_sortDedup sparse
  dense := by
    rw [denseComponents_ofParts]
    exact fun id mem => hid id (mem_sortDedup.mp mem)
  sparse := by
    rw [sparseComponents_ofParts]
    exact fun id mem => his id (mem_sortDedup.mp mem)

end Split

end ComponentSlice

/-! ## Types named by a list of numbers -/

/-- Some number of the list is the number of the type. -/
def Components.Has (components : Components τ) (list : List ComponentId) (type : τ) : Prop :=
  ∃ id ∈ list, components.infos[id]? = some type

variable {list : List ComponentId} {pre post : Components τ} {type : τ}

/-- Registered numbers keep their types when the registry grows. -/
theorem Components.has_of_prefix (hg : pre.infos <+: post.infos)
    (reg : ∀ id ∈ list, id < pre.infos.length) (type : τ) :
    post.Has list type ↔ pre.Has list type := by
  refine exists_congr fun id => and_congr_right fun mem => ?_
  rw [getElem?_eq_grow hg (reg id mem)]

theorem Components.Has.grow (hg : pre.infos <+: post.infos) (has : pre.Has list type) :
    post.Has list type := by
  obtain ⟨id, mem, hn⟩ := has
  exact ⟨id, mem, getElem?_grow hg hn⟩

/-- In a consistent registry a type is named through its own number only. -/
theorem Components.Consistent.has_iff {cs : Components τ} (con : cs.Consistent) {id : ComponentId}
    (n : cs.infos[id]? = some type) : cs.Has list type ↔ id ∈ list := by
  constructor
  · rintro ⟨other, mem, hf⟩
    rwa [Interned.id_unique con n hf]
  · exact fun mem => ⟨id, mem, n⟩

/-! ## Bundles -/

/-- `BundleId`. -/
abbrev BundleId := ℕ

/-- A bundle type: its identity as a Rust type and its component types in field order.
Tuples and derived bundles run the trait methods of their fields one after the other,
so nested bundles flatten. -/
structure BundleType (τ : Type) where
  ident : ℕ
  components : List τ
  deriving DecidableEq

/-- The type `()`. -/
def BundleType.unit : BundleType τ := ⟨0, []⟩

/-- A bundle value: one value for each component of its type. -/
structure Bundle (τ V : Type) where
  type : BundleType τ
  values : List V
  sized : values.length = type.components.length

/-- A bundle of zeros. -/
def Bundle.zeros (type : BundleType τ) : Bundle τ ℕ :=
  ⟨type, type.components.map fun _ => 0, length_map _⟩

/-- The components of a bundle with their values, in field order. -/
def Bundle.fields (bundle : Bundle τ V) : List (τ × V) :=
  bundle.type.components.zip bundle.values

/-- `Bundles`; a `BundleInfo` is a component slice. -/
structure Bundles (τ : Type) where
  infos : List ComponentSlice
  mapper : List ComponentId → Option BundleId
  explicit : BundleType τ → Option BundleId
  required : BundleType τ → Option BundleId

namespace Bundles

/-- `new`: the unit bundle has number zero. -/
def new [DecidableEq τ] : Bundles τ where
  infos := [⟨[], 0⟩]
  mapper := update (fun _ => none) [] (some 0)
  explicit := update (fun _ => none) BundleType.unit (some 0)
  required := update (fun _ => none) BundleType.unit (some 0)

section

variable (bundles : Bundles τ)

/-- Enter a slice under the next number. -/
def push (slice : ComponentSlice) : Bundles τ :=
  { bundles with
    infos := bundles.infos ++ [slice]
    mapper := update bundles.mapper slice.components (some bundles.infos.length) }

/-- The number of a slice, entering it if it is new. -/
def intern (slice : ComponentSlice) : BundleId × Bundles τ :=
  match bundles.mapper slice.components with
  | some id => (id, bundles)
  | none => (bundles.infos.length, bundles.push slice)

/-- `register_explicit`. -/
def registerExplicit [DecidableEq τ] (type : BundleType τ) (slice : ComponentSlice) :
    BundleId × Bundles τ :=
  let interned := bundles.intern slice
  (interned.1,
    { interned.2 with
      explicit := update interned.2.explicit type (some interned.1) })

/-- `register_required`. -/
def registerRequired [DecidableEq τ] (type : BundleType τ) (slice : ComponentSlice) :
    BundleId × Bundles τ :=
  let interned := bundles.intern slice
  (interned.1,
    { interned.2 with
      required := update interned.2.required type (some interned.1) })

/-- `register_dynamic_unique`: enters the slice without looking it up. -/
def registerDynamicUnique (slice : ComponentSlice) : BundleId × Bundles τ :=
  (bundles.infos.length, bundles.push slice)

/-- `get_id`. -/
def getId (list : List ComponentId) : Option BundleId :=
  bundles.mapper list

/-- A found number is the number of the list asked for. -/
def Sound : Prop :=
  IndexSound (bundles.infos.map ComponentSlice.components) bundles.mapper

end

variable {bundles : Bundles τ}

theorem Sound.push (hs : bundles.Sound) (slice : ComponentSlice) :
    (bundles.push slice).Sound := by
  have hp := IndexSound.push hs slice.components
  rw [length_map] at hp
  unfold Sound Bundles.push
  rw [map_append]
  exact hp

theorem sound_new [DecidableEq τ] : (new : Bundles τ).Sound :=
  (Interned.push interned_nil rfl).sound

/-- Interning: the numbers that exist stay, and the result is the number of a slice with
the given components. -/
theorem intern_spec (hs : bundles.Sound) (slice : ComponentSlice) :
    (bundles.intern slice).2.Sound ∧
      (∃ a, (bundles.intern slice).2.infos = bundles.infos ++ a ∧
        ∀ other ∈ a, other = slice) ∧
      ((bundles.intern slice).2.infos[(bundles.intern slice).1]?).map
        ComponentSlice.components = some slice.components ∧
      (bundles.intern slice).2.explicit = bundles.explicit ∧
      (bundles.intern slice).2.required = bundles.required := by
  unfold intern
  cases hk : bundles.mapper slice.components with
  | some id =>
    refine ⟨hs, ⟨[], by simp⟩, ?_, rfl, rfl⟩
    rw [← getElem?_map]
    exact hs _ id hk
  | none =>
    refine ⟨hs.push slice, ⟨[slice], rfl, by simp⟩, ?_, rfl, rfl⟩
    dsimp only [push]
    rw [getElem?_append_right le_rfl, Nat.sub_self]
    rfl

end Bundles

end Voker.Ecs
