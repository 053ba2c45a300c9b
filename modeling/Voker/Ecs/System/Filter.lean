import Voker.Ecs.Component.Components

/-!
# Filter descriptors

A query says which archetypes it visits by a disjunction of descriptors, each a set of
components an archetype must have and a set it must not have.  `FilterParamBuilder`
collects the two sets and `build` turns them into a `FilterParam`, both sets sorted and
without a common component.

**Two descriptors are disjoint exactly if no set of components satisfies both**: the
check for a component that one requires and the other forbids is complete as well as
sound, since a descriptor never contradicts itself.
-/

namespace Voker.Ecs

open Foundation List

/-- `FilterParamBuilder`: the two ordered sets, as sorted lists. -/
structure FilterParamBuilder where
  withs : List ComponentId
  withouts : List ComponentId
  withsSorted : withs.SortedLT
  withoutsSorted : withouts.SortedLT
  deriving DecidableEq

/-- `FilterParam`: the required components, then the forbidden ones, in one slice. -/
structure FilterParam where
  withLen : ℕ
  params : List ComponentId
  withSorted : (params.take withLen).SortedLT
  withoutSorted : (params.drop withLen).SortedLT
  consistent : ∀ id ∈ params.take withLen, id ∉ params.drop withLen
  deriving DecidableEq

namespace FilterParam

/-- `with`. -/
def withs (param : FilterParam) : List ComponentId := param.params.take param.withLen

/-- `without`. -/
def withouts (param : FilterParam) : List ComponentId := param.params.drop param.withLen

/-- `is_disjoint`. -/
def isDisjoint (param other : FilterParam) : Bool :=
  param.withouts.any (fun id => other.withs.contains id) ||
    other.withouts.any (fun id => param.withs.contains id)

/-- The meaning of a descriptor for an archetype with the components `arche`. -/
def Matches (param : FilterParam) (arche : Set ComponentId) : Prop :=
  (∀ id ∈ param.withs, id ∈ arche) ∧ ∀ id ∈ param.withouts, id ∉ arche

variable {param other : FilterParam}

theorem isDisjoint_iff : param.isDisjoint other = true ↔
    ∃ id, (id ∈ param.withouts ∧ id ∈ other.withs) ∨ (id ∈ other.withouts ∧ id ∈ param.withs) := by
  simp only [isDisjoint, Bool.or_eq_true, List.any_eq_true, contains_iff_mem, exists_or]

/-- **Disjoint descriptors have no archetype in common.** -/
theorem isDisjoint_eq_false {arche : Set ComponentId} (hl : param.Matches arche)
    (hri : other.Matches arche) : param.isDisjoint other = false := by
  refine Bool.eq_false_iff.mpr fun hd => ?_
  obtain ⟨id, ⟨hf, hr⟩ | ⟨hf, hr⟩⟩ := isDisjoint_iff.mp hd
  · exact hl.2 id hf (hri.1 id hr)
  · exact hri.2 id hf (hl.1 id hr)

/-- **Descriptors that are not disjoint have an archetype in common**, the one with just
the components they require. -/
theorem exists_matches_of_not_isDisjoint (ho : param.isDisjoint other = false) :
    ∃ arche, param.Matches arche ∧ other.Matches arche := by
  have hc : ∀ id, ¬ ((id ∈ param.withouts ∧ id ∈ other.withs) ∨
      (id ∈ other.withouts ∧ id ∈ param.withs)) := fun id hcl => by
    have hd := isDisjoint_iff.mpr ⟨id, hcl⟩
    simp [hd] at ho
  refine ⟨{id | id ∈ param.withs ∨ id ∈ other.withs}, ⟨fun id hr => .inl hr, ?_⟩,
    fun id hr => .inr hr, ?_⟩
  · rintro id hf (hr | hr)
    · exact param.consistent id hr hf
    · exact hc id (.inl ⟨hf, hr⟩)
  · rintro id hf (hr | hr)
    · exact hc id (.inr ⟨hf, hr⟩)
    · exact other.consistent id hr hf

/-- The descriptor of `With<T>`. -/
def requiring (id : ComponentId) : FilterParam where
  withLen := 1
  params := [id]
  withSorted := (pairwise_singleton _ _).sortedLT
  withoutSorted := List.Pairwise.nil.sortedLT
  consistent := fun _ _ => not_mem_nil

@[simp]
theorem requiring_matches {id : ComponentId} {arche : Set ComponentId} :
    (requiring id).Matches arche ↔ id ∈ arche := by
  simp [Matches, withs, withouts, requiring]

end FilterParam

namespace FilterParamBuilder

/-- `new`. -/
def new : FilterParamBuilder := ⟨[], [], List.Pairwise.nil.sortedLT, List.Pairwise.nil.sortedLT⟩

/-- `with`: insertion into the ordered set of required components. -/
def addWith (builder : FilterParamBuilder) (id : ComponentId) : FilterParamBuilder :=
  { builder with
    withs := sortDedup (id :: builder.withs)
    withsSorted := sortedLT_sortDedup _ }

/-- `without`: insertion into the ordered set of forbidden components. -/
def addWithout (builder : FilterParamBuilder) (id : ComponentId) : FilterParamBuilder :=
  { builder with
    withouts := sortDedup (id :: builder.withouts)
    withoutsSorted := sortedLT_sortDedup _ }

/-- `BTreeSet::is_disjoint`. -/
def setsDisjoint (first second : List ComponentId) : Bool :=
  first.all fun id => !second.contains id

/-- `merge`. -/
def merge (builder other : FilterParamBuilder) : Option FilterParamBuilder :=
  if setsDisjoint builder.withs other.withouts && setsDisjoint other.withs builder.withouts then
    some ⟨sortDedup (builder.withs ++ other.withs), sortDedup (builder.withouts ++ other.withouts),
      sortedLT_sortDedup _, sortedLT_sortDedup _⟩
  else
    none

/-- The meaning of a builder for an archetype with the components `arche`. -/
def Matches (builder : FilterParamBuilder) (arche : Set ComponentId) : Prop :=
  (∀ id ∈ builder.withs, id ∈ arche) ∧ ∀ id ∈ builder.withouts, id ∉ arche

theorem setsDisjoint_iff {one two : List ComponentId} :
    setsDisjoint one two = true ↔ ∀ id ∈ one, id ∉ two := by
  simp [setsDisjoint]

/-- `build`: a builder that contradicts itself gives no descriptor. -/
def build (builder : FilterParamBuilder) : Option FilterParam :=
  if consistent : setsDisjoint builder.withs builder.withouts = true then
    some {
      withLen := builder.withs.length
      params := builder.withs ++ builder.withouts
      withSorted := by rw [take_left]; exact builder.withsSorted
      withoutSorted := by rw [drop_left]; exact builder.withoutsSorted
      consistent := by
        rw [take_left, drop_left]
        exact setsDisjoint_iff.mp consistent }
  else
    none

variable {builder : FilterParamBuilder} {arche : Set ComponentId}

/-- A built descriptor has the builder's two sets. -/
theorem build_eq_some {param : FilterParam} (hb : builder.build = some param) :
    param.withs = builder.withs ∧ param.withouts = builder.withouts := by
  unfold build at hb
  split at hb
  · cases hb
    exact ⟨take_left, drop_left⟩
  · cases hb

/-- Whether a builder gives a descriptor that an archetype satisfies is whether the
archetype satisfies the builder. -/
theorem build_matches :
    (∃ param, builder.build = some param ∧ param.Matches arche) ↔ builder.Matches arche := by
  constructor
  · rintro ⟨param, hb, hf⟩
    obtain ⟨hwi, hw⟩ := build_eq_some hb
    unfold FilterParam.Matches at hf
    rwa [hwi, hw] at hf
  · intro hf
    have con : setsDisjoint builder.withs builder.withouts = true :=
      setsDisjoint_iff.mpr fun id hr hfo => hf.2 id hfo (hf.1 id hr)
    have hb : ∃ param, builder.build = some param := by
      unfold build
      rw [dif_pos con]
      exact ⟨_, rfl⟩
    obtain ⟨param, hb⟩ := hb
    obtain ⟨hwi, hw⟩ := build_eq_some hb
    refine ⟨param, hb, ?_⟩
    unfold FilterParam.Matches
    rwa [hwi, hw]

@[simp]
theorem matches_new (arche : Set ComponentId) : new.Matches arche :=
  ⟨fun _ mem => absurd mem not_mem_nil, fun _ mem => absurd mem not_mem_nil⟩

@[simp]
theorem matches_addWith {id : ComponentId} :
    (builder.addWith id).Matches arche ↔ builder.Matches arche ∧ id ∈ arche := by
  simp only [Matches, addWith, mem_sortDedup, forall_mem_cons]
  tauto

@[simp]
theorem matches_addWithout {id : ComponentId} :
    (builder.addWithout id).Matches arche ↔ builder.Matches arche ∧ id ∉ arche := by
  simp only [Matches, addWithout, mem_sortDedup, forall_mem_cons]
  tauto

/-- **Merging is conjunction**: where it gives nothing, no archetype satisfies both. -/
theorem merge_matches {other : FilterParamBuilder} :
    (∃ m, builder.merge other = some m ∧ m.Matches arche) ↔
      builder.Matches arche ∧ other.Matches arche := by
  unfold merge
  split
  · simp only [Option.some.injEq, exists_eq_left', Matches, mem_sortDedup, mem_append,
      or_imp, forall_and]
    tauto
  · next hc =>
    rw [Bool.and_eq_true, setsDisjoint_iff, setsDisjoint_iff] at hc
    refine iff_of_false ?_ fun hb => hc ?_
    · rintro ⟨m, he, -⟩
      cases he
    · exact ⟨fun id hr hf => hb.2.2 id hf (hb.1.1 id hr),
        fun id hr hf => hb.1.2 id hf (hb.2.1 id hr)⟩

end FilterParamBuilder

end Voker.Ecs
