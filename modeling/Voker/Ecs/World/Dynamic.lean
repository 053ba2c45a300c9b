import Voker.Ecs.World.Canonical

/-!
# Bundles of numbers

`register_dynamic_bundle` takes a list of component numbers.  It looks the list up as it is,
and enters its canonical form, sorted and without repetitions, if it does not find it.  So **a
list that is not in canonical form is never found**, and each call with one makes a new bundle
of the same components.  Calls agree as long as only the first one for a set of components
gives a list in another form.
-/

namespace Voker.Ecs

open Foundation List Option Function Components ComponentSlice

variable {τ V : Type} {P : Program τ V}

namespace Components

variable {cs : Components τ} {idents others : List ComponentId}

/-- The slice that is entered for a list. -/
def canonical (P : Program τ V) (components : Components τ) (idents : List ComponentId) :
    ComponentSlice :=
  .ofParts (sortDedup (idents.filter fun id => components.storage P id = some .dense))
    (sortDedup (idents.filter fun id => components.storage P id = some .sparse))

theorem split_canonical (cs : Components τ) (idents : List ComponentId) :
    ComponentSlice.Split P cs (cs.canonical P idents) :=
  split_ofParts (by simp) (by simp)

theorem mem_canonical (hin : ∀ id ∈ idents, id < cs.infos.length) (id : ComponentId) :
    id ∈ (cs.canonical P idents).components ↔ id ∈ idents := by
  rw [canonical, mem_components, denseComponents_ofParts,
    sparseComponents_ofParts, mem_sortDedup, mem_sortDedup, mem_filter, mem_filter, ← and_or_left]
  refine and_iff_left_of_imp fun mem => ?_
  simpa using storage_cases P (hin id mem)

theorem canonical_congr (hsa : ∀ id, id ∈ idents ↔ id ∈ others) :
    cs.canonical P idents = cs.canonical P others := by
  have hs : ∀ test : ComponentId → Bool,
      sortDedup (idents.filter test) = sortDedup (others.filter test) := fun test =>
    (sortedLT_sortDedup _).eq_of_mem_iff (sortedLT_sortDedup _) fun id => by
      rw [mem_sortDedup, mem_sortDedup, mem_filter, mem_filter, hsa]
  rw [canonical, hs, hs, canonical]

end Components

namespace World

variable {world after : World τ V} {idents : List ComponentId} {id : BundleId}

/-- What a call does.  A list in canonical form has the number it had. -/
structure Enters (P : Program τ V) (world after : World τ V) (idents : List ComponentId)
    (id : BundleId) : Prop where
  registered : Registered P after
  grew : Grew world after
  inside : ∀ component ∈ idents, component < world.components.infos.length
  components : after.components = world.components
  found : after.bundles.getId (world.components.canonical P idents).components = some id
  others : ∀ key ≠ (world.components.canonical P idents).components,
    after.bundles.getId key = world.bundles.getId key
  number : id = if idents = (world.components.canonical P idents).components then
    (world.bundles.getId idents).getD world.bundles.infos.length else world.bundles.infos.length

/-- The list of a bundle is in canonical form. -/
theorem Registered.eq_canonical (reg : Registered P world)
    (hk : world.bundles.getId idents = some id) :
    (∀ c ∈ idents, c < world.components.infos.length) ∧
      idents = (world.components.canonical P idents).components := by
  have hf := reg.bundles idents id hk
  rw [getElem?_map] at hf
  obtain ⟨s, hst, rfl⟩ := map_eq_some_iff.mp hf
  have hs := reg.bundleSplit s (mem_of_getElem? hst)
  refine ⟨fun c => hs.registered, hs.components_eq (world.components.split_canonical _)
    fun c => (mem_canonical (fun _ => hs.registered) c).symm⟩

/-- `register_dynamic_bundle` finds a list in canonical form, and enters any other. -/
theorem Registered.registerDynamicBundle (reg : Registered P world)
    (out : world.registerDynamicBundle P idents = some (id, after)) :
    Enters P world after idents id := by
  unfold World.registerDynamicBundle at out
  cases hk : world.bundles.getId idents with
  | some o =>
    rw [hk] at out
    obtain ⟨rfl, rfl⟩ := Prod.mk.inj (some.inj out)
    obtain ⟨hin, hs⟩ := reg.eq_canonical hk
    exact ⟨reg, .refl world, hin, rfl, hs ▸ hk, fun _ _ => rfl, by
      rw [if_pos hs, hk, getD_some]⟩
  | none =>
    rw [hk] at out
    dsimp only at out
    split at out
    · next hak =>
      obtain ⟨rfl, rfl⟩ := Prod.mk.inj (some.inj out)
      have hg : world.bundles.infos <+:
          (world.bundles.push (world.components.canonical P idents)).infos := prefix_append _ _
      obtain ⟨hf, hgr⟩ := reg.ofBundles (reg.bundles.push _) hg
        (forall_mem_append.mpr ⟨reg.bundleSplit,
          forall_mem_singleton.mpr (world.components.split_canonical idents)⟩)
        (fun type n he => Lists.grow (reg.explicit type n he) hg)
        (fun type n he => Lists.grow (reg.required type n he) hg)
      exact ⟨hf, hgr, fun c mem => of_decide_eq_true
        (all_eq_true.mp hak c mem), rfl, update_self _ _ _,
        fun key ne => update_of_ne ne _ _, by rw [hk, getD_none, ite_self]; rfl⟩
    · cases out

/-! ## Calls one after the other -/

/-- Calls, with the numbers they return.  Nothing else is registered between them: a bundle
type whose components are the same would find or enter the canonical list.  The debug assertion
of `register_dynamic_unique`, that this list is not there yet, is left out; with it, a call that
makes a second bundle of the same components panics instead. -/
def registerDynamicBundles (P : Program τ V) : List (List ComponentId) → World τ V →
    Option (List (List ComponentId × BundleId) × World τ V)
  | [], world => some ([], world)
  | idents :: rest, world =>
    (world.registerDynamicBundle P idents).bind fun made =>
      (registerDynamicBundles P rest made.2).map fun more => ((idents, made.1) :: more.1, more.2)

variable {calls : List (List ComponentId)} {log : List (List ComponentId × BundleId)}

theorem registerDynamicBundles_cons
    (ran : registerDynamicBundles P (idents :: calls) world = some (log, after)) :
    ∃ id mid rest, world.registerDynamicBundle P idents = some (id, mid) ∧
      registerDynamicBundles P calls mid = some (rest, after) ∧ log = (idents, id) :: rest := by
  obtain ⟨made, hca, hc⟩ := bind_eq_some_iff.mp ran
  obtain ⟨rest, hw, hs⟩ := map_eq_some_iff.mp hc
  obtain ⟨rfl, rfl⟩ := Prod.mk.inj hs
  exact ⟨made.1, made.2, rest.1, hca, hw, rfl⟩

/-- The numbers returned are those of bundles of the right components. -/
theorem Registered.lists_calls (reg : Registered P world)
    (ran : registerDynamicBundles P calls world = some (log, after)) :
    world.bundles.infos <+: after.bundles.infos ∧ ∀ e ∈ log, ∃ s,
      after.bundles.infos[e.2]? = some s ∧ s.components.Nodup ∧
        ∀ c, c ∈ s.components ↔ c ∈ e.1 := by
  induction calls generalizing world log with
  | nil =>
    obtain ⟨rfl, rfl⟩ := Prod.mk.inj (some.inj ran)
    exact ⟨prefix_rfl, forall_mem_nil _⟩
  | cons idents calls ih =>
    obtain ⟨id, mid, rest, hc, hw, rfl⟩ := registerDynamicBundles_cons ran
    have he := reg.registerDynamicBundle hc
    obtain ⟨hg, hl⟩ := ih he.registered hw
    refine ⟨he.grew.bundles.trans hg, forall_mem_cons.mpr ⟨?_, hl⟩⟩
    have hst := he.registered.bundles _ id he.found
    rw [getElem?_map] at hst
    obtain ⟨s, hst, hs⟩ := map_eq_some_iff.mp hst
    refine ⟨s, getElem?_grow hg hst, ?_⟩
    rw [hs]
    exact ⟨(world.components.split_canonical idents).nodup, mem_canonical he.inside⟩

/-- Later calls for the set of a list return its number exactly when they are in canonical
form. -/
theorem Registered.later_calls (reg : Registered P world)
    (hin : ∀ c ∈ idents, c < world.components.infos.length)
    (hk : world.bundles.getId (world.components.canonical P idents).components = some id)
    (ran : registerDynamicBundles P calls world = some (log, after)) :
    (∀ e ∈ log, (∀ c, c ∈ idents ↔ c ∈ e.1) → id = e.2) ↔
    ∀ e ∈ log, (∀ c, c ∈ idents ↔ c ∈ e.1) →
      e.1 = (world.components.canonical P e.1).components := by
  induction calls generalizing world log with
  | nil =>
    obtain ⟨rfl, rfl⟩ := Prod.mk.inj (some.inj ran)
    exact iff_of_true (forall_mem_nil _) (forall_mem_nil _)
  | cons next calls ih =>
    obtain ⟨o, mid, rest, hc, hw, rfl⟩ := registerDynamicBundles_cons ran
    have he := reg.registerDynamicBundle hc
    have ht := fun hst => ih he.registered (he.components ▸ hin)
      (he.components ▸ hst) hw
    rw [he.components] at ht
    rw [forall_mem_cons, forall_mem_cons]
    by_cases hs : ∀ c, c ∈ idents ↔ c ∈ next
    · have key : world.components.canonical P idents = world.components.canonical P next :=
        canonical_congr hs
      have n := he.number
      by_cases hp : next = (world.components.canonical P next).components
      · -- the list is found, with the number it had
        rw [if_pos hp, hp, ← key, hk, getD_some] at n
        subst n
        refine and_congr (iff_of_true (fun _ => rfl) fun _ => hp) (ht ?_)
        rw [key]
        exact he.found
      · -- the list is entered once more, under a number that is new
        rw [if_neg hp] at n
        have hb := (List.getElem?_eq_some_iff.mp (reg.bundles _ id hk)).1
        rw [length_map] at hb
        exact iff_of_false (fun all => (all.1 hs ▸ n ▸ hb).ne rfl)
          fun all => hp (all.1 hs)
    · have ne : (world.components.canonical P idents).components ≠
          (world.components.canonical P next).components := fun heq => hs fun c => by
        rw [← mem_canonical (P := P) hin, heq, mem_canonical he.inside]
      refine and_congr (iff_of_true (absurd · hs) (absurd · hs)) (ht ?_)
      rw [he.others _ ne]
      exact hk

/-- **Calls for one set of components return one number exactly when every call but the first
for a set is in canonical form**; every number is that of a bundle of the right components. -/
theorem registerDynamicBundles_agree_iff (registered : Registered P world)
    (ran : registerDynamicBundles P calls world = some (log, after)) :
    (∀ entry ∈ log, ∃ slice, after.bundles.infos[entry.2]? = some slice ∧
      slice.components.Nodup ∧ ∀ component, component ∈ slice.components ↔ component ∈ entry.1) ∧
    (log.Pairwise (fun x y =>
        (∀ component, component ∈ x.1 ↔ component ∈ y.1) → x.2 = y.2) ↔
      log.Pairwise fun x y => (∀ component, component ∈ x.1 ↔ component ∈ y.1) →
        y.1 = (world.components.canonical P y.1).components) := by
  refine ⟨(registered.lists_calls ran).2, ?_⟩
  induction calls generalizing world log with
  | nil =>
    obtain ⟨rfl, rfl⟩ := Prod.mk.inj (some.inj ran)
    exact iff_of_true .nil .nil
  | cons idents calls ih =>
    obtain ⟨id, m, rest, hc, hw, rfl⟩ := registerDynamicBundles_cons ran
    have he := registered.registerDynamicBundle hc
    have rest := ih he.registered hw
    have hl := he.registered.later_calls (he.components ▸ he.inside)
      (he.components ▸ he.found) hw
    rw [he.components] at rest hl
    rw [pairwise_cons, pairwise_cons]
    exact and_congr hl rest

/-- Two dense components. -/
def bothDense : Program Bool ℕ := Program.numbers (fun _ => .dense) (fun _ => []) false

/-- A world that has numbered them. -/
def numbered : World Bool ℕ :=
  { World.new with
    components := ((Components.new.register bothDense false).2.register bothDense true).2 }

theorem registered_numbered : Registered bothDense numbered :=
  have one := ((registered_new bothDense).ofComponents (ComponentCollector.registers_register
    bothDense Components.consistent_new false)).1
  (one.ofComponents (ComponentCollector.registers_register bothDense one.components true)).1

/-- The second list is in canonical form. -/
theorem registerDynamicBundles_agree_iff_sorted : ∃ made,
    registerDynamicBundles bothDense [[1, 0], [0, 1]] numbered = some made ∧
      made.1.Pairwise fun x y => (∀ component, component ∈ x.1 ↔ component ∈ y.1) → x.2 = y.2 := by
  refine @exists_of_any _ _ (·.1 = [([1, 0], 1), ([0, 1], 1)]) _ _ (by decide +kernel) ?_
  intro made ran log
  refine (registerDynamicBundles_agree_iff registered_numbered ran).2.mpr ?_
  rw [log]
  refine .cons (forall_mem_singleton.mpr fun _ => ?_) (pairwise_singleton _ _)
  decide

/-- The second list is not, and makes a second bundle of the same components. -/
theorem registerDynamicBundles_unsorted : ∃ made,
    registerDynamicBundles bothDense [[0, 1], [1, 0]] numbered = some made ∧
      made.1 = [([0, 1], 1), ([1, 0], 2)] ∧
      made.2.bundles.infos = [⟨[], 0⟩, ⟨[0, 1], 2⟩, ⟨[0, 1], 2⟩] :=
  @exists_of_any _ _ _ _ _ (by decide +kernel) fun _ _ hs => hs

end World

end Voker.Ecs
