import Mathlib.Data.Set.Finite.List

/-!
# Loader dependents

A loader may read other files than its own.  A server that watches for changes keeps, for each
path, the paths whose loaders read it; when a file changes it collects these, and what depends on
them in turn, to reload them.  As nothing keeps the relation free of cycles and the search does not
look at what it has collected, **the search does not end where a path depends on itself**.
-/

namespace Voker.Asset

open List Option Relation

section

variable {Path : Type} [DecidableEq Path] {loaderDependents : List (Path × Path)} {depth : ℕ}
  {path : Path} {pathsToReload result : List Path}

/-- What `process_asset_load` adds to `loader_dependents`, which is given by its pairs, of a path
and one that depends on it. -/
def trackDependents (loaderDependents : List (Path × Path)) (assetPath : Path)
    (loaderDependencies : List Path) : List (Path × Path) :=
  loaderDependencies.map (·, assetPath) ∪ loaderDependents

/-- The loop of `queue_ancestors`. -/
def queueEach (call : Path → List Path → Option (List Path)) :
    List Path → List Path → Option (List Path)
  | [], pathsToReload => some pathsToReload
  | dependent :: rest, pathsToReload =>
    (call dependent (pathsToReload.insert dependent)).bind (queueEach call rest)

/-- `queue_ancestors`, with a bound on the depth of its calls. -/
def queueAncestors (loaderDependents : List (Path × Path)) :
    ℕ → Path → List Path → Option (List Path)
  | 0, _ => fun _ => none
  | depth + 1, path => queueEach (queueAncestors loaderDependents depth)
      ((loaderDependents.filter (·.1 = path)).map (·.2))

/-- The first path depends on the second. -/
def Dependent (loaderDependents : List (Path × Path)) (dependent path : Path) : Prop :=
  (path, dependent) ∈ loaderDependents

theorem mem_dependents {d : Path} :
    d ∈ (loaderDependents.filter (·.1 = path)).map (·.2) ↔
      Dependent loaderDependents d path := by
  simp [Dependent]

/-- What is collected is what depends on the path, and then there is no way in a circle. -/
theorem queueAncestors_spec (ret :
      queueAncestors loaderDependents depth path pathsToReload = some result) :
    Acc (Dependent loaderDependents) path ∧ ∀ o, o ∈ result ↔
      o ∈ pathsToReload ∨ TransGen (Dependent loaderDependents) o path := by
  induction depth generalizing path pathsToReload result with
  | zero => cases ret
  | succ depth ih =>
    have hea : ∀ de, queueEach (queueAncestors loaderDependents depth) de
        pathsToReload = some result → (∀ d ∈ de,
          Acc (Dependent loaderDependents) d) ∧ ∀ o, o ∈ result ↔
        o ∈ pathsToReload ∨ ∃ d, ReflTransGen (Dependent loaderDependents)
          o d ∧ d ∈ de := by
      intro de
      clear ret
      induction de generalizing pathsToReload with
      | nil =>
        intro he
        cases he
        simp
      | cons d rest hm =>
        intro hlo
        obtain ⟨b, hca, hl⟩ := bind_eq_some_iff.mp hlo
        obtain ⟨he, hc⟩ := ih hca
        obtain ⟨ho, hg⟩ := hm hl
        refine ⟨forall_mem_cons.mpr ⟨he, ho⟩, fun o => ?_⟩
        rw [hg, hc, mem_insert_iff]
        simp only [mem_cons, and_or_left, exists_or, exists_eq_right]
        rw [reflTransGen_iff_eq_or_transGen, @eq_comm _ d]
        tauto
    obtain ⟨he, hc⟩ := hea _ ret
    refine ⟨.intro path fun d hd => he d (mem_dependents.mpr hd), ?_⟩
    intro o
    rw [hc, TransGen.tail'_iff]
    simp only [mem_dependents]

/-- Without a way in a circle the calls end, and some depth suffices. -/
theorem exists_queueAncestors (he : Acc (Dependent loaderDependents) path) :
    ∃ b, ∀ depth ≥ b, ∀ pathsToReload,
      (queueAncestors loaderDependents depth path pathsToReload).isSome := by
  induction he with
  | intro path _ ih =>
    have hea : ∀ de : List Path,
        (∀ d ∈ de, Dependent loaderDependents d path) →
        ∃ b, ∀ depth ≥ b, ∀ pathsToReload, (queueEach
          (queueAncestors loaderDependents depth) de pathsToReload).isSome := by
      intro de
      induction de with
      | nil => exact fun _ => ⟨0, fun _ _ _ => rfl⟩
      | cons d rest hm =>
        intro hde
        obtain ⟨fst, hca⟩ := ih d (hde d mem_cons_self)
        obtain ⟨snd, hl⟩ := hm fun o mem => hde o (mem_cons_of_mem _ mem)
        refine ⟨max fst snd, fun depth hd pathsToReload => ?_⟩
        obtain ⟨be, hc⟩ := isSome_iff_exists.mp
          (hca depth (le_of_max_le_left hd) (pathsToReload.insert d))
        rw [queueEach, hc]
        exact hl depth (le_of_max_le_right hd) be
    obtain ⟨b, hl⟩ := hea _ fun _ => mem_dependents.mp
    refine ⟨b + 1, fun depth hd pathsToReload => ?_⟩
    obtain ⟨depth, rfl⟩ := Nat.exists_eq_add_of_le' hd
    exact hl _ (Nat.le_add_left _ _) pathsToReload

omit [DecidableEq Path] in
/-- The relation is finite: it ends unless it leads in a circle. -/
theorem acc_dependent_iff : Acc (Dependent loaderDependents) path ↔
    ∀ o, ReflTransGen (Dependent loaderDependents) o path →
      ¬ TransGen (Dependent loaderDependents) o o := by
  constructor
  · intro he o hr hc
    have hre : Acc (Dependent loaderDependents) o := by
      rcases reflTransGen_iff_eq_or_transGen.mp hr with rfl | l
      · exact he
      · exact he.inv_of_transGen l
    clear hr
    induction hre.transGen with
    | intro o _ ih => exact ih o hc hc hre
  · intro hs
    let Above := {o // ReflTransGen (Dependent loaderDependents) o path}
    have hf : Finite Above := by
      refine (path :: loaderDependents.map (·.2)).finite_toSet.subset fun o hr => ?_
      rcases ReflTransGen.cases_head hr with hsa | ⟨l, hd, _⟩
      · exact mem_cons.mpr (.inl hsa)
      · exact mem_cons_of_mem _ (mem_map.mpr ⟨_, hd, rfl⟩)
    have wf : WellFounded fun one two : Above =>
        TransGen (Dependent loaderDependents) one.1 two.1 := by
      refine @Finite.wellFounded_of_trans_of_irrefl _ hf _ ⟨fun _ _ _ => .trans⟩ ⟨?_⟩
      exact fun one => hs one.1 one.2
    suffices he : ∀ one : Above, Acc (Dependent loaderDependents) one.1 from
      he ⟨path, .refl⟩
    intro one
    induction one using wf.induction with
    | _ one ih =>
      exact ⟨_, fun o hd => ih ⟨o, .head hd one.2⟩ (.single hd)⟩

/-- **The search ends and finds what depends on a path, unless the path, or something that depends
on it, depends on itself.** -/
theorem queueAncestors_exact_iff (loaderDependents : List (Path × Path)) (path : Path)
    (pathsToReload : List Path) : (∃ depth result,
      queueAncestors loaderDependents depth path pathsToReload = some result ∧ ∀ other,
        other ∈ result ↔ other ∈ pathsToReload ∨ TransGen (Dependent loaderDependents) other path) ↔
    ∀ other, ReflTransGen (Dependent loaderDependents) other path →
      ¬ TransGen (Dependent loaderDependents) other other := by
  rw [← acc_dependent_iff]
  constructor
  · rintro ⟨depth, result, hr, _⟩
    exact (queueAncestors_spec hr).1
  · intro he
    obtain ⟨b, hr⟩ := exists_queueAncestors he
    obtain ⟨result, hf⟩ := isSome_iff_exists.mp (hr b le_rfl pathsToReload)
    exact ⟨b, result, hf, (queueAncestors_spec hf).2⟩

end

/-- Two files whose loaders read each other: no depth is enough. -/
theorem queueAncestors_circle : ¬ ∃ depth result, queueAncestors
    (trackDependents (trackDependents [] "a" ["b"]) "b" ["a"]) depth "a" [] = some result := by
  rintro ⟨depth, result, hr⟩
  refine acc_dependent_iff.mp (queueAncestors_spec hr).1 "a" .refl ?_
  exact .head (show ("b", "a") ∈ _ by decide) (.single (show ("a", "b") ∈ _ by decide))

end Voker.Asset
