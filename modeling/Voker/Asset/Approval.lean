import Mathlib.Algebra.Ring.Int.Defs
import Voker.Foundation.Runs

/-!
# Paths that leave their source

Unless the server runs in `UnapprovedPathMode::Allow`, loads refuse a path that leaves the root
of its source.  The check stands in the entry points, not in front of the readers, and a reader
is also reached by `load_folder`, which lists a directory, and from inside a loader, by a nested
load that is carried out at once and by `read_asset_bytes`.  **These three do not check.**
-/

namespace Voker.Asset

open Foundation List Option

/-! ## Paths -/

/-- `Component`; `drive` is `Prefix`. -/
inductive Component where
  | drive
  | rootDir
  | curDir
  | parentDir
  | normal (name : String)
  deriving DecidableEq

/-- The path of an `AssetPath`. -/
abbrev AssetPath := List Component

/-- The loop of `is_unapproved`. -/
def isUnapprovedFrom : List String → AssetPath → Bool
  | _, [] => false
  | _, .drive :: _ => true
  | _, .rootDir :: _ => true
  | simplified, .curDir :: rest => isUnapprovedFrom simplified rest
  | [], .parentDir :: _ => true
  | _ :: simplified, .parentDir :: rest => isUnapprovedFrom simplified rest
  | simplified, .normal name :: rest => isUnapprovedFrom (name :: simplified) rest

/-- `is_unapproved`. -/
def isUnapproved (path : AssetPath) : Bool := isUnapprovedFrom [] path

/-- How far a component leads down. -/
def Component.down : Component → Int
  | .normal _ => 1
  | .parentDir => -1
  | _ => 0

/-- How deep below the root a path leads. -/
def depth (path : AssetPath) : Int := (path.map Component.down).sum

/-- The path starts anew elsewhere, or passes through a place above the root. -/
def Leaves (path : AssetPath) : Prop :=
  .drive ∈ path ∨ .rootDir ∈ path ∨ ∃ front, front <+: path ∧ depth front < 0

/-- The first component is passed on every way below the root. -/
theorem exists_front_cons {c : Component} {rest : AssetPath} {h : Int}
    (ha : 0 ≤ h) : (∃ f, f <+: c :: rest ∧ h + depth f < 0) ↔
      ∃ f, f <+: rest ∧ h + c.down + depth f < 0 := by
  constructor
  · rintro ⟨f, hi, hb⟩
    cases f with
    | nil =>
      simp only [depth, map_nil, sum_nil] at hb
      omega
    | cons one f =>
      obtain ⟨rfl, hl⟩ := cons_prefix_cons.mp hi
      exact ⟨f, hl, by simpa [depth, Int.add_assoc] using hb⟩
  · rintro ⟨f, hi, hb⟩
    exact ⟨c :: f, cons_prefix_cons.mpr ⟨rfl, hi⟩,
      by simpa [depth, Int.add_assoc] using hb⟩

theorem isUnapprovedFrom_iff (s : List String) (path : AssetPath) :
    isUnapprovedFrom s path = true ↔ .drive ∈ path ∨ .rootDir ∈ path ∨
      ∃ f, f <+: path ∧ s.length + depth f < 0 := by
  induction path generalizing s with
  | nil => simp [isUnapprovedFrom, depth]
  | cons c rest ih =>
    rw [exists_front_cons (Int.natCast_nonneg _)]
    cases c with
    | drive => simp [isUnapprovedFrom]
    | rootDir => simp [isUnapprovedFrom]
    | curDir => simp [isUnapprovedFrom, ih, Component.down]
    | normal name => simp [isUnapprovedFrom, ih, Component.down]
    | parentDir =>
      cases s with
      | nil =>
        simp only [isUnapprovedFrom, true_iff]
        exact .inr (.inr ⟨[], nil_prefix, by decide⟩)
      | cons name s =>
        simp [isUnapprovedFrom, ih, Component.down]

/-- **The check is exact.** -/
theorem isUnapproved_iff (path : AssetPath) : isUnapproved path = true ↔ Leaves path := by
  simpa [Leaves, isUnapproved] using isUnapprovedFrom_iff [] path

theorem leaves_nil : ¬ Leaves [] := (isUnapproved_iff []).not.mp (by decide)

/-- What is listed in a directory leaves the root if the directory does. -/
theorem leaves_append_normal (path : AssetPath) (name : String) :
    Leaves (path ++ [.normal name]) ↔ Leaves path := by
  have hs : ∀ s, isUnapprovedFrom s (path ++ [.normal name]) =
      isUnapprovedFrom s path := by
    intro s
    fun_induction isUnapprovedFrom s path <;> simp_all [isUnapprovedFrom]
  rw [← isUnapproved_iff, ← isUnapproved_iff, isUnapproved, hs, isUnapproved]

/-! ## Calls -/

/-- `UnapprovedPathMode`. -/
inductive UnapprovedPathMode where
  | allow
  | deny
  | forbid
  deriving DecidableEq

/-- A call of the server. -/
inductive Request where
  /-- `load`, `load_erased`, `load_untyped` and `load_untyped_async`. -/
  | load (path : AssetPath) (overrideUnapproved : Bool)
  | loadFolder (path : AssetPath)
  /-- A folder being loaded comes to the next entry of its directory. -/
  | entry (folder : ℕ) (name : String) (isDirectory : Bool)
  /-- `NestedLoadBuilder::load` and its like: from inside a loader, carried out later. -/
  | nestedLoad (loader : ℕ) (path : AssetPath) (overrideUnapproved : Bool)
  /-- `NestedLoadBuilder::load_value` and its like; they refuse a label. -/
  | loadValue (loader : ℕ) (path : AssetPath) (fromReader : Bool)
  | readAssetBytes (loader : ℕ) (path : AssetPath)

/-- The loaders at work, each with `should_load_dependencies`, the folders being loaded, and
the calls of reader methods so far; the flag marks those of a call that overrides `Deny`. -/
structure Loading where
  loaders : List Bool := []
  folders : List AssetPath := []
  reads : List (AssetPath × Bool) := []

namespace Loading

/-- `load_internal`: the reader is called and the loader set to work. -/
def load (mode : UnapprovedPathMode) (state : Loading) (path : AssetPath)
    (overrideUnapproved : Bool) : Loading :=
  let overrides := mode = .deny ∧ overrideUnapproved
  if path = [] ∨ isUnapproved path ∧ mode ≠ .allow ∧ ¬ overrides then state
  else { state with
    loaders := state.loaders ++ [true]
    reads := (path, overrides) :: state.reads }

/-- `load_folder_internal`, and what it does with a folder in the folder. -/
def loadFolder (state : Loading) (path : AssetPath) : Loading :=
  { state with
    folders := state.folders ++ [path]
    reads := (path, false) :: state.reads }

def step (mode : UnapprovedPathMode) (request : Request) (state : Loading) : Option Loading :=
  match request with
  | .load path overrideUnapproved => some (state.load mode path overrideUnapproved)
  | .loadFolder path => some (state.loadFolder path)
  | .entry folder name isDirectory =>
    state.folders[folder]?.map fun path =>
      let child := path ++ [.normal name]
      if isDirectory then state.loadFolder child
      else load mode { state with reads := (child, false) :: state.reads } child false
  | .nestedLoad loader path overrideUnapproved =>
    state.loaders[loader]?.map fun shouldLoadDependencies =>
      if shouldLoadDependencies then state.load mode path overrideUnapproved else state
  | .loadValue loader path fromReader =>
    state.loaders[loader]?.map fun shouldLoadDependencies =>
      if path = [] then state
      else { state with
        loaders := state.loaders ++ [shouldLoadDependencies]
        reads := if fromReader then state.reads else (path, false) :: state.reads }
  | .readAssetBytes loader path =>
    state.loaders[loader]?.map fun _ =>
      if path = [] then state else { state with reads := (path, false) :: state.reads }

/-- No reader was called with a path that leaves its source, but by calls that override. -/
def Confined (state : Loading) : Prop :=
  ∀ path, (path, false) ∈ state.reads → ¬ Leaves path

/-- The condition: what is not checked does not leave. -/
def Stays (request : Request) (_ _ : Loading) : Prop :=
  match request with
  | .loadFolder path | .readAssetBytes _ path | .loadValue _ path false => ¬ Leaves path
  | _ => True

variable {mode : UnapprovedPathMode} {request : Request} {state next : Loading} {path : AssetPath}

theorem confined_read {o : Bool} {l : List Bool} {f : List AssetPath}
    (hc : state.Confined) : Confined ⟨l, f, (path, o) :: state.reads⟩ ↔
      (o = false → ¬ Leaves path) := by
  constructor
  · rintro hl rfl
    exact hl path mem_cons_self
  · intro hs ot mem
    rcases mem_cons.mp mem with hsa | he
    · obtain ⟨rfl, rfl⟩ := Prod.mk.inj hsa
      exact hs rfl
    · exact hc ot he

theorem confined_load (hs : mode ≠ .allow) {ou : Bool}
    (hc : state.Confined) : (state.load mode path ou).Confined := by
  unfold load
  dsimp only
  split
  · exact hc
  · next hp =>
    refine (confined_read hc).mpr fun ho hl => hp (.inr ⟨?_, hs, ?_⟩)
    · exact (isUnapproved_iff path).mpr hl
    · exact of_decide_eq_false ho

/-- The folders being loaded were read. -/
def Listed (state : Loading) : Prop := ∀ path ∈ state.folders, (path, false) ∈ state.reads

theorem step_listed (hl : state.Listed) (hs : step mode request state = some next) :
    next.Listed := by
  cases request <;> grind [step, Listed, load, loadFolder]

/-- One call, exactly. -/
theorem step_confined (hst : mode ≠ .allow) (hl : state.Listed)
    (hc : state.Confined) (hs : step mode request state = some next) :
    next.Confined ↔ Stays request state next := by
  cases request with
  | load path ou =>
    cases hs
    exact iff_of_true (confined_load hst hc) trivial
  | loadFolder path =>
    cases hs
    exact (confined_read hc).trans (by simp [Stays])
  | entry f name isD =>
    obtain ⟨path, hf, rfl⟩ := map_eq_some_iff.mp hs
    have hin : ¬ Leaves (path ++ [.normal name]) := by
      rw [leaves_append_normal]
      exact hc path (hl path (mem_of_getElem? hf))
    refine iff_of_true ?_ trivial
    split
    · exact (confined_read hc).mpr fun _ => hin
    · exact confined_load hst ((confined_read hc).mpr fun _ => hin)
  | nestedLoad l path ou =>
    obtain ⟨d, hf, rfl⟩ := map_eq_some_iff.mp hs
    refine iff_of_true ?_ trivial
    split
    · exact confined_load hst hc
    · exact hc
  | loadValue l path fr =>
    obtain ⟨d, hf, rfl⟩ := map_eq_some_iff.mp hs
    split
    · next he => cases fr <;> simp [Stays, he, leaves_nil, hc]
    · cases fr with
      | true => exact iff_of_true hc trivial
      | false => exact (confined_read hc).trans (by simp [Stays])
  | readAssetBytes l path =>
    obtain ⟨d, hf, rfl⟩ := map_eq_some_iff.mp hs
    split
    · next he => simp [Stays, he, leaves_nil, hc]
    · exact (confined_read hc).trans (by simp [Stays])

/-- **Paths are confined as long as the unchecked calls name paths inside the source.** -/
theorem run_confined_iff (mode : UnapprovedPathMode) (strict : mode ≠ .allow)
    (requests : List Request) :
    Throughout (step mode) Confined requests {} ↔ EachStep (step mode) Stays requests {} :=
  throughout_iff_eachStep (fun _ _ _ => step_listed)
    (fun _ _ _ hl hc hs => step_confined strict hl hc hs)
    (fun _ hm => absurd hm not_mem_nil) fun _ hm => absurd hm not_mem_nil

theorem run_confined_iff_forbid :
    UnapprovedPathMode.forbid ≠ .allow ∧ Throughout (step .forbid) Confined
      [.load [.normal "a"] true, .readAssetBytes 0 [.normal "b"]] {} := by
  refine ⟨by decide, (run_confined_iff .forbid (by decide) _).mpr ?_⟩
  simp [EachStep, Stays, ← isUnapproved_iff]
  decide

/-- A folder above the root is listed even where such paths are forbidden. -/
theorem folder_leaves : ∃ state, run (step .forbid) [.loadFolder [.parentDir]] {} = some state ∧
    ¬ state.Confined :=
  ⟨_, rfl, fun hc => hc [.parentDir] mem_cons_self
    ((isUnapproved_iff _).mp rfl)⟩

end Loading

end Voker.Asset
