import Voker.Asset.Approval

/-!
# Assets in memory

`Dir` is a tree of directories.  `get_dir` follows a path through it; `resolve_dir` also makes the
directories that are missing.  **`remove_dir` uses the second one**: on the way to a directory
that does not exist it makes those above.

The tree is kept flat.  A directory is the names that lead to it, the last one first.
-/

namespace Voker.Asset

open List Option

/-- The two maps of files in a directory. -/
inductive FileKind where
  | asset
  | metadata
  deriving DecidableEq

/-- `Dir`, from its root: the other directories, and the files with their kind, directory and
name. -/
structure MemoryDir (V : Type) where
  dirs : List (List String)
  files : List ((FileKind × List String × String) × V)
  deriving DecidableEq

/-- `Path::parent`. -/
def parent (path : AssetPath) : Option AssetPath :=
  match path.getLast? with
  | some (.normal _) | some .curDir | some .parentDir => some path.dropLast
  | _ => none

/-- `Path::file_name`. -/
def fileName (path : AssetPath) : Option String :=
  match path.getLast? with
  | some (.normal name) => some name
  | _ => none

/-- What an operation reports. -/
inductive Report where
  | ok
  | notFound
  | invalidFilename
  | directoryNotEmpty
  deriving DecidableEq

variable {V : Type}

namespace MemoryDir

variable (self : MemoryDir V)

/-- `dirs.entry(name).or_insert_with(..)`. -/
def make (dir : List String) : MemoryDir V :=
  if dir ∈ self.dirs then self else { self with dirs := dir :: self.dirs }

/-- `resolve_dir`, from a directory on. -/
def resolveDir (self : MemoryDir V) (dir : List String) : AssetPath → List String × MemoryDir V
  | [] => (dir, self)
  | .normal name :: rest => (self.make (name :: dir)).resolveDir (name :: dir) rest
  | .parentDir :: rest => self.resolveDir dir.tail rest
  | .rootDir :: rest => self.resolveDir [] rest
  | .curDir :: rest | .drive :: rest => self.resolveDir dir rest

/-- `get_dir`, from a directory on.  Nothing is ever put on its stack of parents. -/
def getDir (dir : List String) : AssetPath → Option (List String)
  | [] => some dir
  | .normal name :: rest => if name :: dir ∈ self.dirs then getDir (name :: dir) rest else none
  | .rootDir :: rest => getDir [] rest
  | .curDir :: rest => getDir dir rest
  | .parentDir :: _ | .drive :: _ => none

/-- The directory of a path, looked up. -/
def lookUp (path : AssetPath) : Option (List String) :=
  ((parent path).map (self.getDir [])).getD (some [])

/-- The directory of a path, made where it is missing. -/
def makeAbove (path : AssetPath) : List String × MemoryDir V :=
  ((parent path).map (self.resolveDir [])).getD ([], self)

/-- A file of a directory is taken out. -/
def without (key : FileKind × List String × String) : MemoryDir V :=
  { self with files := self.files.filter (·.1 ≠ key) }

variable (kind : FileKind) (path : AssetPath)

/-- `get_asset` and `get_meta`. -/
def getFile : Option V := do
  let dir ← self.lookUp path
  let name ← fileName path
  self.files.lookup (kind, dir, name)

/-- `insert_asset` and `insert_meta`; `none` is a panic. -/
def insertFile (value : V) : Option (MemoryDir V) :=
  let (dir, made) := self.makeAbove path
  (fileName path).map fun name =>
    let key := (kind, dir, name)
    { made with files := (key, value) :: (made.without key).files }

/-- `remove_asset` and `remove_meta`. -/
def removeFile : Option V × MemoryDir V :=
  match self.lookUp path, fileName path with
  | some dir, some name =>
    (self.files.lookup (kind, dir, name), self.without (kind, dir, name))
  | _, _ => (none, self)

/-- `remove_dir`; returns whether there was one. -/
def removeDir : Bool × MemoryDir V :=
  let above := self.makeAbove path
  match fileName path with
  | some name =>
    let dir := name :: above.1
    if dir ∈ above.2.dirs then
      (true, ⟨above.2.dirs.filter (¬ dir <:+ ·), above.2.files.filter (¬ dir <:+ ·.1.2.1)⟩)
    else (false, above.2)
  | none => (false, above.2)

/-- `MemoryAssetWriter::remove` and `remove_meta`. -/
def remove : Option (Report × MemoryDir V) :=
  let removed := self.removeFile kind path
  some (if removed.1.isNone then .notFound else .ok, removed.2)

/-- `rename` and `rename_meta`; `none` is a panic. -/
def rename (oldPath newPath : AssetPath) : Option (Report × MemoryDir V) :=
  if (fileName newPath).isNone then some (.invalidFilename, self)
  else
    match self.getFile kind oldPath with
    | none => some (.notFound, self)
    | some value =>
      if oldPath = newPath then some (.ok, self)
      else (self.insertFile kind newPath value).map fun made =>
        (.ok, (made.removeFile kind oldPath).2)

/-- `remove_directory`. -/
def removeDirectory : Option (Report × MemoryDir V) :=
  let removed := self.removeDir path
  some (if removed.1 then .ok else .notFound, removed.2)

/-- `remove_empty_directory`. -/
def removeEmptyDirectory : Option (Report × MemoryDir V) :=
  match self.getDir [] path with
  | none => some (.notFound, self)
  | some dir =>
    if self.files.any (·.1.2.1 = dir) || self.dirs.any fun inner => inner ≠ [] ∧ inner.tail = dir
    then some (.directoryNotEmpty, self)
    else some (.ok, (self.removeDir path).2)

/-! ## What is not found -/

/-- All directories that a path leads through exist. -/
def Passes (dir : List String) : AssetPath → Prop
  | [] => True
  | .normal name :: rest => name :: dir ∈ self.dirs ∧ Passes (name :: dir) rest
  | .parentDir :: rest => Passes dir.tail rest
  | .rootDir :: rest => Passes [] rest
  | .curDir :: rest | .drive :: rest => Passes dir rest

theorem length_resolveDir (dir : List String) :
    self.dirs.length ≤ (self.resolveDir dir path).2.dirs.length := by
  fun_induction resolveDir self dir path with
  | case1 => exact Nat.le_refl _
  | case2 self dir name rest ih =>
    refine Nat.le_trans ?_ ih
    unfold make
    split
    · exact Nat.le_refl _
    · exact Nat.le_succ _
  | _ => assumption

/-- Nothing is made exactly if nothing is missing. -/
theorem resolveDir_eq_self_iff (dir : List String) :
    (self.resolveDir dir path).2 = self ↔ self.Passes dir path := by
  induction path generalizing dir with
  | nil => exact iff_of_true rfl trivial
  | cons c rest ih =>
    cases c with
    | normal name =>
      by_cases exists_ : name :: dir ∈ self.dirs
      · rw [resolveDir, make, if_pos exists_, ih]
        exact (and_iff_right exists_).symm
      · refine iff_of_false (fun hs => ?_) fun hp => exists_ hp.1
        have hg := length_resolveDir (self.make (name :: dir)) rest (name :: dir)
        rw [resolveDir] at hs
        rw [hs, make, if_neg exists_] at hg
        exact Nat.not_succ_le_self _ hg
    | _ => exact ih _

/-- What is not there is not removed. -/
theorem removeFile_of_isNone (ha : (self.removeFile kind path).1.isNone) :
    (self.removeFile kind path).2 = self := by
  unfold removeFile at ha ⊢
  split
  · next dir name hf hn =>
    rw [hf, hn] at ha
    have ho : self.files.filter (·.1 ≠ (kind, dir, name)) = self.files := by
      refine filter_eq_self.mpr fun file mem => ?_
      have hd := lookup_eq_none_iff.mp (isNone_iff_eq_none.mp ha) file mem
      exact decide_eq_true fun hs => beq_eq_false_iff_ne.mp (by simpa using hd) hs.symm
    unfold without
    rw [ho]
  · rfl

/-- What is not there is not removed, but the way to it is made. -/
theorem removeDir_of_false (ha : (self.removeDir path).1 = false) :
    (self.removeDir path).2 = (self.makeAbove path).2 := by
  unfold removeDir at ha ⊢
  split
  · next name hn =>
    simp only [hn] at ha ⊢
    split at ha
    · cases ha
    · next hm => rw [if_neg hm]
  · rfl

theorem makeAbove_eq_self_iff : (self.makeAbove path).2 = self ↔
    ∀ a, parent path = some a → self.Passes [] a := by
  unfold makeAbove
  cases parent path with
  | none => simp
  | some a => simp [resolveDir_eq_self_iff]

/-- **What reports `NotFound` changes nothing, except that `remove_directory` makes the directories
above the one it does not find.**  So a `remove_directory` that reports `NotFound` leaves the tree
alone exactly if nothing was missing above its path. -/
theorem notFound_unchanged_iff (newPath : AssetPath) :
    (∀ after, self.remove kind path = some (.notFound, after) → after = self) ∧
    (∀ after, self.rename kind path newPath = some (.notFound, after) → after = self) ∧
    (∀ after, self.removeEmptyDirectory path = some (.notFound, after) → after = self) ∧
    ∀ after, self.removeDirectory path = some (.notFound, after) →
      (after = self ↔ ∀ above, parent path = some above → self.Passes [] above) := by
  refine ⟨fun after hr => ?_, fun after hre => ?_, fun after hr => ?_, fun after hr => ?_⟩
  · change some (if (self.removeFile kind path).1.isNone then _ else _, _) = _ at hr
    split at hr
    · next ha =>
      cases hr
      exact self.removeFile_of_isNone kind path ha
    · cases hr
  · unfold rename at hre
    split at hre
    · cases hre
    · split at hre
      · cases hre
        rfl
      · split at hre
        · cases hre
        · obtain ⟨made, -, hs⟩ := map_eq_some_iff.mp hre
          cases hs
  · unfold removeEmptyDirectory at hr
    split at hr
    · cases hr
      rfl
    · split at hr <;> cases hr
  · change some (if (self.removeDir path).1 then _ else _, _) = _ at hr
    split at hr
    · cases hr
    · next ha =>
      cases hr
      rw [self.removeDir_of_false path (eq_false_of_ne_true ha)]
      exact self.makeAbove_eq_self_iff path

end MemoryDir

/-- In an empty tree, `a/b` is not found, and `a` is there afterwards. -/
theorem removeDirectory_makes_parent :
    MemoryDir.removeDirectory (⟨[], []⟩ : MemoryDir ℕ) [.normal "a", .normal "b"] =
      some (.notFound, ⟨[["a"]], []⟩) := by
  decide

end Voker.Asset
