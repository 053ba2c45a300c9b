import Mathlib.Data.List.Basic
import Mathlib.Logic.Function.Basic
import Mathlib.Tactic.Tauto

/-!
# The record of the asset processor

`ProcessorAssetInfos` has an entry for each asset the processor knows: what it was last processed
from, which assets were processed with its help and have to be processed again when it changes, and
a status.  Dependents of an asset that has no entry are kept aside until it gets one.

## Where entries come from

Four functions touch the set of entries.  `get_or_insert` is called by the first scan of a source
and for a result that is a success; `remove` and `rename` follow the events of a file watcher;
everything else only changes entries that exist.  `Has` is the set of entries, and the lemmas below
say for each function what it becomes.  They are all that the runs of the server need to know about
the record.

**No event adds an entry.**  The event that a file was added queues the file, and the first result
for it finds no entry.  Where the result is a success one is made.  Where it is a failure,
`finish_processing` expects one: this is the panic that `finishProcessing` returns `none` for.

Three failures are passed over without a status (`passesOver`), whether or not the file is there.

The broadcast of a status and the lock of an entry are left out.  Sending a status cannot fail:
the entry keeps a receiver of its own channel, which may overflow.
-/

namespace Voker.Asset

open List Function

variable {Path Hash : Type}

/-- `ProcessedInfo`; of a dependency the path and its full hash. -/
structure ProcessedInfo (Path Hash : Type) where
  hash : Hash
  fullHash : Hash
  processDependencies : List (Path × Hash)

/-- `ProcessResult`. -/
inductive ProcessResult (Path Hash : Type) where
  | processed (info : ProcessedInfo Path Hash)
  | skippedNotChanged
  | ignored

/-- `AssetProcessError`, as far as `finish_processing` tells the errors apart. -/
inductive AssetProcessError (Path : Type) where
  | extensionRequired
  | missingAssetLoader
  | notFound
  | assetLoader (path : Path)
  | other

/-- `ProcessStatus`. -/
inductive ProcessStatus where
  | processed | failed | nonExistent

/-- `AssetSourceEvent`; of a folder the paths in it, as `scan_dir` finds them or as they are on
record. -/
inductive AssetSourceEvent (Path : Type) where
  | addedAsset (path : Path)
  | modifiedAsset (path : Path)
  | removedAsset (path : Path)
  | renamedAsset (old new : Path)
  | addedMeta (path : Path)
  | modifiedMeta (path : Path)
  | removedMeta (path : Path)
  | renamedMeta (old new : Path)
  | addedFolder (paths : List Path)
  | removedFolder (paths : List Path)
  | renamedFolder (paths : List Path)
  | removedUnknown (path : Path) (isMeta : Bool)

/-- Which assets are on record after an event, from those that were before. -/
def AssetSourceEvent.knows (event : AssetSourceEvent Path) (known : Path → Prop) (other : Path) :
    Prop :=
  match event with
  | .removedAsset path | .removedMeta path | .removedUnknown path false =>
    known other ∧ other ≠ path
  | .removedFolder paths => known other ∧ other ∉ paths
  | .renamedAsset old new | .renamedMeta old new =>
    known other ∧ other ≠ old ∨ known old ∧ other = new
  | _ => known other

/-- `ProcessorAssetInfo`. -/
structure ProcessorAssetInfo (Path Hash : Type) where
  processedInfo : Option (ProcessedInfo Path Hash) := none
  dependents : List Path := []
  status : Option ProcessStatus := none

structure ProcessorAssetInfos (Path Hash : Type) where
  infos : Path → Option (ProcessorAssetInfo Path Hash) := fun _ => none
  nonExistentDependents : Path → Option (List Path) := fun _ => none

namespace ProcessorAssetInfos

variable [DecidableEq Path] (self : ProcessorAssetInfos Path Hash) (path : Path)

/-- Put an entry in its place. -/
def set (info : ProcessorAssetInfo Path Hash) : ProcessorAssetInfos Path Hash :=
  { self with infos := update self.infos path (some info) }

/-- `non_existent_dependents.insert`. -/
def setWaiting (waiting : Option (List Path)) : ProcessorAssetInfos Path Hash :=
  { self with nonExistentDependents := update self.nonExistentDependents path waiting }

/-- `get_or_insert`; a new entry takes over the dependents that waited for it. -/
def getOrInsert : ProcessorAssetInfo Path Hash × ProcessorAssetInfos Path Hash :=
  match self.infos path with
  | some info => (info, self)
  | none =>
    let info := { dependents := (self.nonExistentDependents path).getD [] }
    (info, (self.set path info).setWaiting path none)

/-- `add_dependent`. -/
def addDependent (dependent : Path) : ProcessorAssetInfos Path Hash :=
  match self.infos path with
  | some info => self.set path { info with dependents := info.dependents.insert dependent }
  | none =>
    self.setWaiting path (((self.nonExistentDependents path).getD []).insert dependent)

/-- The dependents of a path are changed, wherever they are kept. -/
def changeDependents (change : List Path → List Path) (self : ProcessorAssetInfos Path Hash)
    (dependency : Path × Hash) : ProcessorAssetInfos Path Hash :=
  match self.infos dependency.1 with
  | some info => self.set dependency.1 { info with dependents := change info.dependents }
  | none => self.setWaiting dependency.1 ((self.nonExistentDependents dependency.1).map change)

/-- `remove_dependencies`. -/
def removeDependencies (removed : Option (ProcessedInfo Path Hash)) :
    ProcessorAssetInfos Path Hash :=
  ((removed.map (·.processDependencies)).getD []).foldl
    (changeDependents (·.erase path)) self

/-- The dependents of an entry that is gone wait for a new one. -/
def leaveDependents (dependents : List Path) : ProcessorAssetInfos Path Hash :=
  if dependents = [] then self else self.setWaiting path (some dependents)

/-- `remove`. -/
def remove : ProcessorAssetInfos Path Hash :=
  match self.infos path with
  | none => self
  | some info =>
    (({ self with infos := update self.infos path none }).removeDependencies path
      info.processedInfo).leaveDependents path info.dependents

/-- `rename`, with what it queues. -/
def rename (old new : Path) : ProcessorAssetInfos Path Hash × List Path :=
  match self.infos old with
  | none => (self, [])
  | some info =>
    let left := ({ self with infos := update self.infos old none }).leaveDependents old
      info.dependents
    let updated := ((info.processedInfo.map (·.processDependencies)).getD []).foldl
      (changeDependents fun dependents => (dependents.erase old).insert new) left
    let (newInfo, known) := updated.getOrInsert new
    (known.set new { newInfo with processedInfo := info.processedInfo, status := info.status },
      new :: newInfo.dependents)

/-- The update of the record in `initialize`. -/
def scan (sourcePaths : List Path)
    (processedWithInfo : List (Path × ProcessedInfo Path Hash)) : ProcessorAssetInfos Path Hash :=
  processedWithInfo.foldl (fun infos (path, processedInfo) =>
    match infos.infos path with
    | some info => infos.set path { info with processedInfo }
    | none => infos) (sourcePaths.foldl (fun infos path => (infos.getOrInsert path).2) self)

/-- `handle_source_event`, with what it queues. -/
def handleSourceEvent : AssetSourceEvent Path →
    ProcessorAssetInfos Path Hash × List Path
  | .addedAsset path | .modifiedAsset path | .addedMeta path | .modifiedMeta path
  | .removedUnknown path true => (self, [path])
  | .removedAsset path | .removedMeta path | .removedUnknown path false => (self.remove path, [])
  | .renamedAsset old new | .renamedMeta old new => self.rename old new
  | .addedFolder paths | .renamedFolder paths => (self, paths)
  | .removedFolder paths => (paths.foldl (·.remove ·) self, [])

/-- An entry that has to exist is changed. -/
def expect (change : ProcessorAssetInfo Path Hash → ProcessorAssetInfo Path Hash) :
    Option (ProcessorAssetInfos Path Hash × List Path) :=
  (self.infos path).map fun info => (self.set path (change info), [])

/-- `processed_info.take()`, of an entry if there is one. -/
def takeProcessedInfo : ProcessorAssetInfos Path Hash :=
  { self with
    infos := update self.infos path ((self.infos path).map ({ · with processedInfo := none })) }

/-- `finish_processing`, with what it queues; `none` is a panic. -/
def finishProcessing [Zero Hash] : Except (AssetProcessError Path) (ProcessResult Path Hash) →
    Option (ProcessorAssetInfos Path Hash × List Path)
  | .ok (.processed processedInfo) =>
    let old := (self.infos path).bind (·.processedInfo)
    let cleaned := (self.takeProcessedInfo path).removeDependencies path old
    let populated := processedInfo.processDependencies.foldl (·.addDependent ·.1 path) cleaned
    let (info, known) := populated.getOrInsert path
    some (known.set path { info with processedInfo, status := some .processed }, info.dependents)
  | .ok .skippedNotChanged => self.expect path ({ · with status := some .processed })
  | .ok .ignored | .error .extensionRequired | .error .missingAssetLoader | .error .notFound =>
    some (self, [])
  | .error (.assetLoader failed) => (self.addDependent failed path).expect path
    ({ · with processedInfo := some ⟨0, 0, []⟩, status := some .failed })
  | .error .other => self.expect path ({ · with status := some .failed })

/-- `is_up_to_date`. -/
def isUpToDate [DecidableEq Hash] (sourceHash : Hash) : Bool :=
  match (self.infos path).bind (·.processedInfo) with
  | none => false
  | some info => info.hash = sourceHash ∧ ∀ dependency ∈ info.processDependencies,
    ((self.infos dependency.1).bind (·.processedInfo)).map (·.fullHash) = some dependency.2

/-- The asset is on record as failed. -/
def Failed : Prop := (self.infos path).bind (·.status) = some .failed

/-! ## Which assets are on record -/

def Has : Prop := (self.infos path).isSome

variable (other : Path)

theorem has_set (info : ProcessorAssetInfo Path Hash) :
    (self.set path info).Has other ↔ other = path ∨ self.Has other := by
  by_cases hs : other = path
  · subst hs
    simp [Has, set]
  · simp [Has, set, hs]

/-- A change of an entry that is there. -/
theorem has_set_of_eq {info : ProcessorAssetInfo Path Hash} (hk : self.infos path = some info)
    (changed : ProcessorAssetInfo Path Hash) :
    (self.set path changed).Has other ↔ self.Has other := by
  rw [has_set]
  refine or_iff_right_of_imp fun hs => ?_
  rw [Has, hs, hk]
  rfl

theorem has_erase : ({ self with infos := update self.infos path none }).Has other ↔
    self.Has other ∧ other ≠ path := by
  by_cases hs : other = path
  · subst hs
    simp [Has]
  · simp [Has, hs]

theorem has_getOrInsert :
    (self.getOrInsert path).2.Has other ↔ other = path ∨ self.Has other := by
  unfold getOrInsert
  split
  · next info hk =>
    refine (or_iff_right_of_imp fun hs => ?_).symm
    rw [Has, hs, hk]
    rfl
  · exact has_set self path other _

theorem has_addDependent (dependent : Path) :
    (self.addDependent path dependent).Has other ↔ self.Has other := by
  unfold addDependent
  split
  · next info hk => exact has_set_of_eq self path other hk _
  · exact Iff.rfl

theorem has_changeDependents (change : List Path → List Path) (dependency : Path × Hash) :
    (self.changeDependents change dependency).Has other ↔ self.Has other := by
  unfold changeDependents
  split
  · next info hk => exact has_set_of_eq self _ other hk _
  · exact Iff.rfl

omit [DecidableEq Path] in
/-- Changes that keep what is on record, one after the other. -/
theorem has_foldl {β : Type} {change : ProcessorAssetInfos Path Hash → β →
      ProcessorAssetInfos Path Hash} (hc : ∀ infos item, (change infos item).Has other ↔
      infos.Has other) (items : List β) :
    (items.foldl change self).Has other ↔ self.Has other := by
  induction items generalizing self with
  | nil => exact Iff.rfl
  | cons item items ih => exact (ih _).trans (hc self item)

theorem has_removeDependencies (removed : Option (ProcessedInfo Path Hash)) :
    (self.removeDependencies path removed).Has other ↔ self.Has other :=
  has_foldl self other (fun infos => infos.has_changeDependents other _) _

theorem has_leaveDependents (dependents : List Path) :
    (self.leaveDependents path dependents).Has other ↔ self.Has other := by
  unfold leaveDependents
  split <;> exact Iff.rfl

theorem has_remove : (self.remove path).Has other ↔ self.Has other ∧ other ≠ path := by
  unfold remove
  split
  · next hk =>
    refine (and_iff_left_of_imp fun hh hs => ?_).symm
    rw [Has, hs, hk] at hh
    cases hh
  · rw [has_leaveDependents, has_removeDependencies, has_erase]

theorem has_rename (old new : Path) : (self.rename old new).1.Has other ↔
    self.Has other ∧ other ≠ old ∨ self.Has old ∧ other = new := by
  unfold rename
  split
  · next hk =>
    have hn : ¬ self.Has old := by simp [Has, hk]
    rw [or_iff_left fun hh => hn hh.1]
    refine (and_iff_left_of_imp fun hh hs => ?_).symm
    rw [hs] at hh
    exact hn hh
  · next info hk =>
    have hh : self.Has old := by simp [Has, hk]
    rw [has_set, has_getOrInsert, has_foldl _ other fun infos => infos.has_changeDependents other _,
      has_leaveDependents, has_erase, and_iff_right hh]
    tauto

theorem has_scan (sourcePaths : List Path)
    (processedWithInfo : List (Path × ProcessedInfo Path Hash)) :
    (self.scan sourcePaths processedWithInfo).Has other ↔
      self.Has other ∨ other ∈ sourcePaths := by
  unfold scan
  rw [has_foldl]
  · induction sourcePaths generalizing self with
    | nil => simp
    | cons path paths ih =>
      rw [foldl_cons, ih, has_getOrInsert, mem_cons]
      tauto
  · rintro infos ⟨path, processedInfo⟩
    cases hk : infos.infos path with
    | none => simp only [hk]
    | some info =>
      simp only [hk]
      exact has_set_of_eq infos path other hk _

theorem has_handleSourceEvent (event : AssetSourceEvent Path) :
    (self.handleSourceEvent event).1.Has other ↔ event.knows self.Has other := by
  cases event with
  | removedAsset path => exact self.has_remove path other
  | removedMeta path => exact self.has_remove path other
  | renamedAsset old new => exact self.has_rename other old new
  | renamedMeta old new => exact self.has_rename other old new
  | removedFolder paths =>
    change (paths.foldl (·.remove ·) self).Has other ↔ self.Has other ∧ other ∉ paths
    induction paths generalizing self with
    | nil => simp
    | cons path paths ih =>
      rw [foldl_cons, ih, self.has_remove, mem_cons]
      tauto
  | removedUnknown path isMeta =>
    cases isMeta with
    | true => exact Iff.rfl
    | false => exact self.has_remove path other
  | _ => exact Iff.rfl

variable {post : ProcessorAssetInfos Path Hash} {queued : List Path}
  {change : ProcessorAssetInfo Path Hash → ProcessorAssetInfo Path Hash}

theorem has_expect (he : self.expect path change = some (post, queued)) :
    post.Has other ↔ self.Has other := by
  obtain ⟨info, hk, he⟩ := Option.map_eq_some_iff.mp he
  cases he
  exact has_set_of_eq self path other hk _

theorem has_takeProcessedInfo : (self.takeProcessedInfo path).Has other ↔ self.Has other := by
  by_cases hs : other = path
  · subst hs
    simp [Has, takeProcessedInfo]
  · simp [Has, takeProcessedInfo, hs]

variable [Zero Hash] {result : Except (AssetProcessError Path) (ProcessResult Path Hash)}

theorem has_finishProcessing
    (hf : self.finishProcessing path result = some (post, queued)) :
    post.Has other ↔ self.Has other ∨ other = path ∧ ∃ info, result = .ok (.processed info) := by
  rcases result with error | result
  · rw [or_iff_left (by simp)]
    cases error with
    | assetLoader failed =>
      exact (has_expect _ path other hf).trans (has_addDependent self failed other path)
    | other => exact has_expect self path other hf
    | _ =>
      cases hf
      exact Iff.rfl
  · cases result with
    | processed info =>
      simp only [finishProcessing, Option.some.injEq, Prod.mk.injEq] at hf
      obtain ⟨rfl, -⟩ := hf
      rw [has_set, has_getOrInsert, has_foldl _ other fun infos (item : Path × Hash) =>
        infos.has_addDependent item.1 other path, has_removeDependencies, has_takeProcessedInfo]
      simp only [Except.ok.injEq, ProcessResult.processed.injEq, exists_eq', and_true]
      tauto
    | skippedNotChanged =>
      rw [or_iff_left (by simp)]
      exact has_expect self path other hf
    | ignored =>
      cases hf
      simp

/-! ## Recording a result -/

/-- The failures that are passed over. -/
def passesOver : AssetProcessError Path → Bool
  | .extensionRequired | .missingAssetLoader | .notFound => true
  | _ => false

omit [Zero Hash] in
theorem expect_of_has (hh : self.Has path)
    (change : ProcessorAssetInfo Path Hash → ProcessorAssetInfo Path Hash) :
    ∃ info, self.expect path change = some (self.set path (change info), []) := by
  obtain ⟨info, hk⟩ := Option.isSome_iff_exists.mp hh
  exact ⟨info, by rw [expect, hk]; rfl⟩

omit [Zero Hash] in
theorem failed_set {info : ProcessorAssetInfo Path Hash} (hi : info.status = some .failed) :
    (self.set path info).Failed path := by
  simp [Failed, set, hi]

variable (result) in
/-- **The result for an asset on record is recorded**, and a failure that is not passed over as
one. -/
theorem finishProcessing_of_has (hh : self.Has path) :
    ∃ post queued, self.finishProcessing path result = some (post, queued) ∧
      ∀ error, result = .error error → passesOver error = false → post.Failed path := by
  rcases result with error | result
  · cases error with
    | assetLoader failed =>
      obtain ⟨info, he⟩ := expect_of_has _ path
        ((has_addDependent self failed path path).mpr hh)
        ({ · with processedInfo := some ⟨0, 0, []⟩, status := some .failed })
      exact ⟨_, _, he, fun _ _ _ => failed_set _ path rfl⟩
    | other =>
      obtain ⟨info, he⟩ := expect_of_has self path hh ({ · with status := some .failed })
      exact ⟨_, _, he, fun _ _ _ => failed_set _ path rfl⟩
    | _ => exact ⟨self, [], rfl, by simp [passesOver]⟩
  · cases result with
    | skippedNotChanged =>
      obtain ⟨info, he⟩ := expect_of_has self path hh ({ · with status := some .processed })
      exact ⟨_, _, he, by simp⟩
    | _ => exact ⟨_, _, rfl, by simp⟩

omit [DecidableEq Path] [Zero Hash] in
variable {self path} in
theorem Has.of_isUpToDate [DecidableEq Hash] {hash : Hash}
    (hu : self.isUpToDate path hash = true) : self.Has path := by
  unfold isUpToDate at hu
  cases hk : self.infos path with
  | none =>
    rw [hk] at hu
    cases hu
  | some info => simp [Has, hk]

end ProcessorAssetInfos

end Voker.Asset
