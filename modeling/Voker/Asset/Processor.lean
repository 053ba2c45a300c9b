import Mathlib.Algebra.GroupWithZero.Nat
import Voker.Asset.Infos
import Voker.Asset.Transaction

/-!
# The asset processor

The processor keeps a queue of assets and a record of each asset it knows.  A first scan of a
source puts all its files into both; after that, the events of a file watcher add to the queue
and take from the record.  `process_asset` takes an asset through a number of stages, each of
which may end the call, and `finish_processing` records the result.

## What is modelled

`AssetProcessServer.step` is one pass through the body of one of the loops of `run` and
`watch_for_changes`: a source is scanned, a queued asset is processed and its result recorded, or
an event is handled.  The loops await each pass before the next, so a run is a sequence of passes.
Which queued asset comes next is left open (dependents are queued in the order of a hash set).

What a stage does is left to an `Attempt`, which says where a call is ended and with what; the one
stage that looks at the record, `is_up_to_date`, is computed.  A panic of `finish_processing` is
kept in the state, `panicked`, and no pass follows it.

## Two failures

* The log is told when the call starts to write and when it is done.  **A failure between the two
  entries leaves the first one open**, so the next start rejects the log (`run_accepted_iff`).
* **`finish_processing` expects an entry that a failing asset may not have**: the event that a file
  was added queues the file without a record of it.  Which assets have a record follows from the
  passes before (`knows`), and `run_recorded` is about every run in which only assets fail that
  have one.
-/

namespace Voker.Asset

open Foundation List

variable {Path Hash : Type}

/-! ## Processing one asset -/

variable [DecidableEq Hash]

/-- The stages of `process_asset` before the log is told.  The first six come before the check
whether the asset is up to date. -/
inductive Stage where
  | source | shouldProcess | readMeta | config | processor | readBytes
  | deserializeMeta | settings

/-- The stages behind the first log entry. -/
inductive WriteStage where
  | process | writeBytes | writeMeta

/-- How a stage ends the call. -/
inductive Ending (Path : Type) where
  | ignored
  | failed (error : AssetProcessError Path)

/-- The result of a call that a stage ends. -/
def Ending.result : Ending Path → Except (AssetProcessError Path) (ProcessResult Path Hash)
  | .ignored => .ok .ignored
  | .failed error => .error error

/-- One call of `process_asset`: which stages end it, what it finds otherwise, whether its entries
reach the log, and whether the source file is still there when the result is recorded. -/
structure Attempt (Path Hash : Type) where
  ends : Stage → Option (Ending Path) := fun _ => none
  sourceHash : Hash
  fails : WriteStage → Option (AssetProcessError Path) := fun _ => none
  fullHash : Hash
  processDependencies : List (Path × Hash) := []
  logsBegin : Bool := true
  logsEnd : Bool := true
  present : Bool := true

namespace Attempt

variable (attempt : Attempt Path Hash) (infos : ProcessorAssetInfos Path Hash) (path : Path)

/-- What ends the call before the asset is compared with its record, … -/
def endsEarly : Option (Ending Path) :=
  [.source, .shouldProcess, .readMeta, .config, .processor, .readBytes].findSome? attempt.ends

/-- … what ends it between that and the log, … -/
def endsBefore : Option (Ending Path) := [.deserializeMeta, .settings].findSome? attempt.ends

/-- … and what ends it after it has begun to write. -/
def failsLate : Option (AssetProcessError Path) :=
  [.process, .writeBytes, .writeMeta].findSome? attempt.fails

/-- `process_asset`, with the entries it adds to the log. -/
def processAsset :
    Except (AssetProcessError Path) (ProcessResult Path Hash) × List (LogEntry Path) :=
  let begun := if attempt.logsBegin then [.beginProcessing path] else []
  match attempt.endsEarly with
  | some ending => (ending.result, [])
  | none =>
    if infos.isUpToDate path attempt.sourceHash then (.ok .skippedNotChanged, [])
    else
      match attempt.endsBefore, attempt.failsLate with
      | some ending, _ => (ending.result, [])
      | none, some error => (.error error, begun)
      | none, none =>
        (.ok (.processed ⟨attempt.sourceHash, attempt.fullHash, attempt.processDependencies⟩),
          begun ++ if attempt.logsEnd then [.endProcessing path] else [])

/-- The first stage that ends the call, if the asset is not up to date. -/
def ending : Option (Ending Path) :=
  attempt.endsEarly <|> attempt.endsBefore <|> attempt.failsLate.map .failed

/-- The call comes to its first log entry. -/
def Begins : Prop :=
  attempt.endsEarly = none ∧ infos.isUpToDate path attempt.sourceHash = false ∧
    attempt.endsBefore = none

/-- The results of a call. -/
theorem processAsset_cases :
    (∃ ending, attempt.ending = some ending ∧
      (attempt.processAsset infos path).1 = ending.result) ∨
    (infos.isUpToDate path attempt.sourceHash = true ∧
      (attempt.processAsset infos path).1 = .ok .skippedNotChanged) ∨
    attempt.ending = none ∧
      ∃ info, (attempt.processAsset infos path).1 = .ok (.processed info) := by
  unfold ending processAsset
  cases attempt.endsEarly with
  | some ending => exact .inl ⟨ending, rfl, rfl⟩
  | none =>
    cases hu : infos.isUpToDate path attempt.sourceHash with
    | true => exact .inr (.inl ⟨rfl, rfl⟩)
    | false =>
      cases attempt.endsBefore with
      | some ending => exact .inl ⟨ending, rfl, rfl⟩
      | none =>
        cases attempt.failsLate with
        | some error => exact .inl ⟨.failed error, rfl, rfl⟩
        | none => exact .inr (.inr ⟨rfl, _, rfl⟩)

/-- What a call enters in the log. -/
theorem processAsset_entries : (attempt.processAsset infos path).2 = [] ∧
      ¬ attempt.Begins infos path ∨
    attempt.Begins infos path ∧ (attempt.processAsset infos path).2 =
      (if attempt.logsBegin then [.beginProcessing path] else []) ++
        if attempt.failsLate = none ∧ attempt.logsEnd then [.endProcessing path] else [] := by
  unfold Begins processAsset
  cases attempt.endsEarly with
  | some ending => simp
  | none =>
    cases infos.isUpToDate path attempt.sourceHash with
    | true => simp
    | false =>
      cases attempt.endsBefore with
      | some ending => simp
      | none => cases attempt.failsLate <;> simp

end Attempt

/-! ## The server -/

/-- A pass of the server. -/
inductive Pass (Path Hash : Type) where
  | initializeSource (sourcePaths : List Path)
    (processedWithInfo : List (Path × ProcessedInfo Path Hash))
  | process (path : Path) (attempt : Attempt Path Hash)
  | handle (event : AssetSourceEvent Path)

namespace Pass

/-- What a pass enters in the log. -/
def entries (pass : Pass Path Hash) (infos : ProcessorAssetInfos Path Hash) :
    List (LogEntry Path) :=
  match pass with
  | .process path attempt => (attempt.processAsset infos path).2
  | _ => []

/-- Which assets are on record after a pass: those of a scan, those that nothing fails for, and
what is renamed to, as far as they are not removed or renamed. -/
def knows (pass : Pass Path Hash) (known : Path → Prop) (other : Path) : Prop :=
  match pass with
  | .initializeSource sourcePaths _ => known other ∨ other ∈ sourcePaths
  | .process path attempt => known other ∨ other = path ∧ attempt.ending = none
  | .handle event => event.knows known other

/-- An asset that fails is on record, and its failure is not passed over while its file is
there. -/
def Announced (pass : Pass Path Hash) (known : Path → Prop) : Prop :=
  ∀ path attempt error, pass = .process path attempt → attempt.ending = some (.failed error) →
    known path ∧ (ProcessorAssetInfos.passesOver error = true → attempt.present = false)

end Pass

/-- `AssetProcessServer`: the record, the queue and the file of the log. -/
structure AssetProcessServer (Path Hash : Type) where
  infos : ProcessorAssetInfos Path Hash := {}
  tasks : List Path := []
  log : List Char := []
  panicked : Bool := false

namespace AssetProcessServer

variable [DecidableEq Path] [Zero Hash] (log : FileTransactionLog Path)

/-- One pass; `none` is one that cannot be: its asset is not queued, or the server is gone. -/
def step (pass : Pass Path Hash) (self : AssetProcessServer Path Hash) :
    Option (AssetProcessServer Path Hash) :=
  if self.panicked then none
  else
    match pass with
    | .initializeSource sourcePaths processedWithInfo => some { self with
        infos := self.infos.scan sourcePaths processedWithInfo
        tasks := self.tasks ++ sourcePaths }
    | .process path attempt =>
      if path ∈ self.tasks then
        let (result, entries) := attempt.processAsset self.infos path
        let logged := { self with
          tasks := self.tasks.erase path
          log := self.log ++ entries.flatMap log.write }
        match self.infos.finishProcessing path result with
        | some (infos, queued) => some { logged with infos, tasks := logged.tasks ++ queued }
        | none => some { logged with panicked := true }
      else none
    | .handle event =>
      let (infos, queued) := self.infos.handleSourceEvent event
      some { self with infos, tasks := self.tasks ++ queued }

/-! ## The log -/

/-- Where a call comes to the log, it is either entered at both ends or not at all. -/
def Completes (pass : Pass Path Hash) (pre _ : AssetProcessServer Path Hash) : Prop :=
  ∀ path attempt, pass = .process path attempt → attempt.Begins pre.infos path →
    (attempt.logsBegin = true ↔ attempt.failsLate = none ∧ attempt.logsEnd = true)

/-- The path that a pass may enter in the log reads back. -/
def Loggable (pass : Pass Path Hash) : Prop :=
  ∀ path attempt, pass = .process path attempt → log.Readable path

/-- The file holds entries that read back. -/
def Holds (self : AssetProcessServer Path Hash) (entries : List (LogEntry Path)) : Prop :=
  self.log = entries.flatMap log.write ∧ ∀ entry ∈ entries, log.ReadableEntry entry

variable {log} {pass : Pass Path Hash} {pre post : AssetProcessServer Path Hash}

theorem step_log (hs : step log pass pre = some post) :
    post.log = pre.log ++ (pass.entries pre.infos).flatMap log.write := by
  unfold step at hs
  split at hs
  · cases hs
  · cases pass with
    | process path attempt =>
      simp only at hs
      split at hs
      · split at hs <;> cases hs <;> rfl
      · cases hs
    | _ =>
      cases hs
      exact (append_nil _).symm

omit [DecidableEq Path] [Zero Hash] in
theorem readable_entries (hl : Loggable log pass) :
    ∀ entry ∈ pass.entries pre.infos, log.ReadableEntry entry := by
  cases pass with
  | process path attempt =>
    have hr := hl path attempt rfl
    obtain ⟨he, -⟩ | ⟨-, he⟩ := attempt.processAsset_entries pre.infos path
    · simp [Pass.entries, he]
    · intro entry mem
      rw [Pass.entries, he, mem_append, mem_ite_nil_right, mem_ite_nil_right] at mem
      rcases mem with ⟨-, mem⟩ | ⟨-, mem⟩
      · cases mem_singleton.mp mem
        exact hr
      · cases mem_singleton.mp mem
        exact hr
  | _ => simp [Pass.entries]

theorem Holds.step {entries : List (LogEntry Path)} (hh : Holds log pre entries)
    (hl : Loggable log pass) (hs : step log pass pre = some post) :
    Holds log post (entries ++ pass.entries pre.infos) := by
  refine ⟨?_, fun entry mem => ?_⟩
  · rw [step_log hs, hh.1, flatMap_append]
  · exact (mem_append.mp mem).elim (hh.2 entry) (readable_entries hl entry)

omit [Zero Hash] in
/-- The entries of a pass leave nothing open exactly if the call completes. -/
theorem entries_closed_iff : (pass.entries pre.infos).foldlM validateEntry ([], []) =
    .ok ([], []) ↔ Completes pass pre post := by
  unfold Completes
  cases pass with
  | process path attempt =>
    simp only [Pass.process.injEq, and_imp, forall_eq', forall_apply_eq_imp_iff]
    unfold Pass.entries
    obtain ⟨he, hb⟩ | ⟨hb, he⟩ := attempt.processAsset_entries pre.infos path
    · simp [he, hb, pure, Except.pure]
    · simp only [he, hb, true_imp_iff]
      cases attempt.failsLate <;> cases attempt.logsBegin <;> cases attempt.logsEnd <;>
        simp [validateEntry, pure, Except.pure, bind, Except.bind]
  | _ => simp [Pass.entries, pure, Except.pure]

/-- **The log is accepted after every pass as long as the calls that start to write are done
with it.** -/
theorem run_accepted_iff (log : FileTransactionLog Path) (passes : List (Pass Path Hash))
    (readable : ∀ pass ∈ passes, Loggable log pass) :
    Throughout (step log) (fun self => Accepted log self.log) passes {} ↔
      EachStep (step log) Completes passes {} := by
  have hp : ∀ pass ∈ passes, ∀ pre post, (∃ entries, Holds log pre entries) →
      step log pass pre = some post → ∃ entries, Holds log post entries := by
    rintro pass mem pre post ⟨entries, hh⟩ hs
    exact ⟨_, hh.step (readable pass mem) hs⟩
  refine throughout_iff_eachStep_of_mem hp ?_ ⟨[], rfl, by simp⟩ rfl
  rintro pass mem pre post ⟨entries, hh⟩ ha hs
  have hn := hh.step (readable pass mem) hs
  simp only [hh.1, accepted_written hh.2] at ha
  simp only [hn.1, accepted_written hn.2]
  rw [foldlM_append, ha]
  exact entries_closed_iff

/-- Paths as text. -/
def plain : FileTransactionLog (List Char) := ⟨id, some⟩

/-- A source with one file is scanned and the file processed. -/
def scanned (path : List Char) (attempt : Attempt (List Char) ℕ) : List (Pass (List Char) ℕ) :=
  [.initializeSource [path] [], .process path attempt]

/-- One file, processed without a failure. -/
theorem run_accepted_iff_scanned : Throughout (step plain) (fun self => Accepted plain self.log)
    (scanned ['a'] { sourceHash := 1, fullHash := 2 }) {} := by
  refine (run_accepted_iff plain _ fun pass mem path attempt hp => ?_).mpr ?_
  · subst hp
    simp only [scanned, mem_cons, Pass.process.injEq, reduceCtorEq, not_mem_nil, or_false,
      false_or] at mem
    rw [mem.1]
    exact ⟨by decide, by decide, rfl⟩
  · refine fun next hs => ⟨nofun, fun last hl => ⟨fun path attempt hp _ => ?_, trivial⟩⟩
    cases hp
    exact iff_of_true rfl ⟨rfl, rfl⟩

/-- A processor fails: its transaction is never ended. -/
theorem process_fails_unfinished : ∃ self, run (step plain)
    (scanned ['a'] { sourceHash := 1, fullHash := 2, fails := fun stage => match stage with
      | .process => some .other
      | _ => none }) {} = some self ∧ ¬ Accepted plain self.log := by
  refine ⟨_, rfl, ?_⟩
  intro ha
  cases ha

/-- Nothing fails, but the name of the file has a line feed in it. -/
theorem lineFeed_rejected : ∃ self, run (step plain)
    (scanned ['a', '\n', 'b'] { sourceHash := 1, fullHash := 2 }) {} = some self ∧
      ¬ Accepted plain self.log := by
  refine ⟨_, rfl, ?_⟩
  intro ha
  cases ha

/-! ## The record -/

/-- The passes of a run, one after the other. -/
def AllAnnounced : (known : Path → Prop) → List (Pass Path Hash) → Prop
  | _, [] => True
  | known, pass :: passes =>
    pass.Announced known ∧ AllAnnounced (fun other => pass.knows known other) passes

/-- The server goes on, and an asset that fails and is still there is on record as failed. -/
def Recorded (pass : Pass Path Hash) (pre post : AssetProcessServer Path Hash) : Prop :=
  post.panicked = false ∧ ∀ path attempt error, pass = .process path attempt →
    (attempt.processAsset pre.infos path).1 = .error error → attempt.present = true →
      post.infos.Failed path

/-- The result of a call is recorded. -/
theorem finish_recorded {path : Path} {attempt : Attempt Path Hash}
    (infos : ProcessorAssetInfos Path Hash) (hm : ∀ error, attempt.ending = some (.failed error) →
      infos.Has path ∧ (ProcessorAssetInfos.passesOver error = true → attempt.present = false)) :
    ∃ after queued,
      infos.finishProcessing path (attempt.processAsset infos path).1 = some (after, queued) ∧
      (∀ error, (attempt.processAsset infos path).1 = .error error → attempt.present = true →
        after.Failed path) ∧
      ∀ other, after.Has other ↔ infos.Has other ∨ other = path ∧ attempt.ending = none := by
  have hc := attempt.processAsset_cases infos path
  generalize (attempt.processAsset infos path).1 = result at hc ⊢
  obtain ⟨ending, he, rfl⟩ | ⟨hu, rfl⟩ | ⟨he, info, rfl⟩ := hc
  · cases ending with
    | ignored => exact ⟨infos, [], rfl, nofun, fun other => by simp [he]⟩
    | failed error =>
      obtain ⟨hh, ho⟩ := hm error he
      obtain ⟨after, queued, hf, hr⟩ := infos.finishProcessing_of_has path (.error error) hh
      refine ⟨after, queued, hf, fun _ hs hp => ?_, fun other => ?_⟩
      · refine hr error rfl (Bool.eq_false_iff.mpr fun hv => ?_)
        rw [ho hv] at hp
        cases hp
      · rw [infos.has_finishProcessing path other hf]
        simp [he]
  · have hh := ProcessorAssetInfos.Has.of_isUpToDate hu
    obtain ⟨after, queued, hf, -⟩ := infos.finishProcessing_of_has path (.ok .skippedNotChanged) hh
    refine ⟨after, queued, hf, nofun, fun other => ?_⟩
    rw [infos.has_finishProcessing path other hf, or_iff_left (by simp)]
    refine (or_iff_left_of_imp fun hs => ?_).symm
    rw [hs.1]
    exact hh
  · obtain ⟨⟨after, queued⟩, hf⟩ : ∃ out, infos.finishProcessing path (.ok (.processed info)) =
      some out := ⟨_, rfl⟩
    refine ⟨after, queued, hf, nofun, fun other => ?_⟩
    rw [infos.has_finishProcessing path other hf]
    simp [he]

/-- **One pass**, of a server whose assets on record are known. -/
theorem step_recorded {known : Path → Prop} (hk : ∀ other, pre.infos.Has other ↔ known other)
    (hm : pass.Announced known) (hs : step log pass pre = some post) :
    Recorded pass pre post ∧ ∀ other, post.infos.Has other ↔ pass.knows known other := by
  obtain rfl : pre.infos.Has = known := funext fun other => propext (hk other)
  unfold step at hs
  split at hs
  · cases hs
  next hn =>
    rw [Bool.not_eq_true] at hn
    cases pass with
    | initializeSource sourcePaths processedWithInfo =>
      cases hs
      exact ⟨⟨hn, nofun⟩, fun other => pre.infos.has_scan other _ _⟩
    | handle event =>
      cases hs
      exact ⟨⟨hn, nofun⟩, fun other => pre.infos.has_handleSourceEvent other event⟩
    | process path attempt =>
      simp only at hs
      split at hs
      · obtain ⟨infos, queued, hf, hr, hh⟩ := finish_recorded pre.infos fun error he =>
          hm path attempt error rfl he
        rw [hf] at hs
        cases hs
        refine ⟨⟨hn, fun _ _ error hp => ?_⟩, hh⟩
        cases hp
        exact hr error
      · cases hs

/-- **The server goes on, and what fails is on record as failed**, in every run in which only
assets fail that a scan, a rename or an earlier success has put on record. -/
theorem run_recorded (log : FileTransactionLog Path) (passes : List (Pass Path Hash))
    (announced : AllAnnounced (fun _ => False) passes) :
    EachStep (step log) Recorded passes {} := by
  suffices hg : ∀ (known : Path → Prop) (self : AssetProcessServer Path Hash),
      (∀ other, self.infos.Has other ↔ known other) → AllAnnounced known passes →
        EachStep (step log) Recorded passes self from
    hg _ {} (fun other => by simp [ProcessorAssetInfos.Has]) announced
  clear announced
  induction passes with
  | nil => exact fun _ _ _ _ => trivial
  | cons pass passes ih =>
    rintro known self hk ⟨hm, hl⟩ next hs
    obtain ⟨hr, hn⟩ := step_recorded hk hm hs
    exact ⟨hr, ih _ next hn hl⟩

/-- The one file of a source fails after the scan. -/
theorem run_recorded_scanned : EachStep (step plain) Recorded
    (scanned ['a'] { sourceHash := 1, fullHash := 2, ends := fun stage => match stage with
      | .readBytes => some (.failed .other)
      | _ => none }) {} := by
  refine run_recorded plain _ ⟨nofun, ?_, trivial⟩
  intro path attempt error hp he
  cases hp
  cases he
  exact ⟨.inr mem_cons_self, nofun⟩

/-- A file is added after the scan, and its processor fails. -/
theorem added_fails_panics : ∃ self, run (step plain)
    [.initializeSource [] [], .handle (.addedAsset ['a']),
      .process ['a'] { sourceHash := 1, fullHash := 2, fails := fun stage => match stage with
        | .process => some .other
        | _ => none }] ({} : AssetProcessServer (List Char) ℕ) = some self ∧ self.panicked = true :=
  ⟨_, rfl, rfl⟩

end AssetProcessServer

end Voker.Asset
