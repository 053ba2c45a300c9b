import Voker.Foundation.Runs

/-!
# The transaction log of the asset processor

The processor tells a log when it starts to write a processed asset and when it is done, so that
the next start can see whether the last run was cut off in between.  The log is a text file:
`write` puts one line for an entry at its end, `read` takes the text apart again, and
`validate_transaction_log` goes through what was read.

## The way through the text

An entry is not kept as such.  Its path is shown as text, the text is cut into lines, and what
follows the keyword is parsed as a path.  **Nothing is escaped on this way**: a path that shows a
line feed becomes two lines, one that ends in a carriage return loses it, and one that is parsed
to another path (a file name with `#` in it) closes a transaction that was never opened.  So what
is written reads back only for a path that is `Readable`, and `read_written` says that this is
enough.  How a path is shown and parsed is a parameter; parsing may panic.

## The check

`validate_entry` keeps the open transactions and the errors found so far.  `accepted_written` puts
the two halves together: the file is accepted exactly if its entries leave no transaction open and
no error behind.
-/

namespace Voker.Asset

open Foundation List

/-- `LogEntry`. -/
inductive LogEntry (Path : Type) where
  | beginProcessing (path : Path)
  | endProcessing (path : Path)
  | unrecoverableError

/-- `TransactionError`, of a file that can be opened. -/
inductive TransactionError where
  | invalidLine (line : List Char)

/-- `FileTransactionLog`, with the text form of paths: `Display` and `parse` of `AssetPath`.
Where there is no result, `parse` panics. -/
structure FileTransactionLog (Path : Type) where
  display : Path → List Char
  parse : List Char → Option Path

/-- `ENTRY_BEGIN`. -/
def entryBegin : List Char := ['B', 'e', 'g', 'i', 'n', ' ']

/-- `ENTRY_END`. -/
def entryEnd : List Char := ['E', 'n', 'd', ' ']

/-- `UNRECOVERABLE_ERROR`. -/
def unrecoverableError : List Char := "UnrecoverableError".toList

/-- `str::lines`, from within a line: a line ends with a line feed, or with the text, and a
carriage return before the line feed is not part of it. -/
def linesFrom (line : List Char) : List Char → List (List Char)
  | [] => if line = [] then [] else [line]
  | char :: rest =>
    if char = '\n' then
      (if line.getLast? = some '\r' then line.dropLast else line) :: linesFrom [] rest
    else linesFrom (line ++ [char]) rest

namespace FileTransactionLog

variable {Path : Type} (log : FileTransactionLog Path)

/-- What `begin`, `end` and `unrecoverable` write. -/
def write : LogEntry Path → List Char
  | .beginProcessing path => entryBegin ++ log.display path ++ ['\n']
  | .endProcessing path => entryEnd ++ log.display path ++ ['\n']
  | .unrecoverableError => Asset.unrecoverableError

/-- The loop of `read`; `none` is a panic. -/
def readLines : List (List Char) → Option (Except TransactionError (List (LogEntry Path)))
  | [] => some (.ok [])
  | line :: rest =>
    if entryBegin <+: line then
      (log.parse (line.drop entryBegin.length)).bind fun path =>
        (readLines rest).map (·.map (.beginProcessing path :: ·))
    else if entryEnd <+: line then
      (log.parse (line.drop entryEnd.length)).bind fun path =>
        (readLines rest).map (·.map (.endProcessing path :: ·))
    else if line = [] then readLines rest
    else some (.error (.invalidLine line))

/-- `read`, of a file with a text. -/
def read (text : List Char) : Option (Except TransactionError (List (LogEntry Path))) :=
  log.readLines (linesFrom [] text)

/-! ## Reading back -/

/-- A path that comes back from the log as it was written. -/
structure Readable (path : Path) : Prop where
  unbroken : '\n' ∉ log.display path
  ending : (log.display path).getLast? ≠ some '\r'
  parses : log.parse (log.display path) = some path

/-- An entry for such a path. -/
def ReadableEntry : LogEntry Path → Prop
  | .beginProcessing path | .endProcessing path => log.Readable path
  | .unrecoverableError => False

/-- A line in the text is a line. -/
theorem linesFrom_append {line : List Char} (hb : '\n' ∉ line) (pre rest : List Char)
    (he : (pre ++ line).getLast? ≠ some '\r') :
    linesFrom pre (line ++ '\n' :: rest) = (pre ++ line) :: linesFrom [] rest := by
  induction line generalizing pre with
  | nil =>
    rw [append_nil] at he
    simp [linesFrom, he]
  | cons char line ih =>
    obtain ⟨hc, hl⟩ := not_or.mp (mem_cons.not.mp hb)
    rw [cons_append, linesFrom, if_neg (Ne.symm hc), ih hl (pre ++ [char]) (by simpa using he)]
    simp

theorem getLast?_keyword_append {word text : List Char} (hw : word.getLast? ≠ some '\r')
    (ht : text.getLast? ≠ some '\r') : (word ++ text).getLast? ≠ some '\r' := by
  rw [getLast?_append]
  cases htl : text.getLast? with
  | none => exact hw
  | some char =>
    rw [htl] at ht
    exact ht

/-- The lines of what is written. -/
theorem linesFrom_write {path : Path} (hr : log.Readable path) {word : List Char}
    (hb : '\n' ∉ word) (hw : word.getLast? ≠ some '\r') (rest : List Char) :
    linesFrom [] (word ++ log.display path ++ ['\n'] ++ rest) =
      (word ++ log.display path) :: linesFrom [] rest := by
  have hn : '\n' ∉ word ++ log.display path := by
    rw [mem_append, not_or]
    exact ⟨hb, hr.unbroken⟩
  have he := getLast?_keyword_append hw hr.ending
  rw [append_assoc _ ['\n']]
  exact linesFrom_append hn [] rest he

/-- One entry is read back. -/
theorem read_write_append {entry : LogEntry Path} (hr : log.ReadableEntry entry)
    (rest : List Char) :
    log.read (log.write entry ++ rest) = (log.read rest).map (·.map (entry :: ·)) := by
  cases entry with
  | beginProcessing path =>
    unfold read write
    rw [linesFrom_write log hr (by decide) (by decide), readLines, if_pos (prefix_append _ _),
      drop_left, Readable.parses hr, Option.bind_some]
  | endProcessing path =>
    have hn : ¬ entryBegin <+: entryEnd ++ log.display path := by
      simp [entryBegin, entryEnd, cons_prefix_cons]
    unfold read write
    rw [linesFrom_write log hr (by decide) (by decide), readLines, if_neg hn,
      if_pos (prefix_append _ _), drop_left, Readable.parses hr, Option.bind_some]
  | unrecoverableError => exact hr.elim

/-- **What is written reads back.** -/
theorem read_written {entries : List (LogEntry Path)}
    (hr : ∀ entry ∈ entries, log.ReadableEntry entry) :
    log.read (entries.flatMap log.write) = some (.ok entries) := by
  induction entries with
  | nil => rfl
  | cons entry entries ih =>
    rw [flatMap_cons, read_write_append log (hr entry mem_cons_self),
      ih fun other mem => hr other (mem_cons_of_mem _ mem)]
    rfl

end FileTransactionLog

/-! ## Checking the log -/

variable {Path : Type} [DecidableEq Path]

/-- `LogEntryError`. -/
inductive LogEntryError (Path : Type) where
  | duplicateTransaction (path : Path)
  | endedMissingTransaction (path : Path)
  | unfinishedTransaction (path : Path)

/-- `ValidateLogError`. -/
inductive ValidateLogError (Path : Type) where
  | unrecoverableError
  | transactionError (error : TransactionError)
  | logEntryErrors (errors : List (LogEntryError Path))

/-- The loop of `validate_transaction_log`: open transactions and errors so far. -/
def validateEntry : List Path × List (LogEntryError Path) → LogEntry Path →
    Except (ValidateLogError Path) (List Path × List (LogEntryError Path))
  | (transactions, errors), .beginProcessing path =>
    if path ∈ transactions then .ok (transactions, errors ++ [.duplicateTransaction path])
    else .ok (path :: transactions, errors)
  | (transactions, errors), .endProcessing path =>
    if path ∈ transactions then .ok (transactions.erase path, errors)
    else .ok (transactions, errors ++ [.endedMissingTransaction path])
  | _, .unrecoverableError => .error .unrecoverableError

/-- `validate_transaction_log` behind `log_factory.read()`. -/
def validateEntries (entries : List (LogEntry Path)) : Except (ValidateLogError Path) Unit :=
  (entries.foldlM validateEntry ([], [])).bind fun (transactions, errors) =>
    match errors ++ transactions.map .unfinishedTransaction with
    | [] => .ok ()
    | errors => .error (.logEntryErrors errors)

/-- `validate_transaction_log`; `none` is a panic. -/
def validateTransactionLog (log : FileTransactionLog Path) (text : List Char) :
    Option (Except (ValidateLogError Path) Unit) :=
  (log.read text).map fun entries =>
    match entries with
    | .error error => .error (.transactionError error)
    | .ok entries => validateEntries entries

def Accepted (log : FileTransactionLog Path) (text : List Char) : Prop :=
  validateTransactionLog log text = some (.ok ())

theorem validateEntries_iff {entries : List (LogEntry Path)} :
    validateEntries entries = .ok () ↔
      entries.foldlM validateEntry ([], []) = .ok ([], []) := by
  unfold validateEntries
  rcases entries.foldlM validateEntry ([], []) with error | ⟨_ | _, _ | _⟩ <;>
    simp [Except.bind]

/-- **A file is accepted exactly if its entries leave nothing open.** -/
theorem accepted_written {log : FileTransactionLog Path} {entries : List (LogEntry Path)}
    (hr : ∀ entry ∈ entries, log.ReadableEntry entry) :
    Accepted log (entries.flatMap log.write) ↔
      entries.foldlM validateEntry ([], []) = .ok ([], []) := by
  unfold Accepted validateTransactionLog
  rw [log.read_written hr, Option.map_some, Option.some.injEq]
  exact validateEntries_iff

end Voker.Asset
