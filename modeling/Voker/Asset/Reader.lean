import Mathlib.Algebra.Group.Nat.Defs
import Mathlib.Algebra.Ring.Int.Defs
import Voker.Foundation.Runs

/-!
# Readers of bytes in memory

`DataReader`, `VecReader` and `SliceReader` are the same three functions of a slice and a position
in it.  **`read_all_bytes` does not move the position**: what it has read is read again.  And it
reserves what the capacity is short of, while `reserve` counts from the length.
-/

namespace Voker.Asset

open Foundation List

/-- `isize::MAX`. -/
def isizeMax : ℕ := 2 ^ 63 - 1

/-- `Vec<u8>`. -/
structure Buffer where
  bytes : List UInt8
  capacity : ℕ
  fits : bytes.length ≤ capacity

/-- `reserve` guarantees that a capacity results that is as large as asked for, counted from the
length, and no smaller than before. -/
def Buffer.Reserved (buffer : Buffer) (additional capacity : ℕ) : Prop :=
  buffer.capacity ≤ capacity ∧ buffer.bytes.length + additional ≤ capacity

/-- `SeekFrom`; an offset from the start is a `u64`, the others are `i64`. -/
inductive SeekFrom where
  | start (offset : ℕ)
  | current (offset : ℤ)
  | fromEnd (offset : ℤ)

/-- The slice of a reader and its `bytes_read`. -/
structure MemoryReader where
  slice : List UInt8
  bytesRead : ℕ

namespace MemoryReader

variable (self : MemoryReader)

/-- `slice_read`, with what it puts into a buffer of some length. -/
def sliceRead (length : ℕ) : List UInt8 × MemoryReader :=
  if self.slice.length ≤ self.bytesRead then ([], self)
  else
    let src := self.slice.drop self.bytesRead
    let amt := min length src.length
    (src.take amt, { self with bytesRead := self.bytesRead + amt })

/-- Where a seek starts, and its offset. -/
def origin : SeekFrom → ℕ × ℤ
  | .current offset => (self.bytesRead, offset)
  | .start offset => (0, offset)
  | .fromEnd offset => (self.slice.length, offset)

/-- `slice_seek`: the offset, the origin and their sum have to fit into an `i64`. -/
def sliceSeek (pos : SeekFrom) : Option ℕ × MemoryReader :=
  let (origin, offset) := self.origin pos
  if offset < 2 ^ 63 ∧ origin < 2 ^ 63 ∧ origin + offset < 2 ^ 63 ∧ 0 ≤ origin + offset then
    let next := (origin + offset).toNat
    (some next, { self with bytesRead := next })
  else (none, self)

/-- `read_all_bytes`, by `slice_read_internal`: what it reserves and the bytes of the buffer
afterwards, or else `FileTooLarge`. -/
def readAllBytes (buffer : Buffer) : Option (ℕ × List UInt8) :=
  let src := if self.slice.length ≤ self.bytesRead then [] else self.slice.drop self.bytesRead
  let resultLen := src.length + buffer.bytes.length
  if resultLen < isizeMax then some (resultLen - buffer.capacity, buffer.bytes ++ src) else none

/-- What is left to read. -/
def rest : List UInt8 := self.slice.drop self.bytesRead

end MemoryReader

/-- A call of a reader. -/
inductive Call where
  | pollRead (length : ℕ)
  | pollSeek (pos : SeekFrom)
  | readAllBytes (buffer : Buffer)

namespace Call

/-- The reader after a call. -/
def step : Call → MemoryReader → Option MemoryReader
  | .pollRead length, self => some (self.sliceRead length).2
  | .pollSeek pos, self => some (self.sliceSeek pos).2
  | .readAllBytes _, self => some self

/-- A seek that succeeds is at its place; one that fails has left the range. -/
def Sought (self next : MemoryReader) : ℕ × ℤ → Option ℕ → Prop
  | (origin, offset), some reached =>
    reached = origin + offset ∧ next = { self with bytesRead := reached }
  | (origin, offset), none =>
    next = self ∧ (origin + offset < 0 ∨ 2 ^ 63 ≤ max ↑origin (max offset (origin + offset)))

/-- A call does what it does on a cursor over a list of bytes, and there is room for the result. -/
def Exact : Call → MemoryReader → MemoryReader → Prop
  | .pollRead length, self, next => (self.sliceRead length).1 = self.rest.take length ∧
      next = { self with bytesRead := self.bytesRead + min length self.rest.length }
  | .pollSeek (.start offset), self, next =>
    Sought self next (0, offset) (self.sliceSeek (.start offset)).1
  | .pollSeek (.current offset), self, next =>
    Sought self next (self.bytesRead, offset) (self.sliceSeek (.current offset)).1
  | .pollSeek (.fromEnd offset), self, next =>
    Sought self next (self.slice.length, offset) (self.sliceSeek (.fromEnd offset)).1
  | .readAllBytes buffer, self, next =>
    (∃ additional, self.readAllBytes buffer = some (additional, buffer.bytes ++ self.rest) ∧
      ∀ capacity, buffer.Reserved additional capacity →
        (buffer.bytes ++ self.rest).length ≤ capacity) ∧
    next.slice = self.slice ∧ next.rest = []

/-- Nothing is left for `read_all_bytes` to read, and the buffer has less than `isize::MAX`
bytes. -/
def Idle : Call → MemoryReader → MemoryReader → Prop
  | .readAllBytes buffer, self, _ => self.rest = [] ∧ buffer.bytes.length < isizeMax
  | _, _, _ => True

end Call

variable (self : MemoryReader)

theorem sliceRead_eq (l : ℕ) : self.sliceRead l = (self.rest.take l,
    { self with bytesRead := self.bytesRead + min l self.rest.length }) := by
  unfold MemoryReader.sliceRead
  split
  · next hp =>
    have none_left : self.rest = [] := drop_eq_nil_iff.mpr hp
    simp [none_left]
  · exact congrArg (·, _) (take_eq_take_min ..).symm

theorem sought_sliceSeek (pos : SeekFrom) :
    Call.Sought self (self.sliceSeek pos).2 (self.origin pos) (self.sliceSeek pos).1 := by
  unfold MemoryReader.sliceSeek
  obtain ⟨o, of⟩ := self.origin pos
  by_cases hr : of < 2 ^ 63 ∧ o < 2 ^ 63 ∧ o + of < 2 ^ 63 ∧ 0 ≤ o + of
  · simp only [if_pos hr]
    exact ⟨Int.toNat_of_nonneg hr.2.2.2, rfl⟩
  · simp only [if_neg hr]
    refine ⟨rfl, ?_⟩
    omega

theorem exact_pollSeek (next : MemoryReader) (pos : SeekFrom) :
    (Call.pollSeek pos).Exact self next ↔
      Call.Sought self next (self.origin pos) (self.sliceSeek pos).1 := by
  cases pos <;> rw [Call.Exact, MemoryReader.origin]

theorem readAllBytes_eq (buf : Buffer) : self.readAllBytes buf =
    if self.rest.length + buf.bytes.length < isizeMax then
      some (self.rest.length + buf.bytes.length - buf.capacity, buf.bytes ++ self.rest)
    else none := by
  have src : (if self.slice.length ≤ self.bytesRead then [] else self.rest) = self.rest :=
    ite_eq_right_iff.mpr fun hp => (drop_eq_nil_iff.mpr hp).symm
  unfold MemoryReader.readAllBytes
  rw [← MemoryReader.rest, src]

theorem exact_iff (call : Call) (next : MemoryReader) (hs : call.step self = some next) :
    call.Exact self next ↔ call.Idle self next := by
  cases call with
  | pollRead l =>
    cases hs
    exact iff_of_true (by rw [Call.Exact, sliceRead_eq]; exact ⟨rfl, rfl⟩) trivial
  | pollSeek pos =>
    cases hs
    exact iff_of_true ((exact_pollSeek self _ pos).mpr (sought_sliceSeek self pos)) trivial
  | readAllBytes buf =>
    cases hs
    simp only [Call.Exact, Call.Idle, readAllBytes_eq]
    constructor
    · rintro ⟨⟨a, hre, -⟩, -, none_left⟩
      refine ⟨none_left, ?_⟩
      split at hre
      · next hf => exact Nat.lt_of_le_of_lt (Nat.le_add_left ..) hf
      · cases hre
    · rintro ⟨none_left, hf⟩
      rw [none_left, length_nil, Nat.zero_add, if_pos hf, append_nil]
      exact ⟨⟨_, rfl, fun c hr => Nat.le_trans buf.fits hr.1⟩, trivial, rfl⟩

/-- **A reader is a cursor in all calls exactly if each `read_all_bytes` comes when nothing is left
to read.** -/
theorem run_cursor_iff (calls : List Call) :
    EachStep Call.step Call.Exact calls self ↔ EachStep Call.step Call.Idle calls self := by
  induction calls generalizing self with
  | nil => exact Iff.rfl
  | cons call calls ih =>
    exact forall₂_congr fun next hs => and_congr (exact_iff self call next hs) (ih next)

/-- Two of ten bytes are in use and twenty are read: a capacity of fourteen is asked for, and the
next call reads them again. -/
theorem readAllBytes_short_and_repeated :
    let self : MemoryReader := ⟨replicate 20 0, 0⟩
    let b : Buffer := ⟨[0, 0], 10, by decide⟩
    (∃ byt, self.readAllBytes b = some (12, byt) ∧ byt.length = 22) ∧
      b.Reserved 12 14 ∧
      ¬ EachStep Call.step Call.Exact [.readAllBytes b, .readAllBytes b] self := by
  refine ⟨⟨_, rfl, rfl⟩, by unfold Buffer.Reserved; decide, fun he => ?_⟩
  have none_left := (he _ rfl).1.2.2
  cases none_left

end Voker.Asset
