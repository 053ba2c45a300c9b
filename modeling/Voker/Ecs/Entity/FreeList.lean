import Voker.Foundation.BitFields
import Voker.Foundation.Runs
import Voker.Ecs.Entity.Ident

/-!
# The shared free list

Recycled entities wait in a `FreeList`: a chunked table of entities (`FreeBuffer`)
together with one packed atomic word (`FreeCountState`) that holds the number of
entities in it, a flag that blocks remote allocation, and a generation counter.

The buffer is laid out in 24 chunks of capacities `512, 512, 1024, 2048, …`, the
chunk of an index being read off its leading bit.  The two facts the rest of the
development needs hide that layout again: **writing a slice and then reading an
index is an ordinary array update** (`get_setSlice`), and **iterating over a
range of indices visits its slots in order** (`FreeBuffer.iter_toList`).

The packed word is described through its three fields: every operation of
`FreeCountState` is characterised by what it does to the 33-bit length field, the
disabling bit and the 30-bit generation.
-/

namespace Voker.Ecs

open Nat hiding bit
open Foundation Foundation.BitFields List Option Function

/-! ## Chunks -/

/-- `Chunk`: a possibly null pointer to an array of entities.  The capacity is
known to the buffer only. -/
structure Chunk where
  head : Option (ℕ → Entity)

namespace Chunk

/-- `new`: a null pointer. -/
def new : Chunk := ⟨none⟩

/-- `alloc`: a fresh array is filled with placeholders. -/
def alloc : ℕ → Entity := fun _ => Entity.placeholder

variable (chunk : Chunk)

/-- The memory behind the pointer.  Null chunks are never read by the code; here
they read as a freshly allocated array. -/
def slots : ℕ → Entity := chunk.head.getD alloc

/-- `get`: the entity at an index of the chunk. -/
def get (index : ℕ) : Entity := chunk.slots index

/-- `get_slice`: at most `required` entities, stopping at the end of the chunk. -/
def getSlice (index required capacity : ℕ) : List Entity :=
  (range (min (capacity - index) required)).map fun k => chunk.get (index + k)

/-- `set_slice`: store as many entities as fit behind `index`, allocating the
chunk first when needed, and return how many were stored. -/
def setSlice (index : ℕ) (entities : List Entity) (capacity : ℕ) : Chunk × ℕ :=
  let len := min (capacity - index) entities.length
  (⟨some fun slot =>
      if index ≤ slot ∧ slot < index + len then
        entities.getD (slot - index) Entity.placeholder
      else chunk.slots slot⟩, len)

@[simp]
theorem setSlice_snd (i : ℕ) (e : List Entity) (c : ℕ) :
    (chunk.setSlice i e c).2 = min (c - i) e.length := rfl

end Chunk

/-! ## The chunked buffer -/

/-- `FreeBuffer`: 24 chunks of exponentially increasing capacity. -/
structure FreeBuffer where
  chunks : ℕ → Chunk

/-- `u32::leading_zeros`. -/
def leadingZeros (n : ℕ) : ℕ := if n = 0 then 32 else 31 - log2 n

namespace FreeBuffer

/-- `NUM_CHUNKS`. -/
def numChunks : ℕ := 24

/-- `NUM_SKIPPED`. -/
def numSkipped : ℕ := 32 - numChunks

/-- `new`: no chunk is allocated. -/
def new : FreeBuffer := ⟨fun _ => Chunk.new⟩

/-- The exponent of a chunk's capacity; the first two chunks have the same. -/
def capacityBit (chunkIndex : ℕ) : ℕ :=
  (if chunkIndex = 0 then 1 else chunkIndex) + numSkipped

/-- `chunck_capacity`: `512, 512, 1024, 2048, …`. -/
def chunckCapacity (chunkIndex : ℕ) : ℕ := 2 ^ capacityBit chunkIndex

/-- The chunk part of `chunk_with_index`, read off the leading bit. -/
def chunkIndex (fullIndex : ℕ) : ℕ := (numChunks - 1) - leadingZeros fullIndex

/-- The index part of `chunk_with_index`: the capacity's bit is cleared. -/
def indexInChunk (fullIndex : ℕ) : ℕ :=
  (BitVec.ofNat 32 fullIndex &&& ~~~ bit 32 (capacityBit (chunkIndex fullIndex))).toNat

/-- `get`: the entity at a global index. -/
def get (buffer : FreeBuffer) (fullIndex : ℕ) : Entity :=
  (buffer.chunks (chunkIndex fullIndex)).get (indexInChunk fullIndex)

/-- Replace one chunk. -/
def setChunk (buffer : FreeBuffer) (index : ℕ) (chunk : Chunk) : FreeBuffer :=
  ⟨update buffer.chunks index chunk⟩

/-- The loop of `set_slice`: fill chunk after chunk until no entity is left.
Every round stores at least one entity, so the number of entities bounds the
number of rounds. -/
def setSliceLoop : ℕ → FreeBuffer → ℕ → List Entity → FreeBuffer
  | 0, buffer, _, _ => buffer
  | rounds + 1, buffer, fullIndex, entities =>
    if entities.isEmpty then buffer
    else
      let stored := (buffer.chunks (chunkIndex fullIndex)).setSlice
        (indexInChunk fullIndex) entities (chunckCapacity (chunkIndex fullIndex))
      setSliceLoop rounds (buffer.setChunk (chunkIndex fullIndex) stored.1)
        (fullIndex + stored.2) (entities.drop stored.2)

/-- `set_slice`: store the entities from `fullIndex` on. -/
def setSlice (buffer : FreeBuffer) (fullIndex : ℕ) (entities : List Entity) : FreeBuffer :=
  setSliceLoop entities.length buffer fullIndex entities

/-! ### The layout -/

variable {full : ℕ}

theorem chunkIndex_lt (full : ℕ) : chunkIndex full < numChunks := by
  unfold chunkIndex numChunks
  omega

/-- The first global index of a chunk. -/
def chunkStart (index : ℕ) : ℕ := if index = 0 then 0 else chunckCapacity index

section

variable (fits : full < 2 ^ 32)

include fits

theorem chunkIndex_eq : chunkIndex full = log2 full - 8 := by
  unfold chunkIndex leadingZeros numChunks
  split
  · next hz => simp [hz]
  · next hn =>
    have hb : log2 full < 32 := (log2_lt hn).mpr fits
    omega

/-- An index is below twice the capacity of its chunk. -/
theorem lt_two_mul_capacity : full < 2 ^ (capacityBit (chunkIndex full) + 1) := by
  by_cases hz : full = 0
  · rw [hz]
    exact Nat.two_pow_pos _
  · rw [← log2_lt hz, chunkIndex_eq fits]
    unfold capacityBit numSkipped numChunks
    split <;> omega

theorem indexInChunk_eq : indexInChunk full = full % chunckCapacity (chunkIndex full) := by
  have raw : (BitVec.ofNat 32 full).toNat = full := by
    rw [BitVec.toNat_ofNat, mod_eq_of_lt fits]
  have hiw : capacityBit (chunkIndex full) < 32 := by
    have := chunkIndex_lt full
    unfold numChunks at this
    unfold capacityBit numSkipped numChunks
    split <;> omega
  rw [indexInChunk, toNat_and_not_bit _ hiw (by rw [raw]; exact lt_two_mul_capacity fits),
    raw, chunckCapacity]

/-- The layout inverted: a chunk and a position in it determine the global index. -/
theorem chunkStart_add_indexInChunk : chunkStart (chunkIndex full) + indexInChunk full = full := by
  have hu := lt_two_mul_capacity fits
  rw [indexInChunk_eq fits]
  unfold chunkStart
  split
  · next one =>
    have hs : full < 2 ^ 9 := by
      by_cases hz : full = 0
      · omega
      · rw [← log2_lt hz]
        rw [chunkIndex_eq fits] at one
        omega
    have hc : chunckCapacity (chunkIndex full) = 2 ^ 9 := by
      rw [one]
      rfl
    rw [hc, mod_eq_of_lt hs, zero_add]
  · next hla =>
    have hn : full ≠ 0 := by
      rintro rfl
      exact hla rfl
    have he : capacityBit (chunkIndex full) = log2 full := by
      rw [chunkIndex_eq fits] at hla ⊢
      unfold capacityBit numSkipped numChunks
      split <;> omega
    have hl : chunckCapacity (chunkIndex full) ≤ full := by
      rw [chunckCapacity, he]
      exact log2_self_le hn
    rw [mod_eq_sub_mod hl, mod_eq_of_lt]
    · omega
    · unfold chunckCapacity at hl ⊢
      omega

theorem indexInChunk_lt : indexInChunk full < chunckCapacity (chunkIndex full) := by
  rw [indexInChunk_eq fits]
  exact Nat.mod_lt _ (Nat.two_pow_pos _)

/-- The indices from a chunk's start up to its capacity all lie in that chunk. -/
theorem chunkIndex_of_mem {i : ℕ} (hl : chunkStart i ≤ full)
    (hu : full < chunkStart i + chunckCapacity i) : chunkIndex full = i := by
  rw [chunkIndex_eq fits]
  unfold chunkStart chunckCapacity capacityBit numSkipped numChunks at hl hu
  by_cases one : i = 0
  · subst one
    by_cases hz : full = 0
    · simp [hz]
    · have hb : log2 full < 9 := (log2_lt hz).mpr (by simpa using hu)
      omega
  · simp only [one, if_false] at hl hu
    have hn : full ≠ 0 := by
      omega
    have hle : log2 full = i + 8 := (log2_eq_iff hn).mpr ⟨hl, by
        change full < 2 ^ (i + (32 - 24)) * 2
        omega⟩
    omega

end

/-- Moving forward inside a chunk moves the index in the chunk. -/
theorem chunkIndex_add {o : ℕ} (fits : full + o < 2 ^ 32)
    (hin : o < chunckCapacity (chunkIndex full) - indexInChunk full) :
    chunkIndex (full + o) = chunkIndex full := by
  have pos := chunkStart_add_indexInChunk (show full < 2 ^ 32 by omega)
  exact chunkIndex_of_mem fits (by omega) (by omega)

theorem indexInChunk_add {o : ℕ} (fits : full + o < 2 ^ 32)
    (hin : o < chunckCapacity (chunkIndex full) - indexInChunk full) :
    indexInChunk (full + o) = indexInChunk full + o := by
  have he := chunkStart_add_indexInChunk (show full < 2 ^ 32 by omega)
  have ht := chunkStart_add_indexInChunk fits
  rw [chunkIndex_add fits hin] at ht
  omega

/-! ### Writing and reading -/

/-- One round of `set_slice` updates exactly the indices it stores. -/
theorem get_setChunk_setSlice (buffer : FreeBuffer) {slot : ℕ} (e : List Entity)
    (fits : full < 2 ^ 32) (hsf : slot < 2 ^ 32) :
    let chunk := buffer.chunks (chunkIndex full)
    let hst := chunk.setSlice (indexInChunk full) e
      (chunckCapacity (chunkIndex full))
    (buffer.setChunk (chunkIndex full) hst.1).get slot =
      if full ≤ slot ∧ slot < full + hst.2 then
        e.getD (slot - full) Entity.placeholder
      else buffer.get slot := by
  intro chunk hst
  have he := chunkStart_add_indexInChunk fits
  have ht := chunkStart_add_indexInChunk hsf
  have hro : hst.2 ≤ chunckCapacity (chunkIndex full) - indexInChunk full :=
    min_le_left _ _
  by_cases hs : chunkIndex slot = chunkIndex full
  · have hsh : slot - full = indexInChunk slot - indexInChunk full := by
      rw [hs] at ht
      omega
    have hr : (full ≤ slot ∧ slot < full + hst.2) ↔
        (indexInChunk full ≤ indexInChunk slot ∧
          indexInChunk slot < indexInChunk full + hst.2) := by
      rw [hs] at ht
      omega
    simp only [get, setChunk, hs, update_self, hr, hsh]
    rfl
  · have ho : ¬ (full ≤ slot ∧ slot < full + hst.2) := by
      rintro ⟨hl, hu⟩
      have hic := chunkIndex_add (show full + (slot - full) < 2 ^ 32 by omega)
        (by omega)
      rw [Nat.add_sub_cancel' hl] at hic
      exact hs hic
    simp only [get, setChunk, update_of_ne hs, if_neg ho]

theorem get_setSliceLoop (r : ℕ) (buffer : FreeBuffer) (full slot : ℕ)
    (entities : List Entity) (enough : entities.length ≤ r)
    (fits : full + entities.length ≤ 2 ^ 32) (hsf : slot < 2 ^ 32) :
    (setSliceLoop r buffer full entities).get slot =
      if full ≤ slot ∧ slot < full + entities.length then
        entities.getD (slot - full) Entity.placeholder
      else buffer.get slot := by
  induction r generalizing buffer full entities with
  | zero =>
    have hn : entities = [] := eq_nil_of_length_eq_zero (by omega)
    subst hn
    have ho : ¬ (full ≤ slot ∧ slot < full + 0) := by omega
    simp only [setSliceLoop, length_nil, if_neg ho]
  | succ r ih =>
    by_cases he : entities = []
    · subst he
      have ho : ¬ (full ≤ slot ∧ slot < full + 0) := by omega
      simp only [setSliceLoop, isEmpty_nil, if_true, length_nil, if_neg ho]
    · have pos : 0 < entities.length := length_pos_of_ne_nil he
      have her : full < 2 ^ 32 := by omega
      have hro := indexInChunk_lt her
      have round := get_setChunk_setSlice buffer entities her hsf
      have hie : entities.isEmpty = false := by simpa using he
      simp only [setSliceLoop, hie, Bool.false_eq_true, if_false]
      simp only [Chunk.setSlice_snd] at round ⊢
      -- the round stores `len` entities, the loop the rest behind them
      obtain ⟨len, hld⟩ : ∃ len, len = min (chunckCapacity (chunkIndex full) -
        indexInChunk full) entities.length := ⟨_, rfl⟩
      simp only [← hld] at round ⊢
      rw [ih _ _ _ (by rw [length_drop]; omega) (by rw [length_drop]; omega), length_drop, round]
      by_cases ht : full + len ≤ slot ∧ slot < full + entities.length
      · rw [if_pos (by omega), if_pos (by omega), getD_eq_getElem?_getD,
          getD_eq_getElem?_getD, getElem?_drop,
          show len + (slot - (full + len)) = slot - full by omega]
      · rw [if_neg (by omega)]
        by_cases one : full ≤ slot ∧ slot < full + len
        · rw [if_pos one, if_pos (by omega)]
        · rw [if_neg one, if_neg (by omega)]

/-- **Writing a slice is an array update.** -/
theorem get_setSlice (buffer : FreeBuffer) {slot : ℕ} (e : List Entity)
    (fits : full + e.length ≤ 2 ^ 32) (hsf : slot < 2 ^ 32) :
    (buffer.setSlice full e).get slot =
      if full ≤ slot ∧ slot < full + e.length then
        e.getD (slot - full) Entity.placeholder
      else buffer.get slot :=
  get_setSliceLoop _ buffer _ _ e le_rfl fits hsf

end FreeBuffer

/-! ## Iterating over a range of the buffer -/

/-- `FreeBufferIter`: what is left of the current chunk's slice, and the indices
not yet fetched. -/
structure FreeBufferIter where
  currentIter : List Entity
  start : ℕ
  stop : ℕ

namespace FreeBufferIter

/-- `len`: the number of entities still to come. -/
def len (iter : FreeBufferIter) : ℕ := iter.currentIter.length + (iter.stop - iter.start)

/-- `slow_next`: fetch the slice of the next chunk.  The slice is never empty;
an empty one would be an unchecked unwrap of `None`. -/
def slowNext (buffer : FreeBuffer) (iter : FreeBufferIter) (required : ℕ) :
    Option (Entity × FreeBufferIter) :=
  let slice := (buffer.chunks (FreeBuffer.chunkIndex iter.start)).getSlice
    (FreeBuffer.indexInChunk iter.start) required
    (FreeBuffer.chunckCapacity (FreeBuffer.chunkIndex iter.start))
  match slice with
  | [] => none
  | entity :: rest => some (entity, ⟨rest, iter.start + slice.length, iter.stop⟩)

/-- `next`: the current slice first, then the next chunk. -/
def next (buffer : FreeBuffer) (iter : FreeBufferIter) : Option (Entity × FreeBufferIter) :=
  match iter.currentIter with
  | entity :: rest => some (entity, { iter with currentIter := rest })
  | [] => if iter.stop - iter.start = 0 then none
      else slowNext buffer iter (iter.stop - iter.start)

/-- Call `next` at most `calls` times and collect what it returns. -/
def collect (buffer : FreeBuffer) : ℕ → FreeBufferIter → List Entity
  | 0, _ => []
  | calls + 1, iter =>
    match next buffer iter with
    | none => []
    | some (entity, rest) => entity :: collect buffer calls rest

/-- The entities an iterator yields until it is exhausted. -/
def toList (buffer : FreeBuffer) (iter : FreeBufferIter) : List Entity :=
  collect buffer iter.len iter

/-- What an iterator is about to yield, read off the buffer directly. -/
def pending (buffer : FreeBuffer) (iter : FreeBufferIter) : List Entity :=
  iter.currentIter ++
    (range' iter.start (iter.stop - iter.start)).map buffer.get

section

variable (buffer : FreeBuffer)

/-- The slice of one chunk is the next stretch of the range. -/
theorem getSlice_eq {s r : ℕ} (fits : s + r ≤ 2 ^ 32) :
    (buffer.chunks (FreeBuffer.chunkIndex s)).getSlice (FreeBuffer.indexInChunk s)
        r (FreeBuffer.chunckCapacity (FreeBuffer.chunkIndex s)) =
      (List.range' s (min (FreeBuffer.chunckCapacity (FreeBuffer.chunkIndex s) -
        FreeBuffer.indexInChunk s) r)).map buffer.get := by
  rw [Chunk.getSlice, List.range'_eq_map_range, List.map_map]
  apply map_congr_left
  intro o mem
  rw [mem_range] at mem
  have hir : s + o < 2 ^ 32 := by omega
  rw [comp_apply, FreeBuffer.get, FreeBuffer.chunkIndex_add hir (by omega),
    FreeBuffer.indexInChunk_add hir (by omega)]

/-- `next` yields the head of what is pending and keeps the rest. -/
theorem next_spec (iter : FreeBufferIter) (fits : iter.stop ≤ 2 ^ 32) : match next buffer iter with
    | none => iter.pending buffer = [] | some (e, rest) =>
      iter.pending buffer = e :: rest.pending buffer ∧ rest.stop = iter.stop := by
  obtain ⟨c, s, stop⟩ := iter
  cases c with
  | cons e rest => simp [next, pending]
  | nil =>
    by_cases hd : stop - s = 0
    · simp [next, pending, hd]
    · have hs := getSlice_eq buffer (show s + (stop - s) ≤ 2 ^ 32 by
        simp only at fits; omega)
      have hr := FreeBuffer.indexInChunk_lt (show s < 2 ^ 32 by
        simp only at fits; omega)
      obtain ⟨len, hld⟩ : ∃ len, len = min (FreeBuffer.chunckCapacity
        (FreeBuffer.chunkIndex s) - FreeBuffer.indexInChunk s) (stop - s) :=
        ⟨_, rfl⟩
      rw [← hld] at hs
      obtain ⟨more, rfl⟩ : ∃ more, len = more + 1 := ⟨len - 1, by omega⟩
      have hsp : stop - s = (more + 1) + (stop - (s + (more + 1))) := by omega
      simp only [next, hd, if_false, slowNext, hs, range'_succ, map_cons]
      refine ⟨?_, trivial⟩
      simp only [pending, nil_append, length_cons, length_map,
        length_range']
      rw [hsp, ← range'_append_1, map_append, range'_succ]
      simp

theorem collect_eq_take (c : ℕ) (iter : FreeBufferIter) (fits : iter.stop ≤ 2 ^ 32) :
    collect buffer c iter = (iter.pending buffer).take c := by
  induction c generalizing iter with
  | zero => rfl
  | succ c ih =>
    have hs := next_spec buffer iter fits
    rw [collect]
    cases hst : next buffer iter with
    | none =>
      rw [hst] at hs
      simp [hs]
    | some res =>
      obtain ⟨e, rest⟩ := res
      rw [hst] at hs
      obtain ⟨hpe, hse⟩ := hs
      simp only [hpe, take_succ_cons, ih rest (by omega)]

end

end FreeBufferIter

/-- `iter`: iterate over a range of global indices. -/
def FreeBuffer.iter (_buffer : FreeBuffer) (start stop : ℕ) : FreeBufferIter :=
  ⟨[], start, stop⟩

/-- The entity that one of some slice writes, from older to newer, has last put at an index. -/
def FreeBuffer.lastWritten (writes : List (ℕ × List Entity)) (slot : ℕ) : Option Entity :=
  writes.foldl (fun last write =>
    (if write.1 ≤ slot then write.2[slot - write.1]? else none).or last) none

/-- **Chunks are hidden.**  Every index has its own place; after any slice writes, an index reads as
the entity last written there; and a range is iterated in order. -/
theorem FreeBuffer.reads_exact (buffer : FreeBuffer) :
    (∀ i < 2 ^ 32, chunkIndex i < numChunks ∧ indexInChunk i < chunckCapacity (chunkIndex i) ∧
      ∀ j < 2 ^ 32, chunkIndex i = chunkIndex j → indexInChunk i = indexInChunk j → i = j) ∧
    (∀ writes : List (ℕ × List Entity), (∀ write ∈ writes, write.1 + write.2.length ≤ 2 ^ 32) →
      ∀ slot < 2 ^ 32,
        (writes.foldl (fun buffer write => buffer.setSlice write.1 write.2) buffer).get slot =
          (lastWritten writes slot).getD (buffer.get slot)) ∧
    ∀ start stop calls, stop ≤ 2 ^ 32 → (buffer.iter start stop).collect buffer calls =
      ((range' start (stop - start)).map buffer.get).take calls := by
  refine ⟨fun i fits => ⟨chunkIndex_lt i, indexInChunk_lt fits, fun j hf chunk hin => ?_⟩,
    fun writes => ?_, fun start stop calls fits => FreeBufferIter.collect_eq_take _ _ _ fits⟩
  · rw [← chunkStart_add_indexInChunk fits, chunk, hin, chunkStart_add_indexInChunk hf]
  · induction writes using List.reverseRecOn with
    | nil => exact fun _ _ _ => rfl
    | append_singleton writes write ih =>
      intro fits slot hsf
      have he := ih (fun o mem => fits o (mem_append_left _ mem)) slot hsf
      rw [lastWritten, foldl_append, foldl_append]
      simp only [foldl_cons, foldl_nil]
      rw [get_setSlice _ _ (fits write (by simp)) hsf, he, getD_or]
      split
      · next hi =>
        rw [if_pos hi.1, getD_eq_getElem?_getD, getElem?_eq_getElem (by omega)]
        rfl
      · next ho =>
        split
        · rw [getElem?_eq_none (by omega), getD_none, lastWritten]
        · rw [getD_none, lastWritten]

/-! ## The packed word -/

/-- `FreeCountState`: 33 bits of length, offset by `2 ^ 32`, one disabling bit and
30 bits of generation. -/
structure FreeCountState where
  raw : BitVec 64
  deriving DecidableEq, Repr

namespace FreeCountState

/-- `DISABLING_BIT`: remote allocation waits while it is set. -/
def disablingBit : BitVec 64 := bit 64 33

/-- `LENGTH_MASK`. -/
def lengthMask : BitVec 64 := lowMask 64 33

/-- `LENGTH_0`: the encoding of an empty list.  Smaller length fields are the
trace of allocations that found the list empty. -/
def length0 : BitVec 64 := bit 64 32

/-- `GENERATION_LEAST_BIT`. -/
def generationLeastBit : BitVec 64 := bit 64 34

/-- The three constants as the source writes them. -/
example : lengthMask = (1#64 <<< 32) ||| 0xFFFFFFFF#64 ∧ disablingBit = 1#64 <<< 33 ∧
    length0 = 1#64 <<< 32 ∧ generationLeastBit = 1#64 <<< 34 := by decide

/-- `zero`: empty, enabled, first generation. -/
def zero : FreeCountState := ⟨length0⟩

section

variable (state : FreeCountState)

/-- `length`: a length field below the offset counts as zero. -/
def length : ℕ :=
  (state.raw &&& lengthMask).toNat - length0.toNat

/-- `is_disabled`. -/
def isDisabled : Bool :=
  decide (state.raw &&& disablingBit ≠ 0)

/-- `with_length`: only the length field is replaced. -/
def withLength (length : ℕ) : FreeCountState :=
  ⟨(state.raw &&& ~~~ lengthMask) ||| (BitVec.ofNat 64 length ||| length0)⟩

/-- `encode_generation`: what a pop of `num` entities subtracts. -/
def encodeGeneration (num : ℕ) : BitVec 64 := BitVec.ofNat 64 num ||| generationLeastBit

/-- `pop`: the length goes down by `num` and the generation by one. -/
def pop (num : ℕ) : FreeCountState :=
  ⟨state.raw - encodeGeneration num⟩

/-- The word `disable_for_state` leaves behind. -/
def disable : FreeCountState :=
  ⟨state.raw ||| disablingBit⟩

end

/-! ### The fields -/

/-- The 33-bit length field. -/
def lengthField (state : FreeCountState) : ℕ := state.raw.toNat % 2 ^ 33

/-- The bits above the length field: the disabling bit and the generation. -/
def upperField (state : FreeCountState) : ℕ := state.raw.toNat / 2 ^ 33

/-- The 30-bit generation. -/
def generation (state : FreeCountState) : ℕ := state.upperField / 2

section

variable (state : FreeCountState)

theorem lengthField_lt : state.lengthField < 2 ^ 33 :=
  mod_lt _ (by decide)

theorem raw_eq : state.raw.toNat = state.lengthField + 2 ^ 33 * state.upperField := by
  unfold lengthField upperField
  omega

theorem length_eq : state.length = state.lengthField - 2 ^ 32 := by
  rw [length, lengthMask, toNat_and_lowMask _ (by decide), length0, toNat_bit (by decide),
    lengthField]

theorem isDisabled_eq : state.isDisabled = decide (state.upperField % 2 = 1) := by
  have hf := and_bit_eq_zero_iff state.raw (k := 33) (by decide)
  rw [testBit_eq_decide_div_mod_eq, decide_eq_false_iff_not] at hf
  rw [isDisabled, decide_eq_decide, disablingBit, upperField]
  exact (not_congr hf).trans not_not

@[simp]
theorem isDisabled_disable : state.disable.isDisabled = true := by
  rw [isDisabled, decide_eq_true_iff]
  exact or_bit_and_bit_ne_zero _ (by decide)

end

variable {length num : ℕ}

theorem toNat_encodeGeneration (fits : num < 2 ^ 32) :
    (encodeGeneration num).toNat = 2 ^ 34 + num := by
  have hp : (BitVec.ofNat 64 num).toNat = num := by
    rw [BitVec.toNat_ofNat, mod_eq_of_lt (by omega)]
  rw [encodeGeneration, BitVec.or_comm, toNat_or_of_dvd (k := 34) _ _ (by decide) (by omega),
    hp, generationLeastBit, toNat_bit (by decide)]

section

variable (state : FreeCountState)

section

variable (fits : length < 2 ^ 32)

include fits

theorem raw_withLength :
    (state.withLength length).raw.toNat = state.upperField * 2 ^ 33 + (2 ^ 32 + length) := by
  have hp : (BitVec.ofNat 64 length).toNat = length := by
    rw [BitVec.toNat_ofNat, mod_eq_of_lt (by omega)]
  have low : (BitVec.ofNat 64 length ||| length0).toNat = 2 ^ 32 + length := by
    rw [BitVec.or_comm, toNat_or_of_dvd (k := 32) _ _ (by decide) (by omega), hp,
      length0, toNat_bit (by decide)]
  have hi : (state.raw &&& ~~~ lengthMask).toNat = state.upperField * 2 ^ 33 :=
    toNat_and_not_lowMask _ (by decide)
  rw [withLength, toNat_or_of_dvd (k := 33) _ _ (by rw [hi]; exact dvd_mul_left _ _)
    (by omega), hi, low]

/-- `with_length` stores the length and keeps flag and generation. -/
theorem lengthField_withLength : (state.withLength length).lengthField = 2 ^ 32 + length := by
  rw [lengthField, raw_withLength state fits]
  omega

theorem upperField_withLength : (state.withLength length).upperField = state.upperField := by
  rw [upperField, raw_withLength state fits]
  omega

theorem length_withLength : (state.withLength length).length = length := by
  rw [length_eq, lengthField_withLength state fits]
  omega

end

end

section

variable (state : FreeCountState)

section

variable (fits : num < 2 ^ 32)

include fits

section

variable (enough : num ≤ state.lengthField)

include enough

/-- The word after a pop that does not borrow out of the length field. -/
theorem raw_pop : (state.pop num).raw.toNat =
      (state.lengthField - num) + 2 ^ 33 * ((state.upperField + 2 ^ 31 - 2) % 2 ^ 31) := by
  have he := toNat_encodeGeneration fits
  have raw := state.raw_eq
  have hs := state.lengthField_lt
  -- the word may wrap around: the generation is at the top
  rw [pop, BitVec.toNat_sub, he]
  omega

/-- A pop takes its entities off the length field … -/
theorem lengthField_pop : (state.pop num).lengthField = state.lengthField - num := by
  have hs := state.lengthField_lt
  rw [lengthField, raw_pop state fits enough]
  omega

/-- … keeps the flag and moves the generation down by one, modulo `2 ^ 30`. -/
theorem upperField_pop : (state.pop num).upperField = (state.upperField + 2 ^ 31 - 2) % 2 ^ 31 := by
  have hs := state.lengthField_lt
  rw [upperField, raw_pop state fits enough]
  omega

/-- A pop keeps generations and the number of pops in step. -/
theorem generations_pop {pops : ℕ} (pre : (state.upperField + 2 * pops) % 2 ^ 31 = 0) :
    ((state.pop num).upperField + 2 * (pops + 1)) % 2 ^ 31 = 0 := by
  rw [upperField_pop state fits enough]
  omega
end

end

end

end FreeCountState

/-! ## The free list -/

/-- `FreeList`: the buffer and the packed word. -/
structure FreeList where
  buffer : FreeBuffer
  len : FreeCountState

namespace FreeList

/-- `new`: an empty list. -/
def new : FreeList := ⟨FreeBuffer.new, FreeCountState.zero⟩

section

variable (list : FreeList)

/-- `count`: the number of free entities. -/
def count : ℕ := list.len.length

/-- `free`: block remote allocation, append the entities, and store the new
length together with the flag and the generation read before blocking. -/
def free (entities : List Entity) : FreeList :=
  let state := list.len
  let fullIndex := state.length
  ⟨list.buffer.setSlice fullIndex entities,
    state.withLength (fullIndex + entities.length)⟩

/-- `alloc`: pop one entity.  The length goes down also when there is none. -/
def alloc : Option Entity × FreeList :=
  let len := list.len.length
  (if len = 0 then none else some (list.buffer.get (len - 1)),
    { list with len := list.len.pop 1 })

/-- `alloc_many`: pop up to `count` entities from the end of the list. -/
def allocMany (count : ℕ) : FreeBufferIter × FreeList :=
  let len := list.len.length
  (list.buffer.iter (len - count) len, { list with len := list.len.pop count })

/-- The entities of the list, in buffer order. -/
def entities : List Entity :=
  (range list.len.length).map list.buffer.get

end

section

variable (list : FreeList)

@[simp]
theorem len_alloc : list.alloc.2.len = list.len.pop 1 := by
  rw [alloc]

@[simp]
theorem len_allocMany (c : ℕ) : (list.allocMany c).2.len = list.len.pop c := by
  rw [allocMany]

end

section

variable (list : FreeList)

@[simp]
theorem length_entities : list.entities.length = list.len.length := by
  simp [entities]

theorem getElem?_entities (slot : ℕ) : list.entities[slot]? =
      if slot < list.len.length then some (list.buffer.get slot) else none := by
  by_cases hin : slot < list.len.length
  · simp [entities, hin]
  · simp [entities, hin]

/-- `free` appends. -/
theorem entities_free (f : List Entity) (fits : list.len.length + f.length < 2 ^ 32) :
    (list.free f).entities = list.entities ++ f := by
  have hnl : (list.free f).len.length = list.len.length + f.length :=
    FreeCountState.length_withLength _ fits
  apply ext_getElem?
  intro slot
  rw [getElem?_entities, hnl]
  by_cases old : slot < list.len.length
  · rw [if_pos (by omega), getElem?_append_left (by rwa [length_entities]),
      getElem?_entities, if_pos old, free,
      FreeBuffer.get_setSlice _ _ (by omega) (by omega), if_neg (by omega)]
  · rw [getElem?_append_right (by rw [length_entities]; omega), length_entities]
    by_cases hin : slot < list.len.length + f.length
    · rw [if_pos hin, free, FreeBuffer.get_setSlice _ _ (by omega) (by omega),
        if_pos (by omega), getD_eq_getElem?_getD, getElem?_eq_getElem (by omega), getD_some]
    · rw [if_neg hin, getElem?_eq_none (by omega)]

end

end FreeList

/-! ## The packed word over whole runs -/

/-- What changes the word: the owner's calls, and the claim of a remote thread. -/
inductive FreeCall where
  | free (entities : List Entity)
  | alloc
  | allocMany (count : BitVec 32)
  | remoteAlloc

/-- A free list with its history: the entities really stored, the pops beyond them
since the last `free`, and all pops. -/
structure FreeTrace where
  list : FreeList
  stored : ℕ
  overPops : ℕ
  pops : ℕ

namespace FreeTrace

/-- A new list. -/
def new : FreeTrace := ⟨FreeList.new, 0, 0, 0⟩

/-- The history after a pop, if the over-pops stay within the ids issued. -/
def popped (trace : FreeTrace) (issued count : ℕ) (list : FreeList) : Option FreeTrace :=
  if trace.overPops + (count - trace.stored) ≤ issued then
    some ⟨list, trace.stored - count, trace.overPops + (count - trace.stored), trace.pops + 1⟩
  else none

/-- One call, when `issued` ids are issued in all.  An id is stored at most once. -/
def step (issued : ℕ) : FreeCall → FreeTrace → Option FreeTrace
  | .free entities, trace =>
    if trace.stored + entities.length ≤ issued then
      some ⟨trace.list.free entities, trace.stored + entities.length, 0, trace.pops⟩
    else none
  | .alloc, trace => trace.popped issued 1 trace.list.alloc.2
  | .allocMany num, trace => trace.popped issued num.toNat (trace.list.allocMany num.toNat).2
  | .remoteAlloc, trace =>
    -- only a word that shows an entity is exchanged
    if trace.list.count ≠ 0 then
      trace.popped issued 1 { trace.list with len := trace.list.len.pop 1 }
    else none

/-- Each field of the word holds what the history says. -/
structure Isolated (trace : FreeTrace) : Prop where
  field : trace.list.len.lengthField + trace.overPops = 2 ^ 32 + trace.stored
  once : trace.stored = 0 ∨ trace.overPops = 0
  upper : (trace.list.len.upperField + 2 * trace.pops) % 2 ^ 31 = 0

variable {issued : ℕ} {trace next : FreeTrace}

theorem Isolated.length_eq (iso : trace.Isolated) : trace.list.len.length = trace.stored := by
  have hf := iso.field
  have ho := iso.once
  rw [FreeCountState.length_eq]
  omega

theorem Isolated.popped (iso : trace.Isolated) (hif : issued < 2 ^ 32) {c : ℕ}
    (fits : c < 2 ^ 32) {list : FreeList} (hle : list.len = trace.list.len.pop c)
    (hs : trace.popped issued c list = some next) : next.Isolated := by
  rw [FreeTrace.popped, ite_none_right_eq_some, some_inj] at hs
  obtain ⟨hb, rfl⟩ := hs
  have field := iso.field
  have ho := iso.once
  -- the field stays at or above zero, so nothing is borrowed
  have enough : c ≤ trace.list.len.lengthField := by omega
  refine ⟨?_, ?_, ?_⟩
  · simp only [hle, FreeCountState.lengthField_pop _ fits enough]
    omega
  · change trace.stored - c = 0 ∨ trace.overPops + (c - trace.stored) = 0
    omega
  · rw [hle]
    exact FreeCountState.generations_pop _ fits enough iso.upper

theorem isolated_step (hif : issued < 2 ^ 32) (call : FreeCall) (trace next : FreeTrace)
    (iso : trace.Isolated) (hs : step issued call trace = some next) : next.Isolated := by
  cases call with
  | free es =>
    rw [step, ite_none_right_eq_some, some_inj] at hs
    obtain ⟨hr, rfl⟩ := hs
    have fits : trace.list.len.length + es.length < 2 ^ 32 := by
      rw [iso.length_eq]
      omega
    refine ⟨?_, Or.inr rfl, ?_⟩
    · rw [FreeList.free, FreeCountState.lengthField_withLength _ fits, iso.length_eq]
      rfl
    · rw [FreeList.free, FreeCountState.upperField_withLength _ fits]
      exact iso.upper
  | alloc => exact iso.popped hif (by decide) (FreeList.len_alloc _) hs
  | allocMany c => exact iso.popped hif c.isLt (FreeList.len_allocMany _ _) hs
  | remoteAlloc =>
    rw [step, ite_none_right_eq_some] at hs
    exact iso.popped hif (by decide) rfl hs.2

/-- **The length never leaves its field.**  Over-pops sink it below its offset by exactly their
number; the flag stays down and the generation counts the pops. -/
theorem run_isolated (idsFit : issued < 2 ^ 32) (calls : List FreeCall)
    (ran : run (step issued) calls new = some trace) :
    trace.list.len.lengthField + trace.overPops = 2 ^ 32 + trace.stored ∧
      (trace.stored = 0 ∨ trace.overPops = 0) ∧ trace.list.len.length = trace.stored ∧
      trace.list.len.isDisabled = false ∧
      (trace.list.len.generation + trace.pops) % 2 ^ 30 = 0 := by
  have iso : trace.Isolated :=
    run_invariant (isolated_step idsFit) ⟨by decide, by decide, by decide⟩ ran
  have hu := iso.upper
  refine ⟨iso.field, iso.once, iso.length_eq, ?_, ?_⟩
  · rw [FreeCountState.isDisabled_eq, decide_eq_false_iff_not]
    omega
  · rw [FreeCountState.generation]
    omega

theorem run_isolated_overPopped :
    ∃ trace, run (step 4) [.allocMany 4, .free [⟨⟨1⟩, .first⟩], .remoteAlloc, .alloc] new =
        some trace ∧ trace.list.len.length = trace.stored :=
  exists_of_isSome rfl fun _ ran => (run_isolated (by decide) _ ran).2.2.1

end FreeTrace

end Voker.Ecs
