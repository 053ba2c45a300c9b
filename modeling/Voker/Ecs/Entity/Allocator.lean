import Voker.Ecs.Entity.FreeList
import Mathlib.Algebra.Order.Group.Multiset
import Mathlib.Tactic.Abel

/-!
# The entity allocator

`EntityAllocator` hands out entity handles.  It prefers recycled ones, kept in the
shared `FreeList`, and otherwise takes fresh ids from a counter.  Two local buffers
of 127 entities amortise the synchronisation: freed entities collect in `local.free`
and are flushed together, and `alloc_mut` refills `local.alloc` in batches of 128.

The functions return `none` where the code panics with *too many entities*.  The
allocator is returned in that case as well, because **the counter has already been
advanced when the check fails** and whoever catches the panic goes on with it.
-/

namespace Voker.Ecs

open List Option Function BitVec

/-! ## Fresh ids -/

/-- `entity_from_u32`: a handle of the first generation, by transmutation. -/
def entityFromU32 (id : BitVec 32) : Entity := ⟨⟨id⟩, EntityTag.first⟩

@[simp]
theorem entityFromU32_id (id : BitVec 32) : (entityFromU32 id).id = ⟨id⟩ := rfl

/-- `FreshAllocator`: the next id that was never used. -/
structure FreshAllocator where
  nextId : BitVec 32
  deriving DecidableEq, Repr

namespace FreshAllocator

/-- `MAX_ENTITIES`, that is `u32::MAX`. -/
def maxEntities : BitVec 32 := allOnes 32

/-- `new`: ids start from 1. -/
def new : FreshAllocator := ⟨1⟩

/-- `alloc`: advance the counter, then check the value it had. -/
def alloc (fresh : FreshAllocator) : Option Entity × FreshAllocator :=
  (if fresh.nextId = maxEntities then none else some (entityFromU32 fresh.nextId),
    ⟨fresh.nextId + 1⟩)

/-- The entities of a `FreshEntityIter` over `count` ids. -/
def freshEntities (start : BitVec 32) (count : ℕ) : List Entity :=
  (range count).map fun k => entityFromU32 (start + BitVec.ofNat 32 k)

/-- `alloc_many`: advance the counter by `count`, then check that the range fits. -/
def allocMany (fresh : FreshAllocator) (count : BitVec 32) :
    Option (List Entity) × FreshAllocator :=
  if count = 0 then (some [], fresh)
  else
    (if maxEntities - count < fresh.nextId then none
      else some (freshEntities fresh.nextId count.toNat), ⟨fresh.nextId + count⟩)

end FreshAllocator

/-! ## The allocator bound to a world -/

/-- `LOCAL_CAP`. -/
def localCap : ℕ := 127

/-- `LocalBuffer`: both vectors hold at most `localCap` entities. -/
structure LocalBuffer where
  free : List Entity
  alloc : List Entity

/-- `SharedAllocator`: what remote allocators can reach as well. -/
structure SharedAllocator where
  free : FreeList
  fresh : FreshAllocator

/-- `EntityAllocator`: the shared part and the local buffers. -/
structure EntityAllocator where
  shared : SharedAllocator
  localBuffer : LocalBuffer

namespace EntityAllocator

/-- `new`: nothing recycled, nothing buffered. -/
def new : EntityAllocator := ⟨⟨FreeList.new, FreshAllocator.new⟩, ⟨[], []⟩⟩

variable (allocator : EntityAllocator)

/-- `flush_freed`: hand the local free buffer over to the shared list. -/
def flushFreed : EntityAllocator :=
  { shared := { allocator.shared with
      free := allocator.shared.free.free allocator.localBuffer.free }
    localBuffer := { allocator.localBuffer with free := [] } }

/-- Append one entity to the local free buffer. -/
def pushFree (entity : Entity) : EntityAllocator :=
  { allocator with
    localBuffer := { allocator.localBuffer with
      free := allocator.localBuffer.free ++ [entity] } }

/-- `free`: flush first when the local buffer is full. -/
def free (entity : Entity) : EntityAllocator :=
  if allocator.localBuffer.free.length = localCap then
    allocator.flushFreed.pushFree entity
  else allocator.pushFree entity

/-- `free_many`: buffer the entities when they fit, otherwise free them directly. -/
def freeMany (entities : List Entity) : EntityAllocator :=
  if entities.length ≤ localCap - allocator.localBuffer.free.length then
    { allocator with
      localBuffer := { allocator.localBuffer with
        free := allocator.localBuffer.free ++ entities } }
  else
    { allocator with
      shared := { allocator.shared with free := allocator.shared.free.free entities } }

/-- `still_need`: how many of `count` entities the recycled ones leave open. -/
def stillNeed (reused : FreeBufferIter) (count : BitVec 32) : BitVec 32 :=
  count - BitVec.ofNat 32 reused.len

/-- The entities and the shared state two allocations leave together.  The recycled
ones are read from the buffer, which no allocation changes. -/
def joinTaken (buffer : FreeBuffer) (reused : FreeBufferIter × FreeList)
    (fresh : Option (List Entity) × FreshAllocator) :
    Option (List Entity × List Entity) × SharedAllocator :=
  (fresh.1.map fun entities => (reused.1.toList buffer, entities), ⟨reused.2, fresh.2⟩)

/-- Take up to `count` recycled entities and the missing ones from the counter: the
common part of `alloc_many` and `alloc_slow`. -/
def takeShared (shared : SharedAllocator) (count : BitVec 32) :
    Option (List Entity × List Entity) × SharedAllocator :=
  joinTaken shared.free.buffer (shared.free.allocMany count.toNat)
    (shared.fresh.allocMany (stillNeed (shared.free.allocMany count.toNat).1 count))

/-- Return the first of the taken entities and buffer the others. -/
def bufferTaken (buffer : LocalBuffer)
    (taken : Option (List Entity × List Entity) × SharedAllocator) :
    Option Entity × EntityAllocator :=
  match taken.1 with
  | some (entity :: reused, fresh) =>
    (some entity, ⟨taken.2, { buffer with alloc := buffer.alloc ++ reused ++ fresh }⟩)
  | some ([], entity :: fresh) =>
    (some entity, ⟨taken.2, { buffer with alloc := buffer.alloc ++ fresh }⟩)
  | some ([], []) => (none, ⟨taken.2, buffer⟩)
  | none => (none, ⟨taken.2, buffer⟩)

/-- `alloc_slow`: fetch 128 entities, one to return and the others to buffer. -/
def allocSlow : Option Entity × EntityAllocator :=
  bufferTaken allocator.localBuffer
    (takeShared allocator.shared (BitVec.ofNat 32 (localCap + 1)))

/-- `alloc_mut`: the local buffer first. -/
def allocMut : Option Entity × EntityAllocator :=
  match allocator.localBuffer.alloc.getLast? with
  | some entity =>
    (some entity, { allocator with
      localBuffer := { allocator.localBuffer with
        alloc := allocator.localBuffer.alloc.dropLast } })
  | none => allocator.allocSlow

/-- `unwrap_or_else`: the counter is asked only when nothing was recycled. -/
def orFresh (reused : Option Entity × FreeList) (fresh : FreshAllocator) :
    Option Entity × SharedAllocator :=
  match reused.1 with
  | some entity => (some entity, ⟨reused.2, fresh⟩)
  | none => (fresh.alloc.1, ⟨reused.2, fresh.alloc.2⟩)

/-- Put the shared part an operation leaves behind back into the allocator. -/
def withShared {β : Type} (taken : Option β × SharedAllocator) : Option β × EntityAllocator :=
  (taken.1, { allocator with shared := taken.2 })

/-- `alloc`: a recycled entity if there is one, else a fresh one. -/
def alloc : Option Entity × EntityAllocator :=
  allocator.withShared (orFresh allocator.shared.free.alloc allocator.shared.fresh)

/-- `alloc_many`: the entities its iterator yields, recycled ones first. -/
def allocMany (count : BitVec 32) : Option (List Entity) × EntityAllocator :=
  let taken := takeShared allocator.shared count
  (taken.1.map fun entities => entities.1 ++ entities.2, { allocator with shared := taken.2 })

end EntityAllocator

/-! ## What the counter hands out -/

namespace FreshAllocator

/-- The ids below the counter: everything ever issued. -/
def issued (next : ℕ) : Multiset EntityId :=
  ((range' 1 (next - 1)).map fun k => (⟨BitVec.ofNat 32 k⟩ : EntityId) : List EntityId)

/-- Ids are issued one after the other. -/
theorem issued_add {next c : ℕ} (pos : 1 ≤ next) : issued (next + c) =
      issued next + ((range' next c).map fun k => (⟨BitVec.ofNat 32 k⟩ : EntityId) :
        List EntityId) := by
  rw [issued, issued, Multiset.coe_add, ← map_append,
    show next + c - 1 = next - 1 + c by omega, ← List.range'_append_1,
    show 1 + (next - 1) = next by omega]

@[simp]
theorem card_issued (next : ℕ) : (issued next).card = next - 1 := by
  simp [issued]

/-- The ids with consecutive indices that stay inside `u32`. -/
theorem mem_ids {s c : ℕ} (hf : s + c ≤ 2 ^ 32) (id : EntityId) :
    id ∈ ((range' s c).map fun k => (⟨BitVec.ofNat 32 k⟩ : EntityId)) ↔
      s ≤ id.index ∧ id.index < s + c := by
  rw [List.mem_map]
  constructor
  · rintro ⟨k, mem, rfl⟩
    rw [mem_range'_1] at mem
    rw [EntityId.index, BitVec.toNat_ofNat, Nat.mod_eq_of_lt (by omega)]
    exact mem
  · intro hr
    refine ⟨id.index, mem_range'_1.mpr hr, ?_⟩
    rw [EntityId.index, BitVec.ofNat_toNat, BitVec.setWidth_eq]

theorem nodup_ids {s c : ℕ} (hf : s + c ≤ 2 ^ 32) :
    ((range' s c).map fun k => (⟨BitVec.ofNat 32 k⟩ : EntityId)).Nodup := by
  refine List.Nodup.map_on ?_ nodup_range'
  intro a hma b hmb hs
  rw [mem_range'_1] at hma hmb
  have raw := congrArg (fun id : EntityId => id.bits.toNat) hs
  simp only [BitVec.toNat_ofNat] at raw
  rwa [Nat.mod_eq_of_lt (by omega), Nat.mod_eq_of_lt (by omega)] at raw

/-- The ids of a fresh range, as long as the range stays inside `u32`. -/
theorem freshEntities_ids (s : BitVec 32) (c : ℕ) :
    (freshEntities s c).map Entity.id =
      (List.range' s.toNat c).map fun k => (⟨BitVec.ofNat 32 k⟩ : EntityId) := by
  rw [freshEntities, List.range'_eq_map_range, List.map_map, List.map_map]
  apply map_congr_left
  intro k _
  simp only [comp_apply, entityFromU32_id, EntityId.mk.injEq]
  rw [BitVec.ofNat_add, BitVec.ofNat_toNat, BitVec.setWidth_eq]

/-- `alloc` fails exactly at the last id. -/
theorem alloc_eq (f : FreshAllocator) : f.alloc =
      (if f.nextId.toNat + 1 < 2 ^ 32 then some (entityFromU32 f.nextId) else none,
        ⟨f.nextId + 1⟩) := by
  have hr : f.nextId = maxEntities ↔ ¬ f.nextId.toNat + 1 < 2 ^ 32 := by
    rw [← BitVec.toNat_inj, maxEntities, BitVec.toNat_allOnes]
    omega
  by_cases hl : f.nextId = maxEntities
  · rw [alloc, if_pos hl, if_neg (hr.mp hl)]
  · rw [alloc, if_neg hl, if_pos (not_not.mp (mt hr.mpr hl))]

/-- `alloc_many` fails exactly when a nonempty range would reach `u32::MAX`. -/
theorem allocMany_eq (f : FreshAllocator) (c : BitVec 32) : f.allocMany c =
      (if c.toNat = 0 ∨ f.nextId.toNat + c.toNat < 2 ^ 32 then
          some (freshEntities f.nextId c.toNat)
        else none, ⟨f.nextId + c⟩) := by
  by_cases hz : c = 0
  · subst hz
    simp [allocMany, freshEntities]
  · have pos : c.toNat ≠ 0 := fun hs => hz (BitVec.eq_of_toNat_eq hs)
    have hr : maxEntities - c < f.nextId ↔
        ¬ f.nextId.toNat + c.toNat < 2 ^ 32 := by
      rw [lt_def, toNat_sub_of_le (by
        rw [le_def, maxEntities, toNat_allOnes]; omega), maxEntities,
        toNat_allOnes]
      omega
    rw [allocMany, if_neg hz]
    by_cases out : maxEntities - c < f.nextId
    · rw [if_pos out, if_neg (not_or.mpr ⟨pos, hr.mp out⟩)]
    · rw [if_neg out, if_pos (.inr (not_not.mp (mt hr.mpr out)))]

end FreshAllocator

end Voker.Ecs
