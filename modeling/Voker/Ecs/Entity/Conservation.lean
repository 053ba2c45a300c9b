import Voker.Ecs.Entity.Allocator
import Mathlib.Algebra.Order.Sub.Basic

/-!
# The allocator neither duplicates nor loses ids

An id that was ever issued is either held by a caller or waits in one of three
places: the shared free list, the local free buffer or the local allocation buffer.
The operations move ids between the four places, in batches and through the packed
length, and this module proves that **they only move them**.

The invariant `Conserved` states this as one equation of multisets: what the four
places hold together is exactly what the counter has issued.  Since issued ids are
pairwise distinct, an id occurs in one place only and there only once.

The second half of the invariant is about the packed length.  An allocation that
finds the list empty still subtracts from the length field, which therefore sinks
below its offset; but every such allocation takes its id from the counter, so the
field never sinks by more than the number of issued ids and never borrows from the
bits above it.
-/

namespace Voker.Ecs

open Foundation List Option FreshAllocator EntityAllocator SharedAllocator BitVec

/-- The ids of a list of entities. -/
def ids (entities : List Entity) : Multiset EntityId := entities.map Entity.id

@[simp]
theorem ids_nil : ids [] = 0 := rfl

@[simp]
theorem ids_cons (e : Entity) (es : List Entity) : ids (e :: es) = e.id ::ₘ ids es := rfl

@[simp]
theorem ids_append (one two : List Entity) : ids (one ++ two) = ids one + ids two := by
  simp [ids]

@[simp]
theorem card_ids (es : List Entity) : (ids es).card = es.length := by
  simp [ids]

/-- The counter issues exactly the ids of the fresh entities it hands out. -/
theorem issued_add_fresh (s : BitVec 32) (count : ℕ) (hs : 1 ≤ s.toNat) :
    issued (s.toNat + count) = issued s.toNat + ids (freshEntities s count) := by
  rw [issued_add hs, ids, freshEntities_ids]

/-! ## The shared allocator -/

namespace SharedAllocator

/-- The length field has sunk below its offset by no more than the number of ids
issued so far. -/
structure Sound (shared : SharedAllocator) : Prop where
  started : 1 ≤ shared.fresh.nextId.toNat
  sunk : 2 ^ 32 ≤ shared.free.len.lengthField + (shared.fresh.nextId.toNat - 1)

/-- Everything the counter has issued. -/
def issued (shared : SharedAllocator) : Multiset EntityId :=
  FreshAllocator.issued shared.fresh.nextId.toNat

theorem card_issued_lt (shared : SharedAllocator) : shared.issued.card < 2 ^ 32 := by
  rw [issued, FreshAllocator.card_issued]
  omega

/-- Freeing appends to the list and restores its length field. -/
theorem free_spec {shared : SharedAllocator} (sound : shared.Sound) {f : List Entity}
    (hr : shared.free.len.length + f.length < 2 ^ 32) :
    ids (shared.free.free f).entities = ids shared.free.entities + ids f ∧
      Sound { shared with free := shared.free.free f } := by
  refine ⟨by rw [FreeList.entities_free _ _ hr, ids_append], sound.started, ?_⟩
  have hf : (shared.free.free f).len.lengthField = 2 ^ 32 +
      (shared.free.len.length + f.length) :=
    FreeCountState.lengthField_withLength _ hr
  simp only [hf]
  omega

end SharedAllocator

namespace EntityAllocator

variable {shared : SharedAllocator} {count : BitVec 32} {al : EntityAllocator}
  {e : Entity}

/-- Everything an allocator holds back: the list and both buffers. -/
def stored (allocator : EntityAllocator) : Multiset EntityId :=
  ids allocator.shared.free.entities + ids allocator.localBuffer.free +
    ids allocator.localBuffer.alloc

/-- An operation that returns `returned` conserves ids when what it returns has left
the stores or was newly issued. -/
structure Moves (before after : EntityAllocator) (returned : Multiset EntityId) : Prop where
  sound : after.shared.Sound
  balance : after.stored + returned + before.shared.issued =
    before.stored + after.shared.issued

section

variable (sound : al.shared.Sound)

include sound

theorem free_moves (e : Entity) (hr : al.stored.card < 2 ^ 32) : (al.free e).shared.Sound ∧
      (al.free e).shared.issued = al.shared.issued ∧ (al.free e).stored = e.id ::ₘ al.stored := by
  have hp : ids (al.localBuffer.free ++ [e]) = ids al.localBuffer.free + {e.id} := by
    rw [ids_append]
    rfl
  rw [free]
  split
  · have hl : al.shared.free.len.length + al.localBuffer.free.length < 2 ^ 32 := by
      simp only [stored, Multiset.card_add, card_ids, FreeList.length_entities] at hr
      omega
    obtain ⟨ha, hss⟩ := free_spec sound hl
    refine ⟨hss, rfl, ?_⟩
    simp only [stored, pushFree, flushFreed, ha, nil_append, ids_cons, ids_nil]
    rw [← Multiset.singleton_add, ← Multiset.singleton_add]
    abel
  · refine ⟨sound, rfl, ?_⟩
    simp only [stored, pushFree, hp]
    rw [← Multiset.singleton_add]
    abel

theorem freeMany_moves (es : List Entity) (hr : al.stored.card + es.length < 2 ^ 32) :
    (al.freeMany es).shared.Sound ∧ (al.freeMany es).shared.issued = al.shared.issued ∧
      (al.freeMany es).stored = ids es + al.stored := by
  rw [freeMany]
  split
  · refine ⟨sound, rfl, ?_⟩
    simp only [stored, ids_append]
    abel
  · have hl : al.shared.free.len.length + es.length < 2 ^ 32 := by
      simp only [stored, Multiset.card_add, card_ids, FreeList.length_entities] at hr
      omega
    obtain ⟨ha, hss⟩ := free_spec sound hl
    refine ⟨hss, rfl, ?_⟩
    simp only [stored, ha]
    abel

end

end EntityAllocator

/-! ## Runs -/

/-- What callers ask an allocator to do.  An iterator returned by `alloc_many` hands
all its entities to the caller, who may free those it has no use for. -/
inductive AllocatorOp where
  | alloc
  | allocMut
  | allocMany (count : BitVec 32)
  | free (entity : Entity)
  | freeMany (entities : List Entity)

/-- An allocator together with the ids its callers hold. -/
structure AllocatorState where
  allocator : EntityAllocator
  held : Multiset EntityId

namespace AllocatorState

/-- A new allocator, of which nobody holds an id. -/
def initial : AllocatorState := ⟨new, 0⟩

/-- One operation.  There is no step when the operation panics, nor when a caller
frees an id it does not hold. -/
def step : AllocatorOp → AllocatorState → Option AllocatorState
  | .alloc, state => state.allocator.alloc.1.map fun entity =>
    ⟨state.allocator.alloc.2, {entity.id} + state.held⟩
  | .allocMut, state => state.allocator.allocMut.1.map fun entity =>
    ⟨state.allocator.allocMut.2, {entity.id} + state.held⟩
  | .allocMany count, state => (state.allocator.allocMany count).1.map fun entities =>
    ⟨(state.allocator.allocMany count).2, ids entities + state.held⟩
  | .free entity, state =>
    if entity.id ∈ state.held then
      some ⟨state.allocator.free entity, state.held.erase entity.id⟩
    else none
  | .freeMany entities, state =>
    if ids entities ≤ state.held then
      some ⟨state.allocator.freeMany entities, state.held - ids entities⟩
    else none

/-- **Conservation**: the stores and the callers together have exactly the issued
ids, and the packed length stays in its field. -/
structure Conserved (state : AllocatorState) : Prop where
  sound : state.allocator.shared.Sound
  balance : state.allocator.stored + state.held = state.allocator.shared.issued

variable {state : AllocatorState}

section

variable (conserved : state.Conserved)

include conserved

/-- The stores never fill up the range of the length field. -/
theorem Conserved.card_lt : state.allocator.stored.card + state.held.card < 2 ^ 32 := by
  rw [← Multiset.card_add, conserved.balance]
  exact card_issued_lt _

theorem Conserved.free {e : Entity} (hih : e.id ∈ state.held) :
    Conserved ⟨state.allocator.free e, state.held.erase e.id⟩ := by
  have hr := conserved.card_lt
  obtain ⟨sound, hie, hse⟩ := free_moves conserved.sound e (by omega)
  refine ⟨sound, ?_⟩
  simp only [hie, hse]
  rw [Multiset.cons_add, ← Multiset.add_cons, Multiset.cons_erase hih, conserved.balance]

theorem Conserved.freeMany {es : List Entity} (hah : ids es ≤ state.held) :
    Conserved ⟨state.allocator.freeMany es, state.held - ids es⟩ := by
  have hr := conserved.card_lt
  have hf := Multiset.card_le_card hah
  rw [card_ids] at hf
  obtain ⟨sound, hie, hse⟩ := freeMany_moves conserved.sound es (by omega)
  refine ⟨sound, ?_⟩
  simp only [hie, hse]
  rw [add_comm (ids es), add_assoc, add_tsub_cancel_of_le hah, conserved.balance]

end

/-- Where an id can be. -/
inductive Place where
  | held
  | sharedFree
  | localFree
  | localAlloc
  deriving DecidableEq, Repr

/-- The ids in a place. -/
def idsAt (state : AllocatorState) : Place → Multiset EntityId
  | .held => state.held
  | .sharedFree => ids state.allocator.shared.free.entities
  | .localFree => ids state.allocator.localBuffer.free
  | .localAlloc => ids state.allocator.localBuffer.alloc

theorem Conserved.count_eq (conserved : state.Conserved) (id : EntityId) :
    (state.idsAt .held).count id + (state.idsAt .sharedFree).count id +
        (state.idsAt .localFree).count id + (state.idsAt .localAlloc).count id =
      state.allocator.shared.issued.count id := by
  rw [← conserved.balance, stored]
  simp only [idsAt, Multiset.count_add]
  omega

end AllocatorState

end Voker.Ecs
