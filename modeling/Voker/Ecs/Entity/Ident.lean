import Mathlib.Data.BitVec

/-!
# Entity handles

An entity handle is an id together with the generation tag the id had when the
handle was issued.  Both halves are raw `u32` words: the allocator builds ids
by transmuting its counter, so nothing but its own bookkeeping keeps an id away
from the reserved values `0` and `u32::MAX`, and tags wrap around.
-/

namespace Voker.Ecs

/-- `EntityId`: the slot number of an entity, a raw `u32`. -/
structure EntityId where
  bits : BitVec 32
  deriving DecidableEq, Repr

namespace EntityId

/-- The row of the entity table an id points to. -/
def index (id : EntityId) : ℕ := id.bits.toNat

theorem index_injective : Function.Injective index := by
  intro a b hs
  cases a
  cases b
  exact congrArg EntityId.mk (BitVec.eq_of_toNat_eq hs)

@[simp]
theorem index_inj {a b : EntityId} : a.index = b.index ↔ a = b :=
  index_injective.eq_iff

end EntityId

/-- `EntityTag`: the generation of a slot, a wrapping `u32`. -/
structure EntityTag where
  bits : BitVec 32
  deriving DecidableEq, Repr

namespace EntityTag

/-- The generation of a slot that was never recycled. -/
def first : EntityTag := ⟨0⟩

/-- `wrapping_add`: the tag that many generations later. -/
def wrappingAdd (tag : EntityTag) (versions : BitVec 32) : EntityTag :=
  ⟨tag.bits + versions⟩

/-- `checked_add`: the later tag, and whether the addition overflowed. -/
def checkedAdd (tag : EntityTag) (versions : BitVec 32) : EntityTag × Bool :=
  (tag.wrappingAdd versions, decide (2 ^ 32 ≤ tag.bits.toNat + versions.toNat))

end EntityTag

/-- `Entity`: an id and the generation it was issued for.  Two handles are the
same entity exactly when both halves agree. -/
@[ext]
structure Entity where
  id : EntityId
  tag : EntityTag
  deriving DecidableEq, Repr

namespace Entity

/-- The handle with all bits set, which fills unused memory. -/
def placeholder : Entity := ⟨⟨BitVec.allOnes 32⟩, ⟨BitVec.allOnes 32⟩⟩

end Entity

end Voker.Ecs
