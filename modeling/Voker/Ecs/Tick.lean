import Mathlib.Data.BitVec

/-!
# Ticks

The world counts time in `u32` ticks that wrap around.  Two ticks are compared by their
ages, seen from a third one.
-/

namespace Voker.Ecs

/-- `Tick`. -/
abbrev Tick := BitVec 32

/-- `CHECK_CYCLE`. -/
def checkCycle : Tick := 1 <<< 29

/-- `MAX_TICK_AGE`. -/
def maxTickAge : Tick := BitVec.allOnes 32 - (checkCycle <<< 1) - 1

namespace Tick

/-- `relative_to`: the age of `other`, seen from `tick`. -/
def relativeTo (tick other : Tick) : Tick := tick - other

/-- The `min` within `is_newer_than`, at the greatest age. -/
def clampAge (age : Tick) : Tick := if age < maxTickAge then age else maxTickAge

/-- `is_newer_than`. -/
def isNewerThan (tick other now : Tick) : Bool :=
  let sinceInsert := clampAge (relativeTo now tick)
  let sinceSystem := clampAge (relativeTo now other)
  sinceInsert < sinceSystem

/-- `check_tick`: a tick that is too old moves to the greatest age. -/
def checkTick (tick now : Tick) : Tick :=
  let age := relativeTo now tick
  let fallback := relativeTo now maxTickAge
  if maxTickAge < age then fallback else tick

/-- The tick is not older than the greatest age. -/
def Within (now tick : Tick) : Prop := relativeTo now tick ≤ maxTickAge

instance (now tick : Tick) : Decidable (Within now tick) :=
  inferInstanceAs (Decidable (_ ≤ _))

theorem within_checkTick (tick now : Tick) : Within now (checkTick tick now) := by
  unfold checkTick Within
  dsimp only
  split
  · have hb : relativeTo now (relativeTo now maxTickAge) = maxTickAge := by
      unfold relativeTo
      rw [sub_sub_cancel]
    rw [hb]
    exact BitVec.le_refl maxTickAge
  · next hy => exact BitVec.not_lt.mp hy

theorem checkTick_eq_self {tick now : Tick} (hw : Within now tick) :
    checkTick tick now = tick :=
  if_neg (BitVec.not_lt.mpr hw)

/-! ## Ticks of true times -/

/-- The tick of a time that does not wrap around. -/
def ofTime (time : ℕ) : Tick := BitVec.ofNat 32 time

@[simp]
theorem toNat_maxTickAge : maxTickAge.toNat = 2 ^ 32 - 2 ^ 30 - 2 := by decide

/-- The age of a tick is the true one, as long as it is less than a whole turn. -/
theorem toNat_relativeTo {time now : ℕ} (hp : time ≤ now) (hr : now - time < 2 ^ 32) :
    (relativeTo (ofTime now) (ofTime time)).toNat = now - time := by
  unfold relativeTo ofTime
  rw [BitVec.toNat_sub, BitVec.toNat_ofNat, BitVec.toNat_ofNat]
  omega

theorem toNat_clampAge (age : Tick) : (clampAge age).toNat = min age.toNat maxTickAge.toNat := by
  unfold clampAge
  split
  · next hy => exact (min_eq_left (Nat.le_of_lt hy)).symm
  · next old => exact (min_eq_right (Nat.le_of_not_lt old)).symm

/-- The fallback of `check_tick` is the tick of the greatest age. -/
theorem relativeTo_maxTickAge {now : ℕ} (hl : maxTickAge.toNat ≤ now) :
    relativeTo (ofTime now) maxTickAge = ofTime (now - maxTickAge.toNat) := by
  apply BitVec.eq_of_toNat_eq
  unfold relativeTo ofTime
  rw [BitVec.toNat_sub, BitVec.toNat_ofNat, BitVec.toNat_ofNat]
  omega

end Tick

end Voker.Ecs
