import Voker.Time.Timer

/-!
# The fixed clock

`run_fixed_main_schedule` adds the time of a frame to the overstep of the fixed clock and runs
`FixedMain` as often as the timestep fits into it.  **No time is lost, and what is left is less
than a step**, whatever the timestep is changed to between frames.
-/

namespace Voker.Time

open Foundation List

/-- `Time`, without its context and the values it caches as floating point numbers. -/
structure Clock where
  wrapPeriod : ℕ
  delta : ℕ
  elapsed : ℕ
  elapsedWrapped : ℕ

/-- `duration_rem`: the remainder is narrowed to `u64`, so a period of more nanoseconds than
that has is not the one at which the clock wraps. -/
def durationRem (dividend divisor : ℕ) : ℕ := dividend % divisor % 2 ^ 64

/-- `advance_by`. -/
def Clock.advanceBy (self : Clock) (delta : ℕ) : Clock :=
  { self with
    delta := delta
    elapsed := self.elapsed + delta
    elapsedWrapped := durationRem (self.elapsed + delta) self.wrapPeriod }

/-- `Time<Fixed>`; `set_timestep` refuses zero. -/
structure FixedClock where
  time : Clock
  timestep : ℕ+
  overstep : ℕ

namespace FixedClock

variable (self : FixedClock)

/-- `accumulate_overstep`. -/
def accumulateOverstep (delta : ℕ) : FixedClock :=
  { self with overstep := self.overstep + delta }

/-- `expend`; `none` is `false`. -/
def expend : Option FixedClock :=
  if self.timestep ≤ self.overstep then some { self with
    overstep := self.overstep - self.timestep
    time := self.time.advanceBy self.timestep }
  else none

/-- The loop over `expend`: at each run of `FixedMain` the generic clock and the fixed one. -/
def runFixedMain (self : FixedClock) : List (Clock × FixedClock) × FixedClock :=
  match _expended : self.expend with
  | none => ([], self)
  | some next =>
    ((next.time, next) :: (runFixedMain next).1, (runFixedMain next).2)
termination_by self.overstep
decreasing_by
  unfold expend at _expended
  split at _expended
  · next enough =>
    cases _expended
    exact Nat.sub_lt (self.timestep.pos.trans_le enough) self.timestep.pos
  · cases _expended

/-- What the clock has to account for. -/
def total : ℕ := self.time.elapsed + self.overstep

/-- **The loop runs as often as the timestep fits, and ends with less than a step.** -/
theorem runFixedMain_spec : self.runFixedMain.2.timestep = self.timestep ∧
    self.runFixedMain.2.overstep = self.overstep % self.timestep ∧
    self.runFixedMain.2.total = self.total ∧
    self.runFixedMain.1.length = self.overstep / self.timestep ∧
    ∀ i e, self.runFixedMain.1[i]? = some e → e.1 = e.2.time ∧
      e.2.time.elapsed = self.time.elapsed + (i + 1) * self.timestep := by
  induction self using runFixedMain.induct with
  | case1 self hs =>
    have few : self.overstep < self.timestep := by
      by_contra hen
      rw [expend, if_pos (Nat.le_of_not_lt hen)] at hs
      cases hs
    rw [runFixedMain, hs]
    exact ⟨rfl, (Nat.mod_eq_of_lt few).symm, rfl, (Nat.div_eq_of_lt few).symm, nofun⟩
  | case2 self next he ih =>
    rw [runFixedMain, he]
    unfold expend at he
    split at he
    · next hen =>
      cases he
      obtain ⟨ht, ho, hto, hco, hc⟩ := ih
      refine ⟨ht, ?_, ?_, ?_, ?_⟩
      · rw [Nat.mod_eq_sub_mod hen]
        exact ho
      · refine hto.trans ?_
        simp only [FixedClock.total, Clock.advanceBy]
        omega
      · rw [Nat.div_eq_sub_div self.timestep.pos hen, ← hco]
        rfl
      · intro i e hf
        cases i with
        | zero =>
          cases hf
          exact ⟨rfl, by simp [Clock.advanceBy]⟩
        | succ i =>
          obtain ⟨hsa, hel⟩ := hc i e hf
          refine ⟨hsa, hel.trans ?_⟩
          rw [Clock.advanceBy, Nat.add_mul (i + 1), Nat.one_mul]
          dsimp only
          omega
    · cases he

end FixedClock

/-- The clocks of a world, and the runs of `FixedMain` in the last frame. -/
structure TimeWorld where
  virtual : Clock
  fixed : FixedClock
  generic : Clock
  ran : List (Clock × FixedClock)

/-- `run_fixed_main_schedule`. -/
def runFixedMainSchedule (world : TimeWorld) : TimeWorld :=
  let (ran, fixed) := (world.fixed.accumulateOverstep world.virtual.delta).runFixedMain
  ⟨world.virtual, fixed, world.virtual, ran⟩

/-- The virtual clock of a frame, and the timestep that is set before it. -/
structure Frame where
  virtual : Clock
  timestep : ℕ+

namespace Frame

/-- A frame, as long as the time fits into a `Duration`. -/
def step (frame : Frame) (world : TimeWorld) : Option TimeWorld :=
  if world.fixed.total + frame.virtual.delta ≤ durationMax then
    some (runFixedMainSchedule { world with
      virtual := frame.virtual
      fixed := { world.fixed with timestep := frame.timestep } })
  else none

/-- What a frame does. -/
structure Exact (frame : Frame) (before after : TimeWorld) : Prop where
  total : after.fixed.total = before.fixed.total + frame.virtual.delta
  overstep : after.fixed.overstep < frame.timestep
  timestep : after.fixed.timestep = frame.timestep
  count : after.ran.length = (before.fixed.overstep + frame.virtual.delta) / frame.timestep
  clocks : ∀ index entry, after.ran[index]? = some entry → entry.1 = entry.2.time ∧
    entry.2.time.elapsed = before.fixed.time.elapsed + (index + 1) * frame.timestep
  generic : after.generic = frame.virtual

theorem exact_step (f : Frame) (w next : TimeWorld)
    (hs : f.step w = some next) : Exact f w next := by
  unfold step at hs
  split at hs
  · cases hs
    obtain ⟨timestep, ho, hto, hco, hc⟩ := FixedClock.runFixedMain_spec
      (FixedClock.accumulateOverstep { w.fixed with timestep := f.timestep }
        f.virtual.delta)
    exact ⟨hto.trans (Nat.add_assoc ..).symm,
      ho.trans_lt (Nat.mod_lt _ f.timestep.pos), timestep, hco, hc, rfl⟩
  · cases hs

/-- **Every frame runs `FixedMain` as often as it should, and the fixed clock accounts for all of
the virtual time.** -/
theorem run_fixed_exact (frames : List Frame) (world : TimeWorld) :
    EachStep step Exact frames world ∧ ∀ final, run step frames world = some final →
      final.fixed.total = world.fixed.total + (frames.map (·.virtual.delta)).sum := by
  induction frames generalizing world with
  | nil =>
    refine ⟨trivial, fun final ran => ?_⟩
    cases ran
    rfl
  | cons f frames ih =>
    refine ⟨fun next hs => ⟨exact_step f world next hs, (ih next).1⟩, ?_⟩
    intro final ran
    obtain ⟨next, hs, hr⟩ := Option.bind_eq_some_iff.mp ran
    rw [(ih next).2 final hr, (exact_step f world next hs).total, map_cons, sum_cons,
      Nat.add_assoc]

end Frame

end Voker.Time
