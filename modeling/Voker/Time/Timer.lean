import Mathlib.Data.PNat.Basic
import Voker.Foundation.Runs

/-!
# Timers

A repeating timer counts how often its duration fits into the time that has passed and keeps the
rest.  **The count is stored in 32 bits and the rest goes through 64 bits of nanoseconds**; as
long as both fit, nothing of the time is lost.
-/

namespace Voker.Time

open Foundation

/-- The nanoseconds of `Duration::MAX`. -/
def durationMax : ℕ := 2 ^ 64 * 10 ^ 9 - 1

inductive TimerMode where
  | once | repeating
  deriving DecidableEq

structure Stopwatch where
  elapsed : ℕ := 0
  isPaused : Bool := false

/-- `Stopwatch::tick`. -/
def Stopwatch.tick (self : Stopwatch) (delta : ℕ) : Stopwatch :=
  if self.isPaused then self else { self with elapsed := min (self.elapsed + delta) durationMax }

structure Timer where
  stopwatch : Stopwatch := {}
  duration : ℕ
  mode : TimerMode
  finished : Bool := false
  timesFinishedThisTick : ℕ := 0

/-- `Timer::tick`. -/
def Timer.tick (self : Timer) (delta : ℕ) : Timer :=
  let self := { self with timesFinishedThisTick := 0 }
  if self.stopwatch.isPaused then
    if self.mode = .repeating then { self with finished := false } else self
  else if self.mode ≠ .repeating ∧ self.finished then self
  else
    let stopwatch := self.stopwatch.tick delta
    let elapsed := stopwatch.elapsed
    let self := { self with stopwatch := stopwatch, finished := self.duration ≤ elapsed }
    if self.finished then
      match self.mode with
      | .repeating => { self with
          -- `as u32` and `as u64`
          timesFinishedThisTick :=
            if self.duration = 0 then 2 ^ 32 - 1 else elapsed / self.duration % 2 ^ 32
          stopwatch := { stopwatch with
            elapsed := if self.duration = 0 then 0 else elapsed % self.duration % 2 ^ 64 } }
      | .once => { self with
          timesFinishedThisTick := 1
          stopwatch := { stopwatch with elapsed := self.duration } }
    else self

/-- A timer with the sum of all deltas and of all `times_finished_this_tick`. -/
structure Ticking where
  timer : Timer
  total : ℕ := 0
  fires : ℕ := 0

namespace Ticking

/-- A new timer. -/
def new (duration : ℕ+) (mode : TimerMode) : Ticking where
  timer := { duration := duration, mode := mode }

/-- One tick, as long as the time fits into a `Duration`. -/
def step (delta : ℕ) (self : Ticking) : Option Ticking :=
  if self.total + delta ≤ durationMax then
    let timer := self.timer.tick delta
    some ⟨timer, self.total + delta, self.fires + timer.timesFinishedThisTick⟩
  else none

/-- What a timer is for: a repeating timer accounts for all of the time, a one-shot timer fires
once, in the tick in which the time is up. -/
def Accurate (self : Ticking) : Prop :=
  match self.timer.mode with
  | .repeating => self.timer.stopwatch.elapsed < self.timer.duration ∧
      (self.timer.finished = true ↔ 0 < self.timer.timesFinishedThisTick) ∧
      self.timer.duration * self.fires + self.timer.stopwatch.elapsed = self.total
  | .once => self.fires = (if self.timer.duration ≤ self.total then 1 else 0) ∧
      self.timer.stopwatch.elapsed = min self.total self.timer.duration

/-- A repeating timer that finishes can store the count and the rest. -/
def Fits (delta : ℕ) (self _next : Ticking) : Prop :=
  let elapsed := self.timer.stopwatch.elapsed + delta
  self.timer.mode = .repeating → self.timer.duration ≤ elapsed →
    elapsed / self.timer.duration < 2 ^ 32 ∧ elapsed % self.timer.duration < 2 ^ 64

/-- A timer that has not been paused.  A one-shot timer has finished if the time is up. -/
@[mk_iff]
structure Running (self : Ticking) : Prop where
  positive : self.timer.duration ≠ 0
  unpaused : self.timer.stopwatch.isPaused = false
  elapsed : self.timer.stopwatch.elapsed ≤ self.total
  ended : self.timer.mode = .once →
    (self.timer.finished = true ↔ self.timer.duration ≤ self.total) ∧
      self.timer.stopwatch.elapsed = min self.total self.timer.duration

/-- A quotient and a rest that are cut off account for the whole exactly if nothing is cut. -/
theorem cut_iff {d e f m n : ℕ} (pos : d ≠ 0) (hla : d ≤ e) (some_ : 0 < m ∧ 0 < n) :
    (e % d % n < d ∧ 0 < e / d % m ∧ d * (f + e / d % m) + e % d % n = d * f + e) ↔
      e / d < m ∧ e % d < n := by
  have hs := Nat.div_add_mod e d
  have hr := Nat.mod_lt e (Nat.pos_of_ne_zero pos)
  have hle := Nat.div_pos hla (Nat.pos_of_ne_zero pos)
  have hsm := Nat.mod_le (e % d) n
  have hls := Nat.mul_le_mul_left d (Nat.mod_le (e / d) m)
  rw [Nat.mul_add]
  refine ⟨fun ⟨_, _, hw⟩ => ?_, fun ⟨hc, hl⟩ => ?_⟩
  · have hk : e / d % m = e / d := Nat.eq_of_mul_eq_mul_left (Nat.pos_of_ne_zero pos) (by omega)
    have hl : e % d % n = e % d := by omega
    exact ⟨hk ▸ Nat.mod_lt _ some_.1, hl ▸ Nat.mod_lt _ some_.2⟩
  · rw [Nat.mod_eq_of_lt hc, Nat.mod_eq_of_lt hl]
    exact ⟨hr, hle, by omega⟩

/-- One tick: the timer keeps running, and stays accurate if it can store what it counts. -/
theorem step_spec {d : ℕ} {self next : Ticking} (hr : Running self)
    (hs : step d self = some next) :
    Running next ∧ (Accurate self → (Accurate next ↔ Fits d self next)) := by
  obtain ⟨pos, hu, hb, he⟩ := hr
  unfold step at hs
  split at hs
  · next hro =>
    cases hs
    have hf := min_eq_left ((Nat.add_le_add_right hb d).trans hro)
    unfold Timer.tick Stopwatch.tick Accurate Fits
    cases hk : self.timer.mode with
    | once =>
      obtain ⟨he, hle⟩ := he hk
      cases hd : self.timer.finished with
      | true =>
        have hl := he.mp hd
        have hla : self.timer.duration ≤ self.total + d := hl.trans (Nat.le_add_right _ _)
        simp [running_iff, hu, pos, hl, hla, hle]
      | false =>
        have hea : ¬ self.timer.duration ≤ self.total := fun hl => by
          cases hd.symm.trans (he.mpr hl)
        have hsa : self.timer.stopwatch.elapsed = self.total := by omega
        rw [hsa] at hf
        by_cases hl : self.timer.duration ≤ self.total + d
        · simp +contextual [running_iff, hu, hf, pos, hsa, hea, hl]
        · simp [running_iff, hu, hf, pos, hsa, hea, hl]
          omega
    | repeating =>
      by_cases hl : self.timer.duration ≤ self.timer.stopwatch.elapsed + d
      · have hbo := (Nat.mod_le _ (2 ^ 64)).trans
          (Nat.mod_le (self.timer.stopwatch.elapsed + d) self.timer.duration)
        simp [running_iff, hu, hf, pos, hl]
        refine ⟨hbo.trans (Nat.add_le_add_right hb d), fun _ _ sum => ?_⟩
        rw [← sum, Nat.add_assoc]
        exact cut_iff pos hl (by decide)
      · simp [running_iff, hu, hf, pos, hl]
        omega
  · cases hs

/-- **A timer is accurate after every tick exactly as long as what it stores fits.** -/
theorem run_accurate_iff (duration : ℕ+) (mode : TimerMode) (deltas : List ℕ) :
    Throughout step Accurate deltas (new duration mode) ↔
      EachStep step Fits deltas (new duration mode) := by
  refine throughout_iff_eachStep (fun _ _ _ hr hs => (step_spec hr hs).1)
    (fun _ _ _ hr ha hs => (step_spec hr hs).2 ha)
    ⟨duration.ne_zero, rfl, le_rfl, ?_⟩ ?_
  · exact fun _ => ⟨iff_of_false Bool.false_ne_true duration.pos.not_ge,
      (min_eq_left duration.pos.le).symm⟩
  · cases mode with
    | once => exact ⟨(if_neg duration.pos.not_ge).symm, (min_eq_left duration.pos.le).symm⟩
    | repeating => exact ⟨duration.pos, by simp [new], rfl⟩

/-- The timer finishes `2 ^ 32` times in one tick and counts none of them. -/
theorem tick_finishes_uncounted : ∃ next, step (2 ^ 32) (new 1 .repeating) = some next ∧
    ¬ Accurate next := by
  refine ⟨_, if_pos (by decide), ?_⟩
  simp [Accurate, new, Timer.tick, Stopwatch.tick, durationMax]

end Ticking

end Voker.Time
