import Voker.Ecs.Entity.Info
import Voker.Ecs.Component.Components
import Voker.Ecs.Tick
import Voker.Foundation.Runs

/-!
# Tick validation

Stored ticks are validated from time to time: those that have become too old move to the
greatest age that is told apart, so that no age ever makes a whole turn of the `u32` clock.
This module follows all ticks of a world: those of the components in tables, the `last_run`
of the systems, and the world's own.

Each tick is recorded together with **the true time at which it was taken**, which the
source does not keep, and the calls of `check_ticks` and the validations they made are
recorded with their true times.

`check_ticks` measures from `last_check`, and **`last_check` stays at zero for ever**.  So a
call validates exactly if the tick is at least `CHECK_CYCLE` (`Clocked`): often twice
in a row, and never in the first part of each turn of the clock.  Ages are told apart
rightly as long as the validations that do happen are close enough
(`run_ages_true`).
-/

namespace Voker.Ecs

open Foundation List Option Function Tick

/-- A tick, and the true time at which it was taken. -/
structure Moment where
  tick : Tick
  time : ℕ
  deriving DecidableEq, Repr

namespace Moment

/-- The next tick; the tick wraps around and the time does not. -/
def succ (moment : Moment) : Moment := ⟨moment.tick + 1, moment.time + 1⟩

/-- `check_tick`. -/
def check (now moment : Moment) : Moment := { moment with tick := moment.tick.checkTick now.tick }

theorem tick_succ {moment : Moment} (hc : moment.tick = ofTime moment.time) :
    moment.succ.tick = ofTime moment.succ.time := by
  change moment.tick + 1 = ofTime (moment.time + 1)
  rw [hc, ofTime, ofTime, BitVec.ofNat_add]
  rfl

/-- The true age, up to the greatest age that is told apart. -/
def age (now moment : Moment) : ℕ := min (now.time - moment.time) maxTickAge.toNat

end Moment

/-- A row of a column of a table. -/
structure Slot where
  table : TableId
  component : ComponentId
  row : ℕ
  deriving DecidableEq, Repr

/-- The ticks of a component of an entity. -/
structure CellTicks where
  added : Moment
  changed : Moment
  deriving DecidableEq, Repr

/-- The ticks of a system that has been initialised: `thisRun` is the tick of a run in
progress, and `compiled` says whether the system is in the compiled array of a schedule the
world holds (and not in a buffer, or kept elsewhere). -/
structure SystemTicks where
  lastRun : Moment
  thisRun : Option Moment
  compiled : Bool
  deriving DecidableEq, Repr

/-- The ticks of a `World`, with what is recorded: the true times of the calls of
`check_ticks` and of the validations, latest first. -/
structure WorldTicks where
  thisRun : Moment
  lastRun : Moment
  lastCheck : Moment
  cells : Slot → Option CellTicks
  systems : ℕ → Option SystemTicks
  calls : List ℕ
  validations : List ℕ

/-- What changes ticks.  Components are written by the world or by a running system, which
uses the tick its run started with; rows move between tables. -/
inductive TickOp where
  | advanceTick
  | checkTicks
  | resetLastRun
  | initSystem (system : ℕ)
  | setLastRun (system : ℕ)
  | place (system : ℕ) (compiled : Bool)
  | dropSystem (system : ℕ)
  | startRun (system : ℕ)
  | endRun (system : ℕ) (completed : Bool)
  | write (writer : Option ℕ) (slot : Slot) (added : Bool)
  | moveRow (source target : Slot)
  | dropRow (slot : Slot)
  deriving DecidableEq, Repr

namespace WorldTicks

/-- `World::alloc`. -/
def alloc : WorldTicks where
  thisRun := ⟨1, 1⟩
  lastRun := ⟨0, 0⟩
  lastCheck := ⟨0, 0⟩
  cells := fun _ => none
  systems := fun _ => none
  calls := []
  validations := []

variable (world : WorldTicks)

/-- `advance_tick`. -/
def advanceTick : WorldTicks := { world with thisRun := world.thisRun.succ }

/-- `Table::check_ticks` and `Column::check_ticks`, for one cell. -/
def checkCell (cell : CellTicks) : CellTicks :=
  ⟨world.thisRun.check cell.added, world.thisRun.check cell.changed⟩

/-- `Schedule::check_ticks`, for one system: only the compiled array is visited. -/
def checkSystem (system : SystemTicks) : SystemTicks :=
  if system.compiled then { system with lastRun := world.thisRun.check system.lastRun } else system

/-- `check_ticks_cold`. -/
def checkTicksCold : WorldTicks :=
  { world with
    cells := fun slot => (world.cells slot).map world.checkCell
    systems := fun system => (world.systems system).map world.checkSystem
    validations := world.thisRun.time :: world.validations }

/-- Whether `check_ticks` validates. -/
def due : Bool := checkCycle ≤ world.thisRun.tick - world.lastCheck.tick

/-- `check_ticks`. -/
def checkTicks : WorldTicks :=
  let called := { world with calls := world.thisRun.time :: world.calls }
  if world.due then called.checkTicksCold else called

/-- `reset_last_run`. -/
def resetLastRun : WorldTicks :=
  let checked := world.checkTicks
  ({ checked with lastRun := checked.thisRun }.advanceTick).checkTicks

/-- Replace the ticks of one system. -/
def setSystem (system : ℕ) (ticks : Option SystemTicks) : WorldTicks :=
  { world with systems := update world.systems system ticks }

/-- Replace the ticks of one cell. -/
def setCell (slot : Slot) (ticks : Option CellTicks) : WorldTicks :=
  { world with cells := update world.cells slot ticks }

/-- The tick a writer uses: the world its current one, a system the one of its run. -/
def writeTick : Option ℕ → Option Moment
  | none => some world.thisRun
  | some system => (world.systems system).bind SystemTicks.thisRun

/-- `init_item`, or a later change of a component that is there. -/
def write (moment : Moment) (slot : Slot) : Bool → Option WorldTicks
  | true => some (world.setCell slot (some ⟨moment, moment⟩))
  | false => (world.cells slot).map fun cell =>
    world.setCell slot (some { cell with changed := moment })

/-- One operation; `none` where it is not possible. -/
def step : TickOp → WorldTicks → Option WorldTicks
  | .advanceTick, world => some world.advanceTick
  | .checkTicks, world => some world.checkTicks
  | .resetLastRun, world => some world.resetLastRun
  | .initSystem system, world =>
    some (world.setSystem system (some ⟨world.lastRun, none, false⟩))
  | .setLastRun system, world => (world.systems system).map fun ticks =>
    world.setSystem system (some { ticks with lastRun := world.lastRun })
  | .place system compiled, world => (world.systems system).map fun ticks =>
    world.setSystem system (some { ticks with compiled := compiled })
  | .dropSystem system, world => some (world.setSystem system none)
  | .startRun system, world => (world.systems system).map fun ticks =>
    (world.setSystem system (some { ticks with thisRun := some world.thisRun })).advanceTick
  | .endRun system completed, world => do
      let ticks ← world.systems system
      let started ← ticks.thisRun
      -- a run that fails before the system's function is called leaves `last_run` alone
      let lastRun := if completed then started else ticks.lastRun
      return world.setSystem system (some { ticks with lastRun := lastRun, thisRun := none })
  | .write writer slot added, world => (world.writeTick writer).bind fun moment =>
    world.write moment slot added
  | .moveRow source target, world => (world.cells source).map fun cell =>
    (world.setCell source none).setCell target (some cell)
  | .dropRow slot, world => some (world.setCell slot none)

/-! ## Which calls validate -/

/-- The clock is right, `last_check` is zero, and a call validates if the tick has passed
`CHECK_CYCLE`. -/
structure Clocked (world : WorldTicks) : Prop where
  now : world.thisRun.tick = ofTime world.thisRun.time
  lastCheck : world.lastCheck = ⟨0, 0⟩
  validations : world.validations =
    world.calls.filter fun time => checkCycle.toNat ≤ time % 2 ^ 32

variable {world}

theorem Clocked.due_iff (hc : world.Clocked) :
    world.due = decide (checkCycle.toNat ≤ world.thisRun.time % 2 ^ 32) := by
  unfold due
  rw [hc.lastCheck, hc.now]
  refine decide_eq_decide.mpr ?_
  change checkCycle ≤ ofTime world.thisRun.time - 0#32 ↔ _
  rw [BitVec.sub_zero, BitVec.le_def, ofTime, BitVec.toNat_ofNat]

theorem clocked_alloc : alloc.Clocked := ⟨rfl, rfl, rfl⟩

theorem Clocked.advanceTick (hc : world.Clocked) : world.advanceTick.Clocked :=
  ⟨Moment.tick_succ hc.now, hc.lastCheck, hc.validations⟩

/-- Whether it validates or not, a call is recorded and the clock does not move. -/
theorem checkTicks_eq (w : WorldTicks) : ∃ cells systems, w.checkTicks = { w with
      cells := cells
      systems := systems
      calls := w.thisRun.time :: w.calls
      validations := if w.due then w.thisRun.time :: w.validations
        else w.validations } := by
  unfold checkTicks
  split
  · exact ⟨_, _, rfl⟩
  · exact ⟨_, _, rfl⟩

theorem Clocked.checkTicks (hc : world.Clocked) : world.checkTicks.Clocked := by
  obtain ⟨c, s, hs⟩ := checkTicks_eq world
  rw [hs]
  refine ⟨hc.now, hc.lastCheck, ?_⟩
  simp only [hc.due_iff, hc.validations, filter_cons]

variable {next : WorldTicks} {op : TickOp} {ops : List TickOp} {system : SystemTicks}

theorem Clocked.step (hc : world.Clocked) (hs : WorldTicks.step op world = some next) :
    next.Clocked := by
  -- apart from the clock and the calls, operations touch only cells and systems
  have he : ∀ cells systems,
      ({ world with cells := cells, systems := systems } : WorldTicks).Clocked :=
    fun _ _ => ⟨hc.now, hc.lastCheck, hc.validations⟩
  cases op with
  | advanceTick =>
    cases hs
    exact hc.advanceTick
  | checkTicks =>
    cases hs
    exact hc.checkTicks
  | resetLastRun =>
    cases hs
    have hch := hc.checkTicks
    have hr : ({ world.checkTicks with lastRun := world.checkTicks.thisRun } :
        WorldTicks).Clocked := ⟨hch.now, hch.lastCheck, hch.validations⟩
    exact hr.advanceTick.checkTicks
  | initSystem system | dropSystem system | dropRow slot =>
    cases hs
    exact he _ _
  | setLastRun system | place system com | moveRow src t =>
    obtain ⟨ti, -, rfl⟩ := map_eq_some_iff.mp hs
    exact he _ _
  | startRun system =>
    obtain ⟨ti, -, rfl⟩ := map_eq_some_iff.mp hs
    exact (he _ _).advanceTick
  | endRun system co =>
    obtain ⟨ti, -, hre⟩ := bind_eq_some_iff.mp hs
    obtain ⟨st, -, hsa⟩ := bind_eq_some_iff.mp hre
    cases hsa
    exact he _ _
  | write wr slot a =>
    obtain ⟨moment, -, hw⟩ := bind_eq_some_iff.mp hs
    cases a with
    | true =>
      cases hw
      exact he _ _
    | false =>
      obtain ⟨cell, -, rfl⟩ := map_eq_some_iff.mp hw
      exact he _ _

theorem clocked_run (ran : run step ops alloc = some world) : world.Clocked :=
  run_invariant (fun _ _ _ hc hs => hc.step hs) clocked_alloc ran

/-- Validations happen at most once per `CHECK_CYCLE` ticks, measured from the previous
one. -/
def Spaced (world : WorldTicks) : Prop :=
  world.validations.Pairwise fun later earlier => earlier + checkCycle.toNat ≤ later

/-- **Validations are spaced exactly if the calls are** that come when the tick has passed
`CHECK_CYCLE`. -/
theorem run_spaced_iff {ops : List TickOp} {world : WorldTicks}
    (ran : run step ops alloc = some world) :
    world.Spaced ↔ world.calls.Pairwise fun later earlier =>
      checkCycle.toNat ≤ later % 2 ^ 32 → checkCycle.toNat ≤ earlier % 2 ^ 32 →
        earlier + checkCycle.toNat ≤ later := by
  unfold Spaced
  rw [(clocked_run ran).validations, pairwise_filter]
  simp only [decide_eq_true_eq]

/-! ## Waiting -/

/-- Time passes. -/
def elapse (world : WorldTicks) (count : ℕ) : WorldTicks :=
  { world with
    thisRun := ⟨world.thisRun.tick + BitVec.ofNat 32 count, world.thisRun.time + count⟩ }

/-- Advance the tick a number of times. -/
def wait (count : ℕ) : List TickOp := List.replicate count .advanceTick

theorem run_wait (c : ℕ) (rest : List TickOp) (w : WorldTicks) :
    run step (wait c ++ rest) w = run step rest (w.elapse c) := by
  induction c generalizing w with
  | zero =>
    have hsa : w.elapse 0 = w := by
      unfold elapse
      rw [BitVec.add_zero, Nat.add_zero]
    rw [hsa]
    rfl
  | succ c ih =>
    have hs : w.advanceTick.elapse c = w.elapse (c + 1) := by
      unfold elapse advanceTick Moment.succ
      rw [Nat.add_comm c 1, BitVec.ofNat_add, ← BitVec.add_assoc, ← Nat.add_assoc]
      rfl
    rw [← hs, ← ih]
    rfl

/-- A world that is reset one tick before `CHECK_CYCLE` validates once. -/
theorem run_spaced_iff_once : ∃ world,
    run step (wait (2 ^ 29 - 2) ++ [.resetLastRun]) alloc = some world ∧
      world.validations = [2 ^ 29] ∧ world.Spaced := by
  have ran := run_wait (2 ^ 29 - 2) [.resetLastRun] alloc
  refine ⟨_, ran, by decide +kernel, (run_spaced_iff ran).mpr ?_⟩
  decide +kernel

/-- From then on every call validates: `last_check` was not set. -/
theorem validated_twice : ∃ world,
    run step (wait (2 ^ 29 - 1) ++ [.checkTicks, .checkTicks]) alloc = some world ∧
      ¬ world.Spaced := by
  refine ⟨_, run_wait (2 ^ 29 - 1) [.checkTicks, .checkTicks] alloc, ?_⟩
  unfold Spaced
  decide +kernel

/-! ## Ages -/

/-- A stored tick stands for a time: the one it was taken at, or a later one that was old
enough at the last validation to be as good. -/
def Faithful (now validated : ℕ) (moment : Moment) : Prop :=
  ∃ time, moment.tick = ofTime time ∧ moment.time ≤ time ∧ time ≤ now ∧
    validated ≤ time + maxTickAge.toNat ∧
    (time = moment.time ∨ time + maxTickAge.toNat ≤ validated)

/-- How long after a validation ages are told apart. -/
def slack : ℕ := 2 ^ 32 - 1 - maxTickAge.toNat

theorem slack_eq : slack = 2 ^ 30 + 1 := by decide

variable {now key : ℕ} {moment : Moment}

theorem Faithful.later {l v : ℕ} (hf : Faithful now v moment)
    (hp : now ≤ l) : Faithful l v moment := by
  obtain ⟨time, ht, hs, hpa, hr⟩ := hf
  exact ⟨time, ht, hs, hpa.trans hp, hr⟩

/-- The age of a faithful tick is the true one, as far as ages are told apart. -/
theorem Faithful.age_eq {v : ℕ} (hf : Faithful now v moment)
    (pre : v ≤ now) (hc : now ≤ v + slack) :
    (clampAge (relativeTo (ofTime now) moment.tick)).toNat =
      min (now - moment.time) maxTickAge.toNat := by
  obtain ⟨time, ht, hsi, hp, hy, hs⟩ := hf
  have hl := slack_eq
  have hb := toNat_maxTickAge
  rw [ht, toNat_clampAge, toNat_relativeTo hp (by omega)]
  rcases hs with rfl | old
  · rfl
  · rw [min_eq_right (by omega), min_eq_right (by omega)]

/-- Validation keeps a tick faithful. -/
theorem Faithful.check {now : Moment} {v : ℕ} (hc : now.tick = ofTime now.time)
    (hf : Faithful now.time v moment) (pre : v ≤ now.time)
    (hcl : now.time ≤ v + slack) : Faithful now.time now.time (now.check moment) := by
  obtain ⟨time, ht, hs, hp, hy, hsa⟩ := hf
  have hl := slack_eq
  have hb := toNat_maxTickAge
  have age := toNat_relativeTo hp (show now.time - time < 2 ^ 32 by omega)
  unfold Moment.check checkTick
  rw [hc, ht]
  dsimp only
  split
  · next old =>
    rw [BitVec.lt_def, age] at old
    refine ⟨now.time - maxTickAge.toNat, relativeTo_maxTickAge (by omega), ?_, ?_, ?_, ?_⟩
    · change moment.time ≤ _
      omega
    · omega
    · omega
    · exact .inr (by omega)
  · next hfr =>
    rw [BitVec.lt_def, age] at hfr
    refine ⟨time, rfl, hs, hp, by omega, ?_⟩
    rcases hsa with rfl | old
    · exact .inl rfl
    · exact .inr (by omega)

/-- The time of the last validation; the world starts out valid. -/
def validated (world : WorldTicks) : ℕ := world.validations.headD 1

/-- At no time more ticks than `slack` have passed since a validation. -/
def Close (world : WorldTicks) : Prop :=
  (world.thisRun.time :: (world.validations ++ [1])).IsChain fun later earlier =>
    later ≤ earlier + slack

theorem Close.since {w : WorldTicks} (hc : w.Close) : w.thisRun.time ≤ w.validated + slack := by
  unfold Close at hc
  unfold validated
  cases hl : w.validations with
  | nil =>
    rw [hl] at hc
    exact hc.rel
  | cons last e =>
    rw [hl] at hc
    exact hc.rel

/-- All stored ticks are faithful, and the ticks at hand are those of their times. -/
structure Valid (world : WorldTicks) : Prop where
  now : world.thisRun.tick = ofTime world.thisRun.time
  past : world.validated ≤ world.thisRun.time
  lastRun : world.lastRun.tick = ofTime world.lastRun.time ∧
    world.lastRun.time ≤ world.thisRun.time
  runs : ∀ key system started, world.systems key = some system →
    system.thisRun = some started →
    started.tick = ofTime started.time ∧ started.time ≤ world.thisRun.time
  cells : ∀ slot cell, world.cells slot = some cell →
    Faithful world.thisRun.time world.validated cell.added ∧
    Faithful world.thisRun.time world.validated cell.changed
  systems : ∀ key system, world.systems key = some system →
    Faithful world.thisRun.time world.validated system.lastRun

theorem valid_alloc : alloc.Valid where
  now := rfl
  past := le_rfl
  lastRun := ⟨rfl, Nat.zero_le _⟩
  runs := fun _ _ _ hp => nomatch hp
  cells := fun _ _ hp => nomatch hp
  systems := fun _ _ hp => nomatch hp

section

variable {w : WorldTicks}

theorem Valid.advanceTick (hv : w.Valid) : w.advanceTick.Valid where
  now := Moment.tick_succ hv.now
  past := Nat.le_succ_of_le hv.past
  lastRun := ⟨hv.lastRun.1, Nat.le_succ_of_le hv.lastRun.2⟩
  runs := fun key system s hp hr =>
    ⟨(hv.runs key system s hp hr).1,
      Nat.le_succ_of_le (hv.runs key system s hp hr).2⟩
  cells := fun slot cell hp =>
    ⟨(hv.cells slot cell hp).1.later (Nat.le_succ _),
      (hv.cells slot cell hp).2.later (Nat.le_succ _)⟩
  systems := fun key system hp => (hv.systems key system hp).later (Nat.le_succ _)

theorem Valid.setSystem (hv : w.Valid) {t : Option SystemTicks}
    (new : ∀ system, t = some system → (∀ s, system.thisRun = some s →
      s.tick = ofTime s.time ∧ s.time ≤ w.thisRun.time) ∧
      Faithful w.thisRun.time w.validated system.lastRun) : (w.setSystem key t).Valid := by
  refine ⟨hv.now, hv.past, hv.lastRun, ?_, hv.cells, ?_⟩
  · intro o system s hp hr
    simp only [WorldTicks.setSystem, update_apply] at hp
    split at hp
    · exact (new system hp).1 s hr
    · exact hv.runs o system s hp hr
  · intro o system hp
    simp only [WorldTicks.setSystem, update_apply] at hp
    split at hp
    · exact (new system hp).2
    · exact hv.systems o system hp

theorem Valid.setCell (hv : w.Valid) {slot : Slot} {t : Option CellTicks}
    (hf : ∀ cell, t = some cell → Faithful w.thisRun.time w.validated cell.added ∧
      Faithful w.thisRun.time w.validated cell.changed) : (w.setCell slot t).Valid := by
  refine ⟨hv.now, hv.past, hv.lastRun, hv.runs, ?_, hv.systems⟩
  intro o cell hp
  simp only [WorldTicks.setCell, update_apply] at hp
  split at hp
  · exact hf cell hp
  · exact hv.cells o cell hp

/-- A validation keeps order if it does not come too late, and if the systems it does not
visit ran not too long ago. -/
theorem Valid.checkTicksCold (hv : w.Valid) (hc : w.thisRun.time ≤ w.validated + slack)
    (hot : ∀ key system, w.systems key = some system → system.compiled = false →
      w.thisRun.time ≤ system.lastRun.time + maxTickAge.toNat) : w.checkTicksCold.Valid := by
  refine ⟨hv.now, le_rfl, hv.lastRun, ?_, ?_, ?_⟩
  · intro key system s hp hr
    obtain ⟨old, he, rfl⟩ := map_eq_some_iff.mp hp
    refine hv.runs key old s he ?_
    unfold checkSystem at hr
    split at hr
    · exact hr
    · exact hr
  · intro slot cell hp
    obtain ⟨old, he, rfl⟩ := map_eq_some_iff.mp hp
    have hf := hv.cells slot old he
    exact ⟨hf.1.check hv.now hv.past hc, hf.2.check hv.now hv.past hc⟩
  · intro key system hp
    obtain ⟨old, he, rfl⟩ := map_eq_some_iff.mp hp
    have hf := hv.systems key old he
    unfold checkSystem
    split
    · exact hf.check hv.now hv.past hc
    · next ho =>
      -- its tick is not touched, and not too old either
      have hre := hot key old he (Bool.not_eq_true _ ▸ ho)
      obtain ⟨time, ht, hs, hpa, hy, hsa⟩ := hf
      refine ⟨time, ht, hs, hpa, ?_, ?_⟩
      · change w.thisRun.time ≤ _
        omega
      · have pre := hv.past
        exact hsa.imp_right fun old => old.trans pre

theorem Valid.checkTicks (hv : w.Valid)
    (hcl : w.due = true → w.thisRun.time ≤ w.validated + slack)
    (ho : w.due = true → ∀ key system, w.systems key = some system →
      system.compiled = false → w.thisRun.time ≤ system.lastRun.time + maxTickAge.toNat) :
    w.checkTicks.Valid := by
  have hc : ({ w with calls := w.thisRun.time :: w.calls } : WorldTicks).Valid :=
    ⟨hv.now, hv.past, hv.lastRun, hv.runs, hv.cells, hv.systems⟩
  unfold WorldTicks.checkTicks
  split
  · next due => exact hc.checkTicksCold (hcl due) (ho due)
  · exact hc

end

/-! ## Runs in which ages are told apart -/

/-- The moment an operation stores as the tick of a component or of a system. -/
def stores (world : WorldTicks) : TickOp → Option Moment
  | .initSystem _ | .setLastRun _ => some world.lastRun
  | .endRun system true => (world.systems system).bind SystemTicks.thisRun
  | .write writer _ _ => world.writeTick writer
  | _ => none

/-- An operation is timely if validations do not come too late, if no tick is too old
already when it is stored, and if no system a validation does not visit ran too long ago. -/
def Timely (op : TickOp) (before after : WorldTicks) : Prop :=
  after.Close ∧
  (∀ moment, before.stores op = some moment →
    before.thisRun.time ≤ moment.time + maxTickAge.toNat) ∧
  (after.validations ≠ before.validations → ∀ key system, after.systems key = some system →
    system.compiled = false → after.thisRun.time ≤ system.lastRun.time + maxTickAge.toNat)

/-- A validation does not change which systems there are, where they are and when they
ran. -/
theorem systems_checkTicks {w : WorldTicks} (hp : w.systems key = some system) :
    ∃ post, w.checkTicks.systems key = some post ∧
      post.compiled = system.compiled ∧ post.lastRun.time = system.lastRun.time := by
  unfold checkTicks
  split
  · refine ⟨w.checkSystem system, congrArg (Option.map w.checkSystem) hp, ?_⟩
    unfold checkSystem
    split
    · exact ⟨rfl, rfl⟩
    · exact ⟨rfl, rfl⟩
  · exact ⟨system, hp, rfl, rfl⟩

/-- `reset_last_run` between its two calls of `check_ticks`. -/
def midReset (world : WorldTicks) : WorldTicks :=
  { world.checkTicks with lastRun := world.checkTicks.thisRun }.advanceTick

/-- The tick a writer uses is the one of its time. -/
theorem Valid.writeTick {w : WorldTicks} (hv : w.Valid) {wr : Option ℕ}
    (hu : w.writeTick wr = some moment) :
    moment.tick = ofTime moment.time ∧ moment.time ≤ w.thisRun.time := by
  cases wr with
  | none =>
    cases hu
    exact ⟨hv.now, le_rfl⟩
  | some system =>
    obtain ⟨t, hp, hr⟩ := bind_eq_some_iff.mp hu
    exact hv.runs system t moment hp hr

/-- A system that runs after a component was written; a call of `check_ticks` follows. -/
def writtenRun : List TickOp :=
  [.initSystem 0, .write none ⟨0, 0, 0⟩ true, .startRun 0, .endRun 0 true, .checkTicks]

/-- Wait and call `check_ticks`, again and again. -/
def polled (gaps : List ℕ) : List TickOp := gaps.flatMap fun gap => wait gap ++ [.checkTicks]

/-- `check_ticks` is called at least once per `CHECK_CYCLE` ticks. -/
def Regular (world : WorldTicks) : Prop :=
  (world.thisRun.time :: (world.calls ++ [1])).IsChain fun later earlier =>
    later ≤ earlier + checkCycle.toNat

/-- A component is written soon after `CHECK_CYCLE` and lives through a whole turn of the
clock.  The last call that validates finds it at the greatest age; the calls after the
clock has wrapped around do not validate.  Then a system runs. -/
def staleRun : List TickOp :=
  polled [2 ^ 29 - 1] ++ (wait 2 ++ ([.write none ⟨0, 0, 0⟩ true] ++
    (polled [2 ^ 29 - 2, 2 ^ 29, 2 ^ 29, 2 ^ 29, 2 ^ 29, 2 ^ 29, 2 ^ 29, 2 ^ 29 - 1] ++
      (wait 1 ++ ([.initSystem 0, .startRun 0, .endRun 0 true] ++ (wait 1 ++ []))))))

section

variable (w : WorldTicks)

theorem validations_checkTicks : w.checkTicks.validations =
    if w.due then w.thisRun.time :: w.validations else w.validations := by
  obtain ⟨c, s, hs⟩ := checkTicks_eq w
  rw [hs]

theorem thisRun_checkTicks : w.checkTicks.thisRun = w.thisRun := by
  obtain ⟨c, s, hs⟩ := checkTicks_eq w
  rw [hs]

theorem length_checkTicks : w.checkTicks.validations.length =
    w.validations.length + if w.due then 1 else 0 := by
  rw [validations_checkTicks]
  split
  · rfl
  · rfl

theorem time_midReset : w.midReset.thisRun.time = w.thisRun.time + 1 := by
  change w.checkTicks.thisRun.time + 1 = _
  rw [thisRun_checkTicks]

end

section

variable {w : WorldTicks}

/-- If a call validates, the last validation before it was not too long ago, given that the
gaps are small afterwards. -/
theorem Close.of_checkTicks (hc : w.checkTicks.Close) (due : w.due = true) :
    w.thisRun.time ≤ w.validated + slack := by
  unfold Close at hc
  rw [validations_checkTicks, if_pos due, cons_append] at hc
  have hr : (w.thisRun.time :: (w.validations ++ [1])).IsChain fun l e =>
      l ≤ e + slack := hc.tail
  exact Close.since hr

theorem Valid.checkTicks_of_timely (hv : w.Valid)
    (ht : Timely .checkTicks w w.checkTicks) : w.checkTicks.Valid := by
  refine hv.checkTicks (ht.1.of_checkTicks ·) fun due key system hp ho => ?_
  obtain ⟨post, hf, hss, hst⟩ := systems_checkTicks hp
  have hg : w.checkTicks.validations ≠ w.validations := by
    rw [validations_checkTicks, if_pos due]
    exact cons_ne_self _ _
  have hr := ht.2.2 hg key post hf (hss.trans ho)
  rwa [thisRun_checkTicks, hst] at hr

/-- If either call of `reset_last_run` validates, the systems it does not visit ran not too
long ago. -/
theorem recent_of_resetLastRun (ht : Timely .resetLastRun w w.resetLastRun)
    (due : w.due = true ∨ w.midReset.due = true)
    (hp : w.midReset.systems key = some system) (ho : system.compiled = false) :
    w.midReset.thisRun.time ≤ system.lastRun.time + maxTickAge.toNat := by
  obtain ⟨post, hf, hss, hst⟩ := systems_checkTicks hp
  have hg : w.resetLastRun.validations ≠ w.validations := by
    intro hs
    have hc := congrArg List.length hs
    change w.midReset.checkTicks.validations.length = _ at hc
    have mid : w.midReset.validations = w.checkTicks.validations := rfl
    rw [length_checkTicks, mid, length_checkTicks] at hc
    rcases due with one | two
    · rw [if_pos one] at hc
      omega
    · rw [if_pos two] at hc
      omega
  have hr := ht.2.2 hg key post hf (hss.trans ho)
  change w.midReset.checkTicks.thisRun.time ≤ _ at hr
  rwa [thisRun_checkTicks, hst] at hr

theorem Valid.resetLastRun (hv : w.Valid) (hcl : w.Close)
    (ht : Timely .resetLastRun w w.resetLastRun) : w.resetLastRun.Valid := by
  have hc : w.checkTicks.Valid := by
    refine hv.checkTicks (fun _ => hcl.since) fun due key system hp ho => ?_
    obtain ⟨post, hf, hss, hst⟩ := systems_checkTicks hp
    have hr := recent_of_resetLastRun ht (.inl due) hf (hss.trans ho)
    rw [time_midReset, hst] at hr
    exact (Nat.le_succ _).trans hr
  have hre : ({ w.checkTicks with lastRun := w.checkTicks.thisRun } : WorldTicks).Valid :=
    ⟨hc.now, hc.past, ⟨hc.now, le_rfl⟩, hc.runs, hc.cells, hc.systems⟩
  refine hre.advanceTick.checkTicks (fun due => ?_) fun due key system hp ho =>
    recent_of_resetLastRun ht (.inr due) hp ho
  exact Close.of_checkTicks ht.1 due

theorem Valid.step (hv : w.Valid) (hc : w.Close)
    (hs : WorldTicks.step op w = some next) (ht : Timely op w next) :
    next.Valid := by
  have hst : ∀ moment, w.stores op = some moment →
      moment.tick = ofTime moment.time → moment.time ≤ w.thisRun.time →
      Faithful w.thisRun.time w.validated moment := fun moment hsa hta hpa =>
    ⟨moment.time, hta, le_rfl, hpa, hv.past.trans (ht.2.1 moment hsa), .inl rfl⟩
  cases op with
  | advanceTick =>
    cases hs
    exact hv.advanceTick
  | checkTicks =>
    cases hs
    exact hv.checkTicks_of_timely ht
  | resetLastRun =>
    cases hs
    exact hv.resetLastRun hc ht
  | initSystem system =>
    cases hs
    refine hv.setSystem fun ti hsa => ?_
    cases hsa
    exact ⟨(fun _ ha => nomatch ha), hst _ rfl hv.lastRun.1 hv.lastRun.2⟩
  | setLastRun system =>
    obtain ⟨ti, hp, rfl⟩ := map_eq_some_iff.mp hs
    refine hv.setSystem fun post hsa => ?_
    cases hsa
    exact ⟨fun s => hv.runs system ti s hp,
      hst _ rfl hv.lastRun.1 hv.lastRun.2⟩
  | place system co =>
    obtain ⟨ti, hp, rfl⟩ := map_eq_some_iff.mp hs
    refine hv.setSystem fun post hsa => ?_
    cases hsa
    exact ⟨fun s => hv.runs system ti s hp, hv.systems system ti hp⟩
  | dropSystem system =>
    cases hs
    exact hv.setSystem fun _ ha => nomatch ha
  | startRun system =>
    obtain ⟨ti, hp, rfl⟩ := map_eq_some_iff.mp hs
    refine Valid.advanceTick (hv.setSystem fun post hsa => ?_)
    cases hsa
    refine ⟨fun s hr => ?_, hv.systems system ti hp⟩
    cases hr
    exact ⟨hv.now, le_rfl⟩
  | endRun system c =>
    obtain ⟨ti, hp, hre⟩ := bind_eq_some_iff.mp hs
    obtain ⟨s, hr, hsa⟩ := bind_eq_some_iff.mp hre
    cases hsa
    refine hv.setSystem fun post hsa => ?_
    cases hsa
    refine ⟨(fun _ ha => nomatch ha), ?_⟩
    cases c with
    | true =>
      have exact_ := hv.runs system ti s hp hr
      exact hst s (bind_eq_some_iff.mpr ⟨ti, hp, hr⟩) exact_.1 exact_.2
    | false => exact hv.systems system ti hp
  | write wr slot a =>
    obtain ⟨moment, hu, hw⟩ := bind_eq_some_iff.mp hs
    have exact_ := hv.writeTick hu
    have hf := hst moment hu exact_.1 exact_.2
    cases a with
    | true =>
      cases hw
      refine hv.setCell fun cell hsa => ?_
      cases hsa
      exact ⟨hf, hf⟩
    | false =>
      obtain ⟨cell, hp, rfl⟩ := map_eq_some_iff.mp hw
      refine hv.setCell fun post hsa => ?_
      cases hsa
      exact ⟨(hv.cells slot cell hp).1, hf⟩
  | moveRow src t =>
    obtain ⟨cell, hp, rfl⟩ := map_eq_some_iff.mp hs
    have he : (w.setCell src none).Valid := hv.setCell fun _ ha => nomatch ha
    refine he.setCell fun post hsa => ?_
    cases hsa
    exact hv.cells src cell hp
  | dropRow slot =>
    cases hs
    exact hv.setCell fun _ ha => nomatch ha

theorem valid_run (ran : run step ops alloc = some w) (ht : EachStep step Timely ops alloc) :
    w.Valid ∧ w.Close := by
  have hk : ∀ op pre post, pre.Valid ∧ pre.Close → step op pre = some post →
      Timely op pre post → post.Valid ∧ post.Close :=
    fun op pre post inv hs hm => ⟨inv.1.step inv.2 hs hm, hm.1⟩
  exact ht.invariant hk ⟨valid_alloc, by unfold Close; decide⟩ ran

end

/-- **Ages are told apart rightly** in every run whose operations are timely. -/
theorem run_ages_true {ops : List TickOp} {world : WorldTicks}
    (ran : run step ops alloc = some world) (timely : EachStep step Timely ops alloc)
    {slot : Slot} {cell : CellTicks} (stored : world.cells slot = some cell)
    {key : ℕ} {system : SystemTicks} (present : world.systems key = some system) :
    ∀ moment ∈ [cell.added, cell.changed],
      moment.tick.isNewerThan system.lastRun.tick world.thisRun.tick =
        decide (world.thisRun.age moment < world.thisRun.age system.lastRun) := by
  obtain ⟨hv, hc⟩ := valid_run ran timely
  intro moment hm
  have hf : Faithful world.thisRun.time world.validated moment := by
    rcases mem_pair.mp hm with rfl | rfl
    · exact (hv.cells slot cell stored).1
    · exact (hv.cells slot cell stored).2
  have hs := hf.age_eq hv.past hc.since
  have system := (hv.systems key system present).age_eq hv.past hc.since
  unfold isNewerThan Moment.age
  rw [hv.now]
  exact decide_eq_decide.mpr (by rw [BitVec.lt_def, hs, system])

/-- The component is not newer than the run. -/
theorem run_ages_true_written : ∃ world cell system,
    run step writtenRun alloc = some world ∧ world.cells ⟨0, 0, 0⟩ = some cell ∧
      world.systems 0 = some system ∧
      cell.added.tick.isNewerThan system.lastRun.tick world.thisRun.tick = false := by
  -- nothing is validated, and what is stored is new
  have hca : ∀ (op : TickOp) (b a : WorldTicks), a.validations = b.validations →
      a.thisRun.time ≤ 10 → b.thisRun.time ≤ 10 → a.validations = [] →
      Timely op b a := by
    intro op b a hsa hsn hso hf
    refine ⟨?_, fun moment _ => ?_, fun hc => absurd hsa hc⟩
    · unfold Close
      rw [hf]
      have hl := slack_eq
      exact isChain_pair.mpr (by omega)
    · have hb := toNat_maxTickAge
      omega
  have ht : EachStep step Timely writtenRun alloc := by
    repeat
      first
      | exact trivial
      | intro next hst
        cases hst
        refine ⟨hca _ _ _ (by decide +kernel) (by decide +kernel) (by decide +kernel)
          (by decide +kernel), ?_⟩
  obtain ⟨world, ran, now, stored, hp⟩ : ∃ world, run step writtenRun alloc = some world ∧
      world.thisRun = ⟨2, 2⟩ ∧ world.cells ⟨0, 0, 0⟩ = some ⟨⟨1, 1⟩, ⟨1, 1⟩⟩ ∧
      world.systems 0 = some ⟨⟨1, 1⟩, none, false⟩ :=
    ⟨_, rfl, by decide +kernel, by decide +kernel, by decide +kernel⟩
  refine ⟨world, _, _, ran, stored, hp, ?_⟩
  rw [run_ages_true ran ht stored hp _ mem_cons_self, now]
  decide

theorem run_polled (gaps : List ℕ) (rest : List TickOp) (w : WorldTicks) :
    run step (polled gaps ++ rest) w =
      run step rest (gaps.foldl (fun w gap => (w.elapse gap).checkTicks) w) := by
  induction gaps generalizing w with
  | nil => rfl
  | cons gap gaps ih =>
    unfold polled
    rw [flatMap_cons, append_assoc, append_assoc, run_wait]
    exact ih _

/-- The component, as old as the clock can tell, looks newer than the system's last run. -/
theorem stale_looks_young : ∃ world cell system, run step staleRun alloc = some world ∧
    world.Regular ∧ world.cells ⟨0, 0, 0⟩ = some cell ∧ world.systems 0 = some system ∧
    cell.changed.tick.isNewerThan system.lastRun.tick world.thisRun.tick = true ∧
    ¬ world.thisRun.age cell.changed < world.thisRun.age system.lastRun := by
  let wr : Moment := ⟨2 ^ 29 + 2, 2 ^ 29 + 2⟩
  let s : Moment := ⟨2 ^ 29, 9 * 2 ^ 29⟩
  refine ⟨?world, ⟨wr, wr⟩, ⟨s, none, false⟩, ?ran, ?regular, ?stored, ?present,
    ?newer, ?older⟩
  case ran =>
    unfold staleRun
    rw [run_polled, run_wait, run_append,
      show run step [.write none ⟨0, 0, 0⟩ true] _ = some _ from rfl, bind_some,
      run_polled, run_wait, run_append,
      show run step [.initSystem 0, .startRun 0, .endRun 0 true] _ = some _ from rfl,
      bind_some, run_wait, run_nil]
  case regular =>
    unfold Regular
    decide +kernel
  case stored => decide +kernel
  case present => decide +kernel
  case newer => decide +kernel
  case older => decide +kernel

end WorldTicks

end Voker.Ecs
