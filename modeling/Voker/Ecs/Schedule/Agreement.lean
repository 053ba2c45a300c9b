import Voker.Ecs.Schedule.Exact
import Voker.Ecs.Schedule.Single

/-!
# Two executors

Both executors are to run the same systems.  They differ in one rule: an action that ends
with an error is, as a condition, met for the single-threaded executor and not met for the
multi-threaded one.

**They run the same systems exactly if no system that is to run is conditional on an action
that fails** (`agrees_iff`).

Two things have to be in order for that.  The multi-threaded executor completes nobody in place
of a no-op; this is so if no no-op that waits behind another one frees a system when an exclusive
system is started (`Clear`).  And no-ops succeed: `map`, `pipe`, `with_input` and `mark` pass the
flag of a no-op on to the system they make, whose answer is then the one it would give if it is
run, and "met" if it is not.
-/

namespace Voker.Ecs

open Foundation List Option MultiThreadedExecutor SingleThreadedExecutor

namespace MultiThreadedExecutor

variable {s : SystemSchedule} {out : ℕ → Outcome} {x : MultiThreadedExecutor}

/-- Whether the executor has run a system.  A no-op has nothing to run and may be completed
at once. -/
def HasRun (schedule : SystemSchedule) (executor : MultiThreadedExecutor) (index : ℕ) : Prop :=
  index ∈ executor.started ∨ schedule.isNoOp index = true ∧
    ∃ signal ∈ executor.handled, signal.index = index ∧ signal.cause = .noOp

section

variable (sound : Sound s out x)

include sound

/-- Who has run is a system. -/
theorem HasRun.lt {i : ℕ} (ran : HasRun s x i) : i < s.size := by
  rcases ran with hs | ⟨-, signal, ha, rfl, -⟩
  · have hc := count_pos_iff.mpr hs
    exact (sound.incoming_eq_zero (hc.trans_le (sound.started_le_places i))).1
  · exact (sound.incoming_eq_zero (places_pos_of_signal (mem_append_right _ ha))).1

/-- A system that is completed has run unless it was skipped. -/
theorem Sound.hasRun_iff (ho : Honest s x) {signal : CompletedSignal}
    (ha : signal ∈ x.handled) : HasRun s x signal.index ↔ Due s out x signal.index := by
  have mem : signal ∈ x.signals := mem_append_right _ ha
  have skipped := sound.skipped_iff ho mem
  cases hc : signal.cause with
  | ran =>
    rw [hc] at skipped
    exact iff_of_true (.inl (sound.mem_started_of_ran mem hc)) (by simpa using skipped)
  | noOp =>
    rw [hc] at skipped
    exact iff_of_true (.inr ⟨ho signal mem hc, signal, ha, rfl, hc⟩)
      (by simpa using skipped)
  | skipped =>
    refine iff_of_false ?_ (skipped.mp hc)
    rintro (hst | ⟨-, other, hin, hsa, ht⟩)
    · exact sound.not_started mem (by rw [hc]; decide) hst
    · rw [sound.signal_unique (mem_append_right _ hin) mem hsa, hc] at ht
      cases ht

end

/-- At the end the executor has run what was to run. -/
theorem Steady.hasRun_iff (hs : Steady s out x)
    (ho : Honest s x) (hr : x.Returned) (i : ℕ) :
    HasRun s x i ↔ i < s.size ∧ Due s out x i := by
  obtain ⟨sound, hl⟩ := hs
  constructor
  · intro ran
    have hin := ran.lt sound
    obtain ⟨signal, ha, rfl⟩ := sound.exists_signal hl hr hin
    exact ⟨hin, (sound.hasRun_iff ho ha).mp ran⟩
  · rintro ⟨hin, due⟩
    obtain ⟨signal, ha, rfl⟩ := sound.exists_signal hl hr hin
    exact (sound.hasRun_iff ho ha).mpr due

end MultiThreadedExecutor

/-! ## Agreement -/

/-- The outcomes of a run in which nothing panics: actions that succeed or fail, conditions
that hold or do not. -/
def ending (success : ℕ → Bool) (index : ℕ) : Outcome := if success index then .met else .unmet

/-- If no-ops succeed, it does not matter whether they are run. -/
theorem due_iff {schedule : SystemSchedule} {success : ℕ → Bool} {executor : MultiThreadedExecutor}
    (hq : ∀ i, schedule.isNoOp i = true → success i = true) (i : ℕ) :
    Due schedule (ending success) executor i ↔
      schedule.Activated (fun cond => ending success cond = .met) i := by
  refine ⟨fun due => due.mono ?_, fun ha => ha.mono fun cond => .inl⟩
  rintro cond (met | ⟨hn, -⟩)
  · exact met
  · exact if_pos (hq cond hn)

/-- **The two executors run the same systems exactly if no system that is to run is conditional
on an action that fails.**  No-ops succeed, and none of them that waits behind another one frees a
system when an exclusive system is started. -/
theorem agrees_iff {schedule : SystemSchedule} {success : ℕ → Bool} {labels : List ExecutorStep}
    {executor : MultiThreadedExecutor} (ran : run (step schedule (ending success)) labels
      (start schedule) = some executor) (returned : executor.Returned)
    (quiet : ∀ index, schedule.isNoOp index = true → success index = true)
    (clear : EachStep (step schedule (ending success))
      (fun label state _ => Clear schedule label state) labels (start schedule)) :
    ∃ single, run schedule (ending success) = some single ∧
      ((∀ index, MultiThreadedExecutor.HasRun schedule executor index ↔ index ∈ single.ran) ↔
        ∀ index < schedule.size, schedule.Activated (Passes schedule (ending success)) index →
          ∀ condition ∈ schedule.conditions index, schedule.isAction condition = true →
            ending success condition = .met) := by
  obtain ⟨single, hd, -, hr⟩ := @run_spec schedule (ending success) fun index => by
      unfold ending
      split <;> decide
  refine ⟨single, hd, ?_⟩
  have hs := steady_run ran
  have ho := (honest_iff_eachStep ran).mpr (takesNoOp_of_clear clear)
  have hw : ∀ index, ending success index = .met → Passes schedule (ending success) index :=
    fun index => .inl
  calc (∀ index, MultiThreadedExecutor.HasRun schedule executor index ↔ index ∈ single.ran)
    _ ↔ ∀ index < schedule.size, schedule.Activated (fun cond => ending success cond = .met) index ↔
          schedule.Activated (Passes schedule (ending success)) index := by
      refine forall_congr' fun index => ?_
      rw [hs.hasRun_iff ho returned, hr, due_iff quiet]
      exact and_congr_right_iff
    _ ↔ _ := by
      rw [SystemSchedule.activated_congr_iff hw]
      refine forall₂_congr fun index hi => forall_congr' fun ha => forall₂_congr fun cond hm => ?_
      refine ⟨fun met _ => met, fun hac => ?_⟩
      exact (SystemSchedule.activated_iff.mp ha cond hm).2.elim id hac

/-- Two actions, the second of which is to run only if the first one ran. -/
def runIfRan : SystemSchedule where
  systems := replicate 2 ⟨.action, false, false, false⟩
  outgoing index := if index = 0 then [1] else []
  conditionOutgoing index := if index = 0 then [1] else []
  conflict _ _ := false
  forward := by
    intro index target edge
    split at edge
    · next same =>
      obtain rfl := mem_singleton.mp edge
      simp [same]
    · cases edge
  outgoingNodup := by
    intro index
    split <;> simp
  conditionNodup := by
    intro index
    split <;> simp
  conditionSubset := id

/-- The first action is run, and the second one if the first one succeeds. -/
def runIfRanRun (second : Bool) : List ExecutorStep :=
  [.acquire] ++ replicate 3 .advance ++ [.check, .finish 0, .acquire] ++
    replicate 5 .advance ++ [.check] ++
    if second then [.finish 1, .acquire] ++ replicate 4 .advance ++ [.check] else []

/-- If the first action succeeds, both are run by both executors. -/
theorem agrees_iff_runIfRan : ∃ executor single,
    run (step runIfRan (ending fun _ => true)) (runIfRanRun true) (start runIfRan) = some executor ∧
      executor.Returned ∧ run runIfRan (ending fun _ => true) = some single ∧
      ∀ index, MultiThreadedExecutor.HasRun runIfRan executor index ↔ index ∈ single.ran := by
  obtain ⟨executor, ran, hr⟩ : ∃ executor, run (step runIfRan (ending fun _ => true))
      (runIfRanRun true) (start runIfRan) = some executor ∧ executor.Returned :=
    exists_of_any (by decide +kernel) fun _ _ ht => ht
  obtain ⟨single, hd, ha⟩ := agrees_iff ran hr (fun _ _ => rfl)
    (eachStep_of_allSteps (by decide +kernel))
  exact ⟨executor, single, ran, hr, hd, ha.mpr fun _ _ _ _ _ _ => rfl⟩

/-- **If the first action fails, the single-threaded executor runs the second one and the
multi-threaded executor skips it.** -/
theorem runIfRan_disagrees : ∃ executor single,
    run (step runIfRan (ending fun index => index ≠ 0)) (runIfRanRun false)
      (start runIfRan) = some executor ∧ executor.Returned ∧ executor.started = [0] ∧
      run runIfRan (ending fun index => index ≠ 0) = some single ∧
      single.ran = [0, 1] ∧ ¬ MultiThreadedExecutor.HasRun runIfRan executor 1 := by
  obtain ⟨executor, ran, hr, hs⟩ : ∃ executor, run (step runIfRan (ending fun index => index ≠ 0))
      (runIfRanRun false) (start runIfRan) = some executor ∧ executor.Returned ∧
        executor.started = [0] :=
    exists_of_any (by decide +kernel) fun _ _ ht => ht
  obtain ⟨single, hd, hb⟩ : ∃ single, run runIfRan (ending fun index => index ≠ 0) = some single ∧
      single.ran = [0, 1] :=
    exists_of_any (by decide +kernel) fun _ _ ht => ht
  refine ⟨executor, single, ran, hr, hs, hd, hb, ?_⟩
  rintro (hse | ⟨hno, -⟩)
  · rw [hs] at hse
    exact absurd hse (by decide)
  · exact absurd hno (by decide)

end Voker.Ecs
