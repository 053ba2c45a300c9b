import Voker.Ecs.Schedule.Compiled

/-!
# The single-threaded executor

It visits the systems in topological order and skips those whose conditions are not all
met.  **It runs exactly the systems whose conditions all run and pass, where an action
passes even if it ends with an error** (`run_spec`).
-/

namespace Voker.Ecs

open Foundation List Option SystemSchedule

/-- `SingleThreadedExecutor`, with the systems that have been run. -/
structure SingleThreadedExecutor where
  conditionIncoming : ℕ → ℕ
  ran : List ℕ

namespace SingleThreadedExecutor

variable (schedule : SystemSchedule) (outcome : ℕ → Outcome)

/-- What happens at one system; `none` if it panics, which ends the run. -/
def visit (executor : SingleThreadedExecutor) (index : ℕ) : Option SingleThreadedExecutor :=
  if executor.conditionIncoming index ≠ 0 then some executor
  else
    let notify := (decrement executor.conditionIncoming (schedule.conditionOutgoing index)).map
      fun counters => (⟨counters, executor.ran ++ [index]⟩ : SingleThreadedExecutor)
    match outcome index with
    | .panicked => none
    | .met => notify
    -- an action that ended with an error still counts as a condition that holds
    | .unmet => if schedule.isAction index then notify
        else some { executor with ran := executor.ran ++ [index] }

/-- `run`. -/
def run : Option SingleThreadedExecutor :=
  (List.range schedule.size).foldlM (visit schedule outcome) ⟨schedule.conditionIncoming, []⟩

/-- A run up to a system; the next one may panic. -/
def runTo (count : ℕ) : Option SingleThreadedExecutor :=
  (List.range count).foldlM (visit schedule outcome) ⟨schedule.conditionIncoming, []⟩

/-- How a system passes as a condition of others. -/
def Passes (index : ℕ) : Prop :=
  outcome index = .met ∨ schedule.isAction index = true

variable {schedule outcome}

/-- The systems below `index` have been visited. -/
structure Visited (schedule : SystemSchedule) (outcome : ℕ → Outcome) (index : ℕ)
    (executor : SingleThreadedExecutor) : Prop where
  ran : ∀ system, system ∈ executor.ran ↔
    system < index ∧ schedule.Activated (Passes schedule outcome) system
  nodup : executor.ran.Nodup
  counters : ∃ passed : List ℕ,
    (∀ system, system ∈ passed ↔ system ∈ executor.ran ∧ Passes schedule outcome system) ∧
    ∀ system, executor.conditionIncoming system = outstanding (schedule.conditions system) passed

variable {index : ℕ} {x : SingleThreadedExecutor}

section

variable (visited : Visited schedule outcome index x)

include visited

/-- A system is activated exactly if its counter is zero when it is visited. -/
theorem Visited.activated_iff : x.conditionIncoming index = 0 ↔
      schedule.Activated (Passes schedule outcome) index := by
  obtain ⟨p, mem, hc⟩ := visited.counters
  rw [hc, outstanding_eq_zero, SystemSchedule.activated_iff]
  refine forall₂_congr fun c hin => ?_
  rw [mem, visited.ran, and_iff_right (lt_of_mem_conditions hin)]

/-- Its counters go down by one. -/
theorem Visited.notify (ha : schedule.Activated (Passes schedule outcome) index)
    (hp : Passes schedule outcome index) :
    ∃ c, decrement x.conditionIncoming (schedule.conditionOutgoing index) = some c ∧
      Visited schedule outcome (index + 1) ⟨c, x.ran ++ [index]⟩ := by
  obtain ⟨p, mem, c⟩ := visited.counters
  have hf : index ∉ x.ran := fun ran => lt_irrefl _ ((visited.ran index).mp ran).1
  have hu : index ∉ p := fun hin => hf ((mem index).mp hin).1
  refine ⟨_, decrement_eq (schedule.conditionNodup index) fun t he => ?_, ?_, ?_, ?_⟩
  · rw [c]
    exact outstanding_pos (mem_conditions.mpr he) hu
  · intro s
    rw [mem_append, visited.ran, mem_singleton, Nat.lt_succ_iff_lt_or_eq, or_and_right]
    exact or_congr_right ⟨fun hs => ⟨hs, hs ▸ ha⟩, And.left⟩
  · exact visited.nodup.append (nodup_singleton index) (by simpa using hf)
  · refine ⟨p ++ [index], fun s => ?_, fun s => ?_⟩
    · rw [mem_append, mem_append, mem, mem_singleton, or_and_right]
      exact or_congr_right ⟨fun hs => ⟨hs, hs ▸ hp⟩, And.left⟩
    · rw [outstanding_append (nodup_conditions s) hu, ← c]
      simp only [mem_conditions]

/-- A system that does not pass, or is not run, changes no counter. -/
theorem Visited.still {ran : List ℕ} (log : ∀ s, s ∈ ran ↔ s ∈ x.ran ∨
      s = index ∧ schedule.Activated (Passes schedule outcome) index)
    (hn : ran.Nodup) (hsi : index ∈ ran → ¬ Passes schedule outcome index) :
    Visited schedule outcome (index + 1) { x with ran := ran } := by
  obtain ⟨p, mem, hc⟩ := visited.counters
  refine ⟨fun s => ?_, hn, p, fun s => ?_, hc⟩
  · rw [log, visited.ran, Nat.lt_succ_iff_lt_or_eq, or_and_right]
    exact or_congr_right ⟨fun ⟨hs, ha⟩ => ⟨hs, hs ▸ ha⟩,
      fun ⟨hs, ha⟩ => ⟨hs, hs ▸ ha⟩⟩
  · rw [mem, log]
    constructor
    · exact fun ⟨pre, hp⟩ => ⟨.inl pre, hp⟩
    · rintro ⟨pre | ⟨rfl, ha⟩, hp⟩
      · exact ⟨pre, hp⟩
      · exact absurd hp (hsi ((log s).mpr (.inr ⟨rfl, ha⟩)))

/-- One system is visited, or it panics. -/
theorem Visited.visit_or :
    (∃ next, SingleThreadedExecutor.visit schedule outcome x index = some next ∧
      Visited schedule outcome (index + 1) next ∧
      (next.ran = x.ran ∨ next.ran = x.ran ++ [index])) ∨
    (SingleThreadedExecutor.visit schedule outcome x index = none ∧ outcome index = .panicked) := by
  have hf : index ∉ x.ran := fun ran => lt_irrefl _ ((visited.ran index).mp ran).1
  unfold SingleThreadedExecutor.visit
  split
  · next hw =>
    refine .inl ⟨x, rfl, visited.still (fun s => ?_) visited.nodup fun ran =>
      absurd ran hf, .inl rfl⟩
    have hi := mt visited.activated_iff.mpr hw
    simp [hi]
  · next hr =>
    have hac := visited.activated_iff.mp (not_not.mp hr)
    have hap : ∀ s, s ∈ x.ran ++ [index] ↔ s ∈ x.ran ∨
        s = index ∧ schedule.Activated (Passes schedule outcome) index := by
      intro s
      rw [mem_append, mem_singleton, and_iff_left hac]
    have hno : (x.ran ++ [index]).Nodup :=
      visited.nodup.append (nodup_singleton index) (by simpa using hf)
    split
    · next hp =>
      exact .inr ⟨rfl, hp⟩
    · next met =>
      obtain ⟨c, hn, hpo⟩ := visited.notify hac (.inl met)
      exact .inl ⟨_, by rw [hn]; rfl, hpo, .inr rfl⟩
    · next hu =>
      split
      · next ha =>
        obtain ⟨c, hn, hpo⟩ := visited.notify hac (.inr ha)
        exact .inl ⟨_, by rw [hn]; rfl, hpo, .inr rfl⟩
      · next hc =>
        refine .inl ⟨_, rfl, visited.still hap hno fun _ hpa => ?_, .inr rfl⟩
        rcases hpa with met | ha
        · rw [hu] at met
          cases met
        · exact hc ha

end

theorem visited_start : Visited schedule outcome 0 ⟨schedule.conditionIncoming, []⟩ := by
  refine ⟨?_, nodup_nil, [], ?_, fun s => ?_⟩
  · simp
  · simp
  · simp [SystemSchedule.conditionIncoming]

theorem runTo_succ (c : ℕ) : runTo schedule outcome (c + 1) =
    (runTo schedule outcome c).bind fun x => visit schedule outcome x c := by
  rw [runTo, range_succ, foldlM_append]
  simp [runTo]

/-- Up to a panic the executor has run what is activated, in order. -/
theorem runTo_spec {c : ℕ} (ran : runTo schedule outcome c = some x) :
    Visited schedule outcome c x ∧ x.ran.Pairwise (· < ·) := by
  induction c generalizing x with
  | zero =>
    obtain rfl := some.inj ran
    exact ⟨visited_start, .nil⟩
  | succ c ih =>
    rw [runTo_succ, bind_eq_some_iff] at ran
    obtain ⟨pre, ran, hs⟩ := ran
    obtain ⟨visited, hso⟩ := ih ran
    rcases visited.visit_or with ⟨next, hvn, hp, log⟩ | ⟨hn, -⟩
    · rw [hvn] at hs
      obtain rfl := some.inj hs
      refine ⟨hp, ?_⟩
      rcases log with hsa | ha
      · rw [hsa]
        exact hso
      · rw [ha]
        refine pairwise_append.mpr ⟨hso, pairwise_singleton _ _, ?_⟩
        intro e mem l hin
        rw [mem_singleton.mp hin]
        exact ((visited.ran e).mp mem).1
    · rw [hn] at hs
      cases hs

/-- **The single-threaded executor runs what is activated**, if no system panics. -/
theorem run_spec (hc : ∀ index, outcome index ≠ .panicked) :
    ∃ x, run schedule outcome = some x ∧ x.ran.Nodup ∧ ∀ index, index ∈ x.ran ↔
        index < schedule.size ∧ schedule.Activated (Passes schedule outcome) index := by
  have hsc : ∀ c, ∃ x, runTo schedule outcome c = some x ∧
      Visited schedule outcome c x := by
    intro c
    induction c with
    | zero => exact ⟨_, rfl, visited_start⟩
    | succ c ih =>
      obtain ⟨x, hsc, visited⟩ := ih
      rw [runTo_succ, hsc, bind_some]
      rcases visited.visit_or with ⟨next, hs, hpo, -⟩ | ⟨-, hp⟩
      · exact ⟨next, hs, hpo⟩
      · exact absurd hp (hc c)
  obtain ⟨x, hsc, visited⟩ := hsc schedule.size
  exact ⟨x, hsc, visited.nodup, visited.ran⟩

end SingleThreadedExecutor

end Voker.Ecs
