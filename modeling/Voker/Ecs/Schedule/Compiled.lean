import Mathlib.Data.List.Range
import Voker.Foundation.Countdown

/-!
# Compiled schedules

A compiled schedule numbers its systems in a topological order of the merged graph of
dependencies and conditions.  A system waits for its predecessors; some of them are
conditions, and it only runs if these were met.

**Which systems are to run follows from the conditions alone**: those whose condition
predecessors all run and pass (`Activated`).
-/

namespace Voker.Ecs

open List Function

/-- The two kinds of `SystemObject`. -/
inductive SystemKind where
  | action
  | condition
  deriving DecidableEq, Repr

/-- `SystemObject`, as far as the executors look at it.  (Whether it has to run on the main
thread only decides which pool takes it.) -/
structure SystemObject where
  kind : SystemKind
  noOp : Bool
  deferred : Bool
  exclusive : Bool
  deriving DecidableEq, Repr

/-- What a system that runs ends with: success of an action or a condition that holds; an
error that was handled or a condition that does not hold; or a panic. -/
inductive Outcome where
  | met
  | unmet
  | panicked
  deriving DecidableEq, Repr

/-- `SystemSchedule`, as `build_schedule` leaves it: systems in topological order, the
edges of the merged graph, and among them the condition edges.  The graphs have no double
edges. -/
structure SystemSchedule where
  systems : List SystemObject
  outgoing : ℕ → List ℕ
  conditionOutgoing : ℕ → List ℕ
  conflict : ℕ → ℕ → Bool
  forward : ∀ {source target : ℕ}, target ∈ outgoing source →
    source < target ∧ target < systems.length
  outgoingNodup : ∀ source, (outgoing source).Nodup
  conditionNodup : ∀ source, (conditionOutgoing source).Nodup
  conditionSubset : ∀ {source target : ℕ}, target ∈ conditionOutgoing source →
    target ∈ outgoing source

namespace SystemSchedule

variable (schedule : SystemSchedule)

/-- The number of systems. -/
def size : ℕ := schedule.systems.length

/-- A property of a system. -/
def flag (read : SystemObject → Bool) (index : ℕ) : Bool := schedule.systems[index]?.any read

section

variable (index : ℕ)

/-- `is_no_op`.  The markers of sets and synchronisation points are no-ops, and so is what wraps
them (`map`, `pipe`, `with_input`, `mark`), whatever it returns. -/
def isNoOp : Bool := schedule.flag SystemObject.noOp index

/-- `is_deferred`. -/
def isDeferred : Bool := schedule.flag SystemObject.deferred index

/-- `is_exclusive`. -/
def isExclusive : Bool := schedule.flag SystemObject.exclusive index

/-- Whether a system is an action. -/
def isAction : Bool := schedule.flag (fun system => system.kind = .action) index

/-- The systems a system waits for. -/
def predecessors : List ℕ :=
  (List.range schedule.size).filter fun source => index ∈ schedule.outgoing source

/-- The systems that are conditions of a system. -/
def conditions : List ℕ :=
  (List.range schedule.size).filter fun source => index ∈ schedule.conditionOutgoing source

/-- `incoming`: `build_schedule` counts the edges that lead to a system. -/
def incoming : ℕ := (schedule.predecessors index).length

/-- `condition_incoming`. -/
def conditionIncoming : ℕ := (schedule.conditions index).length

end

variable {schedule} {src t i : ℕ}

/-- Edges start at systems: the lists of others are empty. -/
theorem source_lt (he : t ∈ schedule.outgoing src) : src < schedule.size :=
  (schedule.forward he).1.trans (schedule.forward he).2

theorem mem_predecessors : src ∈ schedule.predecessors t ↔ t ∈ schedule.outgoing src := by
  rw [predecessors, mem_filter, mem_range, decide_eq_true_iff]
  exact and_iff_right_of_imp source_lt

theorem mem_conditions : src ∈ schedule.conditions t ↔ t ∈ schedule.conditionOutgoing src := by
  rw [conditions, mem_filter, mem_range, decide_eq_true_iff]
  exact and_iff_right_of_imp fun he => source_lt (schedule.conditionSubset he)

theorem mem_predecessors_of_mem_conditions (hc : src ∈ schedule.conditions t) :
    src ∈ schedule.predecessors t :=
  mem_predecessors.mpr (schedule.conditionSubset (mem_conditions.mp hc))

theorem nodup_predecessors (i : ℕ) : (schedule.predecessors i).Nodup :=
  nodup_range.filter _

theorem nodup_conditions (i : ℕ) : (schedule.conditions i).Nodup :=
  nodup_range.filter _

/-- Predecessors come earlier. -/
theorem lt_of_mem_predecessors (mem : src ∈ schedule.predecessors t) : src < t :=
  (schedule.forward (mem_predecessors.mp mem)).1

theorem lt_of_mem_conditions (mem : src ∈ schedule.conditions t) : src < t :=
  lt_of_mem_predecessors (mem_predecessors_of_mem_conditions mem)

/-! ## Which systems are to run -/

/-- All conditions of the system run and pass. -/
inductive Activated (schedule : SystemSchedule) (passes : ℕ → Prop) : ℕ → Prop where
  | intro {index : ℕ}
      (run : ∀ condition ∈ schedule.conditions index, Activated schedule passes condition)
      (pass : ∀ condition ∈ schedule.conditions index, passes condition) :
      Activated schedule passes index

variable {passes strict loose : ℕ → Prop}

theorem activated_iff : Activated schedule passes i ↔ ∀ cond ∈ schedule.conditions i,
      Activated schedule passes cond ∧ passes cond := by
  constructor
  · rintro ⟨run, hp⟩
    exact fun cond mem => ⟨run cond mem, hp cond mem⟩
  · exact fun hb => ⟨fun cond mem => (hb cond mem).1, fun cond mem => (hb cond mem).2⟩

/-- **The conditions of a schedule have one solution**: what satisfies the same equation is
the same. -/
theorem activated_unique {runs : ℕ → Prop}
    (heq : ∀ i < schedule.size, runs i ↔ ∀ cond ∈ schedule.conditions i, runs cond ∧ passes cond)
    (hin : i < schedule.size) : runs i ↔ Activated schedule passes i := by
  induction i using Nat.strong_induction_on with
  | h i ih =>
    rw [heq i hin, activated_iff]
    refine forall₂_congr fun cond mem => and_congr_left fun _ => ?_
    have he := lt_of_mem_conditions mem
    exact ih cond he (he.trans hin)

/-- If everybody passes, everybody is to run. -/
theorem activated_of_forall (all : ∀ i, passes i) (i : ℕ) : Activated schedule passes i := by
  induction i using Nat.strong_induction_on with
  | h i ih => exact activated_iff.mpr fun cond mem => ⟨ih cond (lt_of_mem_conditions mem), all cond⟩

/-- Whoever passes more easily activates more. -/
theorem Activated.mono (hw : ∀ i, strict i → loose i)
    (ha : Activated schedule strict i) : Activated schedule loose i := by
  induction ha with
  | intro run hp ih => exact ⟨ih, fun cond mem => hw cond (hp cond mem)⟩

/-- Two ways to pass lead to the same systems exactly if they differ at no condition of a
system that runs. -/
theorem activated_congr_iff (hw : ∀ i, strict i → loose i) : (∀ i < schedule.size,
      Activated schedule strict i ↔ Activated schedule loose i) ↔
    ∀ i < schedule.size, Activated schedule loose i →
      ∀ cond ∈ schedule.conditions i, strict cond := by
  constructor
  · intro hs i hin ha cond mem
    exact ((activated_iff.mp ((hs i hin).mpr ha)) cond mem).2
  · intro hag i hin
    refine (activated_unique (fun i hin => ?_) hin).symm
    rw [activated_iff]
    constructor
    · exact fun hb cond mem => ⟨(hb cond mem).1, hag i hin (activated_iff.mpr hb) cond mem⟩
    · exact fun hb cond mem => ⟨(hb cond mem).1, hw cond (hb cond mem).2⟩

end SystemSchedule

/-! ## Counters -/

/-- Take one off each counter of a list; `none` if a counter is zero, where the source's
subtraction overflows. -/
def decrement (counter : ℕ → ℕ) : List ℕ → Option (ℕ → ℕ)
  | [] => some counter
  | target :: rest =>
    if counter target = 0 then none
    else decrement (update counter target (counter target - 1)) rest

theorem decrement_eq {ta : List ℕ} (hd : ta.Nodup) {c : ℕ → ℕ}
    (pos : ∀ t ∈ ta, 0 < c t) : decrement c ta =
      some fun i => if i ∈ ta then c i - 1 else c i := by
  induction ta generalizing c with
  | nil => simp [decrement]
  | cons t rest ih =>
    obtain ⟨ha, ho⟩ := nodup_cons.mp hd
    have he : ∀ o ∈ rest, o ≠ t := fun o mem hs => ha (hs ▸ mem)
    rw [decrement, if_neg (pos t mem_cons_self).ne', ih ho]
    · refine congrArg some (funext fun i => ?_)
      by_cases hs : i = t
      · subst hs
        simp [ha]
      · simp [hs]
    · intro o mem
      rw [update_of_ne (he o mem)]
      exact pos o (mem_cons_of_mem _ mem)

end Voker.Ecs
