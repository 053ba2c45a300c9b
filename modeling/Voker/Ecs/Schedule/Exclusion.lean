import Voker.Ecs.Schedule.Faithful
import Voker.Ecs.Schedule.Progress

/-!
# Systems that run together

The executor starts a system only if the table of conflicts has no bit between it and a
system that runs, and the table of a compiled schedule is symmetric.  Hence **two systems
with a bit between them never run together**, whatever the table says.

That an exclusive system runs alone is what the table is to say; it does **if no
initialisation of the schedule was interrupted**.
-/

namespace Voker.Ecs

open Foundation List Option MultiThreadedExecutor SystemSchedule

namespace MultiThreadedExecutor

variable {s : SystemSchedule} {out : ℕ → Outcome} {x : MultiThreadedExecutor}

/-- No two systems that run have a bit between them. -/
def Apart (schedule : SystemSchedule) (executor : MultiThreadedExecutor) : Prop :=
  ∀ first ∈ executor.flying, ∀ second ∈ executor.flying, first ≠ second →
    schedule.conflict first second = false

/-- Only starting a system brings it together with others. -/
theorem Apart.next (ha : Apart s x) (hs : Sound s out x)
    (hsy : ∀ {one two}, one < s.size → two < s.size → s.conflict one two = s.conflict two one)
    {l : ExecutorStep} {next : MultiThreadedExecutor}
    (hm : Transition s out x l next) : Apart s next := by
  cases hm with
  | finish mem =>
    exact fun one hif two his =>
      ha one (mem_of_mem_erase hif) two (mem_of_mem_erase his)
  | @spawn i left rest hl hre hf =>
    have hin : i < s.size := (hs.incoming_eq_zero
      (places_pos_of_ready (hre ▸ mem_cons_self))).1
    have hcl : ∀ o ∈ x.flying, s.conflict i o = false := by
      intro o mem
      have hr := (hs.running o).mpr (.inl mem)
      by_contra hc
      exact of_decide_eq_false hf ⟨o, hr, Bool.not_eq_false _ ▸ hc⟩
    intro one hif two his ne
    rcases mem_cons.mp hif with rfl | hof
    · rcases mem_cons.mp his with rfl | hos
      · exact absurd rfl ne
      · exact hcl two hos
    · rcases mem_cons.mp his with rfl | hos
      · rw [hsy (hs.incoming_eq_zero (places_pos_of_flying hof)).1 hin]
        exact hcl one hof
      · exact ha one hof two hos ne
  | acquire | giveUp | check | drain | fetch | scan | leave | postpone | defer | settle | resolve
    | resume => exact ha

/-- The executor is in order, and no two systems that run have a bit between them. -/
structure Separated (schedule : SystemSchedule) (outcome : ℕ → Outcome)
    (executor : MultiThreadedExecutor) : Prop where
  sound : Sound schedule outcome executor
  apart : Apart schedule executor

theorem separated_run {l : List ExecutorStep}
    (hsy : ∀ {one two}, one < s.size → two < s.size → s.conflict one two = s.conflict two one)
    (ran : run (step s out) l (start s) = some x) : Separated s out x := by
  refine run_invariant (fun _ _ _ hse hs => ?_) ⟨sound_start, fun _ mem => ?_⟩ ran
  · have hm := hse.sound.transition hs
    exact ⟨hse.sound.next hm, hse.apart.next hse.sound hsy hm⟩
  · cases mem

end MultiThreadedExecutor

namespace Schedule

variable {schedule : Schedule}

theorem Lists.getD {keys : List SystemKey} {edge : SystemKey → SystemKey → Prop}
    {l : List (List ℕ)} {c : List ℕ} (hd : Lists keys edge l c) (i : ℕ) :
    (l.getD i []).Nodup ∧ ∀ j, j ∈ l.getD i [] ↔ EdgeAt keys edge i j := by
  rw [getD_eq_getElem?_getD]
  cases hf : l[i]? with
  | none =>
    refine ⟨nodup_nil, fun j => ⟨fun mem => (nomatch mem), ?_⟩⟩
    rintro ⟨a, -, atI, -⟩
    rw [getElem?_eq_none_iff, hd.length, ← getElem?_eq_none_iff, atI] at hf
    cases hf
  | some list =>
    exact ⟨hd.nodup list (mem_of_getElem? hf), fun j => hd.mem hf⟩

/-- What executors see of a compiled schedule. -/
def systemSchedule (schedule : Schedule) (compiled : schedule.Compiled) : SystemSchedule where
  systems := schedule.schedule.systems.map fun node => node.system.object
  outgoing := fun index => schedule.schedule.outgoing.getD index []
  conditionOutgoing := fun index => schedule.schedule.conditionOutgoing.getD index []
  conflict := schedule.schedule.conflict.isConflict
  forward := fun {source target} mem => by
    have edge := ((compiled.dependencies.getD source).2 target).mp mem
    refine ⟨compiled.forward edge, ?_⟩
    obtain ⟨-, b, -, atTarget, -⟩ := edge
    rw [length_map, ← compiled.aligned.length_eq]
    exact (List.getElem?_eq_some_iff.mp atTarget).1
  outgoingNodup := fun source => (compiled.dependencies.getD source).1
  conditionNodup := fun source => (compiled.conditions.getD source).1
  conditionSubset := fun {source target} mem => by
    obtain ⟨a, b, atSource, atTarget, edge⟩ :=
      ((compiled.conditions.getD source).2 target).mp mem
    exact ((compiled.dependencies.getD source).2 target).mpr
      ⟨a, b, atSource, atTarget, .inr edge⟩

/-- The schedule that the operations build. -/
def built (ops : List ScheduleOp) : Schedule :=
  (run step ops .new).getD .new

theorem built_spec {ops : List ScheduleOp}
    (he : (run step ops .new).any (fun schedule => schedule.isChanged = false) = true) :
    run step ops .new = some (built ops) ∧ (built ops).isChanged = false := by
  obtain ⟨schedule, hf, hc⟩ := (any_eq_true _ _).mp he
  rw [built, hf, getD_some]
  exact ⟨rfl, of_decide_eq_true hc⟩

theorem built_compiled {ops : List ScheduleOp}
    (he : (run step ops .new).any (fun schedule => schedule.isChanged = false) = true) :
    (built ops).Compiled :=
  compiled_of_run (built_spec he).1 (built_spec he).2

/-- Where an exclusive system is. -/
theorem exclusive_systemSchedule (hc : schedule.Compiled) {i : ℕ} :
    (schedule.systemSchedule hc).isExclusive i = true ↔
      ∃ node, schedule.schedule.systems[i]? = some node ∧
        node.system.object.exclusive = true := by
  rw [isExclusive, flag, Option.any_eq_true]
  have hm : (schedule.systemSchedule hc).systems[i]? =
      schedule.schedule.systems[i]?.map fun node => node.system.object := List.getElem?_map ..
  rw [hm]
  simp only [map_eq_some_iff]
  constructor
  · rintro ⟨_, ⟨node, hf, rfl⟩, he⟩
    exact ⟨node, hf, he⟩
  · rintro ⟨node, hf, he⟩
    exact ⟨_, ⟨node, hf, rfl⟩, he⟩

/-- **While the systems of a compiled schedule run, no two of them with a bit between them run
together, and an exclusive system runs alone if no initialisation of the schedule was
interrupted.** -/
theorem run_apart {ops : List ScheduleOp} {schedule : Schedule}
    (built : run step ops .new = some schedule) (clean : schedule.isChanged = false) :
    ∃ compiled : schedule.Compiled, ∀ (outcome : ℕ → Outcome) (labels : List ExecutorStep)
      (executor : MultiThreadedExecutor),
      run (MultiThreadedExecutor.step (schedule.systemSchedule compiled) outcome) labels
        (MultiThreadedExecutor.start (schedule.systemSchedule compiled)) = some executor →
      (∀ first ∈ executor.flying, ∀ second ∈ executor.flying, first ≠ second →
        schedule.schedule.conflict.isConflict first second = false) ∧
      (EachStep step Initialises ops .new → ∀ first ∈ executor.flying,
        (schedule.systemSchedule compiled).isExclusive first = true →
          executor.flying = [first]) := by
  refine ⟨compiled_of_run built clean, fun outcome labels executor ran => ?_⟩
  let compiled := compiled_of_run built clean
  obtain ⟨hso, ha⟩ :
      MultiThreadedExecutor.Separated (schedule.systemSchedule compiled) outcome executor := by
    refine separated_run (fun {first second} hif his => ?_) ran
    rw [size, systemSchedule, length_map, ← compiled.aligned.length_eq] at hif his
    exact compiled.symm hif his
  refine ⟨ha, fun hc first hit he => ?_⟩
  have hs : schedule.Separates := separates_of_run built clean hc
  obtain ⟨node, haf, he⟩ := (exclusive_systemSchedule compiled).mp he
  have hal : ∀ second ∈ executor.flying, second = first := by
    intro second hin
    by_contra hd
    have hi : second < schedule.schedule.systems.length := by
      have hi := (hso.incoming_eq_zero (places_pos_of_flying hin)).1
      rwa [size, systemSchedule, length_map] at hi
    have bit := (hs (Ne.symm hd) haf (getElem?_eq_getElem hi)).mpr
      (.inr (.inl he))
    have hf : schedule.schedule.conflict.isConflict first second = false :=
      ha first hit second hin (Ne.symm hd)
    rw [bit] at hf
    cases hf
  have hn : executor.flying.Nodup := (nodup_append.mp (nodup_append.mp hso.nodup).1).2.1
  have hp : executor.flying.Perm [first] := (perm_ext_iff_of_nodup hn
    (nodup_singleton first)).mpr fun second => by
      rw [mem_singleton]
      exact ⟨hal second, fun hsa => hsa ▸ hit⟩
  exact perm_singleton.mp hp

/-! ## An exclusive system that does not run alone -/

section

variable (interrupted : Bool)

/-- An exclusive system and another one; the third, if it is added, panics in `initialize`. -/
def additions : List ScheduleOp :=
  [.addSystem .anonymous (functionSystem 0 true), .addSystem .anonymous (functionSystem 1 false)] ++
    if interrupted then
      [.addSystem .anonymous (functionSystem 2 false), .update 100 .same twoWriters,
        .update 100 .same twoWriters]
    else [.update 100 .same twoWriters]

theorem additions_built : (run step (additions interrupted) .new).any
      (fun schedule => schedule.isChanged = false) = true := by
  cases interrupted <;> decide +kernel

/-- The schedule that is compiled in the end. -/
def addedSystems : Schedule :=
  built (additions interrupted)

theorem addedSystems_spec :
    run step (additions interrupted) .new = some (addedSystems interrupted) ∧
      (addedSystems interrupted).isChanged = false :=
  built_spec (additions_built interrupted)

theorem addedSystems_compiled : (addedSystems interrupted).Compiled :=
  built_compiled (additions_built interrupted)

/-- A run of the executor. -/
def runAdded (labels : List ExecutorStep) : Option MultiThreadedExecutor :=
  let schedule := (addedSystems interrupted).systemSchedule (addedSystems_compiled interrupted)
  run (MultiThreadedExecutor.step schedule fun _ => .met) labels
    (MultiThreadedExecutor.start schedule)

end

/-- The marker that begins the set runs, and then what can be started is started. -/
def startAll (attempts : ℕ) : List ExecutorStep :=
  [.acquire] ++ replicate 3 .advance ++ [.check, .finish 0, .acquire] ++
    replicate (attempts + 4) .advance

/-- The exclusive system is started when the other one has ended. -/
def startLast : List ExecutorStep :=
  startAll 2 ++ [.check, .finish 1, .acquire] ++ replicate 4 .advance

/-- No initialisation is interrupted, and the exclusive system runs alone. -/
theorem run_apart_exclusive : ∃ executor, runAdded false startLast = some executor ∧
    2 ∈ executor.flying ∧ executor.flying = [2] := by
  refine @exists_of_any _ _ (2 ∈ ·.flying) _ _ (by decide +kernel) fun executor ran mem => ?_
  obtain ⟨hc, ha⟩ := run_apart (addedSystems_spec false).1 (addedSystems_spec false).2
  have he : ((addedSystems false).systemSchedule (addedSystems_compiled false)).isExclusive 2 =
      true := by
    decide +kernel
  exact ⟨mem, (ha _ _ executor ran).2 (eachStep_of_allSteps (by decide +kernel)) 2 mem he⟩

/-- **The conflict graph has forgotten the exclusive system, and it runs with the others.** -/
theorem exclusive_not_alone : ∃ schedule executor, ∃ compiled : schedule.Compiled,
    run step (additions true) .new = some schedule ∧ schedule.isChanged = false ∧
    run (MultiThreadedExecutor.step (schedule.systemSchedule compiled) fun _ => .met) (startAll 2)
      (MultiThreadedExecutor.start (schedule.systemSchedule compiled)) = some executor ∧
    (schedule.systemSchedule compiled).isExclusive 3 = true ∧ executor.flying = [3, 2, 1] := by
  have he : ((runAdded true (startAll 2)).any fun executor =>
      executor.flying = [3, 2, 1]) = true := by
    decide +kernel
  obtain ⟨executor, ran, hf⟩ := (any_eq_true _ _).mp he
  exact ⟨addedSystems true, executor, addedSystems_compiled true, (addedSystems_spec true).1,
    (addedSystems_spec true).2, ran, by decide +kernel, of_decide_eq_true hf⟩

end Schedule

end Voker.Ecs
