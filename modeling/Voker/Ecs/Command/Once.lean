import Voker.Ecs.Command.Apply

/-!
# Every command runs once

Over any sequence of pushes, flushes and applications, panics included, **the commands
started so far and the commands that wait are together exactly the commands ever pushed,
each once** (`Accounted`).  From any such state an application terminates; unless a command
panics it empties the queues, and the commands it starts are the depth-first traversal of
those that waited.
-/

namespace Voker.Ecs

open Foundation QueueEvent List Option

namespace CommandMachine

variable {S : Type}

/-- The commands that wait, those of the world first. -/
def pending (machine : CommandMachine S) : List ℕ :=
  tags machine.worldQueue.bytes ++ tags machine.otherQueue.bytes

/-- No pass is active, and every command has been started or waits. -/
structure Accounted (machine : CommandMachine S) : Prop where
  world : machine.worldQueue = ⟨machine.worldQueue.bytes, 0, []⟩
  other : machine.otherQueue = ⟨machine.otherQueue.bytes, 0, []⟩
  once : (starts machine.log ++ machine.pending).Perm (range machine.issued)

theorem accounted_new (w : S) : Accounted (new w) := ⟨rfl, rfl, .nil⟩

variable {machine after : CommandMachine S} {events : List QueueEvent}

/-- The commands that wait are distinct. -/
theorem Accounted.distinct (accounted : Accounted machine) :
    Distinct none machine.pending machine.issued := by
  have hn := accounted.once.nodup_iff.mpr nodup_range
  refine ⟨(nodup_append.mp hn).2.1, fun root mem => ?_, nofun⟩
  exact mem_range.mp (accounted.once.subset (mem_append_right _ mem))

/-- What conserves the commands keeps them accounted for. -/
theorem Accounted.extend (accounted : Accounted machine) (hr : Records machine after events)
    (w : after.worldQueue = ⟨after.worldQueue.bytes, 0, []⟩)
    (other : after.otherQueue = ⟨after.otherQueue.bytes, 0, []⟩)
    (hs : Segment none machine.pending machine.issued events after.pending) :
    Accounted after where
  world := w
  other := other
  once := by
    rw [hr.log, hr.issued, starts_append, append_assoc]
    refine (hs.conserved.append_left _).trans ?_
    rw [← append_assoc, hs.pushed, length_range']
    refine (accounted.once.append_right _).trans ?_
    rw [range_eq_range', range_eq_range', ← range'_append_1, Nat.zero_add]

/-- What flushing or applying does from a state at rest: it terminates and conserves the
commands; unless a command panics, it leaves `idle` and makes a traversal of `roots`. -/
def Completes (operation : ℕ → Option (CommandMachine S × Bool)) (roots idle : List ℕ)
    (machine : CommandMachine S) : Prop :=
  ∃ after panicked events,
    (∃ enough, ∀ fuel ≥ enough, operation fuel = some (after, panicked)) ∧
      Records machine after events ∧ Accounted after ∧
      Segment none machine.pending machine.issued events after.pending ∧
      (panicked = false → after.pending = idle ∧
        Traverses (children events) roots (starts events))

section

variable (accounted : Accounted machine)

include accounted

/-- The pass of a flush. -/
theorem Accounted.works :
    Works (.applyOrDrop .world) none [] (tags machine.worldQueue.bytes) machine := by
  have hd : Distinct none (tags machine.worldQueue.bytes) machine.issued := by
    have all := accounted.distinct
    exact ⟨(nodup_append.mp all.nodup).1,
      fun root mem => all.numbered root (mem_append_left _ mem), nofun⟩
  have hq : machine.worldQueue = ⟨[] ++ machine.worldQueue.bytes, 0, []⟩ := accounted.world
  exact works_applyOrDrop (fun cmd _ => good cmd) hq hd

/-- When a flush has ended, the other queue waits as before. -/
theorem Accounted.of_ended
    (he : Ended none [] (tags machine.worldQueue.bytes) machine after events) :
    after.pending = tags machine.otherQueue.bytes ∧ Accounted after ∧
      Segment none machine.pending machine.issued events after.pending := by
  have pending : after.pending = tags machine.otherQueue.bytes := by
    unfold pending
    rw [he.queue, he.other]
    rfl
  have hs : Segment none machine.pending machine.issued events after.pending := by
    refine he.segment.idle ?_
    rw [pending]
    exact .refl _
  refine ⟨pending, accounted.extend he.records ?_ ?_ hs, hs⟩
  · rw [he.queue]
    rfl
  · rw [he.other]
    exact accounted.other

/-- When a flush is left by a panic, what was kept is in the world's queue. -/
theorem Accounted.of_broke
    (hb : Broke none [] (tags machine.worldQueue.bytes) machine after events) :
    Accounted after ∧ Segment none machine.pending machine.issued events after.pending := by
  obtain ⟨kept, r, hl, ho, hc⟩ := hb.queue
  rw [ho rfl] at hl hc
  have pending : after.pending = tags kept ++ tags machine.otherQueue.bytes := by
    unfold pending
    rw [hl, hb.other]
    rfl
  have hs : Segment none machine.pending machine.issued events after.pending := by
    refine hc.idle ?_
    rw [pending]
    exact .refl _
  refine ⟨accounted.extend hb.records ?_ ?_ hs, hs⟩
  · rw [hl]
    rfl
  · rw [hb.other]
    exact accounted.other

/-- **Flushing** runs the commands of the world's queue. -/
theorem flush_completes :
    Completes machine.flush (tags machine.worldQueue.bytes) (tags machine.otherQueue.bytes)
      machine := by
  obtain ⟨after, events, ⟨hy, he⟩ | ⟨hy, hb⟩⟩ := accounted.works
  · obtain ⟨hp, haa, hs⟩ := accounted.of_ended he
    have hv := he.visits
    unfold Visits at hv
    rw [elim_none, append_nil] at hv
    exact ⟨after, false, events, hy, he.records, haa, hs,
      fun _ => ⟨hp, hv⟩⟩
  · obtain ⟨haa, hs⟩ := accounted.of_broke hb
    exact ⟨after, true, events, hy, hb.records, haa, hs, nofun⟩

/-- **Applying** runs the commands of the world's queue, and then those of the other one. -/
theorem apply_completes : Completes machine.apply machine.pending [] machine := by
  obtain ⟨mid, events, ⟨hy, he⟩ | ⟨hy, hb⟩⟩ := accounted.works
  · obtain ⟨hw, ham, -⟩ := accounted.of_ended he
    have ho := ham.other
    rw [he.other] at ho
    have hd := ham.distinct
    rw [hw] at hd
    have hto : ∀ {f : CommandMachine S} {p : Bool},
        Yields (.applyOrDrop .other) mid f p →
        ∃ e, ∀ fuel ≥ e, machine.apply fuel = some (f, p) := by
      intro f p hla
      obtain ⟨ea, one⟩ := hy
      obtain ⟨late, two⟩ := hla
      refine ⟨max ea late, fun fuel hlr => ?_⟩
      change (exec fuel _ machine).bind _ = _
      rw [one fuel (by omega), bind_some]
      exact two fuel (by omega)
    obtain ⟨after, two, res⟩ := serves_applyOrDrop he.queue (he.other.trans ho) hd
    have extends_ : ∀ {kept rest : List (QueuedCommand S)},
        Leaves (tags machine.otherQueue.bytes) mid after two kept rest →
        Segment none machine.pending machine.issued (events ++ two) after.pending ∧
          Accounted after := by
      intro kept rest hl
      have hla := hl.segment
      rw [he.records.issued] at hla
      have pending : after.pending = tags kept ++ tags rest := by
        unfold pending
        rw [hl.world, hl.other]
      have hs : Segment none machine.pending machine.issued (events ++ two) after.pending := by
        rw [pending]
        exact he.segment.append hla
      refine ⟨hs, accounted.extend (he.records.trans hl.records) ?_ ?_ hs⟩
      · rw [hl.world]
      · rw [hl.other]
    rcases res with ⟨hyo, hl, hv⟩ | ⟨hyo, kept, rest, hl⟩
    · obtain ⟨hs, haa⟩ := extends_ hl
      have hla := hl.segment
      rw [he.records.issued] at hla
      have ht := Visits.append he.segment hla accounted.distinct he.visits hv
      unfold Visits at ht
      rw [elim_none, append_nil] at ht
      refine ⟨after, false, events ++ two, hto hyo,
        he.records.trans hl.records, haa, hs, fun _ => ⟨?_, ht⟩⟩
      unfold pending
      rw [hl.world, hl.other]
      rfl
    · obtain ⟨hs, haa⟩ := extends_ hl
      exact ⟨after, true, events ++ two, hto hyo,
        he.records.trans hl.records, haa, hs, nofun⟩
  · obtain ⟨haa, hs⟩ := accounted.of_broke hb
    obtain ⟨e, all⟩ := hy
    refine ⟨mid, true, events, ⟨e, fun fuel hlr => ?_⟩, hb.records,
      haa, hs, nofun⟩
    change (exec fuel _ machine).bind _ = _
    rw [all fuel hlr, bind_some]
    rfl

end

/-! ## Runs -/

/-- A result does not depend on how much fuel there was. -/
theorem apply_le {fuel more : ℕ} (le : fuel ≤ more) {res : CommandMachine S × Bool}
    (he : machine.apply fuel = some res) : machine.apply more = some res := by
  obtain ⟨mid, hf, hr⟩ := bind_eq_some_iff.mp he
  refine bind_eq_some_iff.mpr ⟨mid, exec_le le hf, ?_⟩
  split at hr
  · next hb => rw [if_pos hb, hr]
  · next hfi => rw [if_neg hfi, exec_le le hr]

/-- Whatever an operation has returned, it has returned what enough fuel gives. -/
theorem Completes.accounted {o : ℕ → Option (CommandMachine S × Bool)}
    {r idle : List ℕ} (hc : Completes o r idle machine)
    (hm : ∀ {fuel more res}, fuel ≤ more → o fuel = some res →
      o more = some res) {fuel : ℕ}
    (he : (o fuel).map Prod.fst = some after) : Accounted after := by
  obtain ⟨f, p, events, ⟨e, all⟩, -, accounted, -, -⟩ := hc
  obtain ⟨res, hr, hs⟩ := map_eq_some_iff.mp he
  have hl := hm (Nat.le_add_right fuel e) hr
  rw [all (fuel + e) (Nat.le_add_left _ _)] at hl
  rw [← hs, ← some.inj hl]
  exact accounted

/-- A command pushed from outside waits. -/
theorem Accounted.push (accounted : Accounted machine) (h : QueueHandle)
    (p : CommandProgram S) : Accounted (machine.push h none p) := by
  have hr := records_push machine h none p
  have hc : (machine.push h none p).pending.Perm
      (machine.pending ++ [machine.issued]) := by
    cases h with
    | world =>
      change (tags (machine.worldQueue.bytes ++ [_]) ++ _).Perm _
      rw [tags_append, append_assoc]
      refine (perm_append_comm.append_left _).trans ?_
      rw [← append_assoc]
      exact .refl _
    | other =>
      change (_ ++ tags (machine.otherQueue.bytes ++ [_])).Perm _
      rw [tags_append, ← append_assoc]
      exact .refl _
  refine accounted.extend hr ?_ ?_ ⟨rfl, nofun, hc⟩
  · cases h with
    | world => exact congrArg (fun q => q.push ⟨machine.issued, p⟩) accounted.world
    | other => exact accounted.world
  · cases h with
    | world => exact accounted.other
    | other => exact congrArg (fun q => q.push ⟨machine.issued, p⟩) accounted.other

theorem Accounted.step {op : QueueOp S} (accounted : Accounted machine)
    (hs : step op machine = some after) : Accounted after := by
  cases op with
  | push h p =>
    rw [← some.inj hs]
    exact accounted.push h p
  | flush fuel => exact (flush_completes accounted).accounted (fun le => exec_le le) hs
  | apply fuel => exact (apply_completes accounted).accounted (fun le => apply_le le) hs

/-- **Commands run exactly once, depth first.**  After any sequence of operations every
command that was ever pushed has been started once or waits once.  Applying from there
terminates.  If no command panics, it leaves the queues empty, and the commands it starts
are the depth-first traversal of those that waited; in any case what it starts and what it
leaves are those that waited and those that were pushed meanwhile. -/
theorem run_apply_once (world : S) (ops : List (QueueOp S)) (machine : CommandMachine S)
    (ran : run step ops (new world) = some machine) :
    (starts machine.log ++ machine.pending).Perm (range machine.issued) ∧ ∃ after panicked events,
        (∃ enough, ∀ fuel ≥ enough, machine.apply fuel = some (after, panicked)) ∧
          after.log = machine.log ++ events ∧
          (starts events ++ after.pending).Perm (machine.pending ++ pushes events) ∧
          (starts after.log ++ after.pending).Perm (range after.issued) ∧
          (panicked = false → after.worldQueue = .new ∧ after.otherQueue = .new ∧
            Traverses (children events) machine.pending (starts events)) := by
  have accounted : Accounted machine :=
    run_invariant (fun _ _ _ hk hs => hk.step hs) (accounted_new world) ran
  obtain ⟨after, panicked, events, hy, hr, haa, hse, hf⟩ :=
    apply_completes accounted
  refine ⟨accounted.once, after, panicked, events, hy, hr.log, hse.conserved,
    haa.once, fun hc => ?_⟩
  obtain ⟨he, ht⟩ := hf hc
  obtain ⟨hnw, hno⟩ := append_eq_nil_iff.mp he
  refine ⟨?_, ?_, ht⟩
  · rw [haa.world, map_eq_nil_iff.mp hnw]
    rfl
  · rw [haa.other, map_eq_nil_iff.mp hno]
    rfl

/-- A command pushes another one and panics; that one and the one behind it are kept, and
the next application starts them. -/
theorem run_apply_once_after_panic : ∃ machine : CommandMachine Unit, run step
          [.push .world (.push .done .panic), .push .world .done, .apply 20]
          (new ()) = some machine ∧ starts machine.log = [0] ∧ machine.pending = [1, 2] ∧
        ∃ after panicked events,
          (∃ enough, ∀ fuel ≥ enough, machine.apply fuel = some (after, panicked)) ∧
            after.log = machine.log ++ events ∧
            (starts events ++ after.pending).Perm ([1, 2] ++ pushes events) := by
  obtain ⟨machine, ran, hs, hw⟩ : ∃ machine : CommandMachine Unit, run step
          [.push .world (.push .done .panic), .push .world .done, .apply 20]
          (new ()) = some machine ∧
        starts machine.log = [0] ∧ machine.pending = [1, 2] := ⟨_, rfl, rfl, rfl⟩
  obtain ⟨-, after, panicked, events, hy, log, hc, -⟩ := run_apply_once () _ machine ran
  rw [hw] at hc
  exact ⟨machine, ran, hs, hw, after, panicked, events, hy, log, hc⟩

end CommandMachine

end Voker.Ecs
