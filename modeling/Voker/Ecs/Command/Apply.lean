import Mathlib.Data.List.Nodup
import Mathlib.Data.List.Range
import Voker.Ecs.Command.Record

/-!
# Applying commands

**A pass starts every command exactly once, depth first**: the commands a command pushes run
before those that were queued after it.  If a command panics, what has not been started is
kept.

That a command terminates, whatever it does, is shown by induction on its program
(`works_run`).  What makes the induction work is that a command starts with nothing behind
the cursor, so that all it will ever flush are commands it pushed itself, which are parts of
its program.
-/

namespace Voker.Ecs

open QueueEvent List Option CommandQueue

variable {tag : Option ℕ} {roots : List ℕ} {events : List QueueEvent}

namespace CommandMachine

variable {S : Type}

/-! ## Enough fuel -/

/-- Executing ends with this result, if there is enough fuel. -/
def Yields (task : CommandTask S) (machine after : CommandMachine S) (panicked : Bool) : Prop :=
  ∃ enough, ∀ fuel ≥ enough, exec fuel task machine = some (after, panicked)

section Yields

variable {m post : CommandMachine S} {panicked : Bool}

variable {task : CommandTask S}

/-- A step that goes on with another task. -/
theorem Yields.of_step {next : CommandTask S} {mid : CommandMachine S}
    (hs : ∀ fuel, exec (fuel + 1) task m = exec fuel next mid)
    (hr : Yields next mid post panicked) : Yields task m post panicked := by
  obtain ⟨e, hy⟩ := hr
  refine ⟨e + 1, fun fuel hl => ?_⟩
  obtain ⟨less, rfl⟩ := Nat.exists_eq_add_of_le' (Nat.le_of_succ_le hl)
  obtain ⟨fuel, hsa⟩ := Nat.exists_eq_succ_of_ne_zero (show less + e ≠ 0 by omega)
  rw [hsa, hs, hy fuel (by omega)]

theorem Yields.of_stop (hst : ∀ fuel, exec (fuel + 1) task m = some (post, panicked)) :
    Yields task m post panicked := by
  refine ⟨1, fun fuel hl => ?_⟩
  obtain ⟨less, hs⟩ := Nat.exists_eq_succ_of_ne_zero (Nat.one_le_iff_ne_zero.mp hl)
  rw [hs, hst]

/-- A step that executes one task and then does something with the result. -/
theorem Yields.of_bind {one : CommandTask S} {start mid : CommandMachine S} {b : Bool}
    {next : ℕ → CommandMachine S × Bool → Option (CommandMachine S × Bool)}
    (hs : ∀ fuel, exec (fuel + 1) task m = (exec fuel one start).bind (next fuel))
    (hy : Yields one start mid b)
    (hr : ∃ e, ∀ fuel ≥ e, next fuel (mid, b) = some (post, panicked)) :
    Yields task m post panicked := by
  obtain ⟨ea, fst⟩ := hy
  obtain ⟨late, snd⟩ := hr
  refine ⟨max ea late + 1, fun fuel hl => ?_⟩
  obtain ⟨less, hsa⟩ := Nat.exists_eq_succ_of_ne_zero (show fuel ≠ 0 by omega)
  subst hsa
  rw [hs, fst less (by omega), bind_some, snd less (by omega)]

end Yields

variable {task : CommandTask S} {machine after mid pre : CommandMachine S}
  {snd : List QueueEvent} {later : List ℕ} {base middleBase : List (QueuedCommand S)}

variable {fuel stop start : ℕ} {res : CommandMachine S × Bool} {handle : QueueHandle}
  {pending : List (QueuedCommand S)}

/-- More fuel does not change the result. -/
theorem exec_succ (he : exec fuel task machine = some res) :
    exec (fuel + 1) task machine = some res := by
  induction fuel generalizing task machine res with
  | zero => cases he
  | succ fuel ih =>
    have ht : ∀ {one : CommandTask S} {start : CommandMachine S}
        {next more : CommandMachine S × Bool → Option (CommandMachine S × Bool)},
        (∀ v, next v = some res → more v = some res) →
        (exec fuel one start).bind next = some res →
        (exec (fuel + 1) one start).bind more = some res := by
      intro one start next more hk hbo
      obtain ⟨v, fst, snd⟩ := bind_eq_some_iff.mp hbo
      exact bind_eq_some_iff.mpr ⟨v, ih fst, hk v snd⟩
    have hb : ∀ {stop : Option (CommandMachine S × Bool)} {one : CommandTask S}
        {start : CommandMachine S} {cond : Bool},
        (if cond then stop else exec fuel one start) = some res →
        (if cond then stop else exec (fuel + 1) one start) = some res := by
      intro stop one start cond hc
      cases cond with
      | true => exact hc
      | false => exact ih hc
    cases task with
    | run tag p =>
      cases p with
      | done | push cmd rest | act u next => exact ih he
      | panic => exact he
      | flush rest => exact ht (fun v => hb) he
    | applyOrDrop handle => exact hb he
    | pass handle start stop lc =>
      unfold exec at he ⊢
      dsimp only at he ⊢
      split
      · next hin =>
        rw [if_pos hin] at he
        obtain ⟨cmd, hf, rest⟩ := bind_eq_some_iff.mp he
        exact bind_eq_some_iff.mpr
          ⟨cmd, hf, ht (fun v => hb) rest⟩
      · next hfi =>
        rw [if_neg hfi] at he
        exact he

theorem exec_le {more : ℕ} (le : fuel ≤ more) (he : exec fuel task machine = some res) :
    exec more task machine = some res := by
  induction le with
  | refl => exact he
  | step _ ih => exact exec_succ ih

/-! ## What a command and a pass do to the world's queue -/

/-- The numbers of commands. -/
def tags (commands : List (QueuedCommand S)) : List ℕ := commands.map QueuedCommand.tag

@[simp]
theorem tags_append (fst snd : List (QueuedCommand S)) :
    tags (fst ++ snd) = tags fst ++ tags snd := map_append

/-- What is recorded between two machines. -/
structure Records (before after : CommandMachine S) (events : List QueueEvent) : Prop where
  log : after.log = before.log ++ events
  issued : after.issued = before.issued + (pushes events).length

theorem Records.trans (one : Records pre mid events) (two : Records mid after snd) :
    Records pre after (events ++ snd) where
  log := by rw [two.log, one.log, append_assoc]
  issued := by rw [two.issued, one.issued, pushes_append, length_append, Nat.add_assoc]

theorem Records.setQueue (hr : Records pre after events) (handle : QueueHandle)
    (q : CommandQueue (QueuedCommand S)) :
    Records pre (after.setQueue handle q) events := by
  cases handle <;> exact ⟨hr.log, hr.issued⟩

/-- A pass, or the rest of a command, has ended: nothing is left behind `base`, and all that
was there or pushed has run. -/
structure Ended (tag : Option ℕ) (base : List (QueuedCommand S)) (roots : List ℕ)
    (before after : CommandMachine S) (events : List QueueEvent) : Prop where
  records : Records before after events
  other : after.otherQueue = before.otherQueue
  queue : after.worldQueue = ⟨base, base.length, []⟩
  segment : Segment tag roots before.issued events []
  visits : Visits tag roots events

/-- A panic unwinds from it: what has not run is behind `base` or on the recovery stack. -/
structure Broke (tag : Option ℕ) (base : List (QueuedCommand S)) (roots : List ℕ)
    (before after : CommandMachine S) (events : List QueueEvent) : Prop where
  records : Records before after events
  other : after.otherQueue = before.otherQueue
  queue : ∃ kept recovery, after.worldQueue = ⟨base ++ kept, base.length, recovery⟩ ∧
    (base = [] → recovery = []) ∧ Segment tag roots before.issued events (tags (recovery ++ kept))

/-- The task terminates, in one way or the other. -/
def Works (task : CommandTask S) (tag : Option ℕ) (base : List (QueuedCommand S))
    (roots : List ℕ) (machine : CommandMachine S) : Prop :=
  ∃ after events,
    Yields task machine after false ∧ Ended tag base roots machine after events ∨
      Yields task machine after true ∧ Broke tag base roots machine after events

/-- A command that terminates whenever nothing waits behind the cursor. -/
def Good (command : QueuedCommand S) : Prop :=
  ∀ (base : List (QueuedCommand S)) (machine : CommandMachine S),
    machine.worldQueue = ⟨base, base.length, []⟩ → command.tag < machine.issued →
      Works (.run command.tag command.program) (some command.tag) base [] machine

/-- What follows a stretch that has ended. -/
theorem Ended.append (one : Ended none middleBase roots pre mid events)
    (two : Ended tag base later mid after snd)
    (hd : Distinct tag (roots ++ later) pre.issued) :
    Ended tag base (roots ++ later) pre after (events ++ snd) := by
  have later := two.segment
  rw [one.records.issued] at later
  exact
    { records := one.records.trans two.records
      other := two.other.trans one.other
      queue := two.queue
      segment := one.segment.append later
      visits := .append one.segment later hd one.visits two.visits }

theorem Broke.append (one : Ended none middleBase roots pre mid events)
    (two : Broke tag base later mid after snd) :
    Broke tag base (roots ++ later) pre after (events ++ snd) := by
  obtain ⟨kept, r, queue, ho, hs⟩ := two.queue
  rw [one.records.issued] at hs
  exact
    { records := one.records.trans two.records
      other := two.other.trans one.other
      queue := ⟨kept, r, queue, ho, one.segment.append hs⟩ }

/-- A task that goes on with another one when a stretch has ended. -/
theorem Works.after_ended {next : CommandTask S} (hw : Works next tag base later mid)
    (one : Ended none middleBase roots machine mid events)
    (hd : Distinct tag (roots ++ later) machine.issued)
    (hgo : ∀ after panicked, Yields next mid after panicked →
      Yields task machine after panicked) :
    Works task tag base (roots ++ later) machine := by
  obtain ⟨after, snd, ⟨hy, he⟩ | ⟨hy, hb⟩⟩ := hw
  · exact ⟨after, _, .inl ⟨hgo after false hy, one.append he hd⟩⟩
  · exact ⟨after, _, .inr ⟨hgo after true hy, .append one hb⟩⟩

section

variable (m : CommandMachine S)

theorem Records.refl : Records m m [] :=
  ⟨(append_nil _).symm, rfl⟩

theorem records_start (n : ℕ) :
    Records m (m.start n) [.started n] := ⟨rfl, rfl⟩

theorem records_push (handle : QueueHandle) (p : Option ℕ) (pr : CommandProgram S) :
    Records m (m.push handle p pr) [.pushed p m.issued] := by
  cases handle <;> exact ⟨rfl, rfl⟩

end

/-- A command is started, runs, and ends. -/
theorem Ended.node {n : ℕ}
    (he : Ended (some n) base [] (machine.start n) after events) :
    Ended none base [n] machine after (.started n :: events) where
  records := (records_start machine n).trans he.records
  other := he.other
  queue := he.queue
  segment := he.segment.node
  visits := he.visits.node

/-! ## The loop of a pass -/

/-- What the loop does with the next command. -/
theorem exec_pass {lc : ℕ} {cmd : QueuedCommand S} (hin : lc < stop)
    (hf : (machine.queue handle).bytes[lc]? = some cmd) (fuel : ℕ) :
    exec (fuel + 1) (.pass handle start stop lc) machine =
      (exec fuel (.run cmd.tag cmd.program) (machine.start cmd.tag)).bind
        fun res =>
          if res.2 then
            some (res.1.setQueue handle
              ((res.1.queue handle).recover start (lc + 1)), true)
          else exec fuel (.pass handle start stop (lc + 1)) res.1 := by
  change (if lc < stop then
    (machine.queue handle).bytes[lc]?.bind _ else _) = _
  rw [if_pos hin, hf, bind_some]

theorem exec_pass_stop (fuel : ℕ) : exec (fuel + 1) (.pass handle start stop stop) machine =
      some (machine.setQueue handle ((machine.queue handle).truncate start), false) :=
  if_neg (lt_irrefl stop)

/-- The rest of a pass over the world's queue, of which the commands `done` have run. -/
theorem works_pass {todo : List (QueuedCommand S)} (hg : ∀ cmd ∈ todo, Good cmd)
    (done : List (QueuedCommand S))
    (queue : machine.worldQueue = ⟨base ++ (done ++ todo), (base ++ (done ++ todo)).length, []⟩)
    (hd : Distinct none (tags todo) machine.issued) :
    Works (.pass .world base.length (base ++ (done ++ todo)).length (base ++ done).length)
      none base (tags todo) machine := by
  induction todo generalizing done machine with
  | nil =>
    rw [append_nil] at *
    refine ⟨_, [], .inl ⟨.of_stop exec_pass_stop, ?_⟩⟩
    exact
      { records := (Records.refl machine).setQueue _ _
        other := rfl
        queue := by
          change machine.worldQueue.truncate base.length = _
          rw [queue]
          simp [truncate]
        segment := segment_nil none [] _
        visits := .nil }
  | cons cmd rest ih =>
    have hs : done ++ cmd :: rest = (done ++ [cmd]) ++ rest := by simp
    have hne : (base ++ done).length + 1 = (base ++ (done ++ [cmd])).length := by
      simp [Nat.add_assoc]
    have hin : (base ++ done).length < (base ++ (done ++ cmd :: rest)).length := by
      simp
    have hf : (machine.queue .world).bytes[(base ++ done).length]? = some cmd := by
      change machine.worldQueue.bytes[_]? = _
      rw [queue, ← append_assoc]
      simp
    have hn : cmd.tag < machine.issued :=
      hd.numbered _ mem_cons_self
    obtain ⟨mid, events, ⟨hy, hen⟩ | ⟨hy, hb⟩⟩ :=
      hg cmd mem_cons_self _ (machine.start cmd.tag) queue hn
    · -- the command ends, and the loop goes on behind it
      have one := hen.node
      have hdr : Distinct none (tags rest) mid.issued := by
        refine ⟨(nodup_cons.mp hd.nodup).2, fun root mem => ?_, nofun⟩
        have hk := hd.numbered root (mem_cons_of_mem _ mem)
        rw [one.records.issued]
        omega
      have hqr := one.queue
      rw [hs] at hqr
      have hwo := ih (fun other mem => hg other (mem_cons_of_mem _ mem)) _
        hqr hdr
      rw [← hs, ← hne] at hwo
      exact hwo.after_ended one hd fun after panicked hyr =>
        .of_bind (exec_pass hin hf) hy hyr
    · -- the command panics, and the loop saves what lies behind it
      obtain ⟨kept, r, hl, -, segment⟩ := hb.queue
      refine ⟨_, .started cmd.tag :: events, .inr
        ⟨.of_bind (exec_pass hin hf) hy ⟨0, fun _ _ => rfl⟩, ?_⟩⟩
      have hsa : r ++ (base ++ (done ++ cmd :: rest) ++ kept).drop
          ((base ++ done).length + 1) = r ++ (rest ++ kept) := by
        have hsp : base ++ (done ++ cmd :: rest) ++ kept =
            (base ++ (done ++ [cmd])) ++ (rest ++ kept) := by simp
        rw [hsp, hne, drop_left]
      have hp : (tags (r ++ (rest ++ kept))).Perm
          (tags (r ++ kept) ++ tags rest) := by
        simp only [tags_append, append_assoc]
        exact perm_append_comm.append_left _
      have hw : Segment none (tags (cmd :: rest)) machine.issued
          (.started cmd.tag :: events) (tags (r ++ (rest ++ kept))) :=
        Segment.idle segment.node hp
      refine ⟨((records_start machine cmd.tag).trans hb.records).setQueue _ _,
        hb.other, ?_⟩
      change ∃ _ _, mid.worldQueue.recover base.length ((base ++ done).length + 1) = _ ∧ _
      rw [hl]
      unfold recover
      rw [hsa]
      by_cases ho : base = []
      · subst ho
        exact ⟨r ++ (rest ++ kept), [], rfl, fun _ => rfl, hw⟩
      · rw [if_neg (fun he => ho (length_eq_zero_iff.mp he))]
        refine ⟨[], r ++ (rest ++ kept), ?_, fun he => absurd he ho, ?_⟩
        · simp [append_assoc]
        · rw [append_nil]
          exact hw

/-- `apply_or_drop` on the world's queue runs what waits behind the cursor. -/
theorem works_applyOrDrop (hg : ∀ cmd ∈ pending, Good cmd)
    (hq : machine.worldQueue = ⟨base ++ pending, base.length, []⟩)
    (hd : Distinct none (tags pending) machine.issued) :
    Works (.applyOrDrop .world) none base (tags pending) machine := by
  have hu : ∀ fuel, exec (fuel + 1) (.applyOrDrop .world) machine =
      if machine.worldQueue.isEmpty then some (machine, false)
      else exec fuel (.pass .world machine.worldQueue.cursor machine.worldQueue.bytes.length
        machine.worldQueue.cursor)
        (machine.setQueue .world
          { machine.worldQueue with cursor := machine.worldQueue.bytes.length }) :=
    fun _ => rfl
  rw [hq] at hu
  by_cases hem : pending = []
  · subst hem
    have hie : CommandQueue.isEmpty
        (⟨base ++ [], base.length, []⟩ : CommandQueue (QueuedCommand S)) = true := by
      simp [CommandQueue.isEmpty]
    refine ⟨machine, [], .inl ⟨.of_stop fun fuel => ?_, .refl machine, rfl, ?_,
      segment_nil none [] _, .nil⟩⟩
    · rw [hu, if_pos hie]
    · rw [hq, append_nil]
  · have hwa : ¬ CommandQueue.isEmpty
        (⟨base ++ pending, base.length, []⟩ : CommandQueue (QueuedCommand S)) = true := by
      have hn := length_pos_iff.mpr hem
      simp only [CommandQueue.isEmpty, length_append, decide_eq_true_eq]
      omega
    let s := machine.setQueue .world ⟨base ++ pending, (base ++ pending).length, []⟩
    have hw : Works (.pass .world base.length (base ++ pending).length (base ++ []).length)
        none base (tags pending) s := works_pass hg [] rfl hd
    rw [append_nil] at hw
    obtain ⟨after, events, res⟩ := hw
    have hgo : ∀ panicked, Yields (.pass .world base.length (base ++ pending).length
        base.length) s after panicked →
        Yields (.applyOrDrop .world) machine after panicked := by
      intro panicked hy
      refine .of_step (fun fuel => ?_) hy
      rw [hu, if_neg hwa]
    refine ⟨after, events, res.imp ?_ ?_⟩
    · rintro ⟨hy, he⟩
      exact ⟨hgo false hy, ⟨he.records.log, he.records.issued⟩, he.other,
        he.queue, he.segment, he.visits⟩
    · rintro ⟨hy, hb⟩
      exact ⟨hgo true hy, ⟨hb.records.log, hb.records.issued⟩, hb.other,
        hb.queue⟩

/-! ## Commands -/

/-- **The rest of a command terminates**, if the commands that wait do. -/
theorem works_run (p : CommandProgram S) (n : ℕ)
    (base pending : List (QueuedCommand S)) (m : CommandMachine S)
    (hg : ∀ cmd ∈ pending, Good cmd)
    (hq : m.worldQueue = ⟨base ++ pending, base.length, []⟩)
    (hd : Distinct (some n) (tags pending) m.issued) :
    Works (.run n p) (some n) base (tags pending) m := by
  induction p generalizing n base pending m with
  | done =>
    obtain ⟨after, events, ⟨hy, he⟩ | ⟨hy, hb⟩⟩ :=
      works_applyOrDrop hg hq ⟨hd.nodup, hd.numbered, nofun⟩
    · refine ⟨after, events, .inl ⟨.of_step (fun _ => rfl) hy, he.records,
        he.other, he.queue, he.segment.within _, ?_⟩⟩
      exact he.visits.within he.segment (he.segment.not_started hd)
    · obtain ⟨kept, r, hl, ho, hs⟩ := hb.queue
      exact ⟨after, events, .inr ⟨.of_step (fun _ => rfl) hy, hb.records,
        hb.other, kept, r, hl, ho, hs.within _⟩⟩
  | panic =>
    exact ⟨m, [], .inr ⟨.of_stop fun _ => rfl, .refl m, rfl, pending, [],
      hq, fun _ => rfl, segment_nil _ _ _⟩⟩
  | push cmd rest hic hir =>
    -- the pushed command is a part of this one
    have hpg : Good ⟨m.issued, cmd⟩ := by
      intro base later hr hn
      refine hic _ base [] later nofun ?_ (distinct_nil hn)
      rw [append_nil]
      exact hr
    have hk := hd.running n rfl
    have hdr : Distinct (some n) (tags (pending ++ [⟨m.issued, cmd⟩]))
        (m.issued + 1) := by
      rw [tags_append]
      refine ⟨nodup_append.mpr ⟨hd.nodup, nodup_singleton _, ?_⟩, ?_, ?_⟩
      · rintro one hin two new rfl
        rw [mem_singleton.mp new] at hin
        exact lt_irrefl _ (hd.numbered _ hin)
      · intro root mem
        rcases mem_append.mp mem with old | new
        · exact Nat.lt_succ_of_lt (hd.numbered root old)
        · exact mem_singleton.mp new ▸ Nat.lt_succ_self _
      · intro pa hsa
        cases hsa
        refine ⟨Nat.lt_succ_of_lt hk.1, fun mem => ?_⟩
        rcases mem_append.mp mem with old | new
        · exact hk.2 old
        · exact absurd (mem_singleton.mp new) (Nat.ne_of_lt hk.1)
    have hgr : ∀ o ∈ pending ++ [⟨m.issued, cmd⟩], Good o := by
      intro o mem
      rcases mem_append.mp mem with old | new
      · exact hg o old
      · exact mem_singleton.mp new ▸ hpg
    have hqr : (m.push .world (some n) cmd).worldQueue =
        ⟨base ++ (pending ++ [⟨m.issued, cmd⟩]), base.length, []⟩ := by
      change m.worldQueue.push _ = _
      rw [hq, ← append_assoc]
      rfl
    have hp := records_push m .world (some n) cmd
    obtain ⟨after, events, res⟩ := hir _ _ _ _ hgr hqr hdr
    rw [tags_append] at res hdr
    refine ⟨after, .pushed (some n) m.issued :: events, res.imp ?_ ?_⟩
    · rintro ⟨hy, he⟩
      have hs := he.segment
      exact ⟨.of_step (fun _ => rfl) hy, hp.trans he.records, he.other,
        he.queue, hs.pushed_cons,
        he.visits.pushed_cons (hs.not_started hdr)⟩
    · rintro ⟨hy, hb⟩
      obtain ⟨kept, r, hl, ho, hs⟩ := hb.queue
      exact ⟨.of_step (fun _ => rfl) hy, hp.trans hb.records, hb.other,
        kept, r, hl, ho, hs.pushed_cons⟩
  | flush rest ih =>
    obtain ⟨mid, events, ⟨hy, he⟩ | ⟨hy, hb⟩⟩ :=
      works_applyOrDrop hg hq ⟨hd.nodup, hd.numbered, nofun⟩
    · have hn : n < mid.issued := by
        have hk := (hd.running n rfl).1
        rw [he.records.issued]
        omega
      have hqr := he.queue
      rw [← append_nil base, length_append, length_nil, Nat.add_zero] at hqr
      have hw : Works _ _ base (tags []) mid :=
        ih n base [] mid nofun hqr (distinct_nil hn)
      have hno : tags pending ++ tags ([] : List (QueuedCommand S)) = tags pending :=
        append_nil _
      rw [← hno] at hd ⊢
      exact hw.after_ended he hd fun after panicked hyr =>
        .of_bind (fun _ => rfl) hy hyr
    · obtain ⟨kept, r, hl, ho, hs⟩ := hb.queue
      exact ⟨mid, events, .inr ⟨.of_bind (fun _ => rfl) hy ⟨0, fun _ _ => rfl⟩,
        hb.records, hb.other, kept, r, hl, ho, hs.within _⟩⟩
  | act u next ih =>
    obtain ⟨after, events, res⟩ := ih m.world n base pending
      { m with world := u m.world } hg hq hd
    refine ⟨after, events, res.imp ?_ ?_⟩
    · rintro ⟨hy, he⟩
      exact ⟨.of_step (fun _ => rfl) hy, ⟨he.records.log, he.records.issued⟩,
        he.other, he.queue, he.segment, he.visits⟩
    · rintro ⟨hy, hb⟩
      exact ⟨.of_step (fun _ => rfl) hy, ⟨hb.records.log, hb.records.issued⟩,
        hb.other, hb.queue⟩

/-- Every command is good. -/
theorem good (cmd : QueuedCommand S) : Good cmd := by
  intro base machine hq hn
  refine works_run cmd.program cmd.tag base [] machine nofun ?_ (distinct_nil hn)
  rw [append_nil]
  exact hq

/-! ## A queue that is kept elsewhere -/

/-- A pass over a queue: what is left in the world's queue and in the other one. -/
structure Leaves (roots : List ℕ) (before after : CommandMachine S) (events : List QueueEvent)
    (kept rest : List (QueuedCommand S)) : Prop where
  records : Records before after events
  world : after.worldQueue = ⟨kept, 0, []⟩
  other : after.otherQueue = ⟨rest, 0, []⟩
  segment : Segment none roots before.issued events (tags kept ++ tags rest)

/-- A task on the queues terminates; it leaves nothing, and makes a traversal, unless a
command panics. -/
def Serves (task : CommandTask S) (roots : List ℕ) (machine : CommandMachine S) : Prop :=
  ∃ after events,
    Yields task machine after false ∧ Leaves roots machine after events [] [] ∧
        Visits none roots events ∨
      Yields task machine after true ∧ ∃ kept rest, Leaves roots machine after events kept rest

/-- The rest of a pass over the other queue, of which the commands `done` have run. -/
theorem serves_pass (todo done : List (QueuedCommand S)) (w : machine.worldQueue = ⟨[], 0, []⟩)
    (other : machine.otherQueue = ⟨done ++ todo, (done ++ todo).length, []⟩)
    (hd : Distinct none (tags todo) machine.issued) :
    Serves (.pass .other 0 (done ++ todo).length done.length) (tags todo) machine := by
  induction todo generalizing done machine with
  | nil =>
    rw [append_nil] at *
    refine ⟨_, [], .inl ⟨.of_stop exec_pass_stop, ?_, .nil⟩⟩
    exact
      { records := (Records.refl machine).setQueue _ _
        world := w
        other := by
          change machine.otherQueue.truncate 0 = _
          rw [other]
          rfl
        segment := segment_nil none [] _ }
  | cons cmd rest ih =>
    have hsh : done ++ cmd :: rest = (done ++ [cmd]) ++ rest := by simp
    have hne : done.length + 1 = (done ++ [cmd]).length := by simp
    have hin : done.length < (done ++ cmd :: rest).length := by simp
    have hf : (machine.queue .other).bytes[done.length]? = some cmd := by
      change machine.otherQueue.bytes[_]? = _
      rw [other]
      simp
    have hn : cmd.tag < machine.issued :=
      hd.numbered _ mem_cons_self
    obtain ⟨mid, events, ⟨hy, he⟩ | ⟨hy, hb⟩⟩ :=
      good cmd [] (machine.start cmd.tag) w hn
    · have one := he.node
      have hdr : Distinct none (tags rest) mid.issued := by
        refine ⟨(nodup_cons.mp hd.nodup).2, fun root mem => ?_, nofun⟩
        have hk := hd.numbered root (mem_cons_of_mem _ mem)
        rw [one.records.issued]
        omega
      have hor := one.other.trans other
      rw [hsh] at hor
      obtain ⟨after, snd, res⟩ := ih _ one.queue hor hdr
      rw [← hsh, ← hne] at res
      rcases res with ⟨hyr, hl, hv⟩ | ⟨hyr, kept, left, hl⟩
      · have segment := hl.segment
        rw [one.records.issued] at segment
        refine ⟨after, _, .inl ⟨.of_bind (exec_pass hin hf) hy hyr,
          ⟨one.records.trans hl.records, hl.world, hl.other,
            one.segment.append segment⟩, ?_⟩⟩
        exact .append one.segment segment hd one.visits hv
      · have segment := hl.segment
        rw [one.records.issued] at segment
        exact ⟨after, _, .inr ⟨.of_bind (exec_pass hin hf) hy hyr, kept,
          left, one.records.trans hl.records, hl.world, hl.other,
          one.segment.append segment⟩⟩
    · -- what the command has pushed stays in the world's queue
      obtain ⟨kept, r, left, hou, segment⟩ := hb.queue
      rw [hou rfl] at left segment
      refine ⟨_, .started cmd.tag :: events, .inr
        ⟨.of_bind (exec_pass hin hf) hy ⟨0, fun _ _ => rfl⟩, kept, rest,
          ((records_start machine cmd.tag).trans hb.records).setQueue _ _, left, ?_,
          Segment.idle segment.node (.refl _)⟩⟩
      change mid.otherQueue.recover 0 (done.length + 1) = _
      rw [hb.other.trans other, hne, hsh]
      unfold recover
      rw [if_pos rfl, drop_left]
      rfl

theorem serves_applyOrDrop (w : machine.worldQueue = ⟨[], 0, []⟩)
    (ho : machine.otherQueue = ⟨pending, 0, []⟩)
    (hd : Distinct none (tags pending) machine.issued) :
    Serves (.applyOrDrop .other) (tags pending) machine := by
  have hu : ∀ fuel, exec (fuel + 1) (.applyOrDrop .other) machine =
      if machine.otherQueue.isEmpty then some (machine, false)
      else exec fuel (.pass .other machine.otherQueue.cursor machine.otherQueue.bytes.length
        machine.otherQueue.cursor)
        (machine.setQueue .other
          { machine.otherQueue with cursor := machine.otherQueue.bytes.length }) :=
    fun _ => rfl
  rw [ho] at hu
  cases pending with
  | nil =>
    exact ⟨machine, [], .inl ⟨.of_stop hu, ⟨.refl machine, w, ho,
      segment_nil none [] _⟩, .nil⟩⟩
  | cons cmd rest =>
    let s := machine.setQueue .other
      ⟨cmd :: rest, (cmd :: rest).length, []⟩
    have hs : Serves (.pass .other 0 (cmd :: rest).length 0) (tags (cmd :: rest))
        s := serves_pass (cmd :: rest) [] w rfl hd
    obtain ⟨after, events, ⟨hy, hl, hv⟩ | ⟨hy, kept, left, hl⟩⟩ := hs
    · exact ⟨after, events, .inl ⟨.of_step hu hy,
        ⟨⟨hl.records.log, hl.records.issued⟩, hl.world, hl.other,
          hl.segment⟩, hv⟩⟩
    · exact ⟨after, events, .inr ⟨.of_step hu hy, kept, left,
        ⟨hl.records.log, hl.records.issued⟩, hl.world, hl.other,
        hl.segment⟩⟩

end CommandMachine

end Voker.Ecs
