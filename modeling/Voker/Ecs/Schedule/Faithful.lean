import Voker.Ecs.Schedule.Build
import Voker.Ecs.Tick

/-!
# Schedules over whole runs

A schedule is edited, compiled, edited again and compiled again.  **Whatever was done before,
a compiled schedule has the registered systems and the edges of the merged graph**, and the
systems can be put back; an update does not fail on the way.

The table of conflicts is exact **unless an update has been interrupted**: when a system
panics in `initialize`, the list of new systems has been taken away already, and none of them
enters the conflict graph later.

`check_ticks` visits the compiled array, so **it skips every system of a schedule that has been
changed since it was compiled**.
-/

namespace Voker.Ecs.Schedule

open Foundation List Option

variable {calm : Prop} {schedule : Schedule}

/-- What holds in every state of a run; the table of conflicts is exact in a calm run. -/
structure Faithful (calm : Prop) (schedule : Schedule) : Prop where
  opened : Opened calm schedule.touch
  compiled : schedule.isChanged = false → schedule.Compiled
  separates : calm → schedule.isChanged = false → schedule.Separates

/-- An open schedule is not compiled. -/
theorem Opened.faithful (opened : Opened calm schedule) : Faithful calm schedule where
  opened := opened.touch
  compiled := fun hc => nomatch opened.changed.symm.trans hc
  separates := fun _ hc => nomatch opened.changed.symm.trans hc

theorem faithful_new (calm : Prop) : Faithful calm .new where
  opened :=
    { changed := rfl
      empty := rfl
      fresh := fun hf => nomatch hf
      holds := fun hf => nomatch hf
      only := fun hf => nomatch hf
      uninit := fun mem => nomatch mem
      uninitNodup := nodup_nil
      dependency := ⟨Graph.consistent_new, fun _ => ⟨fun mem => (nomatch mem),
        fun ⟨_, hf⟩ => nomatch hf⟩, fun _ => ⟨rfl, rfl⟩⟩
      condition := ⟨Graph.consistent_new, fun _ => ⟨fun mem => (nomatch mem),
        fun ⟨_, hf⟩ => nomatch hf⟩, fun _ => ⟨rfl, rfl⟩⟩
      known := fun _ =>
        { exclusive := fun _ => ⟨fun set => (nomatch set), fun ⟨_, _, hf, _⟩ => nomatch hf⟩
          registered := fun set => nomatch set
          symm := fun _ _ => rfl
          conflicts := fun _ _ _ hf => nomatch hf } }
  compiled := fun _ =>
    { aligned := .nil
      once := nodup_nil
      registered := fun _ => ⟨fun mem => (nomatch mem), fun ⟨_, hf⟩ => nomatch hf⟩
      dependencies := ⟨rfl, rfl, fun _ mem => (nomatch mem), fun hf => (nomatch hf),
        fun hf => nomatch hf⟩
      conditions := ⟨rfl, rfl, fun _ mem => (nomatch mem), fun hf => (nomatch hf),
        fun hf => nomatch hf⟩
      forward := fun ⟨_, _, hf, _⟩ => nomatch hf
      subset := fun hf => nomatch hf
      symm := fun hin => nomatch hin }
  separates := fun _ _ _ _ _ _ _ hf => nomatch hf

variable {post : Schedule} {start : SystemId → Option ValidTable} {fuel : ℕ}
  {ops : List ScheduleOp}

theorem Faithful.edit (hf : Faithful calm schedule) (he : Edits schedule post) :
    Faithful calm post := by
  have hsa : post.isChanged = false → SameCore schedule post := he.same hf.opened
  have hc : post.isChanged = false → schedule.isChanged = false := fun hc => by
    rw [hsa hc] at hc
    exact hc
  refine ⟨he.opened hf.opened, fun hs => ?_, fun calm hs => ?_⟩
  · rw [hsa hs]
    exact { hf.compiled (hc hs) with }
  · rw [hsa hs]
    exact hf.separates calm (hc hs)

/-- What an open schedule is like after its systems have been initialised. -/
theorem Opened.initSystems (ho : Opened calm schedule) {re : Schedule} {r : Bool}
    (res : schedule.initSystems start = (re, r)) (hi : calm → r = true) :
    Opened calm re ∧ re.buffer.uninit = [] := by
  obtain ⟨⟨buf, c, he, hs⟩, ho⟩ := initSystems_spec ho start
  rw [res] at hs ho
  refine ⟨{ ho with known := fun calm => ho.known ⟨calm, hi calm⟩ }, ?_⟩
  exact (congrArg (fun schedule : Schedule => schedule.buffer.uninit) hs).trans he

/-- **When the order has been found, the compilation succeeds**, and opening the schedule again
yields the schedule that was compiled. -/
theorem Opened.build {keys : List SystemKey} (o : HashOrder) (ho : Opened calm schedule)
    (hre : schedule.buffer.uninit = []) :
    let m := schedule.merged (o.conditionEdges schedule.ordering.condition.graph.edges)
    m.sort fuel (o.mergedEdges m.graph.edges) = some (.ok keys) →
    ∃ b, schedule.assemble m keys = some b ∧
      Faithful calm { b with isChanged := false } := by
  intro m hso
  obtain ⟨hsp, he⟩ := merged_spec ho o
  obtain ⟨hn, mem, hf⟩ := sort_spec hsp (o.mergedEdges_perm _) hso
  obtain ⟨t, c, ha, hr, hfe, hs⟩ :=
    assemble_spec ho hre hsp he hn mem hf
  refine ⟨_, ha, ?_, fun _ => hfe, fun calm _ => hs calm⟩
  rw [hr]
  exact ho

/-- The first loop returns if no system panics in `initialize`. -/
theorem initAccess_returns {keys : List SystemKey} (hn : keys.Nodup) {buf : SystemBuffer}
    (hs : ∀ key ∈ keys, ∃ node, buf.getSystem key = some node ∧
      (start node.system.id).isSome = true) : (initAccess start keys buf).2 = true := by
  induction keys generalizing buf with
  | nil => rfl
  | cons key rest ih =>
    obtain ⟨node, hf, hst⟩ := hs key mem_cons_self
    obtain ⟨access, ha⟩ := isSome_iff_exists.mp hst
    rw [initAccess, hf]
    dsimp only
    rw [ha]
    refine ih hn.of_cons fun other mem => ?_
    obtain ⟨found, ho, hi⟩ := hs other (mem_cons_of_mem _ mem)
    have ne : other ≠ key := fun he => (nodup_cons.mp hn).1 (he ▸ mem)
    refine ⟨found, ?_, hi⟩
    rwa [SystemBuffer.getSystem, nodes_set, Function.update_of_ne ne]

/-- The initialisation returns if none of the systems that wait for it panics. -/
theorem Opened.returns (ho : Opened calm schedule) (hi : ∀ key ∈ schedule.buffer.uninit,
      ∀ node ∈ schedule.buffer.getSystem key, (start node.system.id).isSome = true) :
    (schedule.initSystems start).2 = true := by
  have hr : (initAccess start schedule.buffer.uninit { schedule.buffer with uninit := [] }).2 =
      true := by
    refine initAccess_returns ho.uninitNodup fun key mem => ?_
    obtain ⟨id, hk⟩ := ho.uninit mem
    obtain ⟨node, hf, -⟩ := ho.holds hk
    have hg : schedule.buffer.getSystem key = some node := by
      rw [SystemBuffer.getSystem, hf]
      rfl
    exact ⟨node, hg, hi key mem node hg⟩
  rw [Schedule.initSystems]
  split
  · next hf =>
    rw [hf] at hr
    cases hr
  · rfl

/-- An update compiles the schedule, unless it panics and leaves it open. -/
theorem Faithful.update {o : HashOrder} (hfa : Faithful calm schedule)
    (hu : schedule.update fuel o start = some post)
    (hi : calm → schedule.isChanged = true → ∀ key ∈ schedule.buffer.uninit,
      ∀ node ∈ schedule.buffer.getSystem key, (start node.system.id).isSome = true) :
    Faithful calm post := by
  rw [Schedule.update] at hu
  split at hu
  · next hc =>
    have ho := hfa.opened
    rw [touch_of_changed hc] at ho
    split at hu
    · next f res =>
      obtain ⟨ho, -⟩ := ho.initSystems res fun calm => by
        rw [← ho.returns (hi calm hc), res]
      obtain rfl := some.inj hu
      exact ho.faithful
    · next r res =>
      obtain ⟨ho, hun⟩ := ho.initSystems res fun _ => rfl
      obtain ⟨s, hf, hd⟩ := bind_eq_some_iff.mp hu
      cases s with
      | error _ =>
        obtain rfl := some.inj hd
        exact ho.faithful
      | ok keys =>
        obtain ⟨b, ha, hfa⟩ := ho.build o hun hf
        have hd : (r.assemble _ keys).map _ = some post := hd
        rw [ha] at hd
        obtain rfl := some.inj hd
        exact hfa
  · obtain rfl := some.inj hu
    exact hfa

/-- No initialisation is interrupted in this step: none of the systems that wait for it panics in
`initialize`. -/
def Initialises : ScheduleOp → Schedule → Schedule → Prop
  | .update _ _ start, before, _ | .run _ _ start, before, _ =>
    before.isChanged = true → ∀ key ∈ before.buffer.uninit,
      ∀ node ∈ before.buffer.getSystem key, (start node.system.id).isSome = true
  | _, _, _ => True

instance : (op : ScheduleOp) → (before after : Schedule) →
    Decidable (Initialises op before after)
  | .update _ _ start, before, _ | .run _ _ start, before, _ =>
    inferInstanceAs (Decidable (before.isChanged = true → ∀ key ∈ before.buffer.uninit,
      ∀ node ∈ before.buffer.getSystem key, (start node.system.id).isSome = true))
  | .addSystems .., _, _ | .addSystem .., _, _ | .configSet .., _, _
  | .removeSystemSet .., _, _ => .isTrue trivial

theorem Faithful.step {op : ScheduleOp} (hf : Faithful calm schedule)
    (hs : step op schedule = some post) (hc : calm → Initialises op schedule post) :
    Faithful calm post := by
  cases op with
  | addSystems set c =>
    obtain rfl := some.inj hs
    exact hf.edit (addSystems_spec schedule set c).1
  | addSystem set sys =>
    obtain rfl := some.inj hs
    exact hf.edit (addSystem_spec schedule set sys).1
  | configSet c =>
    obtain rfl := some.inj hs
    exact hf.edit (configSet_spec schedule c).1
  | removeSystemSet fuel o set =>
    exact hf.edit (edits_removeSetRecursive o fuel hs)
  | update fuel o start => exact hf.update hs hc
  | run fuel o start => exact hf.update hs hc

theorem Faithful.run (hf : Faithful calm schedule)
    (ran : run Schedule.step ops schedule = some post)
    (hc : calm → EachStep Schedule.step Initialises ops schedule) : Faithful calm post := by
  induction ops generalizing schedule with
  | nil =>
    obtain rfl := some.inj ran
    exact hf
  | cons op ops ih =>
    rw [run_cons, bind_eq_some_iff] at ran
    obtain ⟨next, hs, hr⟩ := ran
    exact ih (hf.step hs fun calm => (hc calm next hs).1) hr
      fun calm => (hc calm next hs).2

theorem compiled_of_run {s : Schedule} (ran : run step ops .new = some s)
    (hc : s.isChanged = false) : s.Compiled :=
  ((faithful_new False).run ran False.elim).compiled hc

theorem separates_of_run {s : Schedule} (ran : run step ops .new = some s)
    (hcl : s.isChanged = false) (hc : EachStep step Initialises ops .new) : s.Separates :=
  ((faithful_new True).run ran fun _ => hc).separates trivial hcl

/-- **Whatever was done with a schedule, when it is compiled it has each registered system once
and the edges of the merged graph, and the table of conflicts is symmetric; it says which
systems cannot run together if no initialisation was interrupted.** -/
theorem run_compiled {ops : List ScheduleOp} {schedule : Schedule}
    (ran : run step ops .new = some schedule) (clean : schedule.isChanged = false) :
    schedule.Compiled ∧ (EachStep step Initialises ops .new → schedule.Separates) :=
  ⟨compiled_of_run ran clean, separates_of_run ran clean⟩

/-- A function system in the set `()`. -/
def functionSystem (type : ℕ) (exclusive : Bool) : IntoSystem where
  source := type
  system := type
  boxed := ⟨⟨.user type, .anonymous⟩, ⟨.action, false, false, exclusive⟩⟩

/-- The first systems write a resource, and the last one asks for a resource twice. -/
def twoWriters (id : SystemId) : Option ValidTable :=
  match id.type with
  | .user 0 | .user 1 => FunctionSystem.initTable [.resMut 0]
  | .user 2 => FunctionSystem.initTable [.resMut 1, .resMut 1]
  | _ => FunctionSystem.initTable []

/-- The two writers are compiled. -/
theorem run_compiled_writers : ∃ schedule, run step
    [.addSystem .anonymous (functionSystem 0 false), .addSystem .anonymous (functionSystem 1 false),
      .update 100 .same twoWriters] .new = some schedule ∧ schedule.isChanged = false ∧
    schedule.Compiled ∧ schedule.Separates := by
  refine @exists_of_any _ _ (·.isChanged = false) _ _ (by decide +kernel) fun schedule ran hcl => ?_
  obtain ⟨hc, hs⟩ := run_compiled ran hcl
  exact ⟨hcl, hc, hs (eachStep_of_allSteps (by decide +kernel))⟩

/-- The third system panics; the next update is not interrupted, but nothing keeps the two
writers apart. -/
theorem interrupted_update_forgets : ∃ schedule, run step
    [.addSystem .anonymous (functionSystem 0 false), .addSystem .anonymous (functionSystem 1 false),
      .addSystem .anonymous (functionSystem 2 false), .update 100 .same twoWriters,
      .update 100 .same twoWriters] .new = some schedule ∧ schedule.isChanged = false ∧
    ¬ schedule.Separates := by
  refine @exists_of_any _ _ (fun schedule => schedule.isChanged = false ∧
    schedule.schedule.systems[2]?.any (fun x => schedule.schedule.systems[3]?.any fun y =>
      !x.access.1.parallelizable y.access.1 && !schedule.schedule.conflict.isConflict 2 3)) _ _
    (by decide +kernel) ?_
  intro schedule ran ⟨hcl, hf⟩
  obtain ⟨x, atX, hf⟩ := (any_eq_true _ _).mp hf
  obtain ⟨y, atY, hf⟩ := (any_eq_true _ _).mp hf
  obtain ⟨hc, hfr⟩ := Bool.and_eq_true_iff.mp hf
  refine ⟨hcl, fun hs => ?_⟩
  have bit := (hs (by decide) atX atY).mpr (.inl (by simpa using hc))
  rw [bit] at hfr
  cases hfr

/-! ## Ticks -/

variable {schedule : Schedule}

/-- `check_ticks`, on the `last_run` of each system: it visits the array. -/
def checkTicks (schedule : Schedule) (now : Tick) (lastRun : SystemId → Tick) (id : SystemId) :
    Tick :=
  if id ∈ schedule.schedule.systems.map (fun node => node.system.id) ∧ id.hasTick then
    (lastRun id).checkTick now
  else lastRun id

/-- The systems of a schedule that is being changed are not visited. -/
theorem checkTicks_of_changed (ran : run step ops .new = some schedule)
    (hc : schedule.isChanged = true) (now : Tick) (lr : SystemId → Tick) :
    schedule.checkTicks now lr = lr := by
  have ho := ((faithful_new False).run ran False.elim).opened
  rw [touch_of_changed hc] at ho
  funext id
  rw [checkTicks, ho.empty]
  exact if_neg fun hv => nomatch hv.1

/-- **`check_ticks` reaches every registered system unless the schedule has been changed since
it was compiled**: then it reaches none, and this is all the same only if no tick is too old. -/
theorem checkTicks_iff (ran : run step ops .new = some schedule) (now : Tick)
    (lastRun : SystemId → Tick) : (∀ id key, schedule.allocator.idents id = some key → id.hasTick →
      schedule.checkTicks now lastRun id = (lastRun id).checkTick now) ↔
    (schedule.isChanged = true → ∀ id key, schedule.allocator.idents id = some key → id.hasTick →
      Tick.Within now (lastRun id)) := by
  constructor
  · intro hr hc id key hk hs
    have hsa := hr id key hk hs
    rw [checkTicks_of_changed ran hc] at hsa
    rw [hsa]
    exact Tick.within_checkTick (lastRun id) now
  · intro hy id key hk hs
    cases hc : schedule.isChanged with
    | true =>
      rw [checkTicks_of_changed ran hc]
      exact (Tick.checkTick_eq_self (hy hc id key hk hs)).symm
    | false =>
      exact if_pos ⟨((compiled_of_run ran hc).registered id).mpr ⟨key, hk⟩, hs⟩

/-- A compiled schedule, with a system that never ran. -/
theorem checkTicks_iff_writer : ∃ schedule, run step
    [.addSystem .anonymous (functionSystem 0 false), .update 100 .same twoWriters] .new =
      some schedule ∧ schedule.isChanged = false ∧
    ∀ id key, schedule.allocator.idents id = some key → id.hasTick →
      schedule.checkTicks (maxTickAge + 1) (fun _ => 0) id = 1 := by
  refine @exists_of_any _ _ (·.isChanged = false) _ _ (by decide +kernel) fun schedule ran hcl => ?_
  refine ⟨hcl, (checkTicks_iff ran (maxTickAge + 1) fun _ => 0).mpr ?_⟩
  intro hc
  rw [hcl] at hc
  cases hc

/-- A system that ran long ago is in the buffer because another one was added: its tick stays. -/
theorem checkTicks_skips_buffer : ∃ schedule, run step
    [.addSystem .anonymous (functionSystem 0 false), .run 100 .same twoWriters,
      .addSystem .anonymous (functionSystem 1 false)] .new = some schedule ∧
    (schedule.allocator.idents ⟨.user 0, .anonymous⟩).isSome ∧
    ¬ Tick.Within (maxTickAge + 2) (schedule.checkTicks (maxTickAge + 2) (fun _ => 1)
      ⟨.user 0, .anonymous⟩) := by
  refine @exists_of_any _ _ (fun schedule => schedule.isChanged = true ∧
    (schedule.allocator.idents ⟨.user 0, .anonymous⟩).isSome) _ _ (by decide +kernel) ?_
  intro schedule ran ⟨hc, hk⟩
  refine ⟨hk, ?_⟩
  rw [checkTicks_of_changed ran hc]
  decide

end Voker.Ecs.Schedule
