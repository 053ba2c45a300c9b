import Voker.Ecs.Schedule.Exclusion

/-!
# What the multi-threaded executor runs

When an exclusive system is started, the no-op systems of the queue are completed by position, and
the positions are saved before the first of them is completed.  Completing one can put systems at
the front of the queue, and then the positions saved are those of other systems: **a system that is
no no-op can be completed without being run**.

## Where it goes wrong

This is the only thing that goes wrong: a run does everything that is expected of it exactly if
each position it uses is that of a no-op (`exact_iff_takesNoOp`).  That is a property of the
positions, and nothing a user could look at.

`run_exact` asks instead what the queue looks like when an exclusive system is started.  The saved
positions are used from the back.  Those in front of a position that is used stay where they are as
long as nobody becomes ready, so that **it is enough that no no-op which waits behind another one
frees a system** (`Clear`); the first one of the queue is completed last, and may free whom it
likes.

## Sets

The markers of sets are no-ops, and the marker that begins a set frees the systems of the set.  A
set with two sets in it and an exclusive system beside them is enough to lose a system
(`nested_unrun`).

## Conditions

Whether a system is to run depends on how its conditions end (`Due`).  A condition that is a no-op
may be completed without being run, and is then met, whatever it would have answered.
-/

namespace Voker.Ecs

open Foundation List Option SystemSchedule

namespace MultiThreadedExecutor

variable {schedule : SystemSchedule} {outcome : ℕ → Outcome} {executor : MultiThreadedExecutor}

/-! ## Completed as a no-op -/

/-- If the step completes a system as a no-op, it is one. -/
def takesNoOp (schedule : SystemSchedule) (label : ExecutorStep)
    (executor : MultiThreadedExecutor) : Bool :=
  match label with
  | .advance =>
    match executor.lock with
    | some (.resolving [] (position :: _) _) =>
      executor.state.readySystems[position]?.all schedule.isNoOp
    | _ => true
  | _ => true

/-- Nobody else is completed as a no-op. -/
def Honest (schedule : SystemSchedule) (executor : MultiThreadedExecutor) : Prop :=
  ∀ signal ∈ executor.signals, signal.cause = .noOp → schedule.isNoOp signal.index = true

theorem honest_start : Honest schedule (start schedule) := by
  simp [Honest, start, signals, emitted, stack, handled]

variable {next : MultiThreadedExecutor} {signal : CompletedSignal}

/-- Signals that are neither lost nor sent. -/
theorem honest_congr (hs : ∀ signal : CompletedSignal, signal.cause = .noOp →
      (signal ∈ next.signals ↔ signal ∈ executor.signals))
    : Honest schedule next ↔ Honest schedule executor := by
  constructor
  · exact fun ho signal mem hc => ho signal ((hs signal hc).mpr mem) hc
  · exact fun ho signal mem hc => ho signal ((hs signal hc).mp mem) hc

/-- Handling a signal completes nobody as a no-op. -/
theorem honest_afterSignal {pending : List CompletedSignal} {phase : Phase}
    (top : stack executor.lock = signal :: pending)
    (hl : (afterSignal schedule executor signal phase).emitted =
      executor.completed ++ (executor.state.skips schedule signal ++ pending))
    : Honest schedule (afterSignal schedule executor signal phase) ↔ Honest schedule executor := by
  refine honest_congr fun other hc => ?_
  rw [(signals_afterSignal top hl).mem_iff, mem_append]
  refine or_iff_right fun hs => ?_
  rw [(ExecutorState.of_mem_skips hs).1] at hc
  cases hc

/-- **What one step does.** -/
theorem Transition.honest_iff {label : ExecutorStep}
    (hm : Transition schedule outcome executor label next) :
    Honest schedule next ↔ Honest schedule executor ∧ takesNoOp schedule label executor = true := by
  cases hm with
  | finish mem =>
    refine Iff.trans ?_ (and_iff_left rfl).symm
    refine honest_congr fun signal hc => ?_
    have hot : ∀ i, signal ≠ signalOf schedule outcome i := by
      rintro i rfl
      cases hc
    simp [signals, emitted, handled, hot]
  | acquire hfr hw =>
    refine Iff.trans ?_ (and_iff_left rfl).symm
    exact honest_congr fun signal _ => by simp [signals, emitted, stack, handled, hfr]
  | giveUp he hw =>
    refine Iff.trans ?_ (and_iff_left rfl).symm
    exact Iff.rfl
  | check ha =>
    refine Iff.trans ?_ (and_iff_left rfl).symm
    exact Iff.rfl
  | drain hl =>
    rw [takesNoOp, hl, and_iff_left rfl]
    exact honest_afterSignal (by rw [hl, stack]) rfl
  | fetch hl hq =>
    rw [takesNoOp, hl, and_iff_left rfl]
    refine honest_congr fun signal _ => ?_
    simp [signals, emitted, stack, handled, hl, hq, or_left_comm]
  | scan hl hq =>
    rw [takesNoOp, hl, and_iff_left rfl]
    exact honest_congr fun signal _ => by simp [signals, emitted, stack, handled, hl]
  | leave hl hn =>
    rw [takesNoOp, hl, and_iff_left rfl]
    exact honest_congr fun signal _ => by simp [signals, emitted, stack, handled, hl, unlock]
  | postpone hl hr hco hq =>
    rw [takesNoOp, hl, and_iff_left rfl]
    exact honest_congr fun signal _ => by simp [signals, emitted, stack, handled, hl]
  | defer hl hr hco hq =>
    rw [takesNoOp, hl, and_iff_left rfl]
    exact honest_congr fun signal _ => by simp [signals, emitted, stack, handled, hl]
  | spawn hl hr hfr =>
    rw [takesNoOp, hl, and_iff_left rfl]
    refine honest_congr fun signal _ => ?_
    rw [signals, signals, emitted, emitted, stack_spawnSystemTask, handled_spawnSystemTask, hl]
    rfl
  | settle hl =>
    rw [takesNoOp, hl, and_iff_left rfl]
    exact honest_afterSignal (by rw [hl, stack]) rfl
  | resolve hl hf =>
    rw [takesNoOp, hl]
    simp only [hf, all_some, Honest, signals, emitted, stack, hl, handled,
      append_nil, mem_append, mem_singleton]
    constructor
    · intro ho
      refine ⟨fun signal mem => ho signal ?_, ho _ (.inl (.inr rfl)) rfl⟩
      exact mem.imp_left .inl
    · rintro ⟨ho, hno⟩ signal ((hqu | rfl) | old) hc
      · exact ho signal (.inl hqu) hc
      · exact hno
      · exact ho signal (.inr old) hc
  | resume hl =>
    rw [takesNoOp, hl, and_iff_left rfl]
    exact honest_congr fun signal _ => by simp [signals, emitted, stack, handled, hl]

/-! ## Which conditions hold -/

/-- The conditions of the system hold: each of them ended with success, or is a no-op and was not
run. -/
abbrev Due (schedule : SystemSchedule) (outcome : ℕ → Outcome) (executor : MultiThreadedExecutor)
    (index : ℕ) : Prop :=
  schedule.Activated (fun condition => outcome condition = .met ∨
    schedule.isNoOp condition = true ∧ condition ∉ executor.started) index

/-- Who was completed without being run was not started. -/
theorem Sound.not_started (sound : Sound schedule outcome executor)
    (mem : signal ∈ executor.signals) (hca : signal.cause ≠ .ran) :
    signal.index ∉ executor.started := by
  intro hs
  have hco := count_pos_iff.mpr hs
  rw [sound.starts] at hco
  have ho := sound.places_le signal.index
  have hp : 0 < executor.signals.countP (·.index = signal.index) :=
    countP_pos_iff.mpr ⟨signal, mem, by simp⟩
  rw [MultiThreadedExecutor.places] at ho
  have ran : 0 < executor.signals.countP
      fun other => other.index = signal.index ∧ other.cause = .ran := by omega
  obtain ⟨other, hin, hb⟩ := countP_pos_iff.mp ran
  obtain ⟨hsa, hc⟩ := of_decide_eq_true hb
  rw [sound.signal_unique hin mem hsa] at hc
  exact hca hc

/-- What a signal reports, if its system was not completed in place of a no-op. -/
theorem Sound.meets_iff (sound : Sound schedule outcome executor) (mem : signal ∈ executor.signals)
    (ho : signal.cause = .noOp → schedule.isNoOp signal.index = true) :
    signal.meetCondition = true ↔ executor.state.conditionIncoming signal.index = 0 ∧
      (outcome signal.index = .met ∨
        schedule.isNoOp signal.index = true ∧ signal.index ∉ executor.started) := by
  have hr := sound.reports signal mem
  have hc := sound.causes signal mem
  unfold Reports at hr
  cases hca : signal.cause with
  | ran =>
    rw [hca] at hr hc
    have he : executor.state.conditionIncoming signal.index = 0 := by simpa using hc
    have hs := sound.mem_started_of_ran mem hca
    rw [hr, and_iff_right he, decide_eq_true_iff, or_iff_left fun hn => hn.2 hs]
  | noOp =>
    rw [hca] at hr hc
    have he : executor.state.conditionIncoming signal.index = 0 := by simpa using hc
    have hn := sound.not_started mem (by rw [hca]; decide)
    exact iff_of_true hr ⟨he, .inr ⟨ho hca, hn⟩⟩
  | skipped =>
    rw [hca] at hr hc
    have hw : executor.state.conditionIncoming signal.index ≠ 0 := hc.mp rfl
    exact iff_of_false (by rw [hr]; decide) fun hb => hw hb.1

/-- The counters say which conditions hold, as long as the systems before are completed for
the right reason. -/
theorem Sound.eligible_iff (sound : Sound schedule outcome executor) {i : ℕ}
    (hp : 0 < executor.places i)
    (ho : ∀ signal ∈ executor.signals, signal.index < i → signal.cause = .noOp →
      schedule.isNoOp signal.index = true) :
    executor.state.conditionIncoming i = 0 ↔ Due schedule outcome executor i := by
  induction i using Nat.strong_induction_on with
  | h i ih =>
    rw [sound.conditions, outstanding_eq_zero, Due, activated_iff]
    refine forall₂_congr fun cond mem => ?_
    have he := lt_of_mem_conditions mem
    have hc := sound.predecessors_done hp cond (mem_predecessors_of_mem_conditions mem)
    obtain ⟨signal, ha, rfl⟩ := List.mem_map.mp hc
    have hs : signal ∈ executor.signals := mem_append_right _ ha
    have ht : signal.index ∈ executor.metSystems ↔ signal.meetCondition = true := by
      simp only [metSystems, List.mem_map, mem_filter]
      constructor
      · rintro ⟨other, ⟨hin, met⟩, hsa⟩
        rwa [sound.signal_unique hs (mem_append_right _ hin) hsa.symm]
      · exact fun met => ⟨signal, ⟨ha, met⟩, rfl⟩
    rw [ht, sound.meets_iff hs (ho signal hs he),
      ih signal.index he (places_pos_of_signal hs)
        fun other hin pre => ho other hin (pre.trans he)]

/-! ## What is expected -/

/-- What is expected of the executor, in every state of a run. -/
structure Exact (schedule : SystemSchedule) (outcome : ℕ → Outcome)
    (executor : MultiThreadedExecutor) : Prop where
  /-- Only no-op systems and systems whose conditions do not hold are marked completed
  without having been run. -/
  unrun : ∀ signal ∈ executor.signals, signal.index ∉ executor.started →
    schedule.isNoOp signal.index = true ∨ ¬ Due schedule outcome executor signal.index
  /-- Nobody is started twice. -/
  once : ∀ index, executor.started.count index ≤ 1
  /-- A system is started after its predecessors are completed, and after they were started
  if they are to run. -/
  ordered : ∀ (before : List Event) (index : ℕ) (after : List Event),
    executor.log = before ++ .started index :: after →
    ∀ source ∈ schedule.predecessors index,
      (∃ signal, .completed signal ∈ before ∧ signal.index = source) ∧
      (schedule.isNoOp source = false → Due schedule outcome executor source →
        .started source ∈ before)
  /-- At the end every system is completed, once. -/
  completed : executor.Returned → ∀ index < schedule.size, executor.done.count index = 1
  /-- At the end every system that is to run has been started, once. -/
  started : executor.Returned → ∀ index < schedule.size, schedule.isNoOp index = false →
    Due schedule outcome executor index → executor.started.count index = 1
  /-- There is no infinite run. -/
  ends : Acc (fun next state => ∃ label, step schedule outcome label state = some next) executor
  /-- If nothing can happen any more, the executor has returned. -/
  returns : (∀ label, step schedule outcome label executor = none) → executor.Returned

section

variable (sound : Sound schedule outcome executor)

include sound

variable {signal : CompletedSignal}

/-- Who was started runs or has sent a signal. -/
theorem Sound.started_le_places (i : ℕ) : executor.started.count i ≤ executor.places i := by
  have hf : executor.signals.countP (fun other => other.index = i ∧ other.cause = .ran) ≤
      executor.signals.countP (·.index = i) :=
    countP_mono_left fun other _ hb => by
      simp only [decide_eq_true_eq] at hb ⊢
      exact hb.1
  rw [sound.starts]
  unfold MultiThreadedExecutor.places
  omega

/-- A system is skipped exactly if its conditions do not hold. -/
theorem Sound.skipped_iff (ho : Honest schedule executor) (mem : signal ∈ executor.signals) :
    signal.cause = .skipped ↔ ¬ Due schedule outcome executor signal.index := by
  rw [sound.causes signal mem, ne_eq, sound.eligible_iff (places_pos_of_signal mem)
    fun other hin _ => ho other hin]

/-- A system that is to run ran, once it is completed. -/
theorem Sound.ran_of_due (ho : Honest schedule executor) (mem : signal ∈ executor.signals)
    (hr : schedule.isNoOp signal.index = false) (due : Due schedule outcome executor signal.index) :
    signal.cause = .ran := by
  cases hc : signal.cause with
  | ran => rfl
  | noOp =>
    have noOp := ho signal mem hc
    rw [hr] at noOp
    cases noOp
  | skipped => exact absurd due ((sound.skipped_iff ho mem).mp hc)

end

/-- If nobody else is completed as a no-op, everything is as expected. -/
theorem Steady.exact (hst : Steady schedule outcome executor)
    (ho : Honest schedule executor) : Exact schedule outcome executor := by
  obtain ⟨sound, hl⟩ := hst
  have hon : ∀ i, executor.started.count i ≤ 1 := fun i =>
    (sound.started_le_places i).trans (sound.places_le i)
  refine ⟨fun signal mem hu => ?_, hon, ?_, fun hr i hin =>
    sound.count_done hl hr hin, fun hr i hin hre due => ?_,
    Steady.acc ⟨sound, hl⟩, fun hsu => ?_⟩
  · by_contra hn
    obtain ⟨hre, due⟩ := not_or.mp hn
    have ran := sound.ran_of_due ho mem (Bool.eq_false_iff.mpr hre) (not_not.mp due)
    exact hu (sound.mem_started_of_ran mem ran)
  · intro pre i post hsp src mem
    obtain ⟨signal, he, hsa⟩ := sound.ordered pre _ post hsp src mem
    refine ⟨⟨signal, he, hsa⟩, fun hre due => ?_⟩
    subst hsa
    have hin : signal ∈ executor.signals := by
      refine mem_append_right _ (mem_filterMap.mpr ⟨.completed signal, ?_, rfl⟩)
      rw [hsp]
      exact mem_append_left _ he
    -- the predecessor ran, and it was started before it was completed
    have ran := sound.ran_of_due ho hin hre due
    obtain ⟨one, two, hp⟩ := append_of_mem he
    have hb := sound.ordered one (.completed signal) (two ++ .started i :: post)
      (by rw [hsp, hp]; simp) ran
    rw [hp]
    exact mem_append_left _ hb
  · obtain ⟨signal, ha, rfl⟩ := sound.exists_signal hl hr hin
    have mem : signal ∈ executor.signals := mem_append_right _ ha
    have ran := sound.ran_of_due ho mem hre due
    have started := count_pos_iff.mpr (sound.mem_started_of_ran mem ran)
    have ham := hon signal.index
    omega
  · by_contra hru
    obtain ⟨label, next, hs⟩ := hl.enabled sound hru
    rw [hsu label] at hs
    cases hs

/-- It is enough to look at systems whose conditions hold: the first system that is completed
in place of a no-op is one of them. -/
theorem Sound.honest_of_due (sound : Sound schedule outcome executor)
    (hn : ∀ signal ∈ executor.signals, signal.cause = .noOp →
      Due schedule outcome executor signal.index → schedule.isNoOp signal.index = true) :
    Honest schedule executor := by
  have hut : ∀ i, ∀ signal ∈ executor.signals, signal.index = i →
      signal.cause = .noOp → schedule.isNoOp signal.index = true := by
    intro i
    induction i using Nat.strong_induction_on with
    | h i ih =>
      rintro signal mem rfl hca
      have pre : ∀ other ∈ executor.signals, other.index < signal.index →
          other.cause = .noOp → schedule.isNoOp other.index = true :=
        fun other hin hea => ih other.index hea other hin rfl
      have he : executor.state.conditionIncoming signal.index = 0 := by
        have hc := sound.causes signal mem
        rw [hca] at hc
        simpa using hc
      exact hn signal mem hca ((sound.eligible_iff (places_pos_of_signal mem) pre).mp he)
  exact fun signal mem => hut signal.index signal mem rfl

/-- **Everything is as expected exactly if nobody else is completed as a no-op.** -/
theorem Steady.exact_iff (hs : Steady schedule outcome executor) :
    Exact schedule outcome executor ↔ Honest schedule executor := by
  refine ⟨fun he => hs.1.honest_of_due fun signal mem hc due => ?_, hs.exact⟩
  have hu := hs.1.not_started mem (by rw [hc]; decide)
  exact (he.unrun signal mem hu).resolve_right (not_not.mpr due)

/-- The runs that take systems from the queue as no-ops only if they are. -/
theorem honest_iff_eachStep {labels : List ExecutorStep}
    (ran : run (step schedule outcome) labels (start schedule) = some executor) :
    Honest schedule executor ↔ EachStep (step schedule outcome)
      (fun label state _ => takesNoOp schedule label state = true) labels (start schedule) := by
  rw [run_iff_eachStep (fun _ _ _ hst hs => Steady.step hst hs)
    (fun _ _ _ hst hs => (hst.1.transition hs).honest_iff) steady_start ran]
  exact and_iff_right honest_start

/-! ## Saved positions

The positions are good as long as nobody comes to the front of the queue.  The one that is used
last may free systems, the others may not. -/

/-- The no-ops of the queue but the first, which is completed last. -/
def behind (schedule : SystemSchedule) (ready : List ℕ) : List ℕ :=
  (ready.filter (schedule.isNoOp ·)).tail

/-- Who waits for one of the systems waits for somebody else, too. -/
def FreesNobody (schedule : SystemSchedule) (executor : MultiThreadedExecutor)
    (systems : List ℕ) : Prop :=
  ∀ source ∈ systems, ∀ target ∈ schedule.outgoing source,
    ∃ other ∈ schedule.predecessors target, other ∉ executor.done ∧ other ∉ systems

/-- The queue when the step has taken an exclusive system from it and starts it. -/
def leftReady (schedule : SystemSchedule) (executor : MultiThreadedExecutor) :
    ExecutorStep → Option (List ℕ)
  | .advance =>
    match executor.lock, executor.state.readySystems with
    | some (.spawning (_ + 1)), index :: ready =>
      if schedule.isExclusive index && !executor.isConflict schedule index then some ready else none
    | _, _ => none
  | _ => none

/-- If the step starts an exclusive system, no no-op that waits behind another one frees a
system. -/
def Clear (schedule : SystemSchedule) (label : ExecutorStep) (executor : MultiThreadedExecutor) :
    Prop :=
  ∀ ready ∈ executor.leftReady schedule label, FreesNobody schedule executor (behind schedule ready)

/-- The saved positions are those of no-ops, and using all but the last frees nobody. -/
def Placed (schedule : SystemSchedule) (executor : MultiThreadedExecutor) : Prop :=
  match executor.lock with
  | some (.resolving pending saved _) =>
    (∀ position ∈ saved, executor.state.readySystems[position]?.any schedule.isNoOp = true) ∧
      (saved ≠ [] → FreesNobody schedule executor (pending.map CompletedSignal.index ++
        saved.dropLast.filterMap (executor.state.readySystems[·]?)))
  | _ => True

/-- The systems at the positions that are filtered. -/
theorem filterMap_positions (test : ℕ → Bool) (ready : List ℕ) :
    ((range ready.length).filter fun position => ready[position]?.any test).filterMap (ready[·]?) =
      ready.filter test := by
  induction ready with
  | nil => rfl
  | cons i ready ih =>
    rw [length_cons, range_succ_eq_map, filter_cons, List.filter_map, filter_cons]
    have hr : ((range ready.length).filter ((fun pos => (i :: ready)[pos]?.any test) ∘
        Nat.succ)).filterMap (ready[·]?) = ready.filter test := ih
    cases ht : test i <;> simp [ht, hr]

/-- The positions but the last one used are those of the no-ops behind another one. -/
theorem filterMap_noOpPositions (ready : List ℕ) :
    (noOpPositions schedule ready).dropLast.filterMap (ready[·]?) =
      (behind schedule ready).reverse := by
  rw [behind, ← filterMap_positions, noOpPositions, dropLast_reverse, filterMap_reverse]
  congr 1
  cases hp : (range ready.length).filter fun pos => ready[pos]?.any (schedule.isNoOp ·) with
  | nil => rfl
  | cons pos rest =>
    have mem : pos ∈ (range ready.length).filter fun pos => ready[pos]?.any (schedule.isNoOp ·) :=
      hp ▸ mem_cons_self
    obtain ⟨i, hf, -⟩ := (any_eq_true _ _).mp (mem_filter.mp mem).2
    rw [tail_cons, filterMap_cons_some hf, tail_cons]

/-- A signal that frees nobody. -/
theorem Sound.freed_eq_nil (sound : Sound schedule outcome executor)
    (hd : signal.index ∉ executor.done) {systems : List ℕ} (mem : signal.index ∈ systems)
    (hf : FreesNobody schedule executor systems) : executor.state.freed schedule signal = [] := by
  refine filter_eq_nil_iff.mpr fun target edge hone => ?_
  obtain ⟨other, hp, hn, hs⟩ := hf _ mem target edge
  -- after this signal the target still waits for the other one
  have hw : 0 < outstanding (schedule.predecessors target) (executor.done ++ [signal.index]) := by
    refine outstanding_pos hp fun hin => ?_
    rcases mem_append.mp hin with hin | hin
    · exact hn hin
    · exact hs (mem_singleton.mp hin ▸ mem)
  rw [outstanding_append (nodup_predecessors target) hd, if_pos (mem_predecessors.mpr edge),
    ← sound.incoming, of_decide_eq_true hone] at hw
  exact lt_irrefl _ hw

/-- A step that is clear keeps the positions good. -/
theorem Placed.step {label : ExecutorStep} (hp : Placed schedule executor)
    (hst : Steady schedule outcome executor) (hc : Clear schedule label executor)
    (hm : Transition schedule outcome executor label next) : Placed schedule next := by
  cases hm with
  | finish | giveUp | check => exact hp
  | acquire | drain | fetch | scan | leave | postpone | defer | resume => trivial
  | @spawn i left rest hl hr hfr =>
    unfold Placed spawnSystemTask
    dsimp only
    by_cases hex : (schedule.isExclusive i && !rest.isEmpty) = true
    · rw [if_pos hex]
      have he := ((Bool.and_eq_true _ _).mp hex).1
      have hb : FreesNobody schedule executor (behind schedule rest) :=
        hc rest (by simp [leftReady, hl, hr, he, hfr])
      refine ⟨fun pos mem => (mem_filter.mp (mem_reverse.mp mem)).2, fun _ => ?_⟩
      rw [map_nil, nil_append, filterMap_noOpPositions]
      simpa [FreesNobody, done, handled] using hb
    · rw [if_neg hex]
      trivial
  | @settle signal pending saved left hl =>
    rw [Placed, hl] at hp
    obtain ⟨hno, hf⟩ := hp
    have hd := (hst.1.alone (emitted_perm (by rw [hl, stack]))).1
    rcases eq_or_ne saved [] with rfl | hs
    · exact ⟨fun _ mem => absurd mem not_mem_nil, fun hs => absurd rfl hs⟩
    have hn := hst.1.freed_eq_nil hd mem_cons_self (hf hs)
    have hk : executor.state.skips schedule signal = [] := by rw [ExecutorState.skips, hn]; rfl
    have hr : (executor.state.after schedule signal).readySystems =
        executor.state.readySystems := by
      rw [ExecutorState.after, ExecutorState.unblocked, hn]
      rfl
    rw [Placed, afterSignal]
    dsimp only
    rw [hr, hk, nil_append]
    refine ⟨hno, fun _ source mem target edge => ?_⟩
    obtain ⟨other, ho, hnd, hns⟩ := hf hs source (mem_cons_of_mem _ mem) target edge
    refine ⟨other, ho, ?_, fun hin => hns (mem_cons_of_mem _ hin)⟩
    change other ∉ (afterSignal schedule executor signal _).done
    rw [done, handled_afterSignal, map_append, mem_append]
    rintro (hin | hin)
    · exact hnd hin
    · exact hns (mem_singleton.mp hin ▸ mem_cons_self)
  | @resolve i pos left saved hl hf =>
    have hq := hst.2.inQueue
    rw [Placed, hl] at hp
    rw [InQueue, hl] at hq
    obtain ⟨hlow, -⟩ := pairwise_cons.mp hq.1
    have hin := hq.2 pos mem_cons_self
    have hk : ∀ other ∈ saved, (swapRemove executor.state.readySystems pos)[other]? =
        executor.state.readySystems[other]? := by
      intro other mem
      have hlt := hlow other mem
      rw [getElem?_swapRemove hin, if_pos (by omega), if_neg (by omega)]
    rw [Placed]
    refine ⟨fun other mem => ?_, fun hs => ?_⟩
    · dsimp only
      rw [hk other mem]
      exact hp.1 other (mem_cons_of_mem _ mem)
    · have hb := hp.2 (cons_ne_nil _ _)
      rw [dropLast_cons_of_ne_nil hs, filterMap_cons_some hf] at hb
      dsimp only
      rw [filterMap_congr fun other mem => hk other (mem_of_mem_dropLast mem)]
      exact hb

/-- A saved position that is good is that of a no-op. -/
theorem Placed.takesNoOp {label : ExecutorStep} (hp : Placed schedule executor)
    (hm : Transition schedule outcome executor label next) :
    takesNoOp schedule label executor = true := by
  cases hm with
  | finish | acquire | giveUp | check => rfl
  | drain hl | fetch hl | scan hl | leave hl | postpone hl | defer hl | spawn hl | settle hl
    | resume hl => rw [MultiThreadedExecutor.takesNoOp, hl]
  | resolve hl hf =>
    rw [Placed, hl] at hp
    have hn := hp.1 _ mem_cons_self
    rw [hf, any_some] at hn
    simpa [MultiThreadedExecutor.takesNoOp, hl, hf] using hn

/-- Runs that are clear take no-ops from the queue only. -/
theorem takesNoOp_of_clear {labels : List ExecutorStep}
    (clear : EachStep (step schedule outcome) (fun label state _ => Clear schedule label state)
      labels (start schedule)) : EachStep (step schedule outcome)
      (fun label state _ => takesNoOp schedule label state = true) labels (start schedule) := by
  have hk : ∀ label state next, Steady schedule outcome state ∧ Placed schedule state →
      step schedule outcome label state = some next → Clear schedule label state →
      (Steady schedule outcome next ∧ Placed schedule next) ∧
        takesNoOp schedule label state = true := by
    rintro label state next ⟨hst, hp⟩ hs hc
    have hm := hst.1.transition hs
    exact ⟨⟨hst.step hs, hp.step hst hc hm⟩, hp.takesNoOp hm⟩
  exact clear.imp_of_invariant hk ⟨steady_start, trivial⟩

/-- A run does what is expected exactly if each system it completes as a no-op is one. -/
theorem exact_iff_takesNoOp {labels : List ExecutorStep}
    (ran : run (step schedule outcome) labels (start schedule) = some executor) :
    Exact schedule outcome executor ↔ EachStep (step schedule outcome)
      (fun label state _ => takesNoOp schedule label state = true) labels (start schedule) := by
  rw [(steady_run ran).exact_iff, honest_iff_eachStep ran]

/-- **If, whenever an exclusive system is started, no no-op that waits behind another one frees a
system, a run does what is expected.** -/
theorem run_exact {labels : List ExecutorStep}
    (ran : run (step schedule outcome) labels (start schedule) = some executor)
    (clear : EachStep (step schedule outcome) (fun label state _ => Clear schedule label state)
      labels (start schedule)) : Exact schedule outcome executor :=
  (exact_iff_takesNoOp ran).mpr (takesNoOp_of_clear clear)

instance (executor : MultiThreadedExecutor) : Decidable executor.Returned :=
  inferInstanceAs (Decidable (_ ∧ _ ∧ _ ∧ _))

instance (schedule : SystemSchedule) (label : ExecutorStep) (executor : MultiThreadedExecutor) :
    Decidable (Clear schedule label executor) :=
  inferInstanceAs (Decidable (∀ ready ∈ executor.leftReady schedule label,
    ∀ source ∈ behind schedule ready, ∀ target ∈ schedule.outgoing source,
      ∃ other ∈ schedule.predecessors target, other ∉ executor.done ∧
        other ∉ behind schedule ready))

/-- Tasks end, and one of their threads takes the lock and advances the schedule so many times. -/
def turn (ended : List ℕ) (advances : ℕ) : List ExecutorStep :=
  ended.map .finish ++ .acquire :: replicate (ended.length - 1) .giveUp ++
    replicate advances .advance ++ [.check]

/-- One turn after the other. -/
def turns (all : List (List ℕ × ℕ)) : List ExecutorStep :=
  all.flatMap fun one => turn one.1 one.2

end MultiThreadedExecutor

/-! ## A set with sets in it -/

namespace Schedule

open MultiThreadedExecutor

/-- A set with an exclusive system and with a set that has a system, and with an empty set behind
it. -/
def nestedSets (second : Bool) : List ScheduleOp :=
  [.configSet ⟨.named 1, some (.named 0), [], [], []⟩] ++
    (if second then [.configSet ⟨.named 2, some (.named 0), [], [], []⟩] else []) ++
    [.addSystem (.named 1) (functionSystem 0 false), .addSystem (.named 0) (functionSystem 1 true),
      .update 100 .same fun _ => FunctionSystem.initTable []]

theorem nestedSets_built (second : Bool) : (run step (nestedSets second) .new).any
      (fun schedule => schedule.isChanged = false) = true := by
  cases second <;> decide +kernel

/-- What the executor sees. -/
def nestedSchedule (second : Bool) : SystemSchedule :=
  (built (nestedSets second)).systemSchedule (built_compiled (nestedSets_built second))

/-- The exclusive system is started as soon as the outer set has begun. -/
def nestedRun (second : Bool) : List ExecutorStep :=
  turns <| [([], 3)] ++
    if second then [([0], 12), ([1], 6), ([6], 4), ([2], 5), ([3], 5), ([7], 4)]
    else [([0], 9), ([1], 5), ([3], 5), ([4], 5), ([5], 4)]

/-- The marker of the only set within is completed as a no-op, and its system is run. -/
theorem run_exact_nested : ∃ executor,
    run (MultiThreadedExecutor.step (nestedSchedule false) fun _ => .met)
      (nestedRun false) (start (nestedSchedule false)) = some executor ∧
      executor.Returned ∧ executor.started = [0, 1, 3, 4, 5] ∧
      Exact (nestedSchedule false) (fun _ => .met) executor := by
  refine @exists_of_any _ _ (fun executor => executor.Returned ∧
    executor.started = [0, 1, 3, 4, 5]) _ _ (by decide +kernel) ?_
  intro executor ran ⟨hr, hs⟩
  exact ⟨hr, hs, run_exact ran (eachStep_of_allSteps (by decide +kernel))⟩

/-- **A system that is completed and not run**: completing the marker of its set puts it at the
front of the queue, which is the position of the other marker. -/
theorem nested_unrun : ∃ schedule executor, ∃ compiled : schedule.Compiled,
    run step (nestedSets true) .new = some schedule ∧ schedule.isChanged = false ∧
    run (MultiThreadedExecutor.step (schedule.systemSchedule compiled) fun _ => .met)
      (nestedRun true) (start (schedule.systemSchedule compiled)) = some executor ∧
    executor.Returned ∧ (schedule.schedule.systems[5]?.map fun node => node.system) =
      some ((functionSystem 0 false).boxed.setSystemSet (.named 1)) ∧
    5 ∈ executor.done ∧ 5 ∉ executor.started ∧
    ¬ Exact (schedule.systemSchedule compiled) (fun _ => .met) executor := by
  obtain ⟨hb, hc⟩ := built_spec (nestedSets_built true)
  obtain ⟨executor, ran, hr, hd, hs⟩ : ∃ executor,
      run (MultiThreadedExecutor.step (nestedSchedule true) fun _ => .met)
        (nestedRun true) (start (nestedSchedule true)) = some executor ∧
      executor.Returned ∧ 5 ∈ executor.done ∧ 5 ∉ executor.started :=
    exists_of_any (by decide +kernel) fun _ _ ht => ht
  refine ⟨_, executor, built_compiled (nestedSets_built true), hb, hc, ran, hr,
    by decide +kernel, hd, hs, fun he => ?_⟩
  have ho := he.started hr 5 (by decide +kernel) (by decide +kernel)
    (activated_of_forall (fun _ => .inl rfl) 5)
  exact hs (count_pos_iff.mp (by omega))

end Schedule

end Voker.Ecs
