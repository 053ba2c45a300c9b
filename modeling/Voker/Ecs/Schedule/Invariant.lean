import Voker.Ecs.Schedule.Signal
import Voker.Foundation.History

/-!
# What the multi-threaded executor keeps in order

Every system is in one place: it waits for predecessors, is ready, runs, or has sent a
signal.  **The counters count the predecessors that are not completed and the conditions
that are not met; a system leaves the first place when its counter reaches zero, and it is
ready if its conditions are met and skipped if not** (`Sound`).  This holds in every state
of every run, also in runs in which the wrong systems are completed as no-ops.
-/

namespace Voker.Ecs

open Foundation List ExecutorState SystemSchedule CompletedSignal

namespace MultiThreadedExecutor

/-! ## Where systems are -/

/-- The signals the holder of the lock is about to handle. -/
def stack : Option Phase → List CompletedSignal
  | some (.draining pending) => pending
  | some (.resolving pending _ _) => pending
  | _ => []

section

variable (executor : MultiThreadedExecutor)

/-- The signals that have been sent and not been handled. -/
def emitted : List CompletedSignal :=
  executor.completed ++ stack executor.lock

/-- The signals that have been handled, in order. -/
def handled : List CompletedSignal :=
  executor.log.filterMap fun
    | .completed signal => some signal
    | .started _ => none

/-- The systems that have been started, in order. -/
def started : List ℕ :=
  executor.log.filterMap fun
    | .started index => some index
    | .completed _ => none

/-- All signals. -/
def signals : List CompletedSignal :=
  executor.emitted ++ executor.handled

/-- The systems that are completed. -/
def done : List ℕ :=
  executor.handled.map index

/-- The systems that are completed and, as conditions, met. -/
def metSystems : List ℕ :=
  (executor.handled.filter meetCondition).map index

/-- In how many places a system is. -/
def places (index : ℕ) : ℕ :=
  executor.state.readySystems.count index + executor.flying.count index +
    executor.signals.countP (·.index = index)

end

/-- The condition a signal reports. -/
def Reports (outcome : ℕ → Outcome) (signal : CompletedSignal) : Prop :=
  match signal.cause with
  | .ran => signal.meetCondition = decide (outcome signal.index = .met)
  | .noOp => signal.meetCondition = true
  | .skipped => signal.meetCondition = false

/-- Why an event may happen: a system starts after its predecessors are completed, and a
system that ran is completed after it was started. -/
def Warrants (schedule : SystemSchedule) (before : List Event) : Event → Prop
  | .started index => ∀ source ∈ schedule.predecessors index,
      ∃ signal, .completed signal ∈ before ∧ signal.index = source
  | .completed signal => signal.cause = .ran → .started signal.index ∈ before

/-- The executor is in order. -/
structure Sound (schedule : SystemSchedule) (outcome : ℕ → Outcome)
    (executor : MultiThreadedExecutor) : Prop where
  places : ∀ index, executor.places index =
    if index < schedule.size ∧ executor.state.incoming index = 0 then 1 else 0
  incoming : ∀ index, executor.state.incoming index =
    outstanding (schedule.predecessors index) executor.done
  conditions : ∀ index, executor.state.conditionIncoming index =
    outstanding (schedule.conditions index) executor.metSystems
  eligible : ∀ index ∈ executor.state.readySystems ++ executor.flying,
    executor.state.conditionIncoming index = 0
  causes : ∀ signal ∈ executor.signals,
    signal.cause = .skipped ↔ executor.state.conditionIncoming signal.index ≠ 0
  reports : ∀ signal ∈ executor.signals, Reports outcome signal
  queued : ∀ signal ∈ executor.completed, signal.cause = .ran
  running : ∀ index, index ∈ executor.state.runningSystems ↔ index ∈ executor.flying ∨
    ∃ signal ∈ executor.emitted, signal.index = index ∧ signal.cause = .ran
  starts : ∀ index, executor.started.count index = executor.flying.count index +
    executor.signals.countP fun signal => signal.index = index ∧ signal.cause = .ran
  ordered : Justified (Warrants schedule) executor.log

variable {s : SystemSchedule} {out : ℕ → Outcome} {x : MultiThreadedExecutor}

theorem count_places (i : ℕ) : (x.state.readySystems ++ x.flying ++
      x.signals.map CompletedSignal.index).count i = x.places i := by
  simp only [count_append, places]
  rw [count, countP_map]
  rfl

/-- Nobody is in two places. -/
theorem Sound.places_le (sound : Sound s out x) (i : ℕ) : x.places i ≤ 1 := by
  rw [sound.places]
  split <;> omega

variable {i : ℕ} {signal : CompletedSignal} {pending : List CompletedSignal} {phase : Phase}

theorem countP_index_pos {list : List CompletedSignal} (mem : signal ∈ list)
    (hs : signal.index = i) : 0 < list.countP (·.index = i) :=
  countP_pos_iff.mpr ⟨signal, mem, decide_eq_true hs⟩

theorem places_pos_of_ready (mem : i ∈ x.state.readySystems) : 0 < x.places i := by
  have hc := count_pos_iff.mpr mem
  unfold places
  omega

theorem places_pos_of_flying (mem : i ∈ x.flying) : 0 < x.places i := by
  have hc := count_pos_iff.mpr mem
  unfold places
  omega

theorem places_pos_of_signal (mem : signal ∈ x.signals) : 0 < x.places signal.index := by
  have hc := countP_index_pos mem rfl
  unfold places
  omega

section

variable (sound : Sound s out x)

include sound

/-- Who is in a place waits for nobody. -/
theorem Sound.incoming_eq_zero (hp : 0 < x.places i) : i < s.size ∧ x.state.incoming i = 0 := by
  rw [sound.places] at hp
  by_contra hw
  rw [if_neg hw] at hp
  exact lt_irrefl _ hp

/-- Nobody is in two places, or twice in one. -/
theorem Sound.nodup : (x.state.readySystems ++ x.flying ++
      x.signals.map CompletedSignal.index).Nodup := by
  refine nodup_iff_count_le_one.mpr fun i => ?_
  rw [count_places]
  exact sound.places_le i

/-- A system sends one signal. -/
theorem Sound.signal_unique {o : CompletedSignal} (mem : signal ∈ x.signals)
    (hin : o ∈ x.signals) (hs : signal.index = o.index) : signal = o :=
  inj_on_of_nodup_map sound.nodup.of_append_right mem hin hs

/-- Who waits for nobody has no predecessor that is not completed. -/
theorem Sound.not_mem_outgoing {src : ℕ} (hp : 0 < x.places i)
    (hf : src ∉ x.done) : i ∉ s.outgoing src := by
  intro he
  have hz := (sound.incoming_eq_zero hp).2
  rw [sound.incoming, outstanding_eq_zero] at hz
  exact hf (hz src (mem_predecessors.mpr he))

end

/-! ## Moves of one system -/

/-- Who is in the queue or runs is in a place. -/
theorem mem_iff_count_pos : i ∈ x.state.readySystems ++ x.flying ↔
      0 < x.state.readySystems.count i + x.flying.count i := by
  rw [← count_append, count_pos_iff]

/-- The completed systems are those of which a signal was handled. -/
theorem mem_done : i ∈ x.done ↔ ∃ signal, .completed signal ∈ x.log ∧ signal.index = i := by
  simp only [done, handled, mem_map, mem_filterMap]
  constructor
  · rintro ⟨signal, ⟨e, hin, match_⟩, hs⟩
    cases e with
    | started i => cases match_
    | completed o =>
      cases match_
      exact ⟨signal, hin, hs⟩
  · rintro ⟨signal, hin, hs⟩
    exact ⟨signal, ⟨_, hin, rfl⟩, hs⟩

theorem mem_started : i ∈ x.started ↔ .started i ∈ x.log := by
  simp only [started, mem_filterMap]
  constructor
  · rintro ⟨e, hin, match_⟩
    cases e with
    | started o =>
      cases match_
      exact hin
    | completed signal => cases match_
  · exact fun hin => ⟨_, hin, rfl⟩

theorem stack_spawnSystemTask (i : ℕ) (rest : List ℕ) (left : ℕ) :
    stack (x.spawnSystemTask s i rest left).lock = [] := by
  unfold spawnSystemTask
  split_ifs <;> rfl

theorem handled_spawnSystemTask (i : ℕ) (rest : List ℕ) (left : ℕ) :
    (x.spawnSystemTask s i rest left).handled = x.handled := by
  simp [handled, spawnSystemTask, filterMap_append]

section

variable (sound : Sound s out x)

include sound

/-- A system that is ready or runs goes on to the next place, or sends a signal, and no
counter changes. -/
theorem Sound.transfer {next : MultiThreadedExecutor} (a : List CompletedSignal)
    (hi : next.state.incoming = x.state.incoming)
    (hc : next.state.conditionIncoming = x.state.conditionIncoming)
    (ha : next.handled = x.handled) (he : next.emitted.Perm (a ++ x.emitted))
    (hp : ∀ i, next.state.readySystems.count i + next.flying.count i + a.countP (·.index = i) =
      x.state.readySystems.count i + x.flying.count i)
    (hf : ∀ signal ∈ a, signal.cause ≠ .skipped ∧ Reports out signal)
    (hq : ∀ signal ∈ next.completed, signal.cause = .ran)
    (hr : ∀ i, i ∈ next.state.runningSystems ↔ i ∈ next.flying ∨
      ∃ signal ∈ a ++ x.emitted, signal.index = i ∧ signal.cause = .ran)
    (hst : ∀ i, next.started.count i + x.flying.count i =
      x.started.count i + next.flying.count i +
        a.countP fun signal => signal.index = i ∧ signal.cause = .ran)
    (ho : Justified (Warrants s) next.log) : Sound s out next := by
  have signals : next.signals.Perm (a ++ x.signals) := by
    unfold signals
    rw [ha, ← append_assoc]
    exact he.append_right _
  have hfp : ∀ i, i ∈ next.state.readySystems ++ next.flying ∨
      (∃ signal ∈ a, signal.index = i) → x.state.conditionIncoming i = 0 := by
    intro i hpl
    refine sound.eligible i (mem_iff_count_pos.mpr ?_)
    rw [← hp]
    rcases hpl with hin | ⟨signal, hin, hsa⟩
    · have hco := mem_iff_count_pos.mp hin
      omega
    · have hco := countP_index_pos hin hsa
      omega
  refine ⟨fun i => ?_, fun i => ?_, fun i => ?_, fun i hin => ?_,
    fun signal hin => ?_, fun signal hin => ?_, hq, fun i => ?_, fun i => ?_, ho⟩
  · rw [hi, ← sound.places, MultiThreadedExecutor.places, MultiThreadedExecutor.places,
      signals.countP_eq, countP_append]
    have hm := hp i
    omega
  · rw [hi, done, ha]
    exact sound.incoming i
  · rw [hc, metSystems, ha]
    exact sound.conditions i
  · rw [hc]
    exact hfp i (.inl hin)
  · rw [hc]
    rcases mem_append.mp (signals.mem_iff.mp hin) with new | old
    · exact iff_of_false (hf signal new).1
        (not_not.mpr (hfp signal.index (.inr ⟨signal, new, rfl⟩)))
    · exact sound.causes signal old
  · rcases mem_append.mp (signals.mem_iff.mp hin) with new | old
    · exact (hf signal new).2
    · exact sound.reports signal old
  · rw [hr]
    simp only [he.mem_iff]
  · have pre := sound.starts i
    have hm := hst i
    rw [signals.countP_eq, countP_append]
    omega

/-- Only the threads, or the places of the signals, change. -/
theorem Sound.relocate {next : MultiThreadedExecutor} (hs : next.state = x.state)
    (hf : next.flying = x.flying) (log : next.log = x.log)
    (he : next.emitted.Perm x.emitted)
    (hq : ∀ signal ∈ next.completed, signal ∈ x.completed) : Sound s out next := by
  refine sound.transfer [] (by rw [hs]) (by rw [hs]) (by rw [handled, handled, log]) he
    (fun i => ?_) (by simp) (fun signal hin => sound.queued signal (hq signal hin))
    (fun i => ?_) (fun i => ?_) (by rw [log]; exact sound.ordered)
  · rw [hs, hf]
    rfl
  · rw [hs, hf]
    exact sound.running i
  · rw [started, started, log, hf]
    rfl

/-- A task that ends sends its signal. -/
theorem Sound.finish (mem : i ∈ x.flying) : Sound s out { x with
      flying := x.flying.erase i
      completed := x.completed ++ [signalOf s out i]
      trying := x.trying + 1 } := by
  have hc := count_pos_iff.mpr mem
  refine sound.transfer [signalOf s out i] rfl rfl rfl ?_ (fun o => ?_) ?_
    (fun signal hin => ?_) (fun o => ?_) (fun o => ?_) sound.ordered
  · unfold emitted
    simp only [append_assoc, singleton_append]
    exact perm_middle
  · rw [countP_singleton, count_erase]
    by_cases hs : i = o
    · subst hs
      simp only [beq_self_eq_true, if_true, signalOf, decide_true]
      omega
    · simp [hs, signalOf]
  · simp [signalOf, Reports]
  · rcases mem_append.mp hin with old | new
    · exact sound.queued signal old
    · rw [mem_singleton.mp new]
      rfl
  · rw [sound.running]
    have hw : o ∈ x.flying ↔
        o ∈ x.flying.erase i ∨ i = o := by
      constructor
      · intro hin
        by_cases hs : i = o
        · exact .inr hs
        · exact .inl ((mem_erase_of_ne (Ne.symm hs)).mpr hin)
      · rintro (hin | rfl)
        · exact mem_of_mem_erase hin
        · exact mem
    simp [hw, signalOf, or_assoc]
  · have hs : (started { x with
      flying := x.flying.erase i
      completed := x.completed ++ [signalOf s out i]
      trying := x.trying + 1 }) = x.started := rfl
    rw [hs, countP_singleton, count_erase]
    by_cases hs : i = o
    · subst hs
      simp only [beq_self_eq_true, if_true, signalOf, decide_true, and_self]
      omega
    · simp [hs, signalOf]

/-- Who ran was started. -/
theorem Sound.mem_started_of_ran (hin : signal ∈ x.signals) (ran : signal.cause = .ran) :
    signal.index ∈ x.started := by
  have hc : 0 < x.signals.countP
      (fun o => o.index = signal.index ∧ o.cause = .ran) :=
    countP_pos_iff.mpr ⟨signal, hin, by simp [ran]⟩
  refine count_pos_iff.mp ?_
  rw [sound.starts]
  omega

/-- The predecessors of a system in a place are completed. -/
theorem Sound.predecessors_done (hp : 0 < x.places i) : ∀ src ∈ s.predecessors i,
      src ∈ x.done := by
  have hz := (sound.incoming_eq_zero hp).2
  rw [sound.incoming] at hz
  exact outstanding_eq_zero.mp hz

/-- The queue is reordered. -/
theorem Sound.reorder {r : List ℕ} {lock : Option Phase} {checking : ℕ}
    (hp : r.Perm x.state.readySystems)
    (emitted : emitted { x with lock := lock } = x.emitted) :
    Sound s out { x with
      state := { x.state with readySystems := r }
      lock := lock
      checking := checking } := by
  refine sound.transfer [] rfl rfl rfl (List.Perm.of_eq emitted) (fun i => ?_) (by simp)
    sound.queued sound.running (fun i => ?_) sound.ordered
  · rw [hp.count_eq]
    rfl
  · rfl

/-- The system at a saved position is completed as if it had run. -/
theorem Sound.resolve {pos left : ℕ} {sa : List ℕ} (hf : x.state.readySystems[pos]? = some i)
    (hi : x.emitted = x.completed) : Sound s out { x with
      state := { x.state with
        readySystems := swapRemove x.state.readySystems pos }
      lock := some (.resolving [⟨i, false, true, .noOp⟩] sa left) } := by
  refine sound.transfer [⟨i, false, true, .noOp⟩] rfl rfl rfl ?_ (fun o => ?_) ?_
    sound.queued (fun o => ?_) (fun o => ?_) sound.ordered
  · rw [hi]
    exact perm_append_comm
  · rw [count_swapRemove hf, countP_singleton]
    simp only [decide_eq_true_eq]
    omega
  · simp [Reports]
  · rw [sound.running]
    simp
  · simp
    rfl

end

/-- The first ready system is started. -/
theorem Sound.spawn (sound : Sound s out x) {i left : ℕ} {rest : List ℕ}
    (hr : x.state.readySystems = i :: rest) (hi : x.emitted = x.completed) :
    Sound s out (x.spawnSystemTask s i rest left) := by
  have mem : i ∈ x.state.readySystems := by
    rw [hr]
    exact mem_cons_self
  refine sound.transfer [] rfl rfl (handled_spawnSystemTask i rest left) ?_ (fun o => ?_)
    (by simp) sound.queued (fun o => ?_) (fun o => ?_) (sound.ordered.append ?_)
  · rw [nil_append, hi, emitted, stack_spawnSystemTask, append_nil]
    rfl
  · rw [hr]
    simp only [spawnSystemTask, count_cons, countP_nil]
    omega
  · simp only [spawnSystemTask, Finset.mem_insert, sound.running, mem_cons, nil_append, or_assoc]
  · simp only [started, spawnSystemTask, filterMap_append, count_append, countP_nil]
    simp only [filterMap_cons, filterMap_nil, count_cons, count_nil]
    omega
  · intro src hin
    exact mem_done.mp (sound.predecessors_done (places_pos_of_ready mem) src hin)

/-! ## Handling a signal -/

/-- The signal on top of the stack, and the others. -/
theorem emitted_perm (top : stack x.lock = signal :: pending) :
    x.emitted.Perm (signal :: (x.completed ++ pending)) := by
  rw [emitted, top]
  exact perm_middle

/-- The executor after a signal. -/
def afterSignal (schedule : SystemSchedule) (executor : MultiThreadedExecutor)
    (signal : CompletedSignal) (phase : Phase) : MultiThreadedExecutor :=
  { executor with
    state := executor.state.after schedule signal
    lock := some phase
    log := executor.log ++ [.completed signal] }

theorem metSystems_subset : x.metSystems ⊆ x.done :=
  map_subset _ (filter_subset_self _)

section

variable (signal : CompletedSignal)

theorem handled_afterSignal (phase : Phase) :
    (afterSignal s x signal phase).handled = x.handled ++ [signal] := by
  simp [handled, afterSignal, filterMap_append]

theorem metSystems_afterSignal (phase : Phase) : (afterSignal s x signal phase).metSystems =
      x.metSystems ++ if signal.meetCondition then [signal.index] else [] := by
  rw [metSystems, handled_afterSignal, filter_append, map_append]
  cases met : signal.meetCondition <;> simp [metSystems, met]

end

/-- Handling a signal adds those of the systems that are skipped. -/
theorem signals_afterSignal (top : stack x.lock = signal :: pending)
    (hl : (afterSignal s x signal phase).emitted = x.completed ++
      (x.state.skips s signal ++ pending)) : (afterSignal s x signal phase).signals.Perm
      (x.state.skips s signal ++ x.signals) := by
  rw [signals, signals, handled_afterSignal, hl, emitted, top, perm_iff_count]
  intro o
  simp only [count_append, count_cons, count_nil]
  omega

section

variable (sound : Sound s out x)

include sound

/-- A signal that has not been handled is the only one of its system. -/
theorem Sound.alone {ot : List CompletedSignal} (hw : x.emitted.Perm (signal :: ot)) :
    signal.index ∉ x.done ∧ signal.index ∉ x.flying ∧
      ∀ o ∈ ot, o.index ≠ signal.index := by
  have ho := sound.places_le signal.index
  rw [MultiThreadedExecutor.places, signals, countP_append, hw.countP_eq,
    countP_cons_of_pos (by simp)] at ho
  refine ⟨fun hin => ?_, fun hin => ?_, fun o hin hs => ?_⟩
  · obtain ⟨o, mem, hs⟩ := mem_map.mp hin
    have hc := countP_index_pos mem hs
    omega
  · have hc := count_pos_iff.mpr hin
    omega
  · have hc := countP_index_pos hin hs
    omega

/-- Whoever is in a place is not told anything any more. -/
theorem Sound.conditionsAfter_eq (hf : signal.index ∉ x.done) (hp : 0 < x.places i) :
    conditionsAfter s x.state signal i = x.state.conditionIncoming i := by
  refine if_neg fun ht => ?_
  exact sound.not_mem_outgoing hp hf (mem_outgoing_of_notified ht)

/-- Who hears of a signal has waited for it. -/
theorem Sound.handle_eq {o : List CompletedSignal}
    (hw : x.emitted.Perm (signal :: o)) (phase : List CompletedSignal → Phase) :
    x.handle s signal pending phase = some (afterSignal s x signal
      (phase (x.state.skips s signal ++ pending))) := by
  have hf := (sound.alone hw).1
  have pos : ∀ t ∈ s.outgoing signal.index, 0 < x.state.incoming t := by
    intro t he
    rw [sound.incoming]
    exact outstanding_pos (mem_predecessors.mpr he) hf
  have hg : ∀ t ∈ notified s signal, 0 < x.state.conditionIncoming t := by
    intro t ht
    rw [notified] at ht
    split at ht
    · rw [sound.conditions]
      exact outstanding_pos (mem_conditions.mpr ht) fun met => hf (metSystems_subset met)
    · cases ht
  rw [handle, handleSignal_eq pos hg]
  rfl

/-- Those whose counter reaches zero, and nobody else, come to a place. -/
theorem Sound.places_afterSignal (hfr : signal.index ∉ x.done)
    (hs : (afterSignal s x signal phase).signals.Perm (x.state.skips s signal ++ x.signals))
    (i : ℕ) : (afterSignal s x signal phase).places i =
      if i < s.size ∧ (afterSignal s x signal phase).state.incoming i = 0 then 1 else 0 := by
  have pre := sound.places i
  have new := @count_freed s x.state signal i
  have hc : (afterSignal s x signal phase).state.incoming i =
      if i ∈ s.outgoing signal.index then x.state.incoming i - 1
      else x.state.incoming i := rfl
  have hq : (afterSignal s x signal phase).state.readySystems.count i =
      (x.state.unblocked s signal).count i + x.state.readySystems.count i := count_append
  have hf : (afterSignal s x signal phase).flying = x.flying := rfl
  unfold MultiThreadedExecutor.places at pre ⊢
  rw [hs.countP_eq, countP_append, hq, hf]
  by_cases he : i ∈ s.outgoing signal.index
  · have hin : i < s.size := (s.forward he).2
    have pos : 0 < x.state.incoming i := by
      rw [sound.incoming]
      exact outstanding_pos (mem_predecessors.mpr he) hfr
    rw [if_pos he] at hc
    rw [if_neg (by omega)] at pre
    by_cases hl : x.state.incoming i = 1
    · rw [if_pos ⟨he, hl⟩] at new
      rw [if_pos ⟨hin, by omega⟩]
      omega
    · rw [if_neg (fun hb => hl hb.2)] at new
      rw [if_neg (by omega)]
      omega
  · rw [if_neg he] at hc
    rw [if_neg (fun hb => he hb.1)] at new
    rw [hc, ← pre]
    omega

/-- The system of the signal does not run any more. -/
theorem Sound.running_afterSignal (hw : x.emitted.Perm (signal :: (x.completed ++ pending)))
    (hst : (afterSignal s x signal phase).emitted =
      x.completed ++ (x.state.skips s signal ++ pending))
    (i : ℕ) : i ∈ x.state.runningSystems.erase signal.index ↔ i ∈ x.flying ∨
      ∃ o ∈ (afterSignal s x signal phase).emitted, o.index = i ∧ o.cause = .ran := by
  obtain ⟨-, hl, ha⟩ := sound.alone hw
  rw [Finset.mem_erase, sound.running, hst]
  simp only [hw.mem_iff, mem_cons, mem_append]
  constructor
  · rintro ⟨ne, hf | ⟨o, rfl | hin, hsa, ran⟩⟩
    · exact .inl hf
    · exact absurd hsa.symm ne
    · exact .inr ⟨o, hin.imp_right .inr, hsa, ran⟩
  · rintro (hf | ⟨o, hq | new | hs, rfl, ran⟩)
    · exact ⟨fun hsa => hl (hsa ▸ hf), .inl hf⟩
    · exact ⟨ha o (mem_append_left _ hq), .inr ⟨o, .inr (.inl hq), rfl, ran⟩⟩
    · rw [(of_mem_skips new).1] at ran
      cases ran
    · exact ⟨ha o (mem_append_right _ hs), .inr ⟨o, .inr (.inr hs), rfl, ran⟩⟩

end

/-- The first signal of the stack is handled. -/
theorem Sound.handle (sound : Sound s out x) (top : stack x.lock = signal :: pending)
    (hl : (afterSignal s x signal phase).emitted = x.completed ++
      (x.state.skips s signal ++ pending)) : Sound s out (afterSignal s x signal phase) := by
  have ho := emitted_perm top
  have hf := (sound.alone ho).1
  have hs := signals_afterSignal top hl
  refine ⟨sound.places_afterSignal hf hs, fun i => ?_, fun i => ?_,
    fun i hin => ?_, fun o hin => ?_, fun o hin => ?_, sound.queued,
    sound.running_afterSignal ho hl, fun i => ?_, ?_⟩
  · rw [done, handled_afterSignal, map_append, map_singleton, ← done,
      outstanding_append (nodup_predecessors i) hf, ← sound.incoming]
    simp only [mem_predecessors]
    rfl
  · rw [metSystems_afterSignal]
    simp only [afterSignal, ExecutorState.after, ExecutorState.conditionsAfter,
      ExecutorState.notified]
    split
    · rw [outstanding_append (nodup_conditions i) fun met =>
        hf (metSystems_subset met), ← sound.conditions]
      simp only [mem_conditions]
    · rw [append_nil, ← sound.conditions]
      exact if_neg not_mem_nil
  · change ExecutorState.conditionsAfter s x.state signal i = 0
    rw [mem_append] at hin
    rcases hin with hr | hfl
    · rcases mem_append.mp hr with new | old
      · simpa using (mem_filter.mp (mem_reverse.mp new)).2
      · rw [sound.conditionsAfter_eq hf (places_pos_of_ready old)]
        exact sound.eligible i (mem_append_left _ old)
    · rw [sound.conditionsAfter_eq hf (places_pos_of_flying hfl)]
      exact sound.eligible i (mem_append_right _ hfl)
  · change _ ↔ conditionsAfter s x.state signal o.index ≠ 0
    rcases mem_append.mp (hs.mem_iff.mp hin) with new | old
    · obtain ⟨hsa, hw⟩ := of_mem_skips new
      exact iff_of_true (by rw [hsa]; rfl) hw
    · rw [sound.conditionsAfter_eq hf (places_pos_of_signal old)]
      exact sound.causes o old
  · rcases mem_append.mp (hs.mem_iff.mp hin) with new | old
    · rw [(of_mem_skips new).1]
      rfl
    · exact sound.reports o old
  · have hsi : (x.state.skips s signal).countP
        (fun o => o.index = i ∧ o.cause = .ran) = 0 := by
      refine countP_eq_zero.mpr fun o new => ?_
      rw [(of_mem_skips new).1]
      simp [skip]
    rw [hs.countP_eq, countP_append, hsi, Nat.zero_add]
    have hsa : (afterSignal s x signal phase).started = x.started := by
      simp [started, afterSignal, filterMap_append]
    rw [hsa]
    exact sound.starts i
  · refine sound.ordered.append fun ran => ?_
    have hin : signal ∈ x.signals := mem_append_left _ (ho.mem_iff.mpr mem_cons_self)
    exact mem_started.mp (sound.mem_started_of_ran hin ran)

/-! ## Every step -/

/-- What a step can do to an executor in order. -/
inductive Transition (schedule : SystemSchedule) (outcome : ℕ → Outcome)
    (executor : MultiThreadedExecutor) : ExecutorStep → MultiThreadedExecutor → Prop where
  | finish {index : ℕ} (member : index ∈ executor.flying) :
      Transition schedule outcome executor (.finish index) { executor with
        flying := executor.flying.erase index
        completed := executor.completed ++ [signalOf schedule outcome index]
        trying := executor.trying + 1 }
  | acquire (free : executor.lock = none) (wants : 0 < executor.trying) :
      Transition schedule outcome executor .acquire { executor with
        lock := some (.draining [])
        trying := executor.trying - 1 }
  | giveUp (held : executor.lock ≠ none) (wants : 0 < executor.trying) :
      Transition schedule outcome executor .giveUp { executor with trying := executor.trying - 1 }
  | check (asks : 0 < executor.checking) :
      Transition schedule outcome executor .check { executor with
        checking := executor.checking - 1
        trying := if executor.completed.isEmpty then executor.trying else executor.trying + 1 }
  | drain {signal : CompletedSignal} {pending : List CompletedSignal}
      (lock : executor.lock = some (.draining (signal :: pending))) :
      Transition schedule outcome executor .advance (afterSignal schedule executor signal
        (.draining (executor.state.skips schedule signal ++ pending)))
  | fetch {signal : CompletedSignal} {rest : List CompletedSignal}
      (lock : executor.lock = some (.draining [])) (queue : executor.completed = signal :: rest) :
      Transition schedule outcome executor .advance { executor with
        completed := rest
        lock := some (.draining [signal]) }
  | scan (lock : executor.lock = some (.draining [])) (queue : executor.completed = []) :
      Transition schedule outcome executor .advance { executor with
        lock := some (.spawning executor.state.readySystems.length) }
  | leave {left : ℕ} (lock : executor.lock = some (.spawning left))
      (nothing : left = 0 ∨ executor.state.readySystems = []) :
      Transition schedule outcome executor .advance executor.unlock
  | postpone {index left : ℕ} {rest : List ℕ} (lock : executor.lock = some (.spawning (left + 1)))
      (ready : executor.state.readySystems = index :: rest)
      (conflict : executor.isConflict schedule index = true) (queue : executor.completed = []) :
      Transition schedule outcome executor .advance { executor with
        state := { executor.state with readySystems := rest ++ [index] }
        lock := some (.spawning left) }
  | defer {index left : ℕ} {rest : List ℕ} (lock : executor.lock = some (.spawning (left + 1)))
      (ready : executor.state.readySystems = index :: rest)
      (conflict : executor.isConflict schedule index = true) (queue : executor.completed ≠ []) :
      Transition schedule outcome executor .advance { executor with
        state := { executor.state with readySystems := rest ++ [index] }
        lock := none
        checking := executor.checking + 1 }
  | spawn {index left : ℕ} {rest : List ℕ} (lock : executor.lock = some (.spawning (left + 1)))
      (ready : executor.state.readySystems = index :: rest)
      (free : executor.isConflict schedule index = false) :
      Transition schedule outcome executor .advance
        (executor.spawnSystemTask schedule index rest left)
  | settle {signal : CompletedSignal} {pending : List CompletedSignal} {saved : List ℕ} {left : ℕ}
      (lock : executor.lock = some (.resolving (signal :: pending) saved left)) :
      Transition schedule outcome executor .advance (afterSignal schedule executor signal
        (.resolving (executor.state.skips schedule signal ++ pending) saved left))
  | resolve {index position left : ℕ} {saved : List ℕ}
      (lock : executor.lock = some (.resolving [] (position :: saved) left))
      (found : executor.state.readySystems[position]? = some index) :
      Transition schedule outcome executor .advance { executor with
        state := { executor.state with
          readySystems := swapRemove executor.state.readySystems position }
        lock := some (.resolving [⟨index, false, true, .noOp⟩] saved left) }
  | resume {left : ℕ} (lock : executor.lock = some (.resolving [] [] left)) :
      Transition schedule outcome executor .advance { executor with lock := some (.spawning left) }

/-- Who has no predecessors is ready. -/
theorem sound_start : Sound s out (start s) := by
  refine ⟨fun i => ?_, fun i => ?_, fun i => ?_, fun i mem => ?_, ?_, ?_, ?_, ?_, ?_, justified_nil⟩
  · have hq : (start s).places i = ((range s.size).filter fun i => s.incoming i = 0).count i :=
      rfl
    rw [hq, (nodup_range.filter _).count]
    simp only [mem_filter, mem_range, decide_eq_true_eq]
    rfl
  · exact (outstanding_nil _).symm
  · exact (outstanding_nil _).symm
  · have hr : i ∈ (range s.size).filter
        fun i => s.incoming i = 0 := by simpa [start, reset] using mem
    have hf : s.incoming i = 0 := by simpa using (mem_filter.mp hr).2
    have hu : s.conditions i = [] := by
      refine eq_nil_iff_forall_not_mem.mpr fun src hc => ?_
      have pre := mem_predecessors_of_mem_conditions hc
      rw [length_eq_zero_iff.mp hf] at pre
      cases pre
    exact length_eq_zero_iff.mpr hu
  all_goals simp [start, signals, emitted, stack, handled, started, reset]

section

variable (sound : Sound s out x)

include sound

theorem Sound.advance_transition {next : MultiThreadedExecutor}
    (hs : x.advance s = some next) : Transition s out x .advance next := by
  unfold advance at hs
  split at hs
  · cases hs
  · next signal pending hl =>
    rw [sound.handle_eq (emitted_perm (by rw [hl, stack]))] at hs
    cases hs
    exact .drain hl
  · next hl =>
    split at hs
    · next signal rest hq =>
      cases hs
      exact .fetch hl hq
    · next hq =>
      cases hs
      exact .scan hl hq
  · next hl =>
    cases hs
    exact .leave hl (.inl rfl)
  · next left hl =>
    cases hs
    unfold trySpawn
    split
    · next hn => exact .leave hl (.inr hn)
    · next i rest hr =>
      split
      · next hc =>
        dsimp only
        split
        · next hq => exact .postpone hl hr hc (isEmpty_iff.mp hq)
        · next hq =>
          exact .defer hl hr hc fun hn => hq (by rw [hn]; rfl)
      · next hfr => exact .spawn hl hr (Bool.eq_false_iff.mpr hfr)
  · next signal pending sa left hl =>
    rw [sound.handle_eq (emitted_perm (by rw [hl, stack]))] at hs
    cases hs
    exact .settle hl
  · next pos sa left hl =>
    obtain ⟨i, hf, rfl⟩ := Option.map_eq_some_iff.mp hs
    exact .resolve hl hf
  · next left hl =>
    cases hs
    exact .resume hl

/-- Every step is one of these. -/
theorem Sound.transition {l : ExecutorStep} {next : MultiThreadedExecutor}
    (hs : step s out l x = some next) : Transition s out x l next := by
  cases l with
  | finish i =>
    obtain ⟨mem, hsa⟩ := Option.ite_none_right_eq_some.mp hs
    cases hsa
    exact .finish mem
  | acquire =>
    obtain ⟨⟨hf, hw⟩, hsa⟩ := Option.ite_none_right_eq_some.mp hs
    cases hsa
    exact .acquire hf hw
  | giveUp =>
    obtain ⟨⟨he, hw⟩, hsa⟩ := Option.ite_none_right_eq_some.mp hs
    cases hsa
    exact .giveUp he hw
  | advance => exact sound.advance_transition hs
  | check =>
    obtain ⟨ha, hsa⟩ := Option.ite_none_right_eq_some.mp hs
    cases hsa
    exact .check ha

/-- **The executor stays in order.** -/
theorem Sound.next {l : ExecutorStep} {next : MultiThreadedExecutor}
    (hm : Transition s out x l next) : Sound s out next := by
  cases hm with
  | finish mem => exact sound.finish mem
  | acquire hfr hw =>
    refine sound.relocate rfl rfl rfl ?_ fun _ mem => mem
    simp [emitted, stack, hfr]
  | giveUp he hw => exact sound.relocate rfl rfl rfl (List.Perm.refl _) fun _ mem => mem
  | check ha => exact sound.relocate rfl rfl rfl (List.Perm.refl _) fun _ mem => mem
  | drain hl => exact sound.handle (by rw [hl, stack]) rfl
  | fetch hl hq =>
    refine sound.relocate rfl rfl rfl ?_ fun _ mem => ?_
    · simp only [emitted, stack, hl, hq, append_nil]
      exact perm_append_comm
    · rw [hq]
      exact mem_cons_of_mem _ mem
  | scan hl hq =>
    refine sound.relocate rfl rfl rfl ?_ fun _ mem => mem
    simp [emitted, stack, hl]
  | leave hl hn =>
    refine sound.relocate rfl rfl rfl ?_ fun _ mem => mem
    simp [emitted, stack, unlock, hl]
  | postpone hl hr hc hq =>
    refine sound.reorder ?_ (by simp [emitted, stack, hl])
    rw [hr]
    exact perm_append_comm
  | defer hl hr hc hq =>
    refine sound.reorder ?_ (by simp [emitted, stack, hl])
    rw [hr]
    exact perm_append_comm
  | spawn hl hr hfr => exact sound.spawn hr (by simp [emitted, stack, hl])
  | settle hl => exact sound.handle (by rw [hl, stack]) rfl
  | resolve hl hf => exact sound.resolve hf (by simp [emitted, stack, hl])
  | resume hl =>
    refine sound.relocate rfl rfl rfl ?_ fun _ mem => mem
    simp [emitted, stack, hl]

end

end MultiThreadedExecutor

end Voker.Ecs
