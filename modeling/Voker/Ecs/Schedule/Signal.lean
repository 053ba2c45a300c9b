import Voker.Ecs.Schedule.Multi

/-!
# What handling a signal changes

The loops over the edges of a completed system are described in closed form: **each
dependent is counted down once, and those that waited for this system only become ready or
are skipped, by the conditions known at that moment** (`handleSignal_eq`, `count_freed`).
-/

namespace Voker.Ecs

open List Option Function

namespace ExecutorState

/-- The loop over the outgoing edges counts each of the counters down once, and sorts those
that reach zero into ready and skipped systems. -/
theorem release_eq {ci : ℕ → ℕ} {ta : List ℕ}
    (hd : ta.Nodup) {r : Released}
    (pos : ∀ t ∈ ta, 0 < r.incoming t) :
    release ci ta r = some
      { incoming := fun i => if i ∈ ta then r.incoming i - 1
          else r.incoming i
        ready := ((ta.filter fun t => r.incoming t = 1).filter
          fun t => ci t = 0).reverse ++ r.ready
        pending := (((ta.filter fun t => r.incoming t = 1).filter
          fun t => ci t ≠ 0).map skip).reverse ++ r.pending } := by
  induction ta generalizing r with
  | nil => simp [release]
  | cons t rest ih =>
    obtain ⟨ha, ho⟩ := nodup_cons.mp hd
    have he : ∀ o ∈ rest, o ≠ t := fun o mem hs =>
      ha (hs ▸ mem)
    have now := pos t mem_cons_self
    have hla : ∀ o ∈ rest,
        update r.incoming t (r.incoming t - 1) o =
          r.incoming o := fun o mem =>
      update_of_ne (he o mem) _ _
    have hp : ∀ o ∈ rest, 0 <
        update r.incoming t (r.incoming t - 1) o := by
      intro o mem
      rw [hla o mem]
      exact pos o (mem_cons_of_mem _ mem)
    have hc : (fun i => if i ∈ rest then
          update r.incoming t (r.incoming t - 1) i - 1
        else update r.incoming t (r.incoming t - 1) i) =
        fun i => if i ∈ t :: rest then r.incoming i - 1
          else r.incoming i := by
      funext i
      by_cases hs : i = t
      · subst hs
        simp [ha]
      · simp [hs]
    have hf : (rest.filter fun o => decide
          (update r.incoming t (r.incoming t - 1) o = 1)) =
        rest.filter fun o => decide (r.incoming o = 1) :=
      filter_congr fun o mem => by rw [hla o mem]
    rw [release, if_neg now.ne']
    simp only [update_self]
    by_cases hl : r.incoming t = 1
    · rw [if_pos (by omega)]
      split
      · next met =>
        rw [ih ho hp]
        simp only [hc, hf]
        simp [hl, met]
      · next hu =>
        rw [ih ho hp]
        simp only [hc, hf]
        simp [hl, hu]
    · rw [if_neg (by omega), ih ho hp]
      simp only [hc, hf]
      simp [hl]

/-- The systems that are told that a condition is met. -/
def notified (schedule : SystemSchedule) (signal : CompletedSignal) : List ℕ :=
  if signal.meetCondition then schedule.conditionOutgoing signal.index else []

variable {s : SystemSchedule} {signal : CompletedSignal} {state : ExecutorState}

theorem mem_outgoing_of_notified {t : ℕ} (mem : t ∈ notified s signal) :
    t ∈ s.outgoing signal.index := by
  unfold notified at mem
  split at mem
  · exact s.conditionSubset mem
  · cases mem

section

variable (schedule : SystemSchedule) (state : ExecutorState) (signal : CompletedSignal)

/-- The counters of conditions after a signal. -/
def conditionsAfter (index : ℕ) : ℕ :=
  if index ∈ notified schedule signal then state.conditionIncoming index - 1
  else state.conditionIncoming index

/-- The dependents that waited for this signal only. -/
def freed : List ℕ :=
  (schedule.outgoing signal.index).filter fun target => state.incoming target = 1

/-- The dependents that become ready. -/
def unblocked : List ℕ :=
  ((freed schedule state signal).filter
    fun target => conditionsAfter schedule state signal target = 0).reverse

/-- The signals of the dependents that are skipped. -/
def skips : List CompletedSignal :=
  (((freed schedule state signal).filter
    fun target => conditionsAfter schedule state signal target ≠ 0).map skip).reverse

/-- The state after a signal. -/
def after : ExecutorState where
  incoming index := if index ∈ schedule.outgoing signal.index then state.incoming index - 1
    else state.incoming index
  conditionIncoming := conditionsAfter schedule state signal
  readySystems := unblocked schedule state signal ++ state.readySystems
  runningSystems := state.runningSystems.erase signal.index
  deferredSystems := if signal.deferred then state.deferredSystems ++ [signal.index]
    else state.deferredSystems

end

theorem handleSignal_eq (pos : ∀ t ∈ s.outgoing signal.index, 0 < state.incoming t)
    (hg : ∀ t ∈ notified s signal, 0 < state.conditionIncoming t)
    (p : List CompletedSignal) : state.handleSignal s signal p =
      some (after s state signal, skips s state signal ++ p) := by
  have r : (release (conditionsAfter s state signal)
      (s.outgoing signal.index) ⟨state.incoming, state.readySystems, p⟩).map
        (fun r => (({ after s state signal with
          incoming := r.incoming
          readySystems := r.ready } : ExecutorState), r.pending)) =
      some (after s state signal, skips s state signal ++ p) := by
    rw [release_eq (s.outgoingNodup signal.index) pos]
    rfl
  rw [← r, map_eq_bind, handleSignal]
  by_cases met : signal.meetCondition = true
  · have hc : decrement state.conditionIncoming (s.conditionOutgoing signal.index) =
        some (conditionsAfter s state signal) := by
      rw [notified, if_pos met] at hg
      rw [decrement_eq (s.conditionNodup signal.index) hg]
      congr 1
      funext i
      rw [conditionsAfter, notified, if_pos met]
    rw [if_pos met, hc]
    rfl
  · have hs : conditionsAfter s state signal = state.conditionIncoming := by
      funext i
      simp [conditionsAfter, notified, met]
    rw [if_neg met, ← hs]
    rfl

/-- Who waited for one more is freed: it becomes ready, or is skipped. -/
theorem count_freed {s : SystemSchedule} {state : ExecutorState}
    {signal : CompletedSignal} (i : ℕ) : (unblocked s state signal).count i +
        (skips s state signal).countP (·.index = i) =
      if i ∈ s.outgoing signal.index ∧ state.incoming i = 1 then 1 else 0 := by
  have hn : (fun t => decide ((skip t).index = i)) = (· == i) := by
    funext t
    exact (beq_eq_decide t i).symm
  have hs : (unblocked s state signal).count i + (skips s state signal).countP (·.index = i) =
        (freed s state signal).count i := by
    rw [unblocked, skips, count_reverse, countP_reverse, countP_map, comp_def, hn]
    simpa [List.count] using (countP_eq_countP_filter_add (freed s state signal)
      (· == i) fun t => conditionsAfter s state signal t = 0).symm
  rw [hs, freed, ((s.outgoingNodup signal.index).filter _).count]
  simp

theorem of_mem_skips {o : CompletedSignal} (mem : o ∈ skips s state signal) :
    o = skip o.index ∧ conditionsAfter s state signal o.index ≠ 0 := by
  obtain ⟨t, hin, rfl⟩ := List.mem_map.mp (mem_reverse.mp mem)
  exact ⟨rfl, of_decide_eq_true (mem_filter.mp hin).2⟩

end ExecutorState

end Voker.Ecs
