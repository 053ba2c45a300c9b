import Voker.Ecs.Observer.Registry

/-!
# Running the observers of a trigger

A trigger calls the runners of the observers it finds in the caches, and may find an
observer several times.  To run it once only, the world counts its triggers, and every
observer remembers the count at its last run: a runner does nothing if the two agree.

An observer may itself dispatch triggers while it runs, which advances the count.  Then
the agreement says no longer what it should: an observer may **run again in the outer
trigger**, or **be passed over because an inner one ran it**.
-/

namespace Voker.Ecs

open List Function

/-- The count of triggers and the count at the last run of each observer. -/
structure TriggerState where
  lastTrigger : BitVec 32
  stamps : ObserverId → BitVec 32

namespace TriggerState

/-- A new trigger begins. -/
def next (state : TriggerState) : TriggerState :=
  { state with lastTrigger := state.lastTrigger + 1 }

/-- An observer notes the trigger it runs in. -/
def stamp (state : TriggerState) (id : ObserverId) : TriggerState :=
  { state with stamps := update state.stamps id state.lastTrigger }

end TriggerState

mutual

/-- What an observer does when it runs, as far as other observers are concerned: it
dispatches triggers, one after the other. -/
inductive Reaction where
  | nothing
  | trigger (calls : Calls) (rest : Reaction)

/-- The calls of a trigger: the observer, and its reaction if it runs. -/
inductive Calls where
  | nil
  | cons (id : ObserverId) (reaction : Reaction) (rest : Calls)

end

/-- The observers called. -/
def Calls.ids : Calls → List ObserverId
  | .nil => []
  | .cons id _ rest => id :: rest.ids

mutual

/-- React: dispatch the triggers of a reaction. -/
def Reaction.perform : Reaction → TriggerState → TriggerState
  | .nothing, state => state
  | .trigger calls rest, state => rest.perform (calls.dispatch state.next).1

/-- Call the runners (`observer_system_runner`) one after the other.  Returns the observers
that ran. -/
def Calls.dispatch : Calls → TriggerState → TriggerState × List ObserverId
  | .nil, state => (state, [])
  | .cons id reaction rest, state =>
    if state.stamps id = state.lastTrigger then rest.dispatch state
    else
      let (final, ran) := rest.dispatch (reaction.perform (state.stamp id))
      (final, id :: ran)

end

/-- The observers that run for a trigger. -/
def Calls.ranBy (calls : Calls) (state : TriggerState) : List ObserverId :=
  (calls.dispatch state.next).2

/-- Every observer called runs once. -/
def Calls.ExactlyOnce (calls : Calls) (state : TriggerState) : Prop :=
  ∀ id ∈ calls.ids, (calls.ranBy state).count id = 1

/-- The observers called dispatch no triggers themselves. -/
def Calls.Quiet : Calls → Prop
  | .nil => True
  | .cons _ reaction rest => reaction = .nothing ∧ rest.Quiet

/-- The quiet calls of some observers. -/
def Calls.quiet : List ObserverId → Calls
  | [] => .nil
  | id :: ids => .cons id .nothing (quiet ids)

namespace Calls

theorem ids_quiet (ids : List ObserverId) : (quiet ids).ids = ids := by
  induction ids with
  | nil => rfl
  | cons id ids ih => rw [quiet, Calls.ids, ih]

theorem quiet_quiet (ids : List ObserverId) : (quiet ids).Quiet := by
  induction ids with
  | nil => trivial
  | cons id ids ih => exact ⟨rfl, ih⟩

variable {calls : Calls} {state : TriggerState}

/-- **Without inner triggers an observer runs once, or not at all if its stamp happens to
be the current count.** -/
theorem count_dispatch_of_quiet (hsi : calls.Quiet) (state : TriggerState) (id : ObserverId) :
    (calls.dispatch state).2.count id =
      if id ∈ calls.ids ∧ state.stamps id ≠ state.lastTrigger then 1 else 0 := by
  induction calls using Calls.ids.induct generalizing state with
  | case1 => simp [dispatch, ids]
  | case2 one r rest ih =>
    obtain ⟨rfl, hq⟩ := hsi
    rw [dispatch, Reaction.perform]
    by_cases hs : state.stamps one = state.lastTrigger
    · rw [if_pos hs, ih hq state, Calls.ids]
      refine if_congr ⟨fun hb => ⟨mem_cons_of_mem _ hb.1, hb.2⟩, ?_⟩ rfl rfl
      rintro ⟨mem, ne⟩
      refine ⟨(mem_cons.mp mem).resolve_left ?_, ne⟩
      rintro rfl
      exact ne hs
    · rw [if_neg hs]
      rw [count_cons, ih hq, Calls.ids]
      -- the stamp set here keeps the observer from running again
      by_cases hsa : id = one
      · subst hsa
        simp [TriggerState.stamp, hs]
      · simp [TriggerState.stamp, hsa, Ne.symm hsa]

theorem exactlyOnce_iff_of_quiet (hs : calls.Quiet) (state : TriggerState) :
    calls.ExactlyOnce state ↔ ∀ id ∈ calls.ids, state.stamps id ≠ state.lastTrigger + 1 := by
  refine forall_congr' fun id => forall_congr' fun mem => ?_
  rw [ranBy, count_dispatch_of_quiet hs]
  simp [mem, TriggerState.next]

/-! ## Inner triggers -/

/-- Two observers are called, and the first dispatches a trigger: one nobody listens to if
the second is the same observer, and else one that calls the second. -/
def interfering (first second : ObserverId) (rest : List ObserverId) : Calls :=
  .cons first (.trigger (if first = second then .nil else quiet [second]) .nothing)
    (quiet (second :: rest))

theorem ids_interfering (one two : ObserverId) (rest : List ObserverId) :
    (interfering one two rest).ids = one :: two :: rest := by
  rw [interfering, Calls.ids, ids_quiet]

/-- After a quiet call an observer has the stamp of the current trigger. -/
theorem stamps_dispatch_single (id : ObserverId) (state : TriggerState) :
    ((quiet [id]).dispatch state).1.stamps id = state.lastTrigger ∧
      ((quiet [id]).dispatch state).1.lastTrigger = state.lastTrigger := by
  simp only [quiet, dispatch, Reaction.perform]
  split
  · next hs => exact ⟨hs, rfl⟩
  · exact ⟨update_self .., rfl⟩

/-- A reaction of the first observer can make the second call go wrong: an observer that is
called again runs again, and another one is passed over. -/
theorem not_exactlyOnce_interfering {one : ObserverId}
    (hr : state.stamps one ≠ state.lastTrigger + 1) (two : ObserverId)
    (rest : List ObserverId) : ¬ (interfering one two rest).ExactlyOnce state := by
  intro ho
  have hs := ho two (by rw [ids_interfering]; simp)
  rw [ranBy, interfering, dispatch, if_neg (by exact hr)] at hs
  rw [count_cons, count_dispatch_of_quiet (quiet_quiet _), ids_quiet] at hs
  by_cases hsa : one = two
  · subst hsa
    simp [Reaction.perform, dispatch, TriggerState.next, TriggerState.stamp] at hs
  · obtain ⟨hst, hc⟩ := stamps_dispatch_single two (state.next.stamp one).next
    simp only [Reaction.perform, hst, hc, ne_eq, not_true_eq_false, and_false, if_false,
      Nat.zero_add, beq_iff_eq, hsa] at hs
    cases hs

/-- A single call runs its observer, whatever the observer does. -/
theorem exactlyOnce_of_single (few : calls.ids.length ≤ 1)
    (hr : ∀ id ∈ calls.ids, state.stamps id ≠ state.lastTrigger + 1) :
    calls.ExactlyOnce state := by
  cases calls with
  | nil => exact fun id mem => absurd mem not_mem_nil
  | cons one r rest =>
    cases rest with
    | nil =>
      intro id mem
      obtain rfl := mem_singleton.mp mem
      rw [ranBy, dispatch, if_neg (by exact hr id mem)]
      simp [dispatch]
    | cons two o rest => exact absurd few (by simp [Calls.ids])

/-- **When every observer of an entity-components trigger runs exactly once.**  If no
observer it runs dispatches a trigger: exactly if no observer's stamp is the new count.
Whatever the observers do: exactly if, besides, there is at most one call. -/
theorem exactlyOnce_iff (cached : CachedObservers) (entity : Entity)
    (components : List ComponentId) (state : TriggerState) :
    ((∀ calls : Calls, calls.ids = cached.entityComponentsTriggerCalls entity components →
        calls.Quiet → calls.ExactlyOnce state) ↔
      ∀ id ∈ cached.entityComponentsTriggerCalls entity components,
        state.stamps id ≠ state.lastTrigger + 1) ∧
    ((∀ calls : Calls, calls.ids = cached.entityComponentsTriggerCalls entity components →
        calls.ExactlyOnce state) ↔ (∀ id ∈ cached.entityComponentsTriggerCalls entity components,
        state.stamps id ≠ state.lastTrigger + 1) ∧
        (cached.entityComponentsTriggerCalls entity components).length ≤ 1) := by
  generalize cached.entityComponentsTriggerCalls entity components = ids
  have hs : (∀ calls : Calls, calls.ids = ids → calls.Quiet → calls.ExactlyOnce state) ↔
      ∀ id ∈ ids, state.stamps id ≠ state.lastTrigger + 1 := by
    constructor
    · intro ho
      have hon := ho (quiet ids) (ids_quiet ids) (quiet_quiet ids)
      rw [exactlyOnce_iff_of_quiet (quiet_quiet ids), ids_quiet] at hon
      exact hon
    · rintro hf calls rfl hq
      exact (exactlyOnce_iff_of_quiet hq state).mpr hf
  refine ⟨hs, ?_⟩
  constructor
  · intro ho
    have hf := hs.mp fun calls hsa _ => ho calls hsa
    refine ⟨hf, ?_⟩
    match ids, ho, hf with
    | [], _, _ => exact Nat.zero_le 1
    | [_], _, _ => exact Nat.le_refl 1
    | f :: s :: rest, ho, hf =>
      exact absurd (ho _ (ids_interfering f s rest))
        (not_exactlyOnce_interfering (hf f (mem_cons_self ..)) s rest)
  · rintro ⟨hf, few⟩ calls rfl
    exact exactlyOnce_of_single few hf

/-- An observer of two components, called for both, modifies a third component in between:
it runs twice. -/
theorem nested_trigger_runs_twice :
    ∃ (cached : CachedObservers) (state : TriggerState) (calls : Calls),
      calls.ids = cached.entityComponentsTriggerCalls ⟨⟨1⟩, .first⟩ [0, 1] ∧
        state.stamps 0 ≠ state.lastTrigger + 1 ∧ calls.ranBy state = [0, 0] ∧
        ¬ calls.ExactlyOnce state := by
  have ht : (Calls.cons 0 (.trigger .nil .nothing) (.cons 0 .nothing .nil)).ranBy
      ⟨0, fun _ => 0⟩ = [0, 0] := by decide
  refine ⟨(CachedObservers.new.insert (.component 0) 0).insert (.component 1) 0, ⟨0, fun _ => 0⟩,
    .cons 0 (.trigger .nil .nothing) (.cons 0 .nothing .nil), by decide, by decide, ht,
    fun ho => ?_⟩
  have hs := ho 0 (mem_cons_self ..)
  exact absurd hs (by decide)

end Calls

end Voker.Ecs
