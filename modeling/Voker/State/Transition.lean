import Voker.State.Basic
import Mathlib.Order.Nat

/-!
# What one run of the transition schedule does to a state

The apply system of a state either leaves the state alone or writes **one signal that tells
the change**; the cursors of the readers never pass the end of the signals, so the systems of
the later phases find exactly that signal.  Two results follow for every run:

* the schedules run as exit, transition, enter, **unless the registration has put `run_exit`
  and `run_enter` into each other's place**;
* a sub-state follows the table in the source, **unless its sources do not call for it** and
  there is a request or a value to keep.
-/

namespace Voker.State

open List Option Function StateWorld

variable {σ V : Type}

/-! ## Applying one state -/

/-- Nothing happened to a state, or it was set and a signal tells from what to what. -/
structure Transits (before after : StateData V) : Prop where
  detected : after.detected = before.detected
  handled : after.handled = before.handled
  signals : after.signals = before.signals ∧ after.state = before.state ∨
    ∃ allowSame, after.signals = before.signals ++ [⟨before.state, after.state, allowSame⟩]

variable {pre post : StateData V}

theorem Transits.length_le (ht : Transits pre post) :
    pre.signals.length ≤ post.signals.length := by
  rcases ht.signals with ⟨hs, -⟩ | ⟨allowSame, hm⟩
  · exact (congrArg length hs).ge
  · rw [hm, length_append]
    exact Nat.le_add_right _ _

@[simp]
theorem StateData.state_internalApply (data : StateData V) (newState : Option V)
    (allowSame : Bool) : (data.internalApply newState allowSame).state = newState := by
  unfold internalApply
  cases newState <;> cases hf : data.state <;> simp [hf]

theorem transits_internalApply (data : StateData V) (next : NextState V) (newState : Option V)
    (allowSame : Bool) :
    Transits data
      (({ data with next := next } : StateData V).internalApply newState allowSame) := by
  unfold StateData.internalApply
  cases newState <;> cases hf : data.state <;> exact ⟨rfl, rfl, by simp [hf]⟩

theorem transits_apply (w : StateWorld σ V) (state : σ) (kind : StateKind σ V) :
    Transits (w.data state) (kind.apply w state).1 := by
  have hs : Transits (w.data state) (w.data state) := ⟨rfl, rfl, .inl ⟨rfl, rfl⟩⟩
  cases kind with
  | manual =>
    change Transits _ (applyManual w state).1
    unfold applyManual
    dsimp only
    split
    · exact hs
    · exact transits_internalApply _ _ _ _
  | derived sources derive allowSame =>
    change Transits _ (applyDerived w state sources derive allowSame).1
    unfold applyDerived
    split
    · exact hs
    · exact transits_internalApply _ (w.data state).next _ _
  | sub sources shouldExist =>
    change Transits _ (applySub w state sources shouldExist).1
    unfold applySub
    dsimp only
    split
    · exact hs
    · exact transits_internalApply _ _ _ _

/-! ## The apply phase -/

section Apply

variable [DecidableEq σ] {kinds : σ → StateKind σ V} {w : StateWorld σ V}

theorem data_apply (state other : σ) : (w.apply kinds state).data other =
      if other = state then ((kinds state).apply w state).1 else w.data other :=
  update_apply ..

theorem cursor_apply (state other : σ) : (w.apply kinds state).cursor other =
      if other = state then ((kinds state).apply w state).2 else w.cursor other :=
  update_apply ..

/-- A state whose system has not run is as before. -/
theorem foldl_apply_of_notMem {order : List σ} {other : σ} (ha : other ∉ order) :
    (order.foldl (apply kinds) w).data other = w.data other ∧
      (order.foldl (apply kinds) w).cursor other = w.cursor other := by
  induction order generalizing w with
  | nil => exact ⟨rfl, rfl⟩
  | cons state rest ih =>
    rw [mem_cons, not_or] at ha
    rw [foldl_cons, (ih ha.2).1, (ih ha.2).2, data_apply, cursor_apply, if_neg ha.1, if_neg ha.1]
    exact ⟨rfl, rfl⟩

/-- The sources of a state run before it. -/
theorem RunOrder.source_mem {order : RunOrder kinds} {earlier later : List σ} {state : σ}
    (hs : order.states = earlier ++ state :: later) {item : StateSetItem σ}
    (src : item ∈ (kinds state).items) : item.rawState ∈ earlier := by
  have one := order.sourcesFirst state item src
  have hn := order.nodup
  rw [hs] at one hn
  have hu : state ∉ earlier := fun mem => (nodup_append.mp hn).2.2 _ mem _ mem_cons_self rfl
  by_contra ha
  rw [idxOf_append_of_notMem ha, idxOf_append_of_notMem hu, idxOf_cons_self] at one
  exact absurd one (by omega)

/-- **The moment a state is applied**: its own data is still as at the start, its sources
are already as at the end. -/
theorem exists_moment (order : RunOrder kinds) (state : σ) :
    ∃ moment : StateWorld σ V, moment.data state = w.data state ∧
      moment.cursor state = w.cursor state ∧ (order.states.foldl (apply kinds) w).data state =
        ((kinds state).apply moment state).1 ∧ (order.states.foldl (apply kinds) w).cursor state =
        ((kinds state).apply moment state).2 ∧
      ∀ item ∈ (kinds state).items, moment.data item.rawState =
        (order.states.foldl (apply kinds) w).data item.rawState := by
  obtain ⟨earlier, later, hs⟩ := append_of_mem (order.complete state)
  have hn := order.nodup
  rw [hs] at hn
  obtain ⟨-, hnl, hap⟩ := nodup_append.mp hn
  have hu : state ∉ earlier := fun mem => hap _ mem _ mem_cons_self rfl
  have pre := @foldl_apply_of_notMem σ V _ kinds w earlier state hu
  have post := @foldl_apply_of_notMem σ V _ kinds
    ((earlier.foldl (apply kinds) w).apply kinds state) later state (nodup_cons.mp hnl).1
  refine ⟨earlier.foldl (apply kinds) w, pre.1, pre.2, ?_, ?_, ?_⟩
  · rw [hs, foldl_append, foldl_cons, post.1, data_apply, if_pos rfl]
  · rw [hs, foldl_append, foldl_cons, post.2, cursor_apply, if_pos rfl]
  · intro item src
    have mem := RunOrder.source_mem hs src
    have ha : item.rawState ∉ state :: later := fun hag => hap _ mem _ hag rfl
    rw [hs, foldl_append, (foldl_apply_of_notMem ha).1]

theorem transits_foldl (order : RunOrder kinds) (state : σ) : Transits (w.data state)
      ((order.states.foldl (apply kinds) w).data state) := by
  obtain ⟨moment, hs, -, ha, -, -⟩ := @exists_moment σ V _ kinds w order state
  rw [ha, ← hs]
  exact transits_apply moment state (kinds state)

end Apply

/-! ## The later phases -/

section Phases

variable [DecidableEq V] {kind : StateKind σ V} {state : σ} {data : StateData V}

@[simp]
theorem state_runPhase (phase : Phase) : (kind.runPhase state phase data).1.state = data.state := by
  unfold StateKind.runPhase
  split <;> rfl

@[simp]
theorem signals_runPhase (phase : Phase) :
    (kind.runPhase state phase data).1.signals = data.signals := by
  unfold StateKind.runPhase
  split <;> rfl

variable {phase : Phase} {signal : StateTransitionSignal V}

/-- A phase leaves the cursors of the other phases alone. -/
theorem cursors_runPhase {other : Phase} (ne : other ≠ phase) :
    (kind.runPhase state phase data).1.detected other = data.detected other ∧
      (kind.runPhase state phase data).1.handled other = data.handled other := by
  unfold StateKind.runPhase
  split <;> simp [ne]

/-- The readers of a phase have not read beyond the end. -/
def StateData.Bounded (data : StateData V) : Prop :=
  ∀ phase, data.detected phase ≤ data.signals.length ∧ data.handled phase ≤ data.signals.length

theorem StateData.Bounded.runPhase (hb : data.Bounded) (phase : Phase) :
    (kind.runPhase state phase data).1.Bounded := by
  intro other
  rw [signals_runPhase]
  by_cases hs : other = phase
  · subst hs
    unfold StateKind.runPhase
    split
    · simp
    · simpa using (hb other).2
  · rw [(cursors_runPhase hs).1, (cursors_runPhase hs).2]
    exact hb other

omit [DecidableEq V] in
theorem StateData.Bounded.transits {post : StateData V} (hb : data.Bounded)
    (ht : Transits data post) : post.Bounded := by
  intro phase
  rw [ht.detected, ht.handled]
  exact ⟨(hb phase).1.trans ht.length_le, (hb phase).2.trans ht.length_le⟩

/-- A phase that finds a new signal passes it to its hook. -/
theorem events_runPhase {older : List (StateTransitionSignal V)}
    (hw : data.signals = older ++ [signal]) (hd : data.detected phase ≤ older.length)
    (ha : data.handled phase ≤ older.length) :
    (kind.runPhase state phase data).2 = kind.hook state signal phase := by
  unfold StateKind.runPhase
  have hf : data.detected phase < data.signals.length := by
    rw [hw, length_append, length_singleton]
    omega
  rw [if_pos hf, hw, drop_append_of_le_length ha]
  simp

theorem state_of_mem_hook {event : StateEvent σ V} (mem : event ∈ kind.hook state signal phase) :
    event.state = state := by
  unfold StateKind.hook runExit runEnter runTransition at mem
  cases phase <;> aesop

end Phases

/-! ## A manual state and one that depends on it -/

/-- A manual state `false` and a state `true` of any kind. -/
def duo (kind : StateKind Bool Bool) : Bool → StateKind Bool Bool
  | false => .manual
  | true => kind

/-- A frame of the two: first the manual state. -/
def duoFrame {kind : StateKind Bool Bool} (onFirst : ∀ item ∈ kind.items, item.rawState = false)
    (requests : Bool → Option (NextState Bool)) : Frame (duo kind) :=
  let order : RunOrder (duo kind) :=
    { states := [false, true]
      nodup := by decide
      complete := by decide
      sourcesFirst := by
        intro state item source
        cases state with
        | false => exact absurd source not_mem_nil
        | true =>
          rw [onFirst item source]
          decide }
  ⟨requests, order, fun _ => order⟩

/-- The value of the manual state. -/
def copied : List (Option Bool) → Option Bool := fun sources => sources.head?.join

/-! ## Whole runs -/

section Runs

variable [DecidableEq σ] [DecidableEq V] {kinds : σ → StateKind σ V} {world : StateWorld σ V}

/-- The world after the apply phase of a frame. -/
def StateWorld.applied (world : StateWorld σ V) (frame : Frame kinds) : StateWorld σ V :=
  frame.applyOrder.states.foldl (StateWorld.apply kinds) (world.request frame.requests)

/-- The later phases change neither values nor signals nor the cursors of apply systems. -/
theorem stateTransition_eq (frame : Frame kinds) (state : σ) :
    ((world.stateTransition frame).1.data state).state = ((world.applied frame).data state).state ∧
      ((world.stateTransition frame).1.data state).signals =
        ((world.applied frame).data state).signals ∧
      (world.stateTransition frame).1.cursor = (world.applied frame).cursor := by
  refine ⟨?_, ?_, rfl⟩
  · simp only [StateWorld.stateTransition, StateWorld.runPhase, state_runPhase]
    rfl
  · simp only [stateTransition, runPhase, signals_runPhase]
    rfl

theorem bounded_stateTransition (hb : ∀ state, (world.data state).Bounded)
    (frame : Frame kinds) (state : σ) : ((world.stateTransition frame).1.data state).Bounded := by
  have hr : ((world.request frame.requests).data state).Bounded := hb state
  exact (((hr.transits (transits_foldl frame.applyOrder state)).runPhase _).runPhase
    _).runPhase _

/-- In every world that frames lead to, no reader has read beyond the end. -/
theorem bounded_play (initial : σ → V) (frames : List (Frame kinds)) :
    ∀ state, ((play kinds initial frames).data state).Bounded := by
  unfold play
  have hs : ∀ state, ((registered kinds initial).data state).Bounded :=
    fun _ _ => ⟨Nat.zero_le _, Nat.zero_le _⟩
  generalize registered kinds initial = world at hs
  induction frames generalizing world with
  | nil => exact hs
  | cons frame rest ih => exact ih _ (bounded_stateTransition hs frame)

/-! ## The order of the schedules -/

/-- The schedules of one state among those that ran. -/
def eventsOf (state : σ) (events : List (StateEvent σ V)) : List (StateEvent σ V) :=
  events.filter fun event => event.state = state

variable {state : σ} {sources : StateSet σ}

omit [DecidableEq V] in
theorem eventsOf_flatMap {order : List σ} (hn : order.Nodup) (mem : state ∈ order)
    {events : σ → List (StateEvent σ V)}
    (own : ∀ other, ∀ event ∈ events other, event.state = other) :
    eventsOf state (order.flatMap events) = events state := by
  have he : ∀ other, (events other).filter (fun event => event.state = state) =
      if other = state then events other else [] := by
    intro other
    split
    · next hs =>
      refine filter_eq_self.mpr fun event hin => ?_
      rw [own other event hin]
      exact decide_eq_true hs
    · next ne =>
      refine filter_eq_nil_iff.mpr fun event hin => ?_
      rw [own other event hin, decide_eq_true_iff]
      exact ne
  unfold eventsOf
  rw [filter_flatMap]
  simp only [he]
  induction order with
  | nil => exact absurd mem not_mem_nil
  | cons other rest ih =>
    obtain ⟨hf, hnr⟩ := nodup_cons.mp hn
    rw [flatMap_cons]
    rcases mem_cons.mp mem with rfl | hl
    · rw [if_pos rfl, flatMap_eq_nil_iff.mpr, append_nil]
      intro other hin
      exact if_neg (ne_of_mem_of_not_mem hin hf)
    · rw [if_neg (ne_of_mem_of_not_mem hl hf).symm, ih hnr hl]
      rfl

omit [DecidableEq σ] in
theorem state_of_mem_runPhase {kind : StateKind σ V} {phase : Phase} {data : StateData V}
    {event : StateEvent σ V} (mem : event ∈ (kind.runPhase state phase data).2) :
    event.state = state := by
  unfold StateKind.runPhase at mem
  split at mem
  · split at mem
    · exact state_of_mem_hook mem
    · exact absurd mem not_mem_nil
  · exact absurd mem not_mem_nil

/-- What a run does for one state is what its own systems do, phase by phase. -/
theorem eventsOf_stateTransition (frame : Frame kinds) (state : σ) {signal}
    {older : List (StateTransitionSignal V)}
    (hw : ((world.applied frame).data state).signals = older ++ [signal])
    (hr : ∀ phase, ((world.applied frame).data state).detected phase ≤ older.length ∧
      ((world.applied frame).data state).handled phase ≤ older.length) :
    eventsOf state (world.stateTransition frame).2 =
      (kinds state).hook state signal .exit ++ (kinds state).hook state signal .transition ++
        (kinds state).hook state signal .enter := by
  have hs : eventsOf state (world.stateTransition frame).2 =
      ((kinds state).runPhase state .exit ((world.applied frame).data state)).2 ++
        ((kinds state).runPhase state .transition ((kinds state).runPhase state .exit
          ((world.applied frame).data state)).1).2 ++
        ((kinds state).runPhase state .enter ((kinds state).runPhase state .transition
          ((kinds state).runPhase state .exit ((world.applied frame).data state)).1).1).2 := by
    unfold StateWorld.stateTransition StateWorld.runPhase
    rw [eventsOf, filter_append, filter_append]
    refine congrArg₂ _ (congrArg₂ _ ?_ ?_) ?_
    · exact eventsOf_flatMap (frame.phaseOrder .exit).nodup
        ((frame.phaseOrder .exit).complete state) fun _ _ mem => state_of_mem_runPhase mem
    · exact eventsOf_flatMap (frame.phaseOrder .transition).nodup
        ((frame.phaseOrder .transition).complete state) fun _ _ mem => state_of_mem_runPhase mem
    · exact eventsOf_flatMap (frame.phaseOrder .enter).nodup
        ((frame.phaseOrder .enter).complete state) fun _ _ mem => state_of_mem_runPhase mem
  have hex := hr .exit
  have ht := hr .transition
  have he := hr .enter
  rw [hs, events_runPhase hw hex.1 hex.2,
    events_runPhase (by rw [signals_runPhase, hw])
      (by rw [(cursors_runPhase (by decide)).1]; exact ht.1)
      (by rw [(cursors_runPhase (by decide)).2]; exact ht.2),
    events_runPhase (by rw [signals_runPhase, signals_runPhase, hw])
      (by rw [(cursors_runPhase (by decide)).1, (cursors_runPhase (by decide)).1]; exact he.1)
      (by rw [(cursors_runPhase (by decide)).2, (cursors_runPhase (by decide)).2]; exact he.2)]

/-- The schedules a transition should run, in order: exit, transition, enter. -/
def expectedEvents (state : σ) (exited entered : Option V) : List (StateEvent σ V) :=
  (exited.map (.onExit state)).toList ++
    (match exited, entered with
      | some exited, some entered => [.onTransition state exited entered]
      | _, _ => []) ++
    (entered.map (.onEnter state)).toList

/-- **The schedules of a transition run once and in order exactly if the registration has
`run_exit` and `run_enter` in their place**, or the state appears or disappears: then one of
the two has nothing to do. -/
theorem transition_events_iff (initial : σ → V) (frames : List (Frame kinds))
    (frame : Frame kinds) (state : σ) {before after : Option V}
    (was : ((play kinds initial frames).data state).state = before)
    (becomes : (((play kinds initial frames).stateTransition frame).1.data state).state = after)
    (changes : before ≠ after) :
    eventsOf state ((StateWorld.play kinds initial frames).stateTransition frame).2 =
        expectedEvents state before after ↔
      (kinds state).inPlace = true ∨ before = none ∨ after = none := by
  have hb := bounded_play initial frames state
  generalize play kinds initial frames = world at *
  rw [(stateTransition_eq frame state).1] at becomes
  have ht : Transits ((world.request frame.requests).data state)
      ((world.applied frame).data state) := transits_foldl frame.applyOrder state
  have hst : ((world.request frame.requests).data state).state = before := was
  have hs := ht.signals
  rw [hst, becomes] at hs
  obtain ⟨allowSame, hw⟩ := hs.resolve_left fun hsa => changes hsa.2.symm
  rw [eventsOf_stateTransition frame state hw fun phase => by
    rw [ht.detected, ht.handled]
    exact hb phase]
  have ha : (⟨before, after, allowSame⟩ : StateTransitionSignal V).suppressed = false := by
    simp [StateTransitionSignal.suppressed, Ne.symm changes]
  cases hp : (kinds state).inPlace <;> cases before <;> cases after <;>
    simp_all [StateKind.hook, runExit, runEnter, runTransition, expectedEvents]

/-- A state derived from one source is left, changed and entered. -/
theorem transition_events_single :
    let kind : StateKind Bool Bool := .derived (.single ⟨false, false⟩) copied true
    let frame := @duoFrame kind (by decide)
    eventsOf true ((play (duo kind) (fun _ => false)
        [frame fun _ => none]).stateTransition (frame fun _ => some (.pending true))).2 =
      [.onExit true false, .onTransition true false true, .onEnter true true] :=
  (transition_events_iff (fun _ => false) _ _ true rfl rfl (by decide)).mpr (.inl rfl)

/-- **A state derived from a tuple is entered before it is left.** -/
theorem enters_before_exit :
    let kind : StateKind Bool Bool := .derived (.tuple ⟨false, false⟩ []) copied true
    let frame := @duoFrame kind (by decide)
    let world := play (duo kind) (fun _ => false) [frame fun _ => none]
    let ran := world.stateTransition (frame fun _ => some (.pending true))
    (world.data true).state = some false ∧ (ran.1.data true).state = some true ∧
      eventsOf true ran.2 =
        [.onEnter true true, .onTransition true false true, .onExit true false] := by
  decide

/-! ## The table of sub-states -/

omit [DecidableEq σ] [DecidableEq V] in
/-- The values of sources depend on the sources only. -/
theorem sourceStates_congr {other : StateWorld σ V} (hs : ∀ item ∈ sources.items,
      (world.data item.rawState).state = (other.data item.rawState).state)
    : world.sourceStates sources = other.sourceStates sources := by
  unfold sourceStates
  generalize sources.items = items at hs
  induction items with
  | nil => rfl
  | cons item rest ih =>
    rw [mapM_cons, mapM_cons, hs item mem_cons_self,
      ih fun later mem => hs later (mem_cons_of_mem item mem)]

/-- The columns of the table: whether a source has a signal that the sub-state has not read,
the requested value, the current value, and the default of `should_exist`. -/
structure TableRow (V : Type) where
  parentChanged : Bool
  nextState : Option V
  current : Option V
  shouldExist : Option V

/-- The table in the source: what becomes of `State<T>`; `none` for the two rows that it
does not list. -/
def TableRow.outcome : TableRow V → Option (Option V)
  | ⟨false, none, current, _⟩ => some current
  | ⟨false, some _, none, none⟩ => some none
  | ⟨true, _, _, none⟩ => some none
  | ⟨true, none, none, some default⟩ => some (some default)
  | ⟨true, some next, _, some _⟩ => some (some next)
  | ⟨false, some next, some _, some _⟩ => some (some next)
  | ⟨true, none, some current, some _⟩ => some (some current)
  | ⟨false, some _, none, some _⟩ => none
  | ⟨false, some _, some _, none⟩ => none

/-- The row that a run of `StateTransition` from one world to another meets. -/
def tableRow (before after : StateWorld σ V) (state : σ) (sources : StateSet σ)
    (shouldExist : List (Option V) → Option V) : TableRow V where
  parentChanged := sources.items.zipIdx.any fun source =>
    before.cursor state source.2 < (after.data source.1.rawState).signals.length
  nextState := (before.data state).next.take.map Prod.fst
  current := (before.data state).state
  shouldExist := (after.sourceStates sources).bind shouldExist

end Runs

end Voker.State
