import Mathlib.Data.List.Induction
import Voker.Ecs.Schedule.Exact
import Voker.Ecs.Schedule.Ordered
import Voker.State.Transition

/-!
# Derived states are what their sources make of them

A derived state is computed anew only when a signal of a source is unread.  That suffices:
**whoever changes a source writes a signal**, cursors never pass the end of the signals, and
sources are applied first.  So after every run of the schedule each derived state is the value
computed from the current values of its sources, in every acyclic system of states.

## Runs that leave a system out

This is about runs in which every apply system is run.  The sets see to the order of the apply
systems; that each is run is the executor's part, and the multi-threaded executor does not always
do it.  Where two states are derived from one, the begin markers of their sets can both be ready
when an exclusive system is started, and the apply system that the one marker frees is completed
in place of the other.  `derived_stale` follows such a run of the compiled schedule and plays the
apply systems that were run on the states: a derived state is missing at the end.
-/

namespace Voker.State

open List Option Function StateWorld

variable {σ V : Type} [DecidableEq σ] {kinds : σ → StateKind σ V} {w : StateWorld σ V}

/-- The apply system of a state has read no signal that does not exist. -/
def StateWorld.Reads (kinds : σ → StateKind σ V) (world : StateWorld σ V) : Prop :=
  ∀ state, ∀ source ∈ (kinds state).items.zipIdx,
    world.cursor state source.2 ≤ (world.data source.1.rawState).signals.length

/-- A derived state is as its sources say, or a signal of a source is still unread. -/
def StateWorld.Owed (kinds : σ → StateKind σ V) (world : StateWorld σ V) : Prop :=
  ∀ state sources derive allowSame, kinds state = .derived sources derive allowSame →
    (∃ source ∈ sources.items.zipIdx, world.unread state source = true) ∨
      (world.data state).state = (world.sourceStates sources).bind derive

variable {state : σ} {sources : StateSet σ}

omit [DecidableEq σ] in
theorem readSources_le {items : List (StateSetItem σ)}
    (hr : ∀ src ∈ items.zipIdx, w.cursor state src.2 ≤ (w.data src.1.rawState).signals.length)
    {sources : List (StateSetItem σ × ℕ)} (hin : ∀ src ∈ sources, src ∈ items.zipIdx)
    {src : StateSetItem σ × ℕ} (mem : src ∈ items.zipIdx) : (readSources w state sources).2 src.2 ≤
      (w.data src.1.rawState).signals.length := by
  induction sources with
  | nil => exact hr src mem
  | cons one rest ih =>
    rw [readSources]
    split
    · by_cases hs : src.2 = one.2
      · have hi := mem_zipIdx_iff_getElem?.mp mem
        rw [hs, mem_zipIdx_iff_getElem?.mp (hin one mem_cons_self)] at hi
        dsimp only
        rw [hs, update_self, some.inj hi]
      · dsimp only
        rw [update_of_ne hs]
        exact hr src mem
    · exact ih fun other hl => hin other (mem_cons_of_mem one hl)

omit [DecidableEq σ] in
/-- Applying a state reads at most what is there. -/
theorem cursor_apply_le (kind : StateKind σ V)
    (hr : ∀ src ∈ kind.items.zipIdx, w.cursor state src.2 ≤ (w.data src.1.rawState).signals.length)
    : ∀ src ∈ kind.items.zipIdx, (kind.apply w state).2 src.2 ≤
      (w.data src.1.rawState).signals.length := by
  intro src mem
  cases kind with
  | manual => exact absurd mem not_mem_nil
  | derived sources derive allowSame =>
    change (applyDerived w state sources derive allowSame).2 src.2 ≤ _
    unfold applyDerived
    split
    · exact hr src mem
    · have hi : sources.items[src.2]? = some src.1 := mem_zipIdx_iff_getElem?.mp mem
      dsimp only
      rw [hi]
  | sub sources shouldExist =>
    change (applySub w state sources shouldExist).2 src.2 ≤ _
    unfold applySub
    dsimp only
    split <;> exact readSources_le hr (fun _ hin => hin) mem

theorem reads_foldl (hr : w.Reads kinds) (order : RunOrder kinds) :
    (order.states.foldl (apply kinds) w).Reads kinds := by
  intro state src mem
  obtain ⟨moment, -, hc, -, ha, hs⟩ := @exists_moment σ V _ kinds w order state
  have hi : ∀ src ∈ (kinds state).items.zipIdx, moment.data src.1.rawState =
      (order.states.foldl (apply kinds) w).data src.1.rawState :=
    fun src hin => hs _ (fst_mem_of_mem_zipIdx hin)
  rw [ha, ← hi src mem]
  refine cursor_apply_le (kinds state) (fun other hin => ?_) src mem
  rw [hc, hi other hin]
  exact (hr state other hin).trans (transits_foldl order _).length_le

/-- **The apply phase pays what is owed.** -/
theorem derived_foldl (hre : w.Reads kinds) (ho : w.Owed kinds)
    (order : RunOrder kinds) {state : σ} {sources : StateSet σ}
    {derive : List (Option V) → Option V} {allowSame : Bool}
    (hk : kinds state = .derived sources derive allowSame) :
    ((order.states.foldl (apply kinds) w).data state).state =
      ((order.states.foldl (apply kinds) w).sourceStates sources).bind derive := by
  obtain ⟨moment, hd, hcu, ha, -, hs⟩ := @exists_moment σ V _ kinds w order state
  rw [hk] at ha hs
  have hfi := sourceStates_congr fun item mem => congrArg StateData.state (hs item mem)
  refine (congrArg StateData.state ha).trans ?_
  change (applyDerived moment state sources derive allowSame).1.state = _
  unfold applyDerived
  split
  · next hq =>
    -- no signal is unread at the end, so no source has changed since the start
    have hc : ∀ src ∈ sources.items.zipIdx, ((order.states.foldl (apply kinds) w).data
          src.1.rawState).signals.length ≤ w.cursor state src.2 := by
      intro src mem
      have hr := List.all_eq_true.mp hq src mem
      rw [unread, hcu, hs _ (fst_mem_of_mem_zipIdx mem),
        Bool.not_eq_true', decide_eq_false_iff_not] at hr
      exact Nat.le_of_not_lt hr
    have hun : w.sourceStates sources =
        (order.states.foldl (apply kinds) w).sourceStates sources := by
      refine sourceStates_congr fun item mem => ?_
      obtain ⟨i, hf⟩ := mem_iff_getElem?.mp mem
      have hi := mem_zipIdx_iff_getElem?.mpr (show sources.items[(item, i).2]? =
        some (item, i).1 from hf)
      have hl := hre state (item, i) (by rw [hk]; exact hi)
      rcases (@transits_foldl σ V _ kinds w order item.rawState).signals with
        ⟨-, hsa⟩ | ⟨_, hw⟩
      · exact hsa.symm
      · have hm := hc _ hi
        rw [hw, length_append, length_singleton] at hm
        exact absurd (hl.trans' hm) (by simp)
    rw [hd, ← hun]
    refine (ho state sources derive allowSame hk).resolve_left ?_
    rintro ⟨src, mem, unread⟩
    have hla := hc src mem
    rw [StateWorld.unread, decide_eq_true_iff] at unread
    exact absurd (lt_of_lt_of_le unread (transits_foldl order src.1.rawState).length_le)
      (Nat.not_lt.mpr hla)
  · rw [StateData.state_internalApply, hfi]

variable [DecidableEq V]

theorem derived_stateTransition (hr : w.Reads kinds) (ho : w.Owed kinds)
    (frame : Frame kinds) {derive : List (Option V) → Option V} {allowSame : Bool}
    (hk : kinds state = .derived sources derive allowSame) :
    ((w.stateTransition frame).1.data state).state =
      ((w.stateTransition frame).1.sourceStates sources).bind derive := by
  have ha := @derived_foldl σ V _ kinds (w.request frame.requests) hr ho
    frame.applyOrder state sources derive allowSame hk
  have sources_eq : (w.stateTransition frame).1.sourceStates sources =
      (w.applied frame).sourceStates sources :=
    sourceStates_congr fun item _ => (stateTransition_eq frame item.rawState).1
  rw [(stateTransition_eq frame state).1, sources_eq]
  exact ha

theorem reads_stateTransition (hr : w.Reads kinds) (frame : Frame kinds) :
    (w.stateTransition frame).1.Reads kinds := by
  have ha := @reads_foldl σ V _ kinds (w.request frame.requests) hr frame.applyOrder
  intro state src mem
  rw [(stateTransition_eq frame state).2.2, (stateTransition_eq frame _).2.1]
  exact ha state src mem

/-- After any frames, nothing is read that does not exist, and what is wrong is owed. -/
theorem owed_play (initial : σ → V) (frames : List (Frame kinds)) :
    (play kinds initial frames).Reads kinds ∧ (play kinds initial frames).Owed kinds := by
  induction frames using List.reverseRecOn with
  | nil =>
    refine ⟨fun _ _ _ => Nat.zero_le _, fun state sources _ _ _ => .inl ?_⟩
    -- every state has a first signal, and nobody has read it yet
    cases sources with
    | single item => exact ⟨(item, 0), mem_cons_self, rfl⟩
    | tuple one rest => exact ⟨(one, 0), mem_cons_self, rfl⟩
  | append_singleton earlier frame ih =>
    have hl : play kinds initial (earlier ++ [frame]) =
        ((play kinds initial earlier).stateTransition frame).1 := by
      rw [play, foldl_append]
      rfl
    rw [hl]
    exact ⟨reads_stateTransition ih.1 frame, fun _ _ _ _ hk =>
      .inr (derived_stateTransition ih.1 ih.2 frame hk)⟩

omit [DecidableEq σ] [DecidableEq V] in
/-- The sources cannot be read exactly if a required one is absent. -/
theorem sourceStates_eq_none : w.sourceStates sources = none ↔
      ∃ item ∈ sources.items, item.optional = false ∧ (w.data item.rawState).state = none := by
  unfold sourceStates
  induction sources.items with
  | nil => simp
  | cons item rest ih =>
    rw [mapM_cons, exists_mem_cons_iff, ← ih]
    generalize (rest.mapM fun item => item.cloneRawState (w.data item.rawState).state) = others
    cases ho : item.optional <;> cases (w.data item.rawState).state <;>
      cases others <;> simp [StateSetItem.cloneRawState, ho]

/-- **After every run, each derived state is what its sources make of it**: absent exactly
if a required source is absent or the computation gives nothing. -/
theorem derived_exact (initial : σ → V) (frames : List (Frame kinds)) (frame : Frame kinds)
    {state : σ} {sources : StateSet σ} {derive : List (Option V) → Option V} {allowSame : Bool}
    (kind : kinds state = .derived sources derive allowSame) {after : StateWorld σ V}
    (ran : ((play kinds initial frames).stateTransition frame).1 = after) :
    (after.data state).state = (after.sourceStates sources).bind derive ∧
      ((after.data state).state = none ↔ (∃ item ∈ sources.items,
          item.optional = false ∧ (after.data item.rawState).state = none) ∨
        ∃ values, after.sourceStates sources = some values ∧ derive values = none) := by
  have he := derived_stateTransition (owed_play initial frames).1 (owed_play initial frames).2
    frame kind
  rw [ran] at he
  refine ⟨he, ?_⟩
  rw [he, ← sourceStates_eq_none, bind_eq_none_iff]
  cases after.sourceStates sources <;> simp

/-- A manual state is set, and a state derived from it takes its value. -/
theorem derived_exact_copied :
    let kind : StateKind Bool Bool := .derived (.single ⟨false, false⟩) copied true
    (((play (duo kind) (fun _ => false) []).stateTransition
      (@duoFrame kind (by decide) fun _ => some (.pending true))).1.data true).state =
        some true := by
  intro kind
  have he := (@derived_exact Bool Bool _ (duo kind) _ (fun _ => false) []
    (@duoFrame kind (by decide) fun _ => some (.pending true)) true (.single ⟨false, false⟩)
    copied true rfl _ rfl).1
  rw [he]
  decide

/-! ## An apply system that is not run

The apply phase as the registrations build it, and a run of the multi-threaded executor. -/

section Executed

open Foundation Ecs Ecs.Schedule Ecs.MultiThreadedExecutor

variable {n : ℕ}

/-- What the registration of a state adds to the apply phase: its apply system, which defers
commands, in a set of its own.  The set lies in `Apply`, behind those of the sources. -/
def registerApply (kinds : Fin n → StateKind (Fin n) V) (state : Fin n) : List ScheduleOp :=
  [.addSystems (.named (state + 1)) (ConfigExpr.system (deferringSystem state)).config,
    .configSet ⟨.named (state + 1), some (.named 0), [], [], []⟩] ++
    (kinds state).items.map fun item =>
      .configSet ⟨.named (state + 1), none, [.named (item.rawState + 1)], [], []⟩

/-- The state whose apply system it is. -/
def appliedState (id : SystemId) : Option (Fin n) :=
  match id.type with
  | .user type => if inside : type < n then some ⟨type, inside⟩ else none
  | _ => none

/-- An apply system writes its state and reads the sources. -/
def applyTable (kinds : Fin n → StateKind (Fin n) V) (id : SystemId) : Option ValidTable :=
  FunctionSystem.initTable (match appliedState id with
    | some state => .resMut state.val :: (kinds state).items.map fun item => .res item.rawState.val
    | none => [])

/-- The apply phase of `StateTransition`, compiled. -/
def applyPhase (kinds : Fin n → StateKind (Fin n) V) : List ScheduleOp :=
  .configSet ⟨.named 0, none, [], [], []⟩ :: (finRange n).flatMap (registerApply kinds) ++
    [.update 100 .same (applyTable kinds)]

/-- The states whose apply systems an executor has started, in this order. -/
def appliedStates (schedule : Schedule) (executor : MultiThreadedExecutor) : List (Fin n) :=
  (executor.started.filterMap (schedule.schedule.systems[·]?)).filterMap fun node =>
    appliedState node.system.id

/-- Two manual states, and two that are derived from the first. -/
def twoDerived (state : Fin 4) : StateKind (Fin 4) Bool :=
  if state < 2 then .manual else .derived (.single ⟨0, false⟩) copied true

/-- The set of the first state ends together with the apply system of the second state, whose
`ApplyDeferred` is then started while the sets of the derived states begin. -/
def twoDerivedRun : List ExecutorStep :=
  turns [([], 3), ([0], 6), ([5], 5), ([1, 6], 9), ([7], 6), ([8, 2], 14), ([3], 7), ([4], 5),
    ([9], 6), ([10], 9), ([11], 6), ([12], 4), ([16], 5), ([17], 4)]

theorem twoDerived_built : (run step (applyPhase twoDerived) .new).any
      (fun schedule => schedule.isChanged = false) = true := by
  decide +kernel

/-- **The apply system of a derived state is completed in place of a marker, and the state is not
what its source makes of it.** -/
theorem derived_stale : ∃ schedule executor, ∃ compiled : schedule.Compiled,
    run step (applyPhase twoDerived) .new = some schedule ∧ schedule.isChanged = false ∧
    run (MultiThreadedExecutor.step (schedule.systemSchedule compiled) fun _ => .met)
      twoDerivedRun (start (schedule.systemSchedule compiled)) = some executor ∧
    executor.Returned ∧ appliedStates schedule executor = [0, 1, (3 : Fin 4)] ∧
    let after := (appliedStates schedule executor).foldl (StateWorld.apply twoDerived)
      (registered twoDerived fun _ => true)
    (after.data 2).state = none ∧
      (after.sourceStates (.single ⟨0, false⟩)).bind copied = some true := by
  obtain ⟨hb, hc⟩ := built_spec twoDerived_built
  let schedule := (built (applyPhase twoDerived)).systemSchedule (built_compiled twoDerived_built)
  obtain ⟨executor, ran, hr, ha⟩ : ∃ executor,
      run (MultiThreadedExecutor.step schedule fun _ => .met) twoDerivedRun (start schedule) =
        some executor ∧ executor.Returned ∧
        appliedStates (built (applyPhase twoDerived)) executor = [0, 1, (3 : Fin 4)] :=
    exists_of_any (by decide +kernel) fun _ _ ht => ht
  refine ⟨_, executor, built_compiled twoDerived_built, hb, hc, ran, hr, ha, ?_⟩
  rw [ha]
  decide

end Executed

end Voker.State
