import Voker.Ecs.World.Locations

/-!
# Observer flags of archetypes

An archetype has a flag for each kind of lifecycle event some observer may want to hear
about.  Registering an observer sets the flag in the archetypes that exist.  An archetype
that is created later starts without flags, **whoever is already listening**, so the flags
stay correct exactly as long as no archetype is created that a live observer listens to.
-/

namespace Voker.Ecs

open Foundation List Option

variable {τ V : Type} {P : Program τ V}

/-! ## Single flags -/

namespace Archetype

variable {arche : Archetype} {kind : Lifecycle}

theorem hasObserver_eq_true : arche.hasObserver kind = true ↔ arche.observers &&& kind.flag ≠ 0 :=
  decide_eq_true_iff

/-- Merging flags keeps those that are set. -/
theorem hasObserver_mergeObserverFlags (set : arche.hasObserver kind = true) (f : ObserverFlags)
    : (arche.mergeObserverFlags f).hasObserver kind = true := by
  rw [hasObserver_eq_true] at set ⊢
  unfold mergeObserverFlags
  rw [BitVec.and_or_distrib_right]
  exact fun hz => set (BitVec.or_eq_zero_iff.mp hz).1

/-- Merging a flag sets it. -/
theorem hasObserver_mergeObserverFlags_self (arche : Archetype) (kind : Lifecycle) :
    (arche.mergeObserverFlags kind.flag).hasObserver kind = true := by
  rw [hasObserver_eq_true]
  unfold mergeObserverFlags
  rw [BitVec.and_or_distrib_right]
  intro hz
  have own := (BitVec.or_eq_zero_iff.mp hz).2
  cases kind <;> exact absurd own (by decide)

theorem hasObserver_of_unset (hu : arche.observers = 0) (kind : Lifecycle) :
    arche.hasObserver kind = false := by
  have hn : ¬ (arche.hasObserver kind = true) := by
    rw [hasObserver_eq_true, hu]
    exact fun ne => ne (BitVec.zero_and ..)
  exact Bool.eq_false_iff.mpr hn

end Archetype

namespace World

/-! ## Correct flags -/

/-- Some live observer of this kind of event listens to archetypes with these components. -/
def Heard (world : World τ V) (kind : Lifecycle) (slice : ComponentSlice) : Prop :=
  ∃ (id : ObserverId) (observer : Observer), world.observers[id]? = some (some observer) ∧
    observer.eventId = .lifecycle kind ∧ observer.listensTo slice = true

/-- Every archetype has the flags of the observers that listen to it.  Observers of single
entities count as well, as they do where flags are merged, although such an observer hears of
an archetype only through an entity that is in it. -/
def FlagsCorrect (world : World τ V) : Prop :=
  ∀ (id : ArcheId) (arche : Archetype), world.archetypes.arches[id]? = some arche →
    ∀ kind, world.Heard kind arche.toComponentSlice → arche.hasObserver kind = true

/-- The flags can be checked archetype by archetype and observer by observer. -/
def flagsCorrectCheck (world : World τ V) : Bool :=
  world.archetypes.arches.all fun arche => world.observers.all fun slot =>
    match slot with
    | none => true
    | some observer =>
      match observer.eventId with
      | .lifecycle kind =>
        !observer.listensTo arche.toComponentSlice || arche.hasObserver kind
      | .custom _ => true

variable {world after : World τ V}

theorem flagsCorrect_of_check (hc : world.flagsCorrectCheck = true) : FlagsCorrect world := by
  rintro id arche hf kind ⟨n, obs, hst, he, hl⟩
  have hea := all_eq_true.mp (all_eq_true.mp hc arche (mem_of_getElem? hf))
    (some obs) (mem_of_getElem? hst)
  simpa [he, hl] using hea

/-- Nobody listens to the archetypes that are new. -/
def CreatesUnheard (before after : World τ V) : Prop :=
  ∀ (id : ArcheId) (arche : Archetype), before.archetypes.arches[id]? = none →
    after.archetypes.arches[id]? = some arche →
    ∀ kind, ¬ after.Heard kind arche.toComponentSlice

variable {scope : Scope} {before : World τ V} {slice : ComponentSlice} {kind : Lifecycle}
  {observer : Observer}

theorem Kept.heard (hk : Kept scope before after) (hea : after.Heard kind slice) :
    before.Heard kind slice := by
  obtain ⟨id, observer, hf, he, hl⟩ := hea
  obtain ⟨old, hst, hse, hsc⟩ := hk.observers id observer hf
  refine ⟨id, old, hst, hse.symm.trans he, ?_⟩
  unfold Observer.listensTo at hl ⊢
  rw [← hsc]
  exact hl

/-- **Flags are lost only with new archetypes.** -/
theorem Kept.flagsCorrect_iff (hk : Kept scope before after) (hc : FlagsCorrect before) :
    FlagsCorrect after ↔ CreatesUnheard before after := by
  constructor
  · intro ho id arche ha hf kind he
    rcases hk.flags id arche hf with ⟨old, hst, -⟩ | ⟨-, hun⟩
    · cases hst.symm.trans ha
    · have set := ho id arche hf kind he
      rw [Archetype.hasObserver_of_unset hun] at set
      cases set
  · intro hu id arche hf kind he
    rcases hk.flags id arche hf with ⟨old, hst, hs⟩ | ⟨ha, -⟩
    · obtain ⟨now, hia, slice, -⟩ := hk.arches id old hst
      obtain rfl := some.inj (hf.symm.trans hia)
      have set := hc id old hst kind (by rw [← slice]; exact hk.heard he)
      rw [Archetype.hasObserver_eq_true] at set ⊢
      rw [hs]
      exact set
    · exact absurd he (hu id arche ha hf kind)

/-! ## Registering an observer -/

/-- The world when `register_observer` starts to note the observer on its entities. -/
def withObserver (observer : Observer) (world : World τ V) : World τ V :=
  { world with
    archetypes := mergeFlags observer world.archetypes
    observers := world.observers ++ [some observer] }

theorem heard_withObserver (hea : (world.withObserver observer).Heard kind slice) :
    world.Heard kind slice ∨
      observer.eventId = .lifecycle kind ∧ observer.listensTo slice = true := by
  obtain ⟨id, hf, hst, he, hl⟩ := hea
  unfold withObserver at hst
  rcases Nat.lt_or_ge id world.observers.length with old | new
  · rw [getElem?_append_left old] at hst
    exact .inl ⟨id, hf, hst, he, hl⟩
  · rw [getElem?_append_right new] at hst
    have hla := mem_singleton.mp (mem_of_getElem? hst)
    obtain rfl := some.inj hla
    exact .inr ⟨he, hl⟩

/-- The new observer's flag is set wherever it listens. -/
theorem FlagsCorrect.withObserver (hc : FlagsCorrect world) (obs : Observer) :
    FlagsCorrect (world.withObserver obs) := by
  intro id now hf kind he
  have hm : (mergeFlags obs world.archetypes).arches[id]? = some now := hf
  obtain ⟨arche, hst, hs⟩ := mergeFlags_back hm
  have slice : now.toComponentSlice = arche.toComponentSlice := by rw [hs]
  rw [getElem?_mergeFlags, hst, map_some] at hm
  obtain rfl := some.inj hm
  rw [slice] at he
  rcases heard_withObserver he with hea | ⟨hev, hl⟩
  · have set := hc id arche hst kind hea
    cases obs.flags with
    | none => exact set
    | some f =>
      dsimp only
      split
      · exact Archetype.hasObserver_mergeObserverFlags set f
      · exact set
  · have f : obs.flags = some kind.flag := by rw [Observer.flags, hev]
    rw [f]
    dsimp only
    rw [if_pos hl]
    exact Archetype.hasObserver_mergeObserverFlags_self arche kind

theorem createsUnheard_withObserver :
    CreatesUnheard (world.withObserver observer) after ↔ CreatesUnheard world after := by
  have ha : ∀ id : ArcheId, (world.withObserver observer).archetypes.arches[id]? = none ↔
      world.archetypes.arches[id]? = none := by
    intro id
    have hm := getElem?_mergeFlags observer world.archetypes id
    unfold withObserver
    rw [hm, map_eq_none_iff]
  exact forall_congr' fun id => forall_congr' fun arche => by rw [ha]

section Types

variable [DecidableEq τ] [Fintype τ] {w : World τ V}

/-- What `register_observer` does after its first part respects the scope of everything. -/
theorem kept_registerObserver (reg : Registered P w) (obs : Observer) :
    Sat (registerObserver P obs) w (fun _ after => Kept Scope.all (w.withObserver obs) after)
      (fun _ after => Kept Scope.all (w.withObserver obs) after) := by
  obtain ⟨hm, -⟩ := reg.mergeFlags obs
  have hs : Registered P (w.withObserver obs) := { hm with }
  have hmo : Moves (Evolves P Scope.all) (do
      watchEntities P w.observers.length obs.entities
      return w.observers.length) :=
    Moves.bind (moves_watchEntities (fun _ => trivial) (fun _ => trivial) _ _) fun _ => .pure _
  unfold registerObserver
  exact (hmo (w.withObserver obs)).mono (fun _ _ he => (he hs).2)
    fun _ _ he => (he hs).2

variable {op : Op τ V}

/-- **Whatever happens, numbers keep their meaning.** -/
theorem statics_step {post : World τ V} (reg : Registered P w)
    (out : step P op w = some post) : Statics w post := by
  by_cases hr : ∃ observer, op = .registerObserver observer
  · obtain ⟨observer, rfl⟩ := hr
    have one : Statics w (w.withObserver observer) := { (reg.mergeFlags observer).2 with }
    have sat : Sat (exec P (.registerObserver observer)) w (fun _ => Statics w)
        (fun fa f => fa.Caught → Statics w f) :=
      sat_bind.mpr ((kept_registerObserver reg observer).mono
        (fun _ _ hk => one.trans hk.toStatics) fun _ _ hk _ => one.trans hk.toStatics)
    exact step_sat sat out
  · have hm := moves_exec (P := P) fun observer hs => hr ⟨observer, hs⟩
    have sat : Sat (exec P op) w (fun _ => Statics w)
        (fun fa f => fa.Caught → Statics w f) :=
      (hm w).mono (fun _ _ he => (he reg).2.toStatics)
        fun _ _ he _ => (he reg).2.toStatics
    exact step_sat sat out

/-- **A step keeps the flags correct exactly if nobody listens to the archetypes it
creates.** -/
theorem flagsCorrect_step_iff {post : World τ V} (reg : Registered P w)
    (hc : FlagsCorrect w) (out : step P op w = some post) :
    FlagsCorrect post ↔ CreatesUnheard w post := by
  by_cases hr : ∃ observer, op = .registerObserver observer
  · obtain ⟨observer, rfl⟩ := hr
    have sat : Sat (exec P (.registerObserver observer)) w
        (fun _ => Kept Scope.all (w.withObserver observer))
        (fun fa f => fa.Caught → Kept Scope.all (w.withObserver observer) f) :=
      sat_bind.mpr ((kept_registerObserver reg observer).mono
        (fun _ _ hk => hk) fun _ _ hk _ => hk)
    have hk := step_sat sat out
    rw [hk.flagsCorrect_iff (hc.withObserver observer), createsUnheard_withObserver]
  · have ho : ∀ observer, op ≠ .registerObserver observer :=
      fun observer heq => hr ⟨observer, heq⟩
    have sat : Sat (exec P op) w (fun _ => Kept (scopeOf op) w)
        (fun fa f => fa.Caught → Kept (scopeOf op) w f) :=
      (moves_exec ho w).mono (fun _ _ he => (he reg).2)
        fun _ _ he _ => (he reg).2
    exact (step_sat sat out).flagsCorrect_iff hc

/-- **The flags are correct in every world of a run exactly if no step of it creates an
archetype that an observer listens to.** -/
theorem run_flagsCorrect_iff (P : Program τ V) (ops : List (Op τ V)) :
    Throughout (step P) FlagsCorrect ops World.new ↔
      EachStep (step P) (fun _ before after => CreatesUnheard before after) ops World.new := by
  refine throughout_iff_eachStep (fun _ _ _ ho hou => Orderly.step ho hou)
    (fun _ _ _ ho hc hou =>
      flagsCorrect_step_iff ho.registered hc hou) (orderly_new P) ?_
  rintro id arche hf kind ⟨n, observer, hs, -⟩
  exact absurd hs (by simp [World.new])

end Types

/-- An observer of everything that is added anywhere. -/
def globalAddObserver : Observer := ⟨.lifecycle .add, [], []⟩

/-- An observer of everything is registered, then an entity is spawned: the archetype of the
entity comes without the flag. -/
theorem late_archetype_unflagged : ∃ world, run (step denseAndSparse)
        [.registerObserver globalAddObserver, .spawn (Bundle.zeros ⟨1, [false]⟩)]
        World.new = some world ∧ ¬ FlagsCorrect world := by
  refine @exists_of_any _ _ (fun world => world.archetypes.arches[1]?.map (·.hasObserver .add) =
    some false ∧ world.observers[0]? = some (some globalAddObserver)) _ _ (by decide +kernel) ?_
  intro world ran ⟨hfl, observer⟩ hc
  obtain ⟨arche, hf, hu⟩ := map_eq_some_iff.mp hfl
  have set := hc 1 arche hf .add ⟨0, globalAddObserver, observer, rfl, rfl⟩
  cases hu.symm.trans set

end World

end Voker.Ecs
