import Voker.Ecs.World.Locations

/-!
# Archetypes in reachable worlds

Two facts about the archetypes of every world a program can reach.

Archetypes are canonical: sorted, one per set of components, over the table of their dense
part, with transitions that lead where they should, **cached or not**.

Archetypes that hold an entity are closed: **whatever a component requires is there as
well**.  A removal re-adds what the remaining components require; since all of it is there
already, removing never adds a component.
-/

namespace Voker.Ecs

open Foundation List Option Prod

variable {τ V α : Type} {P : Program τ V}

/-! ## Closed slices -/

/-- The slice contains what its components require. -/
def ComponentSlice.ClosedIn (P : Program τ V) (components : Components τ)
    (slice : ComponentSlice) : Prop :=
  ∀ root ∈ slice.components, ∀ id, components.Requires P root id → id ∈ slice.components

variable {cs : Components τ} {result arche info : ComponentSlice}

theorem Components.Requires.trans {root mid id : ComponentId}
    (one : cs.Requires P root mid) (two : cs.Requires P mid id) : cs.Requires P root id := by
  obtain ⟨type, b, hrt, hmt, hp⟩ := one
  obtain ⟨a, t, hma, hit, hr⟩ := two
  obtain rfl := some.inj (hmt.symm.trans hma)
  exact ⟨type, t, hrt, hit, hp.trans hr⟩

/-- The slice of a bundle with its requirements. -/
theorem ComponentSlice.closedIn_of_required (con : cs.Consistent)
    {s : ComponentSlice} {r : List τ}
    (hm : ∀ type, cs.Has s.components type ↔ ∃ root ∈ r,
      Reaches P.requires root type) : s.ClosedIn P cs := by
  rintro root mem id ⟨type, t, hrt, hit, hp⟩
  obtain ⟨st, hir, hr⟩ := (hm type).mp ⟨root, mem, hrt⟩
  rw [← con.has_iff hit]
  exact (hm t).mpr ⟨st, hir, hr.trans hp⟩

/-- A union of closed slices. -/
theorem InsertTarget.closedIn (hl : InsertTarget arche info result)
    (hf : arche.ClosedIn P cs) (snd : info.ClosedIn P cs) : result.ClosedIn P cs := by
  intro root mem id hr
  rw [hl] at mem ⊢
  exact mem.imp (fun hin => hf root hin id hr) (fun hin => snd root hin id hr)

/-- A removal leads to a closed slice, whatever the slice was. -/
theorem RemoveTarget.closedIn (hl : RemoveTarget P cs arche info result) :
    result.ClosedIn P cs := by
  intro root mem id hr
  rw [hl] at mem ⊢
  obtain ⟨s, hin, ho, hre⟩ := mem
  exact ⟨s, hin, ho, hre.trans hr⟩

/-- **Removing from a closed slice adds nothing.** -/
theorem RemoveTarget.subset (hl : RemoveTarget P cs arche info result)
    (hc : arche.ClosedIn P cs) : ∀ id ∈ result.components, id ∈ arche.components := by
  intro id mem
  rw [hl] at mem
  obtain ⟨s, hin, -, hr⟩ := mem
  exact hc s hin id hr

namespace World

/-! ## Closed archetypes -/

/-- The archetype contains what its components require. -/
def ClosedArche (P : Program τ V) (world : World τ V) (id : ArcheId) : Prop :=
  ∃ slice, world.sliceOf id = some slice ∧ slice.ClosedIn P world.components

/-- Every archetype that holds an entity is closed. -/
def Closed (P : Program τ V) (world : World τ V) : Prop :=
  ∀ id, ∀ entity ∈ world.archeRows id, ClosedArche P world id

section Closed

variable {pre post w : World τ V} {id src : ArcheId} {type : BundleType τ}

/-- Closed archetypes stay closed: registering further components does not make old ones
require more. -/
theorem ClosedArche.statics (hc : ClosedArche P pre id) (he : Registered P pre)
    (hl : Registered P post) (hs : Statics pre post) : ClosedArche P post id := by
  obtain ⟨s, hf, hin⟩ := hc
  refine ⟨s, hs.sliceOf hf, fun root mem o hr => ?_⟩
  obtain ⟨arche, hst, rfl⟩ := map_eq_some_iff.mp hf
  have hk := (he.archeSplit arche (mem_of_getElem? hst)).registered mem
  exact hin root mem o ((Components.requires_of_prefix hl.components
    he.linked hs.components hk).mp hr)

/-- What puts entities into closed archetypes only keeps the archetypes in use closed. -/
theorem Closed.evolve {s : Scope} (hc : Closed P pre)
    (reg : Registered P pre) (he : Evolves P s pre post)
    (ha : ∀ id, s.targets id → ClosedArche P pre id) : Closed P post := by
  obtain ⟨hf, hk⟩ := he reg
  intro id e mem
  refine ClosedArche.statics ?_ reg hf hk.toStatics
  rcases hk.occupied id e mem with old | ⟨-, aim⟩
  · exact hc id e old
  · exact ha id aim

/-- A part of an operation that puts entities into closed archetypes. -/
theorem Closed.sat {comp : Exec τ V α} {s : Scope} (hm : Moves (Evolves P s) comp)
    (hc : Closed P w) (reg : Registered P w)
    (ha : ∀ id, s.targets id → ClosedArche P w id) :
    Sat comp w (fun _ post => Closed P post) (fun _ post => Closed P post) :=
  (hm w).mono (fun _ _ he => hc.evolve reg he ha)
    fun _ _ he => hc.evolve reg he ha

/-- A part of an operation that puts entities into one archetype. -/
theorem Closed.into {comp : Exec τ V α}
    (hm : Moves (Evolves P ⟨fun _ => True, (· = id), True⟩) comp) (hc : Closed P w)
    (reg : Registered P w) (aim : ClosedArche P w id) :
    Sat comp w (fun _ post => Closed P post) (fun _ post => Closed P post) :=
  hc.sat hm reg fun _ hs => hs ▸ aim

theorem Closed.extend (hc : Closed P pre) (reg : Registered P pre)
    (hg : Extends P pre post) : Closed P post :=
  @Closed.evolve _ _ P _ _ ⟨fun _ => True, fun _ => False, True⟩ hc reg
    (evolves_of_grew hg) fun _ hn => hn.elim

/-- The archetype of a spawned entity is in use. -/
theorem Closed.located (hc : Closed P w) {e : Entity}
    (hs : w.Settled e) {loc : EntityLocation} (ha : w.entities.located e = some loc) :
    ClosedArche P w loc.archeId := by
  have he := hs.held .arche
  rw [ha] at he
  exact hc _ e (mem_of_getElem? ((he _ _).mpr rfl))

variable {t : ArcheId}

/-- The archetype of what a bundle requires is closed. -/
theorem Spawning.closed (hs : Spawning P pre post type t) : ClosedArche P post t := by
  obtain ⟨s, hf, hsp⟩ := hs.leads
  exact ⟨s, hf, ComponentSlice.closedIn_of_required hs.registered.components hsp⟩

/-- Inserting leads from a closed archetype to a closed one. -/
theorem Inserting.closed (hi : Inserting P pre post type src t)
    (hc : ClosedArche P post src) : ClosedArche P post t := by
  obtain ⟨old, info, new, hf, aim, hl, hs⟩ := hi.leads
  obtain ⟨s, hst, hin⟩ := hc
  obtain rfl := some.inj (hf.symm.trans hst)
  exact ⟨new, aim, hl.closedIn hin
    (ComponentSlice.closedIn_of_required hi.registered.components hs)⟩

/-- Removing leads to a closed archetype. -/
theorem Removing.closed {b : BundleId}
    (hr : Removing P pre post b src t) : ClosedArche P post t := by
  obtain ⟨old, info, new, -, aim, -, hl⟩ := hr.leads
  exact ⟨new, aim, hl.closedIn⟩

end Closed

/-! ## Operations -/

/-- The world is orderly and the archetypes in use are closed. -/
def Complete (P : Program τ V) (world : World τ V) : Prop :=
  Orderly P world ∧ Closed P world

variable {comp : Exec τ V α}

theorem keeps_complete (ord : Keeps Fault.Caught (Orderly P) comp) (hcl : ∀ w, Complete P w →
      Sat comp w (fun _ post => Closed P post) (fun _ post => Closed P post)) :
    Keeps Fault.Caught (Complete P) comp := by
  rintro w ⟨ho, hco⟩
  exact ((ord w ho).and (hcl w ⟨ho, hco⟩)).mono (fun _ _ hb => hb)
    fun _ _ hb hc => ⟨hb.1 hc, hb.2⟩

/-- What puts entities nowhere. -/
theorem complete_of_nowhere (ord : Keeps Fault.Caught (Orderly P) comp)
    (hm : Moves (Evolves P ⟨fun _ => True, fun _ => False, True⟩) comp) :
    Keeps Fault.Caught (Complete P) comp :=
  keeps_complete ord fun _ hf => 
    hf.2.sat hm hf.1.registered fun _ hn => hn.elim

theorem complete_of_extends (hg : Moves (Extends P) comp) :
    Keeps Fault.Caught (Complete P) comp :=
  complete_of_nowhere (keeps_of_extends hg) (evolves_of_extends hg)

theorem complete_forget (e : Entity) : Keeps Fault.Caught (Complete P) (forget P e) :=
  complete_of_nowhere (keeps_forget e) (moves_forget trivial)

theorem complete_clear (e : Entity) : Keeps Fault.Caught (Complete P) (clear P e) := by
  refine keeps_complete (keeps_clear e) fun w hf => ?_
  refine hf.2.into (moves_clear trivial rfl) hf.1.registered ?_
  exact ⟨_, hf.1.empty.1, fun _ mem => absurd mem not_mem_nil⟩

theorem complete_cloneEntity (link : Bool) (c : EntityCloner V) (src : Entity) :
    Keeps Fault.Caught (Complete P) (cloneEntity P link c src) := by
  refine keeps_complete (keeps_cloneEntity link c src) fun w hfu => ?_
  unfold cloneEntity
  rw [sat_bind, sat_get]
  cases hf : w.entities.locate src with
  | error err => exact hfu.2
  | ok loc =>
    have aim := hfu.2.located (hfu.1.settled src) (Entities.locate_eq_ok.mp hf)
    refine hfu.2.into ?_ hfu.1.registered aim
    refine (moves_spawnUninit (fun _ => trivial) rfl).bind fun made => ?_
    refine (moves_guarded trivial ?_).bind fun _ => .pure _
    exact moves_cloneComponents storing_evolves link src made.1 made.2 c

theorem complete_runCallback (m : CloneEntityMapper) (c : PendingCallback V) :
    Keeps Fault.Caught (Complete P) (runCallback P m c) :=
  complete_of_nowhere (keeps_runCallback m c)
    (moves_runCallback storing_evolves m c)

theorem complete_removeObserver (id : ObserverId) :
    Keeps Fault.Caught (Complete P) (modify (removeObserver id) : Exec τ V Unit) :=
  complete_of_nowhere (keeps_removeObserver id) fun w => evolves_removeObserver id w

variable {world after : World τ V} {entity : Entity}

/-- Flags are not about components. -/
theorem Complete.mergeFlags (hf : Complete P world) (obs : Observer) :
    Complete P { world with archetypes := World.mergeFlags obs world.archetypes } := by
  obtain ⟨ord, hc⟩ := hf
  obtain ⟨reg, hs⟩ := ord.registered.mergeFlags obs
  have hsa := sameRows_mergeFlags world obs
  refine ⟨ord.next reg hs fun entity =>
    (ord.settled entity).sameRows hsa, fun id entity mem => ?_⟩
  have hr := congrFun (congrFun hsa.rows .arche) id
  have old : entity ∈ world.archeRows id := (congrArg (fun list => entity ∈ list) hr).mp mem
  exact (hc id entity old).statics ord.registered reg hs

theorem Complete.withObservers (hf : Complete P world) (observers : List (Option Observer)) :
    Complete P { world with observers := observers } :=
  ⟨⟨{ hf.1.registered with }, hf.1.empty, fun entity =>
    (hf.1.settled entity).sameRows (sameRows_observers world observers)⟩, hf.2⟩

theorem complete_unwatch (id : ObserverId) (e : Entity) :
    Keeps Fault.Caught (Complete P) (modify (unwatch id e) : Exec τ V Unit) :=
  fun _ hf => hf.withObservers _

theorem complete_pushObservedBy (e : Entity) (loc : EntityLocation) (id : ObserverId) :
    Keeps Fault.Caught (Complete P) (pushObservedBy P e loc id) :=
  complete_of_nowhere (keeps_pushObservedBy e loc id)
    (moves_pushObservedBy storing_evolves e loc id)

section Types

variable [DecidableEq τ] [Fintype τ]

theorem complete_spawn (b : Bundle τ V) : Keeps Fault.Caught (Complete P) (spawn P b) := by
  refine keeps_complete (keeps_spawn b) fun world hf => ?_
  unfold spawn
  rw [sat_bind]
  refine (sat_spawnArchetype hf.1.registered b.type).mono ?_ fun _ _ hn => hn.elim
  intro t mid hs
  have hc := hf.2.extend hf.1.registered fun _ => ⟨hs.registered, hs.grew⟩
  refine hc.into ?_ hs.registered hs.closed
  exact Moves.bind moves_allocMut fun entity =>
    (moves_spawnInto trivial rfl b).bind fun _ => .pure _

theorem complete_spawnAt (b : Bundle τ V) (e : Entity) :
    Keeps Fault.Caught (Complete P) (spawnAt P b e) := by
  refine keeps_complete (keeps_spawnAt b e) fun world hf => ?_
  unfold spawnAt
  rw [sat_bind, sat_get]
  cases world.entities.canSpawn e with
  | error err => exact hf.2
  | ok _ =>
    rw [sat_bind]
    refine (sat_spawnArchetype hf.1.registered b.type).mono ?_ fun _ _ hn => hn.elim
    intro t mid hs
    have hc := hf.2.extend hf.1.registered fun _ => ⟨hs.registered, hs.grew⟩
    refine hc.into ?_ hs.registered hs.closed
    exact (moves_spawnInto trivial rfl b).bind fun _ => .pure _

theorem complete_insert (e : Entity) (b : Bundle τ V) :
    Keeps Fault.Caught (Complete P) (insert P e b) := by
  refine keeps_complete (keeps_insert e b) fun world hf => ?_
  refine sat_insert hf.1.registered (hf.1.settled e) hf.2 ?_
  intro loc t mid ha hi
  have hc := hf.2.extend hf.1.registered fun _ => ⟨hi.registered, hi.grew⟩
  have src := (hf.2.located (hf.1.settled e) ha).statics
    hf.1.registered hi.registered hi.grew.toStatics
  refine hc.into (moves_guarded trivial ?_) hi.registered (hi.closed src)
  split
  · exact moves_insertLocal storing_evolves e loc b
  · exact moves_insertMoved trivial loc rfl b

theorem complete_removeDynamic (e : Entity) (b : BundleId) :
    Keeps Fault.Caught (Complete P) (removeDynamic P e b) := by
  refine keeps_complete (keeps_removeDynamic e b) fun world hf => ?_
  refine sat_removeDynamic hf.1.registered hf.2 hf.2 ?_
  intro loc t mid ha hr
  have hc := hf.2.extend hf.1.registered fun _ => ⟨hr.registered, hr.grew⟩
  refine hc.into (moves_guarded trivial ?_) hr.registered hr.closed
  split
  · exact .pure _
  · exact moves_removeMoved trivial loc rfl

theorem complete_registerObserver (obs : Observer) :
    Keeps Fault.Caught (Complete P) (registerObserver P obs) := by
  refine Keeps.bind (fun _ hf => hf.mergeFlags obs) fun _ => ?_
  refine Keeps.bind (fun _ hf => hf.withObservers _) fun id => ?_
  exact Keeps.bind (upholds_watchEntities (complete_unwatch id) (complete_removeObserver id)
    (fun entity loc => complete_pushObservedBy entity loc id) obs.entities
    fun entity _ => complete_insert entity _) fun _ => .pure _

/-- **Every operation keeps the archetypes in use closed**, whether it returns or panics. -/
theorem complete_exec (op : Op τ V) : Keeps Fault.Caught (Complete P) (exec P op) := by
  cases op with
  | spawn b => exact (complete_spawn b).bind fun _ => .pure _
  | spawnAt b entity =>
    exact (complete_spawnAt b entity).bind fun _ => .pure _
  | insert entity b => exact complete_insert entity b
  | removeExplicit entity type =>
    exact Keeps.bind (complete_of_extends fun world => extends_registerExplicitBundle world type)
      fun b => complete_removeDynamic entity b
  | removeRequired entity type =>
    exact Keeps.bind (complete_of_extends fun world => extends_registerRequiredBundle world type)
      fun b => complete_removeDynamic entity b
  | removeDynamic entity b => exact complete_removeDynamic entity b
  | clear entity => exact complete_clear entity
  | despawn entity =>
    exact Keeps.bind (complete_of_nowhere (keeps_despawn entity)
      (moves_despawn trivial trivial)) fun _ => .pure _
  | forget entity => exact complete_forget entity
  | clone link fuel s =>
    exact Keeps.bind (upholds_spawnCloneBatch (mends_caught _) complete_forget
      (complete_cloneEntity link) complete_runCallback fuel s) fun _ => .pure _
  | registerObserver obs =>
    exact (complete_registerObserver obs).bind fun _ => .pure _
  | removeObserver id => exact complete_removeObserver id
  | _ => exact complete_of_extends (extends_exec trivial)

end Types

/-! ## Removals -/

/-- The components of an entity's archetype are among those it had before. -/
def Shrunk (entity : Entity) (before after : World τ V) : Prop :=
  ∀ id result, entity ∈ after.archeRows id → after.sliceOf id = some result →
    ∃ old slice, entity ∈ before.archeRows old ∧ before.sliceOf old = some slice ∧
      ∀ component ∈ result.components, component ∈ slice.components

theorem Shrunk.trans {f snd th : World τ V} (one : Shrunk entity f snd)
    (two : Shrunk entity snd th) : Shrunk entity f th := by
  intro id result mem hf
  obtain ⟨mid, s, him, hst, hin⟩ := two id result mem hf
  obtain ⟨old, e, hio, f, hw⟩ := one mid s him hst
  exact ⟨old, e, hio, f, fun c he => hw _ (hin _ he)⟩

variable {id : ArcheId} {pre : World τ V}

/-- The slice of an archetype in use. -/
theorem exists_sliceOf (mem : entity ∈ world.archeRows id) :
    ∃ s, world.sliceOf id = some s := by
  unfold archeRows at mem
  cases hf : world.archetypes.arches[id]? with
  | none =>
    rw [hf] at mem
    exact absurd mem not_mem_nil
  | some arche => exact ⟨arche.toComponentSlice, sliceOf_eq hf⟩

/-- An entity that stays in its archetype. -/
theorem Shrunk.stay {res : ComponentSlice} (hsa : Statics pre after)
    (hs : entity ∈ pre.archeRows id) (hf : after.sliceOf id = some res) :
    ∃ old s, entity ∈ pre.archeRows old ∧ pre.sliceOf old = some s ∧
      ∀ c ∈ res.components, c ∈ s.components := by
  obtain ⟨s, hst⟩ := exists_sliceOf hs
  obtain rfl := some.inj (hf.symm.trans (hsa.sliceOf hst))
  exact ⟨id, res, hs, hst, fun _ hin => hin⟩

theorem Shrunk.grew (hg : Grew pre after) : Shrunk entity pre after := by
  intro id result mem hf
  have hr := congrFun (congrFun hg.sameRows.rows .arche) id
  exact Shrunk.stay hg.toStatics ((congrArg (fun list => entity ∈ list) hr).mp mem) hf

/-- The components of a settled entity are those of the archetype that holds it. -/
theorem Settled.sliceAt_iff (hs : world.Settled entity) (s : ComponentSlice) :
    world.sliceAt entity = some s ↔
      ∃ id, entity ∈ world.archeRows id ∧ world.sliceOf id = some s := by
  have he := hs.held .arche
  unfold sliceAt archeOf
  rw [bind_map, bind_eq_some_iff]
  constructor
  · rintro ⟨loc, ha, hf⟩
    rw [ha] at he
    exact ⟨loc.archeId, mem_of_getElem? ((he _ _).mpr rfl), hf⟩
  · rintro ⟨id, mem, hf⟩
    obtain ⟨row, her⟩ := mem_iff_getElem?.mp mem
    obtain ⟨loc, ha, hp⟩ := map_eq_some_iff.mp (he.unique her)
    refine ⟨loc, ha, ?_⟩
    rw [← (Prod.mk.inj hp).1] at hf
    exact hf

section Types

variable [DecidableEq τ] [Fintype τ]

/-- **Removing adds no component.** -/
theorem shrunk_removeDynamic (hfu : Complete P world) (e : Entity) (b : BundleId) :
    Sat (removeDynamic P e b) world
      (fun _ after => Shrunk e world after) (fun _ after => Shrunk e world after) := by
  refine sat_removeDynamic hfu.1.registered (Shrunk.grew (Grew.refl world))
    (Shrunk.grew (Grew.refl world)) ?_
  intro loc t mid ha hr
  obtain ⟨old, info, new, src, aim, -, hl⟩ := hr.leads
  have hc := (hfu.2.located (hfu.1.settled e) ha).statics
    hfu.1.registered hr.registered hr.grew.toStatics
  have hse : ∀ after, Evolves P ⟨fun _ => True, (· = t), True⟩ mid after → Shrunk e mid after := by
    intro after he id result mem hf
    obtain ⟨-, hk⟩ := he hr.registered
    rcases hk.occupied id e mem with hsa | ⟨-, rfl⟩
    · exact Shrunk.stay hk.toStatics hsa hf
    · obtain rfl := some.inj (hf.symm.trans (hk.toStatics.sliceOf aim))
      obtain ⟨s, hst, hin⟩ := hc
      obtain rfl := some.inj (src.symm.trans hst)
      have hs := (hfu.1.settled e).sameRows hr.grew.sameRows
      have hel := hs.held .arche
      rw [hr.grew.entities, ha] at hel
      exact ⟨loc.archeId, old, mem_of_getElem? ((hel _ _).mpr rfl), src, hl.subset hin⟩
  have hm : Moves (Evolves P ⟨fun _ => True, (· = t), True⟩)
      (guarded P e (if loc.archeId = t then pure ()
        else removeMoved P e loc t)) := by
    refine moves_guarded trivial ?_
    split
    · exact .pure _
    · exact moves_removeMoved trivial loc rfl
  have pre : Shrunk e world mid := Shrunk.grew hr.grew
  exact (hm mid).mono (fun _ after he => pre.trans (hse after he))
    fun _ after he => pre.trans (hse after he)

/-- Registering a bundle first makes no difference. -/
theorem shrunk_registered {mid : World τ V} (hf : Complete P world)
    (hg : Extends P world mid) (e : Entity) (b : BundleId) :
    Sat (removeDynamic P e b) mid (fun _ after => Shrunk e world after)
      fun _ after => Shrunk e world after := by
  have hn : Complete P mid := ⟨(hf.1.extend hg).1, hf.2.extend hf.1.registered hg⟩
  have pre : Shrunk e world mid := Shrunk.grew (hg hf.1.registered).2
  exact (shrunk_removeDynamic hn e b).mono (fun _ _ => pre.trans) fun _ _ => pre.trans

theorem shrunk_step (hf : Complete P world) {op : Op τ V} (hr : op.RemovesFrom entity)
    (out : step P op world = some after) : Shrunk entity world after := by
  suffices Sat (exec P op) world (fun _ after => Shrunk entity world after)
      fun _ after => Shrunk entity world after from
    step_sat (this.mono (fun _ _ hs => hs) fun _ _ hs _ => hs) out
  cases op with
  | removeExplicit s type =>
    obtain rfl := hr
    exact shrunk_registered hf (extends_registerExplicitBundle world type) s _
  | removeRequired s type =>
    obtain rfl := hr
    exact shrunk_registered hf (extends_registerRequiredBundle world type) s _
  | removeDynamic s b =>
    obtain rfl := hr
    exact shrunk_removeDynamic hf s b
  | _ => exact absurd hr id

/-! ## Runs -/

theorem complete_run {ops : List (Op τ V)} (ran : run (step P) ops World.new = some world) :
    Complete P world := by
  have hs : Closed P (World.new : World τ V) := by
    intro id entity mem
    have he := ((orderly_new P).settled entity).held .arche
    have hd : (World.new : World τ V).entities.located entity = none := rfl
    rw [hd, map_none, heldAt_none_iff] at he
    exact absurd mem (he id)
  have hf : Complete P World.new := ⟨orderly_new P, hs⟩
  exact run_invariant (fun op _ _ hfu out => step_keeps (complete_exec op) hfu out) hf ran

/-- **Archetypes are canonical.**  In every world a program can reach, the dense and the
sparse part of an archetype are strictly sorted, its table has its dense part, a set of
components has one archetype, and the transitions lead to the union and to what remains
with all it requires, whether they are read from the caches or computed. -/
theorem run_archetypes_canonical (P : Program τ V) {ops : List (Op τ V)} {world : World τ V}
    (ran : run (step P) ops World.new = some world) : (∀ arche ∈ world.archetypes.arches,
      arche.denseComponents.SortedLT ∧ arche.sparseComponents.SortedLT ∧ arche.components.Nodup ∧
        world.tables.tables[arche.tableId]?.map Table.components = some arche.denseComponents) ∧
    (∀ (one two : ArcheId) (first second : Archetype), world.archetypes.arches[one]? = some first →
      world.archetypes.arches[two]? = some second →
      (∀ component, component ∈ first.components ↔ component ∈ second.components) → one = two) ∧
    (∀ (id : ArcheId) (bundle : BundleId) (arche : Archetype) (info : ComponentSlice),
      world.archetypes.arches[id]? = some arche → world.bundles.infos[bundle]? = some info →
      (∃ result after target, world.archeAfterInsert id bundle = some (result, after) ∧
        after.archetypes.arches[result]? = some target ∧
        ∀ component, component ∈ target.components ↔
          component ∈ arche.components ∨ component ∈ info.components) ∧
      (∃ result after target, world.archeAfterRemove P id bundle = some (result, after) ∧
        after.archetypes.arches[result]? = some target ∧
        ∀ component, component ∈ target.components ↔
          ∃ root ∈ arche.components, root ∉ info.components ∧
            after.components.Requires P root component) ∧
      (world.archeAfterInsert id bundle).map fst = (world.archeAfterInsertSlow id bundle).map fst ∧
      (world.archeAfterRemove P id bundle).map fst =
        (world.archeAfterRemoveSlow P id bundle).map fst) := by
  have hr := (complete_run ran).1.registered
  refine ⟨fun arche hm => ?_, fun one two first second he ht hsa => ?_,
    fun id bundle arche info he hen => ⟨?_, ?_, ?_, ?_⟩⟩
  · have hs := hr.archeSplit arche hm
    exact ⟨hs.denseSorted, hs.sparseSorted, hs.nodup, hr.archeTable arche hm⟩
  · have heq := (hr.archeSplit first (mem_of_getElem? he)).components_eq
      (hr.archeSplit second (mem_of_getElem? ht)) hsa
    refine Interned.id_unique hr.archetypes (by rw [List.getElem?_map, he, map_some]) ?_
    rw [List.getElem?_map, ht, map_some, heq]
  · obtain ⟨result, after, ho, -, -, target, aim, hl⟩ :=
      hr.archeAfterInsert he hen
    exact ⟨result, after, target, ho, aim, hl⟩
  · obtain ⟨result, after, ho, -, -, target, aim, hl⟩ :=
      hr.archeAfterRemove he hen
    exact ⟨result, after, target, ho, aim, hl⟩
  · exact archeAfterInsert_eq_slow hr he hen
  · exact archeAfterRemove_eq_slow hr he hen

/-- **Archetypes in use are closed.**  In every world a program can reach, an archetype
that holds an entity contains all its components require, and so the components of an
entity after a removal are among those it had before. -/
theorem run_archetypes_closed (P : Program τ V) {ops : List (Op τ V)} {world : World τ V}
    (ran : run (step P) ops World.new = some world) :
    (∀ id slice entity, entity ∈ world.archeRows id → world.sliceOf id = some slice →
      ∀ root ∈ slice.components, ∀ component,
        world.components.Requires P root component → component ∈ slice.components) ∧
    (∀ (entity : Entity) (op : Op τ V) (after : World τ V), op.RemovesFrom entity →
      step P op world = some after → ∀ result, after.sliceAt entity = some result →
        ∃ slice, world.sliceAt entity = some slice ∧
          ∀ component ∈ result.components, component ∈ slice.components) := by
  have hc := complete_run ran
  constructor
  · intro id slice entity hm hf
    obtain ⟨s, hs, hcl⟩ := hc.2 id entity hm
    obtain rfl := some.inj (hf.symm.trans hs)
    exact hcl
  · intro entity op after hr ho result hf
    have hn := hc.1.step ho
    obtain ⟨id, hm, s⟩ := ((hn.settled entity).sliceAt_iff result).mp hf
    obtain ⟨old, slice, hio, he, hi⟩ :=
      shrunk_step hc hr ho id result hm s
    exact ⟨slice, ((hc.1.settled entity).sliceAt_iff slice).mpr ⟨old, hio, he⟩, hi⟩

end Types

/-- Transitions at work: the archetype of both components is reached in two ways. -/
theorem run_archetypes_canonical_transitions : ∃ world, run (step denseAndSparse)
        [.spawn (Bundle.zeros ⟨1, [true]⟩), .insert (entityFromU32 1) (Bundle.zeros ⟨2, [false]⟩),
          .spawn (Bundle.zeros ⟨3, [true, false]⟩),
          .removeExplicit (entityFromU32 128) ⟨2, [false]⟩] World.new = some world ∧
      ∀ (one two : ArcheId) (first second : Archetype), world.archetypes.arches[one]? = some first →
        world.archetypes.arches[two]? = some second →
        (∀ component, component ∈ first.components ↔ component ∈ second.components) →
        one = two := by
  refine exists_of_isSome (by decide +kernel) fun world ran => ?_
  exact (run_archetypes_canonical denseAndSparse ran).2.1

/-- Three components, the first of which requires the second and that the third. -/
def chained : Program (Fin 3) ℕ :=
  Program.numbers (fun _ => .dense)
    (fun type => if type = 0 then [1] else if type = 1 then [2] else []) 0

/-- The same chain with a sparse end. -/
def sparseEnd : Program (Fin 3) ℕ :=
  Program.numbers (fun type => if type = 2 then .sparse else .dense)
    (fun type => if type = 0 then [1] else if type = 1 then [2] else []) 0

/-- Requirements at work: the second component cannot be removed alone. -/
theorem run_archetypes_closed_chained : ∃ world, run (step chained)
        [.spawn (Bundle.zeros ⟨1, [0]⟩), .removeExplicit (entityFromU32 1) ⟨2, [1]⟩,
          .removeRequired (entityFromU32 1) ⟨2, [1]⟩] World.new = some world ∧
      ∀ id slice entity, entity ∈ world.archeRows id → world.sliceOf id = some slice →
        ∀ root ∈ slice.components, ∀ component,
          world.components.Requires chained root component → component ∈ slice.components := by
  refine exists_of_isSome (by decide +kernel) fun world ran => ?_
  exact (run_archetypes_closed chained ran).1

end World

end Voker.Ecs
