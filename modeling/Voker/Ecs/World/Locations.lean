import Voker.Ecs.World.Relocation
import Voker.Ecs.World.Targets

/-!
# Locations are exact

Every operation, whatever it is called with, leaves a world in which **the location of an
entity names the rows that hold it, and every row in use belongs to exactly one spawned
entity**, whether it returns or panics.

An operation unsettles one entity and settles it before it returns.  If it panics on the
way, its guard forgets the entity.

The panics meant are the causes of `Panic`.  A value whose `Drop` panics is not among them:
`swap_drop_not_last` drops a value while its row is being given up (`Table.deallocRow`,
`Table.moveRow`), and here dropping always returns.  The worlds that a program can reach are
therefore those of programs whose components drop without a panic.
-/

namespace Voker.Ecs

open Foundation List Option Prod Entities Keeps

/-- A fault that a program can catch. -/
def Fault.Caught (fault : Fault) : Prop := ∃ cause, fault = .panic cause

/-- Nothing needs to be shown about other faults. -/
theorem Fault.not_caught {f : Fault} {p : Prop}
    (ho : ∀ c, f ≠ .panic c) : f.Caught → p :=
  fun ⟨c, hs⟩ => absurd hs (ho c)

namespace World

variable {τ V α : Type} {P : Program τ V}

/-- The registries are in order, the empty archetype has number zero, and so has its
table, and every entity is settled. -/
structure Orderly (P : Program τ V) (world : World τ V) : Prop where
  registered : Registered P world
  empty : world.sliceOf 0 = some ⟨[], 0⟩ ∧ world.tableOf 0 = some 0
  settled : ∀ entity, world.Settled entity

theorem Orderly.next {pre post : World τ V} (ord : Orderly P pre)
    (reg : Registered P post) (hs : Statics pre post)
    (hse : ∀ e, post.Settled e) : Orderly P post :=
  ⟨reg, ⟨hs.sliceOf ord.empty.1, hs.tableOf ord.empty.2⟩, hse⟩

/-- Registrations move nobody. -/
theorem Orderly.extend {pre post : World τ V} (ord : Orderly P pre)
    (hgr : Extends P pre post) : Orderly P post ∧ SameRows pre post := by
  obtain ⟨reg, hg⟩ := hgr ord.registered
  exact ⟨ord.next reg hg.toStatics fun e => (ord.settled e).sameRows hg.sameRows, hg.sameRows⟩

variable {comp body : Exec τ V α} {entity : Entity} {world : World τ V}

/-- The registries are taken care of by the scope of an operation. -/
theorem keeps_orderly (hm : Moves (Evolves P Scope.all) comp)
    (hse : ∀ world, Orderly P world → Sat comp world (fun _ post => ∀ entity,
      post.Settled entity) (fun f post => f.Caught → ∀ entity, post.Settled entity)) :
    Keeps Fault.Caught (Orderly P) comp := by
  intro world ord
  refine ((hm world).and (hse world ord)).mono ?_ ?_
  · rintro _ post ⟨he, hs⟩
    obtain ⟨reg, hk⟩ := he ord.registered
    exact ord.next reg hk.toStatics hs
  · rintro f post ⟨he, hs⟩ hc
    obtain ⟨reg, hk⟩ := he ord.registered
    exact ord.next reg hk.toStatics (hs hc)

/-! ## Guards -/

/-- If the guarded part panics only while its entity is loose, everything is settled
after the cleanup. -/
theorem guarded_settles {w : World τ V} {ret : α → World τ V → Prop}
    (hi : Sat body w ret fun _ post => post.Loose entity) : Sat (guarded P entity body) w ret
      fun f post => f.Caught → ∀ o, post.Settled o := by
  unfold guarded
  rw [sat_onPanic]
  refine hi.mono (fun _ _ ho => ho) fun f post hlo => ?_
  cases f with
  | panic c =>
    refine (forget_settles hlo).mono (fun _ _ hs _ => hs) fun two fi _ => ?_
    cases two with
    | panic _ => exact Fault.not_caught (by simp)
    | _ => exact Fault.not_caught (by simp)
  | _ => exact Fault.not_caught (by simp)

theorem keeps_guarded (hm : Moves (Evolves P Scope.all) body)
    (hi : ∀ world, Orderly P world → Sat body world (fun _ post => ∀ o,
      post.Settled o) (fun _ post => post.Loose entity)) :
    Keeps Fault.Caught (Orderly P) (guarded P entity body) :=
  keeps_orderly (moves_guarded trivial hm) fun world ord =>
    guarded_settles (hi world ord)

/-- What is known after a failure says that a caught panic leaves the invariant, and nothing
about the end of the process. -/
structure Mends (fails : Fault → World τ V → Prop) (Inv : World τ V → Prop) : Prop where
  caught : ∀ cause after, fails (.panic cause) after → Inv after
  resumed : ∀ cause after final, fails (.panic cause) after → Inv final →
    fails (.panic cause) final
  abort : ∀ world, fails .abort world
  outOfFuel : ∀ world, fails .outOfFuel world

theorem mends_caught (Inv : World τ V → Prop) :
    Mends (fun f post => f.Caught → Inv post) Inv where
  caught := fun c _ hk => hk ⟨c, rfl⟩
  resumed := fun _ _ _ _ hk _ => hk
  abort := fun _ => Fault.not_caught (by simp)
  outOfFuel := fun _ => Fault.not_caught (by simp)

/-- A cleanup that upholds an invariant can be added to what upholds it. -/
theorem upholds_onPanic {fails : Fault → World τ V → Prop} {Inv : World τ V → Prop}
    (mends : Mends fails Inv) {c : Exec τ V Unit} (hc : Upholds fails Inv c)
    (hi : Upholds fails Inv body) : Upholds fails Inv (onPanic c body) := by
  intro world ho
  rw [sat_onPanic]
  refine (hi world ho).mono (fun _ _ hk => hk) fun fa post hf => ?_
  cases fa with
  | panic ca =>
    refine (hc post (mends.caught ca post hf)).mono
      (fun _ f hk => mends.resumed ca post f hf hk) fun two f ha => ?_
    cases two with
    | panic _ => exact mends.abort f
    | _ => exact ha
  | _ => exact hf

/-- A settled entity's rows are those of its location. -/
theorem Settled.locate_iff {e : Entity} (hs : world.Settled e)
    (loc : EntityLocation) : world.entities.locate e = .ok loc ↔
      (world.archeRows loc.archeId)[loc.archeRow]? = some e ∧
        (world.tableRows loc.tableId)[loc.tableRow]? = some e ∧
        world.tableOf loc.archeId = some loc.tableId := by
  rw [locate_eq_ok]
  constructor
  · intro ha
    have he := hs.held
    rw [ha] at he
    exact ⟨(he .arche _ _).mpr rfl, (he .table _ _).mpr rfl, hs.link loc ha⟩
  · rintro ⟨hia, hit, -⟩
    obtain ⟨hf, ha, har⟩ := map_eq_some_iff.mp ((hs.held .arche).unique hia)
    obtain ⟨a, hal, ht⟩ := map_eq_some_iff.mp ((hs.held .table).unique hit)
    obtain rfl := some.inj (ha.symm.trans hal)
    obtain ⟨hai, hac⟩ := Prod.mk.inj har
    obtain ⟨hti, htr⟩ := Prod.mk.inj ht
    cases hf
    cases loc
    simp_all

/-- A row in use is the row of the entity it holds, and of no other. -/
theorem existsUnique_owner (hs : ∀ e, world.Settled e) (s : Store) {list row : ℕ}
    {e : Entity} (he : (world.rows s list)[row]? = some e) :
    ∃! o, ∃ loc, world.entities.locate o = .ok loc ∧ s.place loc = (list, row) := by
  obtain ⟨loc, ha, hp⟩ := map_eq_some_iff.mp (((hs e).held s).unique he)
  refine ⟨e, ⟨loc, locate_eq_ok.mpr ha, hp⟩, ?_⟩
  rintro o ⟨ot, hf, hsa⟩
  have ho := (hs o).held s
  rw [locate_eq_ok.mp hf, map_some, hsa] at ho
  exact some.inj (((ho list row).mpr rfl).symm.trans he)

/-! ## Operations -/

/-- What moves nobody keeps the world orderly. -/
theorem keeps_of_sameRows (hm : Moves (Evolves P Scope.all) comp) (hs : Moves SameRows comp) :
    Keeps Fault.Caught (Orderly P) comp :=
  keeps_orderly hm fun world ord => (hs world).mono
    (fun _ _ hs entity => (ord.settled entity).sameRows hs)
    (fun _ _ hs _ entity => (ord.settled entity).sameRows hs)

theorem keeps_of_extends (hg : Moves (Extends P) comp) : Keeps Fault.Caught (Orderly P) comp :=
  hg.keeps fun _ _ hg ord => (ord.extend hg).1

theorem keeps_allocMut : Keeps Fault.Caught (Orderly P) (allocMut : Exec τ V Entity) :=
  keeps_of_sameRows moves_allocMut sameRows_allocMut

/-- The guarded part of a despawn: the slot of the entity is vacant afterwards. -/
theorem guarded_despawnRows {w : World τ V} (ord : Orderly P w)
    {loc : EntityLocation} (ha : w.entities.located entity = some loc) :
    Sat (guarded P entity (despawnRows P entity loc)) w
      (fun r post => r = (.ok (), .ok ()) ∧
        (∀ o, post.Settled o) ∧ post.entities.locationAt entity.id = none)
      (fun f post => f.Caught → ∀ o, post.Settled o) := by
  have hm : Moves (Evolves P Scope.current) (guarded P entity (despawnRows P entity loc)) :=
    moves_guarded trivial (moves_despawnRows trivial loc)
  refine ((hm w).and (guarded_settles
    (despawnRows_settles ord.settled ha))).mono ?_ fun _ _ hb => hb.2
  rintro r post ⟨he, rfl, hs, hd⟩
  refine ⟨rfl, hs, ?_⟩
  rw [located_eq_ite, if_pos] at hd
  · exact hd
  -- nothing but `free` changes the generation of an id
  obtain ⟨hin, tag⟩ := tagAt_of_located ha
  have ht := (he ord.registered).2.tags id
  rw [ht.tags entity.id hin, tag]

section

variable (e : Entity)

theorem keeps_debugCanSpawn : Keeps Fault.Caught (Orderly P) (debugCanSpawn P e : Exec τ V Unit) :=
  keeps_of_sameRows (moves_debugCanSpawn e) (moves_debugCanSpawn e)

theorem keeps_despawn : Keeps Fault.Caught (Orderly P) (despawn P e) := by
  refine keeps_orderly (moves_despawn trivial trivial) fun world ord => ?_
  unfold despawn
  rw [sat_bind, sat_get]
  cases hf : world.entities.locate e with
  | error err => exact ord.settled
  | ok loc =>
    rw [sat_bind]
    refine (guarded_despawnRows ord (locate_eq_ok.mp hf)).bind ?_
    rintro r post ⟨rfl, hs, hv⟩
    exact fun o => ((hs o).sameLocated (located_free hv)).sameRows
      (sameRows_allocator _ _)

theorem keeps_forget : Keeps Fault.Caught (Orderly P) (forget P e) := by
  refine keeps_orderly (moves_forget trivial) fun world ord => ?_
  refine (forget_of_once (fun o _ => ord.settled o) fun s =>
    ((ord.settled e).held s).onceEach).mono (fun _ _ hs => hs)
    fun _ _ hs _ => hs

theorem keeps_clear : Keeps Fault.Caught (Orderly P) (clear P e) := by
  refine keeps_orderly (moves_clear trivial trivial) fun world ord => ?_
  have hs := ord.settled
  unfold clear
  rw [sat_bind]
  refine sat_spawnedLocation.mpr ⟨fun loc hf => ?_, fun _ _ _ => hs⟩
  have hal := locate_eq_ok.mp hf
  split
  · exact hs
  refine guarded_settles ?_
  rw [sat_bind]
  refine sat_archetype.mpr ⟨fun old _ => ?_, fun _ => loose_of_settled hs e⟩
  refine (moveRows_adrift hs hal ord.empty.2 true).bind ?_
  rintro a m ⟨ha, hli⟩
  exact (ha.through (.forM fun c _ => sameRows_deallocMapRow true c e)).bind
    (fun _ _ ha => ha.arrive hli)

end

theorem keeps_spawnInto (id : ArcheId) (b : Bundle τ V) (e : Entity) :
    Keeps Fault.Caught (Orderly P) (spawnInto P id b e) := by
  refine (keeps_debugCanSpawn e).bind fun _ => keeps_guarded ?_ ?_
  · exact moves_spawnBody trivial trivial b
  intro world ord
  refine (allocRows_entered ord.registered ord.settled id e).bind ?_
  intro loc wr he
  refine (he.through (moves_bundle_writeExplicit storing_sameRows b _)).bind ?_
  intro w wri he
  refine (he.through (moves_bundle_writeRequired storing_sameRows b.type w)).bind ?_
  exact fun _ _ he => he.arrive

theorem keeps_spawnUninit (id : ArcheId) :
    Keeps Fault.Caught (Orderly P) (spawnUninit P id : Exec τ V (Entity × EntityLocation)) := by
  refine bind keeps_allocMut fun entity => ?_
  refine (keeps_debugCanSpawn entity).bind fun _ => keeps_guarded ?_ ?_
  · exact moves_uninitBody trivial trivial
  intro world ord
  refine (allocRows_entered ord.registered ord.settled id entity).bind ?_
  intro loc wr he
  exact he.arrive.bind (fun _ _ hs => hs)

section Types

variable [DecidableEq τ] [Fintype τ]

theorem keeps_insert (e : Entity) (b : Bundle τ V) :
    Keeps Fault.Caught (Orderly P) (insert P e b) := by
  refine keeps_orderly (moves_insert trivial (fun _ => trivial) b) fun world ord => ?_
  refine sat_insert ord.registered (ord.settled e) (fun _ => ord.settled) ?_
  intro loc t mid ha hi
  have hsa := hi.grew.sameRows
  have hs := fun o => (ord.settled o).sameRows hsa
  refine guarded_settles ?_
  split
  · exact insertLocal_settles hs b
  · exact insertMoved_settles hs (by rw [hsa.entities]; exact ha) t b

theorem keeps_removeDynamic (e : Entity) (b : BundleId) :
    Keeps Fault.Caught (Orderly P) (removeDynamic P e b) := by
  refine keeps_orderly (moves_removeDynamic trivial (fun _ => trivial) b) fun world ord => ?_
  refine sat_removeDynamic ord.registered (fun _ => ord.settled) (fun _ => ord.settled) ?_
  intro loc t mid ha hr
  have hsa := hr.grew.sameRows
  have hs := fun o => (ord.settled o).sameRows hsa
  refine guarded_settles ?_
  split
  · exact hs
  · exact removeMoved_settles hs (by rw [hsa.entities]; exact ha) t

theorem keeps_spawn (b : Bundle τ V) : Keeps Fault.Caught (Orderly P) (spawn P b) :=
  (keeps_of_extends (extends_spawnArchetype b.type)).bind fun id =>
    bind keeps_allocMut fun entity =>
      (keeps_spawnInto id b entity).bind fun _ => .pure _

theorem keeps_spawnAt (b : Bundle τ V) (e : Entity) :
    Keeps Fault.Caught (Orderly P) (spawnAt P b e) := by
  refine bind .read fun world => ?_
  cases world.entities.canSpawn e with
  | error err => exact .pure _
  | ok _ =>
    refine (keeps_of_extends (extends_spawnArchetype b.type)).bind fun id => ?_
    exact (keeps_spawnInto id b e).bind fun _ => .pure _

end Types

/-! ### Cloning -/

theorem keeps_cloneEntity (hl : Bool) (c : EntityCloner V) (src : Entity) :
    Keeps Fault.Caught (Orderly P) (cloneEntity P hl c src) := by
  refine bind .read fun world => ?_
  cases world.entities.locate src with
  | error err => exact .pure _
  | ok loc =>
    refine (keeps_spawnUninit loc.archeId).bind fun made => ?_
    refine (keeps_guarded ?_ fun world ord => ?_).bind fun _ => .pure _
    · exact moves_cloneComponents storing_evolves hl src made.1 made.2 c
    · exact (moves_cloneComponents storing_sameRows hl src made.1 made.2 c
        world).mono (fun _ _ hs o => (ord.settled o).sameRows hs)
        (fun _ _ hs => (loose_of_settled ord.settled made.1).sameRows hs)

section Queue

variable {fails : Fault → World τ V → Prop} {Inv : World τ V → Prop} {hl : Bool}
  (mends : Mends fails Inv) (forgets : ∀ entity, Upholds fails Inv (forget P entity))

include forgets

theorem upholds_forgetCloned (c : EntityCloner V) :
    Upholds fails Inv (forgetCloned P c) :=
  .forM fun entity _ => forgets entity

include mends

/-- What cloning one entity upholds, working through the queue upholds. -/
theorem upholds_cloneAll (hc : ∀ c src, Upholds fails Inv (cloneEntity P hl c src))
    (fuel : ℕ) (c : EntityCloner V) : Upholds fails Inv (cloneAll P hl fuel c) := by
  induction fuel generalizing c with
  | zero =>
    unfold cloneAll
    split
    · exact .pure _
    · exact fun world _ => mends.outOfFuel world
    · next ha => exact absurd ha (by simp)
  | succ fuel ih =>
    unfold cloneAll
    split
    · exact .pure _
    · exact fun world _ => mends.outOfFuel world
    · next src rest p _ he =>
      obtain rfl := Nat.succ.inj he
      exact Upholds.bind (upholds_onPanic mends (upholds_forgetCloned forgets c)
        (hc _ src)) fun next => ih next

theorem upholds_spawnCloneBatch
    (hc : ∀ cl src, Upholds fails Inv (cloneEntity P hl cl src))
    (hca : ∀ m c, Upholds fails Inv (runCallback P m c))
    (fuel : ℕ) (s : List Entity) : Upholds fails Inv (spawnCloneBatch P hl fuel s) := by
  refine (upholds_cloneAll mends forgets hc fuel _).bind fun cl => ?_
  refine (upholds_onPanic mends (upholds_forgetCloned forgets cl) ?_).bind fun _ => .pure _
  exact .foldlM (fun m c _ => hca m c) _

end Queue

theorem keeps_runCallback (m : CloneEntityMapper) (c : PendingCallback V) :
    Keeps Fault.Caught (Orderly P) (runCallback P m c) :=
  keeps_of_sameRows (moves_runCallback storing_evolves m c)
    (moves_runCallback storing_sameRows m c)

/-! ### Observing -/

theorem sameRows_mergeFlags (w : World τ V) (obs : Observer) :
    SameRows w { w with archetypes := mergeFlags obs w.archetypes } := by
  have ha : ∀ id : ArcheId, ((mergeFlags obs w.archetypes).arches[id]?).map
        (fun arche : Archetype => (arche.entities, arche.tableId)) =
      (w.archetypes.arches[id]?).map fun arche : Archetype => (arche.entities, arche.tableId) := by
    intro id
    cases hf : w.archetypes.arches[id]? with
    | none => rw [getElem?_mergeFlags, hf, map_none]
    | some arche =>
      obtain ⟨now, hst, hs⟩ := mergeFlags_forth obs hf
      rw [hst, map_some, map_some, hs]
  refine ⟨rfl, ?_, fun id table hf => ?_⟩
  · funext s id
    cases s with
    | arche =>
      have es := congrArg (Option.map fst) (ha id)
      rw [Option.map_map, Option.map_map] at es
      exact congrArg (fun rows => rows.getD []) es
    | table => rfl
  · have ht := congrArg (Option.map snd) (ha id)
    rw [Option.map_map, Option.map_map] at ht
    exact ht.trans hf

theorem sameRows_observers (w : World τ V) (observers : List (Option Observer)) :
    SameRows w { w with observers := observers } := by
  refine ⟨rfl, ?_, fun _ _ hf => hf⟩
  funext s
  cases s with
  | arche => rfl
  | table => rfl

theorem keeps_removeObserver (id : ObserverId) :
    Keeps Fault.Caught (Orderly P) (modify (removeObserver id) : Exec τ V Unit) :=
  keeps_of_sameRows (fun world => evolves_removeObserver id world)
    (fun world => sameRows_observers world _)

theorem keeps_unwatch (id : ObserverId) (e : Entity) :
    Keeps Fault.Caught (Orderly P) (modify (unwatch id e) : Exec τ V Unit) :=
  keeps_of_sameRows (fun world => evolves_unwatch id e world)
    (fun world => sameRows_observers world _)

theorem keeps_pushObservedBy (e : Entity) (loc : EntityLocation) (id : ObserverId) :
    Keeps Fault.Caught (Orderly P) (pushObservedBy P e loc id) :=
  keeps_of_sameRows (moves_pushObservedBy storing_evolves e loc id)
    (moves_pushObservedBy storing_sameRows e loc id)

section Types

variable [DecidableEq τ] [Fintype τ]

/-- What the single steps uphold, noting the observer on all its entities upholds. -/
theorem upholds_watchEntities {fails : Fault → World τ V → Prop} {Inv : World τ V → Prop}
    {id : ObserverId}
    (hu : ∀ entity, Upholds fails Inv (modify (unwatch id entity) : Exec τ V Unit))
    (hr : Upholds fails Inv (modify (removeObserver id) : Exec τ V Unit))
    (hp : ∀ entity loc, Upholds fails Inv (pushObservedBy P entity loc id))
    (es : List Entity) (hi : ∀ entity ∈ es,
      Upholds fails Inv (insert P entity ⟨⟨1, [P.observedBy]⟩, [P.observe none id], rfl⟩)) :
    Upholds fails Inv (watchEntities P id es) := by
  induction es with
  | nil => exact .pure _
  | cons entity rest ih =>
    have hla := ih fun o mem => hi o (mem_cons_of_mem _ mem)
    refine Upholds.bind .read fun world => ?_
    cases world.entities.locate entity with
    | error err =>
      refine (hu entity).bind fun _ => Upholds.bind .read fun world => ?_
      split
      · exact hr
      · exact hla
    | ok loc =>
      refine (hp entity loc).bind fun p => ?_
      split
      · exact hla
      · exact Upholds.bind (hi entity mem_cons_self) fun _ => hla

theorem keeps_registerObserver (obs : Observer) :
    Keeps Fault.Caught (Orderly P) (registerObserver P obs) := by
  refine bind (fun world ord => ?_) fun _ => ?_
  · rw [sat_modify]
    obtain ⟨reg, hs⟩ := ord.registered.mergeFlags obs
    exact ord.next reg hs fun entity =>
      (ord.settled entity).sameRows (sameRows_mergeFlags world obs)
  · refine bind (fun world ord => ?_) fun id =>
      bind (upholds_watchEntities (keeps_unwatch id) (keeps_removeObserver id)
        (fun entity loc => keeps_pushObservedBy entity loc id) obs.entities
        fun entity _ => keeps_insert entity _) fun _ => .pure _
    exact ⟨{ ord.registered with }, ord.empty, fun entity =>
      (ord.settled entity).sameRows (sameRows_observers world _)⟩

/-! ## Runs -/

/-- **Every operation keeps the world orderly**, whether it returns or panics. -/
theorem keeps_exec (op : Op τ V) : Keeps Fault.Caught (Orderly P) (exec P op) := by
  cases op with
  | spawn b => exact (keeps_spawn b).bind fun _ => .pure _
  | spawnAt b entity => exact (keeps_spawnAt b entity).bind fun _ => .pure _
  | insert entity b => exact keeps_insert entity b
  | removeExplicit entity type =>
    exact bind (keeps_of_extends fun world => extends_registerExplicitBundle world type)
      fun b => keeps_removeDynamic entity b
  | removeRequired entity type =>
    exact bind (keeps_of_extends fun world => extends_registerRequiredBundle world type)
      fun b => keeps_removeDynamic entity b
  | removeDynamic entity b => exact keeps_removeDynamic entity b
  | clear entity => exact keeps_clear entity
  | despawn entity => exact (keeps_despawn entity).bind fun _ => .pure _
  | forget entity => exact keeps_forget entity
  | clone hl fuel s =>
    exact bind (upholds_spawnCloneBatch (mends_caught _) keeps_forget
      (keeps_cloneEntity hl) keeps_runCallback fuel s) fun _ => .pure _
  | registerObserver obs =>
    exact (keeps_registerObserver obs).bind fun _ => .pure _
  | removeObserver id => exact keeps_removeObserver id
  | _ => exact keeps_of_extends (extends_exec trivial)

variable {post : World τ V} {op : Op τ V}

/-- What holds after an operation, whether it returns or its panic is caught, holds after
the step. -/
theorem step_sat {Holds : World τ V → Prop}
    (sat : Sat (exec P op) world (fun _ => Holds) fun f fi => f.Caught → Holds fi)
    (out : step P op world = some post) : Holds post := by
  unfold Sat at sat
  unfold World.step at out
  cases res : exec P op world with
  | ok _ fi =>
    rw [res] at sat out
    obtain rfl := some.inj out
    exact sat
  | error f fi =>
    rw [res] at sat out
    cases f with
    | panic c =>
      obtain rfl := some.inj out
      exact sat ⟨c, rfl⟩
    | _ => cases out

/-- What an operation keeps, a step keeps. -/
theorem step_keeps {Inv : World τ V → Prop} (hk : Keeps Fault.Caught Inv (exec P op))
    (ho : Inv world) (out : step P op world = some post) : Inv post :=
  step_sat (hk world ho) out

theorem Orderly.step (ord : Orderly P world) (out : step P op world = some post) : Orderly P post :=
  step_keeps (keeps_exec op) ord out

omit [Fintype τ] in
theorem orderly_new (P : Program τ V) : Orderly P (World.new : World τ V) where
  registered := registered_new P
  empty := ⟨rfl, rfl⟩
  settled := by
    intro entity
    have hd : (World.new : World τ V).entities.located entity = none := rfl
    refine ⟨fun s => ?_, fun loc ha => absurd (hd.symm.trans ha) (by simp)⟩
    rw [hd, map_none, heldAt_none_iff]
    intro list
    have empty : (World.new : World τ V).rows s list = [] := by
      cases s with
      | arche =>
        cases list with
        | zero => rfl
        | succ list => rfl
      | table =>
        cases list with
        | zero => rfl
        | succ list => rfl
    rw [empty]
    exact not_mem_nil

/-- **Locations are exact.**  In every world a program can reach, a handle leads to a
location exactly if the archetype row and the table row of that location hold the handle
and the table is the archetype's; and every archetype row and table row in use is the row
of exactly one spawned entity. -/
theorem run_locations_exact (P : Program τ V) {ops : List (Op τ V)} {world : World τ V}
    (ran : run (step P) ops World.new = some world) :
    (∀ entity location, world.entities.locate entity = .ok location ↔
      (world.archeRows location.archeId)[location.archeRow]? = some entity ∧
        (world.tableRows location.tableId)[location.tableRow]? = some entity ∧
        world.tableOf location.archeId = some location.tableId) ∧
    (∀ id row, row < (world.archeRows id).length → ∃! owner, ∃ location,
      world.entities.locate owner = .ok location ∧
        location.archeId = id ∧ location.archeRow = row) ∧
    (∀ id row, row < (world.tableRows id).length → ∃! owner, ∃ location,
      world.entities.locate owner = .ok location ∧
        location.tableId = id ∧ location.tableRow = row) := by
  have ho : Orderly P world :=
    run_invariant (fun _ _ _ ho hou => ho.step hou) (orderly_new P) ran
  refine ⟨fun entity => (ho.settled entity).locate_iff, fun id row hi => ?_,
    fun id row hi => ?_⟩
  · have owner := existsUnique_owner ho.settled .arche (List.getElem?_eq_getElem hi)
    simpa only [Store.place, Prod.mk.injEq] using owner
  · have owner := existsUnique_owner ho.settled .table (List.getElem?_eq_getElem hi)
    simpa only [Store.place, Prod.mk.injEq] using owner

/-- **The registries are in order in every state of a run**, also after a panic. -/
theorem run_registered (ops : List (Op τ V)) : Throughout (step P) (Registered P) ops World.new :=
  throughout_of_invariant (fun _ _ _ => Orderly.step) (fun _ => Orderly.registered) (orderly_new P)

end Types

/-- A dense component and a sparse one. -/
def denseAndSparse : Program Bool ℕ :=
  Program.numbers (fun type => if type then .sparse else .dense) (fun _ => []) false

/-- Rows at work: two entities leave a table in which a third stands, which moves up. -/
theorem run_locations_exact_swapping : ∃ world, run (step denseAndSparse)
        [.spawn (Bundle.zeros ⟨1, [false]⟩), .spawn (Bundle.zeros ⟨2, [false, true]⟩),
          .spawn (Bundle.zeros ⟨1, [false]⟩), .clear (entityFromU32 1),
          .removeRequired (entityFromU32 128) ⟨3, [true]⟩, .despawn (entityFromU32 128)]
        World.new = some world ∧ ∀ entity location, world.entities.locate entity = .ok location ↔
        (world.archeRows location.archeId)[location.archeRow]? = some entity ∧
          (world.tableRows location.tableId)[location.tableRow]? = some entity ∧
          world.tableOf location.archeId = some location.tableId := by
  refine exists_of_isSome (by decide +kernel) fun world ran => ?_
  exact (run_locations_exact denseAndSparse ran).1

end World

end Voker.Ecs
