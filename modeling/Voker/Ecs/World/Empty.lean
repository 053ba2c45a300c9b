import Voker.Ecs.World.Mapped

/-!
# Spawning without components

`spawn_empty` and `spawn_empty_at` are meant as shortcuts for spawning the unit bundle.  They
set up the same guard as every other path, but where those defuse it with `mem::forget`, these
two end in `mem::drop`.  The destructor of the guard does not ask whether a panic is
unwinding: **the entity is forgotten on the normal path as well**, and the handle that is
returned leads nowhere.

`spawn_empty_at` checks the handle it is given and then spawns at one the allocator hands
out, so the checked handle stays dead either way.
-/

namespace Voker.Ecs

namespace World

open Foundation Option Function

variable {τ V α : Type} (P : Program τ V)

/-! ## The shortcuts -/

/-- What runs between the creation of a `ForgetEntityOnPanic` and its `drop`. -/
def dropping (entity : Entity) (body : Exec τ V α) : Exec τ V α := do
  let result ← guarded P entity body
  forget P entity
  return result

/-- Rows in the empty archetype and the empty table, both of which have number zero. -/
def placeEmpty (entity : Entity) : Exec τ V EntityLocation := do
  let archeRow ← allocArcheRow P 0 entity
  let tableRow ← allocTableRow P 0 entity
  let location := ⟨0, archeRow, 0, tableRow⟩
  setSpawned P entity location
  return location

/-- `spawn_empty_with_caller`: the entity and the location of the `EntityOwned`. -/
def spawnEmpty : Exec τ V (Entity × EntityLocation) := do
  let entity ← allocMut
  let location ← dropping P entity (placeEmpty P entity)
  return (entity, location)

/-- `spawn_empty_at_with_caller`: after the check, the entity is a new one. -/
def spawnEmptyAt (entity : Entity) : Exec τ V (Except SpawnError (Entity × EntityLocation)) := do
  let world ← get
  match world.entities.canSpawn entity with
  | .error err => return .error err
  | .ok _ =>
    let made ← spawnEmpty P
    return .ok made

/-- `alloc_entity`. -/
def allocEntity : Exec τ V Entity := do
  let world ← get
  let result := world.allocator.alloc
  set { world with allocator := result.2 }
  unwrapSome .tooManyEntities result.1

/-- The command `spawn_empty_at`; what it returns is for the error handler. -/
def spawnEmptyAtCommand (entity : Entity) : Exec τ V Unit := do
  let _ ← spawnEmptyAt P entity

/-- `Commands::spawn_empty`: the reserved entity and the command that is queued for it. -/
def commandsSpawnEmpty : Exec τ V (Entity × Exec τ V Unit) := do
  let entity ← allocEntity
  return (entity, spawnEmptyAtCommand P entity)

/-! ## What they are for -/

/-- The value `()`. -/
def unitBundle : Bundle τ V := ⟨BundleType.unit, [], rfl⟩

/-- The handle leads to an entity without components. -/
def Stands (world : World τ V) (made : Entity × EntityLocation) : Prop :=
  world.entities.locate made.1 = .ok made.2 ∧
    ∃ slice, world.sliceAt made.1 = some slice ∧ slice.components = []

/-- Locations agree up to the names of entities. -/
def Renamed (rename : Equiv.Perm Entity) (one two : World τ V) : Prop :=
  ∀ entity, two.entities.located (rename entity) = one.entities.located entity

/-- `spawn_empty` does what `spawn(())` does. -/
def SpawnsEmpty [DecidableEq τ] [Fintype τ] (world : World τ V) : Prop :=
  ∃ made after, spawnEmpty P world = .ok made after ∧ after.Stands made ∧
    ∃ entity same rename, spawn P unitBundle world = .ok entity same ∧
      rename made.1 = entity ∧ Renamed rename after same

/-- `spawn_empty_at` spawns the entity it is given and takes no id from the allocator. -/
def SpawnsEmptyAt (entity : Entity) (world : World τ V) : Prop :=
  ∃ location after, spawnEmptyAt P entity world = .ok (.ok (entity, location)) after ∧
    after.Stands (entity, location) ∧ after.allocator = world.allocator

/-! ## What they do -/

section Dead

variable {P} {w : World τ V} {e victim : Entity}

theorem dead_of_canSpawn (can : w.entities.canSpawn e = .ok ()) : w.entities.located e = none := by
  refine Entities.located_eq_none_of_locationAt ?_
  unfold Entities.canSpawn at can
  unfold Entities.locationAt
  cases hs : w.entities.infos[e.id.index]? with
  | none => rfl
  | some info =>
    simp only [hs, getD_some] at can
    split at can
    · cases can
    · next hv => simpa using hv

/-- **Forgetting brings nobody to life**, and its entity is dead afterwards. -/
theorem dead_forget (hd : victim = e ∨ w.entities.located victim = none) :
    Sat (forget P e) w (fun _ post => post.entities.located victim = none) (fun _ _ => True) := by
  unfold forget
  rw [sat_bind]
  refine sat_dropLocation fun es hl => ?_
  have hs : w.maps = w.maps ∧ es.located victim = none := by
    refine ⟨rfl, ?_⟩
    rw [hl, update_apply]
    split
    · rfl
    · next ho => exact hd.resolve_left ho
  rw [sat_bind, sat_get, sat_bind]
  refine (Upholds.forM (fun id _ => found_forgetArche id) _ hs).mono ?_ fun _ _ _ => trivial
  intro _ one hk
  rw [sat_bind]
  refine (Upholds.forM (fun id _ => found_forgetTable id) one hk).mono ?_ fun _ _ _ => trivial
  rintro _ two ⟨-, hg⟩
  refine (Moves.forM (fun id _ => sameRows_forgetMap id) two).mono (fun _ post hsa => ?_)
    fun _ _ _ => trivial
  rw [hsa.entities]
  exact hg

/-- Placing an entity brings nobody else to life. -/
theorem dead_placeEmpty (ho : victim ≠ e) (hd : w.entities.located victim = none) :
    Sat (placeEmpty P e) w (fun _ post => post.entities.located victim = none)
      (fun _ _ => True) := by
  unfold placeEmpty
  rw [sat_bind]
  refine sat_allocArcheRow.mpr ⟨fun _ _ => ?_, fun _ => trivial⟩
  rw [sat_bind]
  refine sat_allocTableRow.mpr ⟨fun _ _ => ?_, fun _ => trivial⟩
  rw [sat_bind]
  refine sat_setSpawned.mpr ⟨fun es hok => ?_, fun _ _ => trivial⟩
  obtain ⟨-, hl, -⟩ := Entities.setSpawned_ok hok
  change es.located victim = none
  rw [hl, update_of_ne ho]
  exact hd

/-- What is dropped with its guard is dead. -/
theorem dead_dropping (hd : victim = e ∨ w.entities.located victim = none) :
    Sat (dropping P e (placeEmpty P e)) w
      (fun _ post => post.entities.located victim = none) (fun _ _ => True) := by
  unfold dropping
  rw [sat_bind]
  have hp : Sat (guarded P e (placeEmpty P e)) w
      (fun _ mid => victim = e ∨ mid.entities.located victim = none) (fun _ _ => True) := by
    refine guarded_returns ?_
    rcases eq_or_ne victim e with own | ho
    · exact (sat_trivial _ _).mono (fun _ _ _ => .inl own) fun _ _ _ => trivial
    · exact (dead_placeEmpty ho (hd.resolve_left ho)).mono
        (fun _ _ hg => .inr hg) fun _ _ _ => trivial
  refine hp.mono (fun loc mid hd => ?_) fun _ _ _ => trivial
  rw [sat_bind]
  exact dead_forget hd

/-- The new entity is dead when the call returns, and so is who was dead before. -/
theorem dead_spawnEmpty (victim : Entity) : Sat (spawnEmpty P) w
      (fun made post => victim = made.1 ∨ w.entities.located victim = none →
        post.entities.located victim = none) (fun _ _ => True) := by
  unfold spawnEmpty
  rw [sat_bind]
  refine sat_allocMut.mpr ⟨fun e _ => ?_, fun _ => trivial⟩
  rw [sat_bind]
  by_cases hde : victim = e ∨ w.entities.located victim = none
  · have hd : Sat (dropping P e (placeEmpty P e))
        { w with allocator := w.allocator.allocMut.2 }
        (fun _ post => post.entities.located victim = none) (fun _ _ => True) :=
      dead_dropping hde
    exact hd.mono (fun _ _ hg _ => hg) fun _ _ _ => trivial
  · exact (sat_trivial _ _).mono (fun _ _ _ he => absurd he hde) fun _ _ _ => trivial

end Dead

/-- **In no world does `spawn_empty` do what `spawn(())` does**: where it returns, its handle
cannot be located. -/
theorem not_spawnsEmpty [DecidableEq τ] [Fintype τ] (world : World τ V) :
    ¬ SpawnsEmpty P world := by
  rintro ⟨made, a, ho, ⟨hf, -⟩, -⟩
  have hd := (dead_spawnEmpty made.1).of_ok ho (.inl rfl)
  cases hd.symm.trans (Entities.locate_eq_ok.mp hf)

/-- The first call in a new world returns a handle that leads nowhere, though `spawn(())`
returns one that can be located. -/
theorem spawnEmpty_new_lost : (∃ made after, spawnEmpty denseAndSparse World.new = .ok made after ∧
      after.entities.located made.1 = none) ∧
    ∃ entity after, spawn denseAndSparse unitBundle World.new = .ok entity after ∧
      after.entities.located entity ≠ none :=
  ⟨Sat.exists_ok (by decide +kernel), Sat.exists_ok (by decide +kernel)⟩

section Dead

variable {P} {w post : World τ V} {e : Entity}

theorem dead_spawnEmptyAt (hd : w.entities.located e = none) :
    Sat (spawnEmptyAt P e) w (fun _ post => post.entities.located e = none) (fun _ _ => True) := by
  unfold spawnEmptyAt
  rw [sat_bind, sat_get]
  cases w.entities.canSpawn e with
  | error err => exact hd
  | ok _ =>
    rw [sat_bind]
    exact (dead_spawnEmpty e).mono (fun _ _ hg => hg (.inr hd)) fun _ _ _ => trivial

/-- What is queued for a reserved entity. -/
theorem queued_commandsSpawnEmpty :
    Sat (commandsSpawnEmpty P) w (fun made _ => made.2 = spawnEmptyAtCommand P made.1)
      (fun _ _ => True) := by
  unfold commandsSpawnEmpty allocEntity
  rw [sat_bind, sat_bind, sat_get, sat_bind, sat_set, sat_unwrapSome]
  refine ⟨fun e hf => ?_, fun _ => trivial⟩
  rw [sat_pure]

end Dead

/-- **`spawn_empty_at` never spawns the entity it is given**, so an entity that
`Commands::spawn_empty` reserves does not exist after its command was applied. -/
theorem not_spawnsEmptyAt {world : World τ V} {entity : Entity}
    (can : world.entities.canSpawn entity = .ok ()) : ¬ SpawnsEmptyAt P entity world ∧
      ∀ before queued middle, commandsSpawnEmpty P before = .ok (entity, queued) middle →
        ∀ after, queued world = .ok () after → after.entities.located entity = none := by
  have hd := dead_of_canSpawn can
  constructor
  · rintro ⟨l, after, ho, ⟨hf, -⟩, -⟩
    have hg := (dead_spawnEmptyAt hd).of_ok ho
    cases hg.symm.trans (Entities.locate_eq_ok.mp hf)
  · intro before queued middle hr after ha
    obtain rfl : queued = spawnEmptyAtCommand P entity := queued_commandsSpawnEmpty.of_ok hr
    have hg : Sat (spawnEmptyAtCommand P entity) world
        (fun _ after => after.entities.located entity = none) (fun _ _ => True) := by
      unfold spawnEmptyAtCommand
      rw [sat_bind]
      exact dead_spawnEmptyAt hd
    exact hg.of_ok ha

/-- The next id of a new world can be spawned at, and is not. -/
theorem not_spawnsEmptyAt_new :
    (World.new : World Bool ℕ).entities.canSpawn (entityFromU32 1) = .ok () ∧
      ¬ SpawnsEmptyAt denseAndSparse (entityFromU32 1) World.new :=
  ⟨rfl, (not_spawnsEmptyAt denseAndSparse rfl).1⟩

/-- In a new world an entity is reserved and its command applied: another id is taken from
the allocator, and neither of the two exists. -/
theorem reserved_entity_missing :
    ∃ reserved middle, commandsSpawnEmpty denseAndSparse World.new = .ok reserved middle ∧
      Sat (spawnEmptyAt denseAndSparse reserved.1) middle
        (fun result after => after.entities.located reserved.1 = none ∧
          ∃ made, result.toOption = some made ∧ made.1 ≠ reserved.1 ∧
            after.entities.located made.1 = none) (fun _ _ => False) :=
  Sat.exists_ok (by decide +kernel)

end World

end Voker.Ecs
