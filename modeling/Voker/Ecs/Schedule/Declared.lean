import Voker.Ecs.Schedule.Config

/-!
# Declared orders

A configuration is built step by step, and `before`, `after` and `chain` declare that
systems run in some order.  The edges of the configuration say so too, directly or through
the helper that applies the commands of the first system (`Linked`), **except if a system is
declared to run after a system that defers commands**: then only the helper is ordered before
it, and nothing orders the helper.

Helpers are found by the identity of the system they belong to.  This is why they are not
confused: a system's type determines the type of its helper.
-/

namespace Voker.Ecs

open List Prod SystemConfig

/-- How a configuration is built. -/
inductive ConfigExpr where
  | empty
  | system (system : IntoSystem)
  | boxed (system : BoxedSystem)
  | merge (first second : ConfigExpr)
  | before (expr : ConfigExpr) (anchor : IntoSystem) (ignoreDeferred : Bool)
  | after (expr : ConfigExpr) (anchor : IntoSystem) (ignoreDeferred : Bool)
  | chain (expr : ConfigExpr) (ignoreDeferred : Bool)
  | gate (expr : ConfigExpr) (system : IntoSystem)
  deriving Repr

/-- Neighbours in a list. -/
def adjacent {α : Type*} : List α → List (α × α)
  | first :: second :: rest => (first, second) :: adjacent (second :: rest)
  | _ => []

namespace ConfigExpr

/-- The configuration that is built. -/
def config : ConfigExpr → SystemConfig
  | empty => .new
  | system single => .ofSystem single
  | boxed single => .withSystem single
  | merge first second => first.config.merge second.config
  | before expr anchor ignoreDeferred => expr.config.before anchor ignoreDeferred
  | after expr anchor ignoreDeferred => expr.config.after anchor ignoreDeferred
  | chain expr ignoreDeferred => expr.config.chain ignoreDeferred
  | gate expr condition => expr.config.gate condition

/-- The orders that are declared: all, or those in which no system is to run after one that
defers commands. -/
def declared (all : Bool) : ConfigExpr → List (SystemId × SystemId)
  | empty | system _ | boxed _ => []
  | merge first second => declared all first ++ declared all second
  | before expr anchor _ =>
    declared all expr ++ expr.config.primaryIds.map fun id => (id, anchor.boxed.id)
  | after expr anchor ignoreDeferred =>
    declared all expr ++ if all || ignoreDeferred || !anchor.boxed.isDeferred then
        expr.config.primaryIds.map fun id => (anchor.boxed.id, id)
      else []
  | chain expr _ => declared all expr ++ adjacent expr.config.primaryIds
  | gate expr _ => declared all expr

/-- The systems that come with a helper. -/
def helped : ConfigExpr → List IntoSystem
  | empty | boxed _ => []
  | system single => [single]
  | merge first second => first.helped ++ second.helped
  | before expr _ _ | after expr _ _ | chain expr _ => expr.helped
  | gate expr condition => condition :: expr.helped

end ConfigExpr

namespace SystemConfig

/-- The identities of the systems. -/
def ids (config : SystemConfig) : List SystemId := config.systems.map BoxedSystem.id

/-- The identities of the systems that have helpers. -/
def helpedIds (config : SystemConfig) : List SystemId := config.deferred.map fst

/-! ## Insertion -/

variable {id x y : SystemId} {systems : List BoxedSystem} {other : SystemConfig}

theorem mem_insertSystem {system : BoxedSystem} :
    id ∈ (insertSystem systems system).map BoxedSystem.id ↔
      id ∈ systems.map BoxedSystem.id ∨ id = system.id := by
  rw [insertSystem, map_append, mem_append, map_singleton, mem_singleton]
  by_cases hs : id = system.id
  · simp [hs]
  · simp only [hs, or_false, mem_map, mem_filter, decide_eq_true_eq]
    constructor
    · rintro ⟨other, ⟨mem, -⟩, rfl⟩
      exact ⟨other, mem, rfl⟩
    · rintro ⟨other, mem, rfl⟩
      exact ⟨other, ⟨mem, hs⟩, rfl⟩

theorem mem_foldl_insertSystem {more : List BoxedSystem} :
    id ∈ (more.foldl insertSystem systems).map BoxedSystem.id ↔
      id ∈ systems.map BoxedSystem.id ∨ id ∈ more.map BoxedSystem.id := by
  induction more generalizing systems with
  | nil => simp
  | cons system rest ih => rw [foldl_cons, ih, mem_insertSystem, map_cons, mem_cons, or_assoc]

theorem mem_orInsert {system : BoxedSystem} : id ∈ (orInsert systems system).map BoxedSystem.id ↔
      id ∈ systems.map BoxedSystem.id ∨ id = system.id := by
  rw [orInsert]
  split
  · next hp =>
    refine ⟨.inl, ?_⟩
    rintro (mem | rfl)
    · exact mem
    · exact hp
  · rw [map_append, mem_append, map_singleton, mem_singleton]

theorem mem_insertAll {e more : List (SystemId × SystemId)} {edge : SystemId × SystemId} :
    edge ∈ insertAll e more ↔ edge ∈ e ∨ edge ∈ more := by
  rw [insertAll]
  induction more generalizing e with
  | nil => simp
  | cons f rest ih =>
    rw [foldl_cons, ih, mem_insert_iff, mem_cons, or_comm (a := edge = f), or_assoc]

/-- Entries come from one of the two lists, and every key stays. -/
theorem foldl_insertDeferred {d more : List (SystemId × BoxedSystem)} :
    (∀ e ∈ more.foldl insertDeferred d, e ∈ d ∨ e ∈ more) ∧
      ∀ id, id ∈ (more.foldl insertDeferred d).map fst ↔
        id ∈ d.map fst ∨ id ∈ more.map fst := by
  induction more generalizing d with
  | nil => simp
  | cons f rest ih =>
    rw [foldl_cons]
    have one : ∀ e ∈ insertDeferred d f, e ∈ d ∨ e = f := by
      intro e mem
      rw [insertDeferred, mem_append, mem_filter, mem_singleton] at mem
      exact mem.imp And.left id
    have key : ∀ id, id ∈ (insertDeferred d f).map fst ↔
        id ∈ d.map fst ∨ id = f.1 := by
      intro id
      rw [insertDeferred, map_append, mem_append, map_singleton, mem_singleton]
      by_cases hs : id = f.1
      · simp [hs]
      · simp only [hs, or_false, mem_map, mem_filter, decide_eq_true_eq]
        constructor
        · rintro ⟨other, ⟨mem, -⟩, rfl⟩
          exact ⟨other, mem, rfl⟩
        · rintro ⟨other, mem, rfl⟩
          exact ⟨other, ⟨mem, hs⟩, rfl⟩
    constructor
    · intro e mem
      rcases ih.1 e mem with old | new
      · refine (one e old).imp_right ?_
        rintro rfl
        exact mem_cons_self
      · exact .inr (mem_cons_of_mem _ new)
    · intro id
      rw [ih.2, key, map_cons, mem_cons, or_assoc]

/-! ## What a configuration says -/

/-- More systems, helpers and edges. -/
structure Extends (config other : SystemConfig) : Prop where
  ids : ∀ id ∈ config.ids, id ∈ other.ids
  helped : ∀ id ∈ config.helpedIds, id ∈ other.helpedIds
  dependencies : ∀ edge ∈ config.dependencies, edge ∈ other.dependencies

/-- The configuration knows its primary systems, and a system's type says which helper it
has. -/
structure Coherent (systemOf : SystemType → ℕ) (config : SystemConfig) : Prop where
  primaries : ∀ id ∈ config.primaryIds, id ∈ config.ids
  helpers : ∀ entry ∈ config.deferred, entry.2 = applyDeferred (systemOf entry.1.type)
  helped : ∀ id ∈ config.helpedIds, id ∈ config.ids

/-- The edges order two systems, directly or through the helper of the first one. -/
def Linked (systemOf : SystemType → ℕ) (config : SystemConfig) (x y : SystemId) : Prop :=
  x ∈ config.ids ∧ y ∈ config.ids ∧ ((x, y) ∈ config.dependencies ∨ x ∈ config.helpedIds ∧
    (x, (applyDeferred (systemOf x.type)).id) ∈ config.dependencies ∧
    ((applyDeferred (systemOf x.type)).id, y) ∈ config.dependencies)

theorem Linked.extends {systemOf : SystemType → ℕ} {config : SystemConfig}
    (hl : Linked systemOf config x y) (hm : Extends config other) :
    Linked systemOf other x y := by
  obtain ⟨hf, snd, hed | ⟨he, pre, hp⟩⟩ := hl
  · exact ⟨hm.ids x hf, hm.ids y snd, .inl (hm.dependencies _ hed)⟩
  · exact ⟨hm.ids x hf, hm.ids y snd, .inr ⟨hm.helped x he,
      hm.dependencies _ pre, hm.dependencies _ hp⟩⟩

/-! ## Each step of the construction -/

variable (config : SystemConfig) (system : IntoSystem) (ignoreDeferred : Bool)

theorem extends_before : Extends config (config.before system ignoreDeferred) :=
  ⟨fun _ mem => mem_orInsert.mpr (.inl mem), fun _ => id,
    fun _ mem => mem_insertAll.mpr (.inl mem)⟩

theorem mem_ids_after (id : SystemId) (mem : id ∈ config.ids ∨ id = system.boxed.id) :
    id ∈ (config.after system ignoreDeferred).ids := by
  have ha : id ∈ (orInsert config.systems system.boxed).map BoxedSystem.id :=
    mem_orInsert.mpr mem
  have hu : (config.after system ignoreDeferred).systems =
      ((if !ignoreDeferred && system.boxed.isDeferred then some (applyDeferred system.source)
        else none).map (orInsert (orInsert config.systems system.boxed))).getD
          (orInsert config.systems system.boxed) := rfl
  rw [ids, hu]
  split
  · exact mem_orInsert.mpr (.inl ha)
  · exact ha

theorem extends_after : Extends config (config.after system ignoreDeferred) :=
  ⟨fun id mem => mem_ids_after config system ignoreDeferred id (.inl mem), fun _ => id,
    fun _ mem => mem_insertAll.mpr (.inl mem)⟩

theorem extends_chain : Extends config (config.chain ignoreDeferred) :=
  ⟨fun _ => id, fun _ => id, fun _ mem => mem_insertAll.mpr (.inl mem)⟩

theorem extends_gate : Extends config (config.gate system) := by
  rw [gate]
  split
  · refine ⟨fun _ mem => mem_orInsert.mpr (.inl mem), fun id mem => ?_,
      fun _ mem => mem_insertAll.mpr (.inl mem)⟩
    let h := [(system.boxed.id, applyDeferred system.system)]
    have hk : id ∈ (h.foldl insertDeferred config.deferred).map fst :=
      (foldl_insertDeferred.2 id).mpr (.inl mem)
    exact hk
  · exact ⟨fun _ mem => mem_orInsert.mpr (.inl mem), fun _ => id, fun _ => id⟩

theorem extends_merge (other : SystemConfig) :
    Extends config (config.merge other) ∧ Extends other (config.merge other) :=
  ⟨⟨fun _ mem => mem_foldl_insertSystem.mpr (.inl mem),
      fun id mem => (foldl_insertDeferred.2 id).mpr (.inl mem),
      fun _ mem => mem_insertAll.mpr (.inl mem)⟩,
    ⟨fun _ mem => mem_foldl_insertSystem.mpr (.inr mem),
      fun id mem => (foldl_insertDeferred.2 id).mpr (.inr mem),
      fun _ mem => mem_insertAll.mpr (.inr mem)⟩⟩

variable {config system ignoreDeferred} {systemOf : SystemType → ℕ}

theorem coherent_new : Coherent systemOf new :=
  ⟨fun _ mem => (nomatch mem), fun _ mem => (nomatch mem),
    fun _ mem => nomatch mem⟩

theorem coherent_withSystem (s : BoxedSystem) : Coherent systemOf (withSystem s) :=
  ⟨fun _ mem => mem, fun _ mem => (nomatch mem), fun _ mem => nomatch mem⟩

theorem coherent_ofSystem (ht : system.system = systemOf system.boxed.id.type) :
    Coherent systemOf (ofSystem system) := by
  rw [ofSystem]
  split
  · refine ⟨fun _ mem => mem, fun e mem => ?_, fun _ mem => mem⟩
    rw [mem_singleton.mp mem, ht]
  · exact coherent_withSystem _

theorem Coherent.extends (coherent : Coherent systemOf config) (hm : Extends config other)
    (hp : other.primaryIds = config.primaryIds) (hd : other.deferred = config.deferred)
      : Coherent systemOf other := by
  refine ⟨fun id mem => hm.ids id (coherent.primaries id (hp ▸ mem)), ?_, ?_⟩
  · rw [hd]
    exact coherent.helpers
  · rw [helpedIds, hd]
    exact fun id mem => hm.ids id (coherent.helped id mem)

theorem mem_deferred_of_getDeferred {def_ : BoxedSystem}
    (hf : config.getDeferred id = some def_) : (id, def_) ∈ config.deferred := by
  obtain ⟨e, hfi, rfl⟩ := Option.map_eq_some_iff.mp hf
  have hs : e.1 = id := by simpa using find?_some hfi
  rw [← hs]
  exact mem_of_find?_eq_some hfi

section

variable (coherent : Coherent systemOf config)

include coherent

theorem Coherent.gate (ht : system.system = systemOf system.boxed.id.type) :
    Coherent systemOf (config.gate system) := by
  have hm := extends_gate config system
  have hp : (config.gate system).primaryIds = config.primaryIds := by
    rw [SystemConfig.gate]
    split <;> rfl
  have reg : system.boxed.id ∈ (config.gate system).ids := by
    rw [SystemConfig.gate]
    split <;> exact mem_orInsert.mpr (.inr rfl)
  have he : ∀ e ∈ (config.gate system).deferred, e ∈ config.deferred ∨
      e = (system.boxed.id, applyDeferred system.system) := by
    rw [SystemConfig.gate]
    split
    · intro e mem
      let h := [(system.boxed.id, applyDeferred system.system)]
      have split : e ∈ config.deferred ∨ e ∈ h := foldl_insertDeferred.1 e mem
      exact split.imp_right mem_singleton.mp
    · exact fun _ => .inl
  refine ⟨fun id mem => hm.ids id (coherent.primaries id (hp ▸ mem)), ?_, ?_⟩
  · intro e mem
    rcases he e mem with old | rfl
    · exact coherent.helpers e old
    · rw [ht]
  · intro id mem
    obtain ⟨e, hin, rfl⟩ := mem_map.mp mem
    rcases he e hin with old | rfl
    · exact hm.ids _ (coherent.helped _ (mem_map_of_mem old))
    · exact reg

theorem Coherent.merge (snd : Coherent systemOf other) :
    Coherent systemOf (config.merge other) := by
  obtain ⟨hm, hmo⟩ := extends_merge config other
  refine ⟨fun id mem => ?_, fun e mem => ?_, fun id mem => ?_⟩
  · rcases mem_append.mp mem with hin | hin
    · exact hm.ids id (coherent.primaries id hin)
    · exact hmo.ids id (snd.primaries id hin)
  · rcases foldl_insertDeferred.1 e mem with hin | hin
    · exact coherent.helpers e hin
    · exact snd.helpers e hin
  · rcases (foldl_insertDeferred.2 id).mp mem with hin | hin
    · exact hm.ids id (coherent.helped id hin)
    · exact hmo.ids id (snd.helped id hin)

/-- What `before` declares. -/
theorem linked_before (hp : id ∈ config.primaryIds) :
    Linked systemOf (config.before system ignoreDeferred) id system.boxed.id := by
  refine ⟨(extends_before ..).ids id (coherent.primaries id hp),
    mem_orInsert.mpr (.inr rfl), .inl (mem_insertAll.mpr (.inr ?_))⟩
  exact mem_flatMap.mpr ⟨id, hp, mem_cons_self⟩

/-- What `after` declares, if no helper comes between. -/
theorem linked_after (hp : id ∈ config.primaryIds)
    (hd : (ignoreDeferred || !system.boxed.isDeferred) = true) :
    Linked systemOf (config.after system ignoreDeferred) system.boxed.id id := by
  refine ⟨mem_ids_after _ _ _ _ (.inr rfl), (extends_after ..).ids id
    (coherent.primaries id hp), .inl (mem_insertAll.mpr (.inr ?_))⟩
  have hn : (!ignoreDeferred && system.boxed.isDeferred) = false := by
    revert hd
    cases ignoreDeferred <;> cases system.boxed.isDeferred <;> decide
  rw [if_neg (by rw [hn]; exact Bool.false_ne_true)]
  exact mem_map.mpr ⟨id, hp, rfl⟩

/-- What `chain` declares. -/
theorem linked_chain (hn : (x, y) ∈ adjacent config.primaryIds) :
    Linked systemOf (config.chain ignoreDeferred) x y := by
  have hed : ∀ ids : List SystemId, (x, y) ∈ adjacent ids → x ∈ ids ∧ y ∈ ids ∧
      ((x, y) ∈ config.chainEdges ignoreDeferred ids ∨ ∃ def_, config.getDeferred x = some def_ ∧
        (x, def_.id) ∈ config.chainEdges ignoreDeferred ids ∧
        (def_.id, y) ∈ config.chainEdges ignoreDeferred ids) := by
    intro ids
    induction ids using adjacent.induct with
    | case1 f snd rest ih =>
      intro mem
      rw [adjacent, mem_cons] at mem
      rw [chainEdges]
      rcases mem with hs | hl
      · obtain ⟨rfl, rfl⟩ := Prod.mk.inj hs
        refine ⟨mem_cons_self, mem_cons_of_mem _ mem_cons_self, ?_⟩
        split
        · next def_ hf =>
          have hf : config.getDeferred x = some def_ := by
            revert hf
            cases ignoreDeferred <;> simp
          exact .inr ⟨def_, hf, by simp, by simp⟩
        · exact .inl (by simp)
      · obtain ⟨hmx, hmy, ho⟩ := ih hl
        refine ⟨mem_cons_of_mem _ hmx, mem_cons_of_mem _ hmy, ?_⟩
        exact ho.imp (mem_append_right _) fun ⟨def_, hf, one, two⟩ =>
          ⟨def_, hf, mem_append_right _ one, mem_append_right _ two⟩
    | case2 ids hsh =>
      intro mem
      cases ids with
      | nil => cases mem
      | cons f rest =>
        cases rest with
        | nil => cases mem
        | cons snd rest => exact absurd rfl (hsh f snd rest)
  obtain ⟨hmx, hmy, ho⟩ := hed _ hn
  refine ⟨coherent.primaries x hmx, coherent.primaries y hmy, ?_⟩
  rcases ho with heg | ⟨def_, hf, pre, hp⟩
  · exact .inl (mem_insertAll.mpr (.inr heg))
  · have he := mem_deferred_of_getDeferred hf
    have hs : def_ = applyDeferred (systemOf x.type) := coherent.helpers _ he
    rw [hs] at pre hp
    exact .inr ⟨mem_map.mpr ⟨_, he, rfl⟩, mem_insertAll.mpr (.inr pre),
      mem_insertAll.mpr (.inr hp)⟩

end

/-! ## In a set -/

/-- The same configuration, with its hash maps and sets in another order. -/
structure Reorders (config other : SystemConfig) : Prop where
  primaryIds : other.primaryIds = config.primaryIds
  systems : other.systems.Perm config.systems
  deferred : other.deferred.Perm config.deferred
  dependencies : other.dependencies.Perm config.dependencies
  conditions : other.conditions.Perm config.conditions

theorem Reorders.extends (hr : Reorders config other) : Extends config other :=
  ⟨fun _ => (hr.systems.map _).mem_iff.mpr, fun _ => (hr.deferred.map _).mem_iff.mpr,
    fun _ => hr.dependencies.mem_iff.mpr⟩

theorem Reorders.coherent (hr : Reorders config other) (coherent : Coherent systemOf config) :
    Coherent systemOf other := by
  refine ⟨fun id mem => ?_, fun e mem => ?_, fun id mem => ?_⟩
  · exact hr.extends.ids id (coherent.primaries id (hr.primaryIds ▸ mem))
  · exact coherent.helpers e (hr.deferred.mem_iff.mp mem)
  · exact hr.extends.ids id (coherent.helped id ((hr.deferred.map _).mem_iff.mp mem))

theorem type_setSystemSet (id : SystemId) (set : SystemSet) :
    (id.setSystemSet set).type = id.type := by
  rw [SystemId.setSystemSet]
  split <;> rfl

theorem rename_of_mem_ids (mem : id ∈ config.ids) (set : SystemSet) :
    config.rename set id = id.setSystemSet set :=
  if_pos (.inl mem)

/-- The systems of a configuration in a set. -/
theorem mem_ids_applyToSet {set : SystemSet} :
    id ∈ (config.applyToSet set).ids ↔ ∃ other ∈ config.ids, id = other.setSystemSet set := by
  have systems : (config.applyToSet set).systems =
      (config.systems.map fun system => system.setSystemSet set).foldl insertSystem [] := rfl
  rw [ids, systems, mem_foldl_insertSystem]
  simp only [ids, map_nil, not_mem_nil, false_or, mem_map, exists_exists_and_eq_and]
  exact exists_congr fun system => and_congr_right fun _ => eq_comm

/-- The two systems are ordered in the set as well. -/
theorem Linked.applyToSet (hli : Linked systemOf config x y)
    (coherent : Coherent systemOf config) (set : SystemSet) :
    x.setSystemSet set ∈ (config.applyToSet set).ids ∧
      y.setSystemSet set ∈ (config.applyToSet set).ids ∧
      ((x.setSystemSet set, y.setSystemSet set) ∈ (config.applyToSet set).dependencies ∨
        ∃ e ∈ (config.applyToSet set).deferred,
          (x.setSystemSet set, e.2.id) ∈ (config.applyToSet set).dependencies ∧
          (e.2.id, y.setSystemSet set) ∈ (config.applyToSet set).dependencies) := by
  obtain ⟨hmx, hmy, ho⟩ := hli
  refine ⟨mem_ids_applyToSet.mpr ⟨x, hmx, rfl⟩, mem_ids_applyToSet.mpr ⟨y, hmy, rfl⟩, ?_⟩
  have hr : ∀ {a b : SystemId}, (a, b) ∈ config.dependencies →
      (config.rename set a, config.rename set b) ∈ (config.applyToSet set).dependencies :=
    fun he => mem_insertAll.mpr (.inr (mem_map.mpr ⟨_, he, rfl⟩))
  rcases ho with he | ⟨hel, pre, hpo⟩
  · have he := hr he
    rw [rename_of_mem_ids hmx, rename_of_mem_ids hmy] at he
    exact .inl he
  · -- the helper of `x` in the set is that of a system of the same type
    obtain ⟨o, hin, how⟩ := mem_map.mp hel
    let m := config.deferred.map fun e =>
      (config.rename set e.1, e.2.setSystemSet set)
    have key : x.setSystemSet set ∈ (m.foldl insertDeferred []).map fst := by
      refine (foldl_insertDeferred.2 _).mpr (.inr ?_)
      refine mem_map.mpr ⟨_, mem_map.mpr ⟨o, hin, rfl⟩, ?_⟩
      rw [how]
      exact rename_of_mem_ids hmx set
    obtain ⟨e, hp, hn⟩ := mem_map.mp key
    have hor : e ∈ m := (foldl_insertDeferred.1 e hp).resolve_left not_mem_nil
    obtain ⟨s, old, rfl⟩ := mem_map.mp hor
    have hst : s.1.type = x.type := by
      have ht := congrArg SystemId.type hn
      rw [rename_of_mem_ids (coherent.helped _ (mem_map_of_mem old)), type_setSystemSet,
        type_setSystemSet] at ht
      exact ht
    have hee : (s.2.setSystemSet set).id =
        config.rename set (applyDeferred (systemOf x.type)).id := by
      have same := coherent.helpers s old
      rw [hst] at same
      have hl : (applyDeferred (systemOf x.type)).id ∈
          config.deferred.map fun e => e.2.id := by
        rw [← same]
        exact mem_map.mpr ⟨s, old, rfl⟩
      rw [rename, if_pos (.inr hl), same]
      rfl
    have pre := hr pre
    have hpo := hr hpo
    rw [rename_of_mem_ids hmx, ← hee] at pre
    rw [rename_of_mem_ids hmy, ← hee] at hpo
    exact .inr ⟨_, hp, pre, hpo⟩

end SystemConfig

/-- **The edges of a configuration say what was declared.** -/
theorem ConfigExpr.linked {systemOf : SystemType → ℕ} (expr : ConfigExpr)
    (ht : ∀ system ∈ expr.helped, system.system = systemOf system.boxed.id.type) :
    SystemConfig.Coherent systemOf expr.config ∧
      ∀ edge ∈ expr.declared false, SystemConfig.Linked systemOf expr.config edge.1 edge.2 := by
  induction expr with
  | empty => exact ⟨coherent_new, fun _ mem => nomatch mem⟩
  | system s =>
    exact ⟨coherent_ofSystem (ht s mem_cons_self), fun _ mem => nomatch mem⟩
  | boxed s => exact ⟨coherent_withSystem s, fun _ mem => nomatch mem⟩
  | merge f snd hif his =>
    obtain ⟨coherent, hl⟩ := hif fun system mem => ht system (mem_append_left _ mem)
    obtain ⟨hcs, hls⟩ := his fun system mem =>
      ht system (mem_append_right _ mem)
    obtain ⟨hm, hms⟩ := extends_merge f.config snd.config
    refine ⟨coherent.merge hcs, fun edge mem => ?_⟩
    rcases mem_append.mp mem with hin | hin
    · exact (hl edge hin).extends hm
    · exact (hls edge hin).extends hms
  | before expr a ignoreDeferred ih =>
    obtain ⟨coherent, hl⟩ := ih ht
    have hm := extends_before expr.config a ignoreDeferred
    refine ⟨coherent.extends hm rfl rfl, fun edge mem => ?_⟩
    rcases mem_append.mp mem with hin | hin
    · exact (hl edge hin).extends hm
    · obtain ⟨id, hp, rfl⟩ := mem_map.mp hin
      exact linked_before coherent hp
  | after expr a ignoreDeferred ih =>
    obtain ⟨coherent, hl⟩ := ih ht
    have hm := extends_after expr.config a ignoreDeferred
    refine ⟨coherent.extends hm rfl rfl, fun edge mem => ?_⟩
    rcases mem_append.mp mem with hin | hin
    · exact (hl edge hin).extends hm
    · split at hin
      · next hd =>
        obtain ⟨id, hp, rfl⟩ := mem_map.mp hin
        exact linked_after coherent hp (by simpa using hd)
      · cases hin
  | chain expr ignoreDeferred ih =>
    obtain ⟨coherent, hl⟩ := ih ht
    have hm := extends_chain expr.config ignoreDeferred
    refine ⟨coherent.extends hm rfl rfl, fun edge mem => ?_⟩
    rcases mem_append.mp mem with hin | hin
    · exact (hl edge hin).extends hm
    · exact linked_chain coherent hin
  | gate expr c ih =>
    obtain ⟨coherent, hl⟩ := ih fun system mem => ht system (mem_cons_of_mem _ mem)
    exact ⟨coherent.gate (ht c mem_cons_self), fun edge mem =>
      (hl edge mem).extends (extends_gate expr.config c)⟩

end Voker.Ecs
