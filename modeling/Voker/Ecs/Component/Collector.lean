import Voker.Ecs.Component.Components

/-!
# Collecting the components of a bundle

`ComponentCollector` gathers component numbers into a dense and a sparse list.
`collect_explicit` takes a type alone, `collect_required` takes it with everything it
requires, transitively; both register what they meet.

The collected numbers stand for a list of types, and **for `collect_required` this list
is the depth-first closure of the requirements**.  The two lists of a `CollectResult` are
the collected numbers, split by storage.
-/

namespace Voker.Ecs

open Foundation List

variable {τ V : Type}

/-- The storage of a registered component. -/
def Components.storage (P : Program τ V) (components : Components τ) (id : ComponentId) :
    Option StorageMode :=
  components.infos[id]?.map fun type => (P.decl type).storage

/-- A registered component is dense or sparse. -/
theorem Components.storage_cases (P : Program τ V) {cs : Components τ}
    {id : ComponentId} (hin : id < cs.infos.length) :
    cs.storage P id = some .dense ∨ cs.storage P id = some .sparse := by
  unfold Components.storage
  rw [getElem?_eq_getElem hin, Option.map_some]
  cases (P.decl cs.infos[id]).storage with
  | dense => exact .inl rfl
  | sparse => exact .inr rfl

/-- `ComponentCollector`. -/
structure ComponentCollector (τ : Type) where
  components : Components τ
  dense : List ComponentId
  sparse : List ComponentId
  collected : List ComponentId

/-- `CollectResult`. -/
structure CollectResult where
  dense : List ComponentId
  sparse : List ComponentId

namespace ComponentCollector

/-- `new`. -/
def new (components : Components τ) : ComponentCollector τ := ⟨components, [], [], []⟩

/-- Enter a number that was not collected before, by its storage. -/
def enter (collector : ComponentCollector τ) (storage : StorageMode) (id : ComponentId) :
    ComponentCollector τ :=
  match storage with
  | .dense =>
    { collector with
      dense := collector.dense ++ [id], collected := collector.collected ++ [id] }
  | .sparse =>
    { collector with
      sparse := collector.sparse ++ [id], collected := collector.collected ++ [id] }

/-- Register a type and enter its number; the flag tells whether the number is new. -/
def insert [DecidableEq τ] [Fintype τ] (P : Program τ V)
    (collector : ComponentCollector τ) (type : τ) : Bool × ComponentCollector τ :=
  let registered := collector.components.register P type
  let collector := { collector with components := registered.2 }
  if registered.1 ∈ collector.collected then (false, collector)
  else (true, collector.enter (P.decl type).storage registered.1)

/-- `collect_explicit`. -/
def collectExplicit [DecidableEq τ] [Fintype τ] (P : Program τ V)
    (collector : ComponentCollector τ) (type : τ) : ComponentCollector τ :=
  (collector.insert P type).2

/-- `collect_required` with a bound on its recursion depth. -/
def collectRequiredWith [DecidableEq τ] [Fintype τ] (P : Program τ V) :
    ℕ → ComponentCollector τ → τ → ComponentCollector τ
  | 0, collector, _ => collector
  | fuel + 1, collector, type =>
    match collector.insert P type with
    | (false, collector) => collector
    | (true, collector) =>
      (P.requires type).foldl (collectRequiredWith P fuel) collector

/-- `collect_required`. -/
def collectRequired [DecidableEq τ] [Fintype τ] (P : Program τ V)
    (collector : ComponentCollector τ) (type : τ) : ComponentCollector τ :=
  collectRequiredWith P (Fintype.card τ + 1) collector type

/-- `unsorted`. -/
def unsorted (collector : ComponentCollector τ) : CollectResult :=
  ⟨collector.dense, collector.sparse⟩

/-- `sorted`. -/
def sorted (collector : ComponentCollector τ) : CollectResult :=
  ⟨sortDedup collector.dense, sortDedup collector.sparse⟩

/-! ## What has been collected -/

/-- The collector stands for a list of types: its numbers are theirs, and the dense and
the sparse list split them by storage. -/
structure Stands (P : Program τ V) (collector : ComponentCollector τ) (types : List τ) : Prop where
  consistent : collector.components.Consistent
  numbers : collector.collected.map (collector.components.infos[·]?) = types.map some
  dense : ∀ id, id ∈ collector.dense ↔
    id ∈ collector.collected ∧ collector.components.storage P id = some .dense
  sparse : ∀ id, id ∈ collector.sparse ↔
    id ∈ collector.collected ∧ collector.components.storage P id = some .sparse

variable {cs : Components τ} {id : ComponentId} {P : Program τ V}
  {col : ComponentCollector τ} {types : List τ}

theorem Stands.new (P : Program τ V) (con : cs.Consistent) : (new cs).Stands P [] where
  consistent := con
  numbers := rfl
  dense := by simp [ComponentCollector.new]
  sparse := by simp [ComponentCollector.new]

theorem storage_of_initial {pre post : Components τ} (hg : pre.infos <+: post.infos)
    (hin : id < pre.infos.length) : post.storage P id = pre.storage P id := by
  unfold Components.storage
  rw [getElem?_eq_grow hg hin]

section

variable (stands : col.Stands P types)

include stands

/-- A number is collected exactly if its type is. -/
theorem Stands.mem_iff {type : τ} (n : col.components.infos[id]? = some type) :
    id ∈ col.collected ↔ type ∈ types := by
  constructor
  · intro mem
    have hm : some type ∈ types.map some := by
      rw [← stands.numbers, ← n]
      exact mem_map_of_mem mem
    simpa using hm
  · intro mem
    have hm : some type ∈ col.collected.map (col.components.infos[·]?) := by
      rw [stands.numbers]
      exact mem_map_of_mem mem
    obtain ⟨o, hin, hf⟩ := mem_map.mp hm
    rwa [Interned.id_unique stands.consistent n hf]

/-- A collected number is registered. -/
theorem Stands.lt_length (mem : id ∈ col.collected) : id < col.components.infos.length := by
  have hm : col.components.infos[id]? ∈ types.map some := by
    rw [← stands.numbers]
    exact mem_map_of_mem mem
  obtain ⟨type, -, hf⟩ := mem_map.mp hm
  exact (List.getElem?_eq_some_iff.mp hf.symm).1

/-- Growing the registry changes nothing about what is collected. -/
theorem Stands.grow (con : cs.Consistent) (hg : col.components.infos <+: cs.infos) :
    Stands P { col with components := cs } types where
  consistent := con
  numbers := by
    rw [← stands.numbers]
    exact map_congr_left fun id mem =>
      getElem?_eq_grow hg (stands.lt_length mem)
  dense := by
    intro id
    refine (stands.dense id).trans (and_congr_right fun mem => ?_)
    rw [storage_of_initial hg (stands.lt_length mem)]
  sparse := by
    intro id
    refine (stands.sparse id).trans (and_congr_right fun mem => ?_)
    rw [storage_of_initial hg (stands.lt_length mem)]

theorem Stands.enter {type : τ} (n : col.components.infos[id]? = some type) :
    (col.enter (P.decl type).storage id).Stands P (types ++ [type]) := by
  have hs : col.components.storage P id = some (P.decl type).storage := by
    rw [Components.storage, n, Option.map_some]
  have hn : (col.collected ++ [id]).map (col.components.infos[·]?) =
      (types ++ [type]).map some := by
    rw [map_append, map_append, stands.numbers, map_singleton, n, map_singleton]
  have hsm : ∀ (mode : StorageMode) (list : List ComponentId), (∀ o, o ∈ list ↔
        o ∈ col.collected ∧ col.components.storage P o = some mode) →
      (∀ o, (o ∈ list ∨ (o = id ∧ mode = (P.decl type).storage)) ↔
        o ∈ col.collected ++ [id] ∧ col.components.storage P o = some mode) := by
    intro mode list hsp o
    rw [hsp o, mem_append, mem_singleton, or_and_right]
    refine or_congr_right (and_congr_right fun hsa => ?_)
    rw [hsa, hs, Option.some.injEq, eq_comm]
  cases mode : (P.decl type).storage with
  | dense =>
    refine ⟨stands.consistent, hn, fun o => ?_, fun o => ?_⟩
    · refine Iff.trans ?_ (hsm .dense _ stands.dense o)
      simp [ComponentCollector.enter, mode]
    · refine Iff.trans ?_ (hsm .sparse _ stands.sparse o)
      simp [ComponentCollector.enter, mode]
  | sparse =>
    refine ⟨stands.consistent, hn, fun o => ?_, fun o => ?_⟩
    · refine Iff.trans ?_ (hsm .dense _ stands.dense o)
      simp [ComponentCollector.enter, mode]
    · refine Iff.trans ?_ (hsm .sparse _ stands.sparse o)
      simp [ComponentCollector.enter, mode]

end

/-! ## The two ways of collecting -/

variable [DecidableEq τ] [Fintype τ]

/-- What collecting does to the registry: it stays consistent, linked and keeps its
numbers. -/
structure Registers (P : Program τ V) (before after : Components τ) : Prop where
  consistent : after.Consistent
  grows : before.infos <+: after.infos
  linked : before.Linked P → after.Linked P

omit [DecidableEq τ] [Fintype τ] in
theorem Registers.refl (P : Program τ V) (con : cs.Consistent) : Registers P cs cs :=
  ⟨con, prefix_rfl, id⟩

omit [DecidableEq τ] [Fintype τ] in
theorem Registers.trans {fst snd t : Components τ} (one : Registers P fst snd)
    (two : Registers P snd t) : Registers P fst t :=
  ⟨two.consistent, one.grows.trans two.grows, two.linked ∘ one.linked⟩

section

variable (P : Program τ V)

theorem registers_register (con : cs.Consistent) (type : τ) :
    Registers P cs (cs.register P type).2 := by
  obtain ⟨hk, hg, -, hl⟩ := Components.register_spec P con type
  exact ⟨hk, hg, hl⟩

/-- Inserting a type: it is new exactly if it was not collected. -/
theorem insert_spec (stands : col.Stands P types) (type : τ) :
    Registers P col.components (col.insert P type).2.components ∧
      (type ∈ types → (col.insert P type).1 = false ∧ (col.insert P type).2.Stands P types) ∧
      (type ∉ types → (col.insert P type).1 = true ∧
        (col.insert P type).2.Stands P (types ++ [type])) := by
  obtain ⟨hke, hgr, n, -⟩ := Components.register_spec P stands.consistent type
  have hr := registers_register P stands.consistent type
  have hg := stands.grow hke hgr
  have hk := hg.mem_iff n
  unfold insert
  dsimp only
  split
  · next mem =>
    refine ⟨hr, fun _ => ⟨rfl, hg⟩, fun hf => ?_⟩
    exact absurd (hk.mp mem) hf
  · next hf =>
    refine ⟨?_, fun mem => absurd (hk.mpr mem) hf, fun _ => ⟨rfl, ?_⟩⟩
    · cases (P.decl type).storage with
      | dense => exact hr
      | sparse => exact hr
    · exact hg.enter n

/-- `collect_explicit` enters the type, once. -/
theorem collectExplicit_spec (stands : col.Stands P types) (type : τ) :
    Registers P col.components (col.collectExplicit P type).components ∧
      ∃ post, (col.collectExplicit P type).Stands P post ∧
        ∀ o, o ∈ post ↔ o ∈ types ∨ o = type := by
  obtain ⟨hr, old, new⟩ := insert_spec P stands type
  refine ⟨hr, ?_⟩
  by_cases mem : type ∈ types
  · refine ⟨types, (old mem).2, fun o => ⟨.inl, ?_⟩⟩
    rintro (hin | rfl)
    · exact hin
    · exact mem
  · exact ⟨types ++ [type], (new mem).2, fun o => by simp⟩

/-- `collect_required` follows the traversal. -/
theorem collectRequiredWith_spec (fuel : ℕ) (stands : col.Stands P types) (type : τ) :
    Registers P col.components (collectRequiredWith P fuel col type).components ∧
      (collectRequiredWith P fuel col type).Stands P (visit P.requires fuel types type) := by
  induction fuel generalizing col types type with
  | zero => exact ⟨Registers.refl P stands.consistent, stands⟩
  | succ fuel ih =>
    have hfo : ∀ (todo : List τ) {col : ComponentCollector τ} {types : List τ},
        col.Stands P types → Registers P col.components
          (todo.foldl (collectRequiredWith P fuel) col).components ∧
        (todo.foldl (collectRequiredWith P fuel) col).Stands P
          (todo.foldl (visit P.requires fuel) types) := by
      intro todo
      induction todo with
      | nil => exact fun stands => ⟨Registers.refl P stands.consistent, stands⟩
      | cons fst rest hi =>
        intro col types stands
        obtain ⟨one, stands⟩ := ih stands fst
        obtain ⟨two, stands⟩ := hi stands
        exact ⟨one.trans two, stands⟩
    obtain ⟨hr, old, new⟩ := insert_spec P stands type
    unfold collectRequiredWith visit
    by_cases mem : type ∈ types
    · obtain ⟨hf, hk⟩ := old mem
      rw [if_pos mem]
      rcases out : col.insert P type with ⟨f, post⟩
      rw [out] at hf hk hr
      obtain rfl : f = false := hf
      exact ⟨hr, hk⟩
    · obtain ⟨hf, he⟩ := new mem
      rw [if_neg mem]
      rcases out : col.insert P type with ⟨f, post⟩
      rw [out] at hf he hr
      obtain rfl : f = true := hf
      obtain ⟨hm, stands⟩ := hfo (P.requires type) he
      exact ⟨hr.trans hm, stands⟩

/-! ## Collecting all components of a bundle -/

/-- Collecting a list of types explicitly gives just these types. -/
theorem collectExplicit_all (list : List τ) (stands : col.Stands P types) :
    Registers P col.components (list.foldl (collectExplicit P) col).components ∧
      ∃ post, (list.foldl (collectExplicit P) col).Stands P post ∧
        ∀ o, o ∈ post ↔ o ∈ types ∨ o ∈ list := by
  induction list generalizing col types with
  | nil => exact ⟨Registers.refl P stands.consistent, types, stands, fun o => by simp⟩
  | cons fst rest ih =>
    obtain ⟨one, mid, stands, hm⟩ := collectExplicit_spec P stands fst
    obtain ⟨two, post, stands, hf⟩ := ih stands
    refine ⟨one.trans two, post, stands, fun o => ?_⟩
    rw [hf o, hm o, mem_cons, or_assoc]

/-- Collecting a list of types with their requirements gives their closure. -/
theorem collectRequired_all (list : List τ) (stands : col.Stands P types) :
    Registers P col.components (list.foldl (collectRequired P) col).components ∧
      ∃ post, (list.foldl (collectRequired P) col).Stands P post ∧
        Explored P.requires list types post := by
  induction list generalizing col types with
  | nil =>
    exact ⟨Registers.refl P stands.consistent, types, stands, Explored.nil _ _⟩
  | cons fst rest ih =>
    obtain ⟨one, stands⟩ := collectRequiredWith_spec P (Fintype.card τ + 1) stands fst
    have he := explored_visit P.requires ((unvisited_le_card types).trans (Nat.le_succ _)) fst
    obtain ⟨two, post, stands, hf⟩ := ih stands
    exact ⟨one.trans two, post, stands, he.append hf⟩

end

end ComponentCollector

end Voker.Ecs
