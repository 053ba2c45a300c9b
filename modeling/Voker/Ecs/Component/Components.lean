import Voker.Ecs.Entity.Ident
import Voker.Foundation.Closure
import Voker.Foundation.Interning

/-!
# Component types and their registration

The component types of a compiled program form a finite type `τ`; `Program` says what
the type system says about them.  A world numbers the types in the order in which it
first meets them.  Registering a type registers the types it requires and the other side
of its relationship, recursively; since a type is entered before its links are followed,
**the recursion is a depth-first traversal and ends on cyclic declarations too**.
-/

namespace Voker.Ecs

open Foundation List

/-- `ComponentId`: the registration number of a component type. -/
abbrev ComponentId := ℕ

/-- `StorageMode`. -/
inductive StorageMode where
  | dense
  | sparse
  deriving DecidableEq, Repr

/-- `CloneEntityMapper`: the clones of the entities cloned so far. -/
abbrev CloneEntityMapper := Entity → Option Entity

/-- A deferred change of a cloned value, which may also edit the mapper; `none` is a
panic. -/
abbrev CloneCallback (V : Type) := V → CloneEntityMapper → Option (V × CloneEntityMapper)

/-- What a cloner has done: the value it wrote, if any, the entities whose clones it asks
for, and its callbacks. -/
structure Cloned (V : Type) where
  value : Option V
  deferred : List Entity
  callbacks : List (CloneCallback V)

/-- `ComponentCloner`.  A copying one never looks at the memory it copies; any other one
reads a value, knowing whether links are cloned, the source and the target, and may
panic (`none`). -/
inductive ComponentCloner (V : Type) where
  | copyable (callbacks : List (CloneCallback V))
  | custom (call : Bool → Entity → Entity → V → Option (Cloned V))

/-- What the `Component` trait declares about a type: `STORAGE`, the component types
listed in `REQUIRED`, the other side of `RELATIONSHIP_REGISTRAR`, its `Default`
constructor, where `none` is a constructor that panics, and its cloner. -/
structure ComponentDecl (τ V : Type) where
  storage : StorageMode
  required : List τ
  relationship : Option τ
  construct : Option V
  cloner : ComponentCloner V

/-- A compiled program: its component types, among them `ObservedBy` with how an observer
is added to its value (or to no value), the allocation policy of vectors (how much
capacity is added beyond the request) and whether debug assertions are compiled in. -/
structure Program (τ V : Type) where
  decl : τ → ComponentDecl τ V
  observedBy : τ
  observe : Option V → ℕ → V
  growth : ℕ → ℕ
  debugAssertions : Bool

/-- A program whose components are numbers, zero by default, and are copied when they are
cloned: what concrete runs need to exhibit a behaviour. -/
def Program.numbers {τ : Type} (storage : τ → StorageMode) (required : τ → List τ)
    (observedBy : τ) : Program τ ℕ where
  decl := fun type => ⟨storage type, required type, none, some 0, .copyable []⟩
  observedBy := observedBy
  observe := fun _ id => id
  growth := fun _ => 0
  debugAssertions := false

/-- `Components`: the registered types and their numbers. -/
structure Components (τ : Type) where
  infos : List τ
  mapper : τ → Option ComponentId

variable {τ V : Type} [DecidableEq τ]

namespace Program

/-- The types a registration goes on to: the required ones, then the relationship's. -/
def links (P : Program τ V) (type : τ) : List τ :=
  (P.decl type).required ++ (P.decl type).relationship.toList

/-- The types a type requires directly. -/
def requires (P : Program τ V) (type : τ) : List τ := (P.decl type).required

end Program

namespace Components

/-- `new`. -/
def new : Components τ := ⟨[], fun _ => none⟩

/-- `get_id`. -/
def getId (components : Components τ) (type : τ) : Option ComponentId :=
  components.mapper type

/-- Enter a type under the next number. -/
def push (components : Components τ) (type : τ) : Components τ where
  infos := components.infos ++ [type]
  mapper := Function.update components.mapper type (some components.infos.length)

/-- `register` with a bound on its recursion depth. -/
def registerWith (P : Program τ V) : ℕ → Components τ → τ → ComponentId × Components τ
  | 0, components, _ => (components.infos.length, components)
  | fuel + 1, components, type =>
    match components.getId type with
    | some id => (id, components)
    | none =>
      -- the type is entered first, so that a cycle finds it registered
      (components.infos.length,
        (P.links type).foldl (fun components linked => (registerWith P fuel components linked).2)
          (components.push type))

/-- `register`: the number of a type, entering it and its links if it is new.  The
recursion is at most as deep as there are types. -/
def register [Fintype τ] (P : Program τ V) (components : Components τ) (type : τ) :
    ComponentId × Components τ :=
  registerWith P (Fintype.card τ + 1) components type

/-! ## Registration is a depth-first traversal -/

/-- The registry is consistent: the mapper inverts the numbering. -/
def Consistent (components : Components τ) : Prop :=
  Interned components.infos components.mapper

omit [DecidableEq τ] in
theorem consistent_new : (new : Components τ).Consistent := interned_nil

variable {cs : Components τ} {type : τ}

omit [DecidableEq τ] in
theorem Consistent.getId_eq_none (con : cs.Consistent) : cs.getId type = none ↔ type ∉ cs.infos :=
  Interned.index_eq_none con

/-- The registered types after a registration are the nodes of the traversal. -/
theorem registerWith_infos (P : Program τ V) (fuel : ℕ) (con : cs.Consistent)
    (type : τ) : (registerWith P fuel cs type).2.Consistent ∧
      (registerWith P fuel cs type).2.infos = visit P.links fuel cs.infos type := by
  induction fuel generalizing cs type with
  | zero => exact ⟨con, rfl⟩
  | succ fuel ih =>
    have hf : ∀ (t : List τ) {cs : Components τ}, cs.Consistent →
        (t.foldl (fun cs link => (registerWith P fuel cs link).2) cs).Consistent ∧
        (t.foldl (fun cs link => (registerWith P fuel cs link).2)
          cs).infos = t.foldl (visit P.links fuel) cs.infos := by
      intro t
      induction t with
      | nil => exact fun con => ⟨con, rfl⟩
      | cons one rest hin =>
        intro cs con
        obtain ⟨hke, hi⟩ := ih con one
        rw [foldl_cons, foldl_cons, ← hi]
        exact hin hke
    unfold registerWith visit
    cases hk : cs.getId type with
    | some id =>
      have mem : type ∈ cs.infos := mem_of_getElem? ((con type id).mp hk)
      rw [if_pos mem]
      exact ⟨con, rfl⟩
    | none =>
      rw [if_neg (con.getId_eq_none.mp hk)]
      exact hf (P.links type) (Interned.push con hk)

variable [Fintype τ]

/-- The registry contains what its types link to. -/
def Linked (P : Program τ V) (components : Components τ) : Prop :=
  ClosedUnder P.links (· ∈ components.infos)

/-- What a registration achieves: the old numbers stay, and the type's number is
returned. -/
theorem register_spec (P : Program τ V) (con : cs.Consistent) (type : τ) :
    (cs.register P type).2.Consistent ∧ cs.infos <+: (cs.register P type).2.infos ∧
      (cs.register P type).2.infos[(cs.register P type).1]? = some type ∧
      (cs.Linked P → (cs.register P type).2.Linked P) := by
  obtain ⟨hke, hi⟩ := registerWith_infos P (Fintype.card τ + 1) con type
  have hb : unvisited cs.infos ≤ Fintype.card τ + 1 :=
    (unvisited_le_card _).trans (Nat.le_succ _)
  have he := explored_visit P.links hb type
  rw [← hi] at he
  refine ⟨hke, he.grows, ?_, fun hl node mem next hed => ?_⟩
  · -- the number is the old one, or the position at which the type was entered
    unfold register registerWith
    cases hk : cs.getId type with
    | some id => exact (con type id).mp hk
    | none =>
      have hf := con.getId_eq_none.mp hk
      have hg : (cs.push type).infos <+: (cs.register P type).2.infos := by
        have hir := explored_foldl (fun _ node hb => explored_visit P.links hb node)
          (P.links type) _ (unvisited_le_card (cs.push type).infos)
        unfold register
        rw [hi]
        unfold visit
        rw [if_neg hf]
        exact hir.grows
      unfold register registerWith at hg
      rw [hk] at hg
      obtain ⟨rest, hs⟩ := hg
      rw [← hs, push, append_assoc, List.getElem?_append_right le_rfl, Nat.sub_self]
      rfl
  · rcases he.closed node mem with old | hin
    · exact he.grows.subset (hl node old next hed)
    · exact hin next hed

end Components

end Voker.Ecs
