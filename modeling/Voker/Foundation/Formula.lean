import Mathlib.Data.List.Basic

/-!
# Conjunctions and disjunctions of atoms

`Formula α` is built from atoms by conjunctions and disjunctions of any number of parts.
A formula can be evaluated atom by atom, and brought into disjunctive form: a list of
clauses one of which has to be satisfied.

Clauses are not fixed here.  **All the disjunctive form needs is a clause that is always
satisfied and a merge of two clauses that means their conjunction**; the merge may find
out that the two contradict each other and give nothing (`dnf_iff`).
-/

namespace Foundation

open List

universe u v w

/-- Conjunctions and disjunctions of atoms. -/
inductive Formula (α : Type u) where
  | leaf (atom : α)
  | and (parts : List (Formula α))
  | or (parts : List (Formula α))

namespace Formula

variable {α : Type u} {β : Type v} {γ : Type w}

mutual

/-- Replace the atoms. -/
def map (change : α → β) : Formula α → Formula β
  | leaf atom => leaf (change atom)
  | and parts => and (mapParts change parts)
  | or parts => or (mapParts change parts)

/-- Replace the atoms of a list of parts. -/
def mapParts (change : α → β) : List (Formula α) → List (Formula β)
  | [] => []
  | part :: parts => map change part :: mapParts change parts

end

mutual

/-- The atoms, from left to right. -/
def atoms : Formula α → List α
  | leaf atom => [atom]
  | and parts => partAtoms parts
  | or parts => partAtoms parts

/-- The atoms of a list of parts. -/
def partAtoms : List (Formula α) → List α
  | [] => []
  | part :: parts => atoms part ++ partAtoms parts

end

mutual

/-- Evaluate a formula. -/
def eval (value : α → Bool) : Formula α → Bool
  | leaf atom => value atom
  | and parts => evalAll value parts
  | or parts => evalAny value parts

/-- Evaluate a conjunction. -/
def evalAll (value : α → Bool) : List (Formula α) → Bool
  | [] => true
  | part :: parts => eval value part && evalAll value parts

/-- Evaluate a disjunction. -/
def evalAny (value : α → Bool) : List (Formula α) → Bool
  | [] => false
  | part :: parts => eval value part || evalAny value parts

end

mutual

/-- The meaning of a formula. -/
def Holds (meaning : α → Prop) : Formula α → Prop
  | leaf atom => meaning atom
  | and parts => HoldsAll meaning parts
  | or parts => HoldsAny meaning parts

/-- The meaning of a conjunction. -/
def HoldsAll (meaning : α → Prop) : List (Formula α) → Prop
  | [] => True
  | part :: parts => Holds meaning part ∧ HoldsAll meaning parts

/-- The meaning of a disjunction. -/
def HoldsAny (meaning : α → Prop) : List (Formula α) → Prop
  | [] => False
  | part :: parts => Holds meaning part ∨ HoldsAny meaning parts

end

mutual

theorem eval_iff (v : α → Bool) :
    ∀ f, eval v f = true ↔ Holds (fun atom => v atom = true) f
  | leaf _ => Iff.rfl
  | and p => evalAll_iff v p
  | or p => evalAny_iff v p

theorem evalAll_iff (v : α → Bool) :
    ∀ p, evalAll v p = true ↔ HoldsAll (fun atom => v atom = true) p
  | [] => iff_of_true rfl trivial
  | part :: p => by
    rw [evalAll, Bool.and_eq_true, eval_iff v part, evalAll_iff v p, HoldsAll]

theorem evalAny_iff (v : α → Bool) :
    ∀ p, evalAny v p = true ↔ HoldsAny (fun atom => v atom = true) p
  | [] => iff_of_false Bool.false_ne_true id
  | part :: p => by
    rw [evalAny, Bool.or_eq_true, eval_iff v part, evalAny_iff v p, HoldsAny]

end

section

variable {one two : α → Prop}

mutual

/-- A formula has no negations, so it becomes true with its atoms. -/
theorem holds_imp : ∀ f : Formula α, (∀ atom ∈ f.atoms, one atom → two atom) →
      Holds one f → Holds two f
  | leaf atom, hs => hs atom (mem_singleton_self atom)
  | and p, hs => (holdsParts_imp p hs).1
  | or p, hs => (holdsParts_imp p hs).2

theorem holdsParts_imp : ∀ p : List (Formula α), (∀ atom ∈ partAtoms p, one atom → two atom) →
      (HoldsAll one p → HoldsAll two p) ∧ (HoldsAny one p → HoldsAny two p)
  | [], _ => ⟨id, id⟩
  | part :: p, hs => by
    have he := holds_imp part fun atom mem => hs atom (mem_append_left _ mem)
    have ht := holdsParts_imp p fun atom mem => hs atom (mem_append_right _ mem)
    exact ⟨And.imp he ht.1, Or.imp he ht.2⟩

end

/-- The meaning depends on the atoms that occur. -/
theorem holds_congr (f : Formula α) (hs : ∀ atom ∈ f.atoms, one atom ↔ two atom) :
    Holds one f ↔ Holds two f :=
  ⟨holds_imp f fun atom mem => (hs atom mem).mp, holds_imp f fun atom mem => (hs atom mem).mpr⟩

end

mutual

/-- The meaning after replacing the atoms. -/
theorem holds_map (m : β → Prop) (c : α → β) : ∀ f,
    Holds m (map c f) ↔ Holds (fun atom => m (c atom)) f
  | leaf _ => Iff.rfl
  | and p => (holdsParts_map m c p).1
  | or p => (holdsParts_map m c p).2

theorem holdsParts_map (m : β → Prop) (c : α → β) : ∀ p,
    (HoldsAll m (mapParts c p) ↔
      HoldsAll (fun atom => m (c atom)) p) ∧
    (HoldsAny m (mapParts c p) ↔ HoldsAny (fun atom => m (c atom)) p)
  | [] => ⟨Iff.rfl, Iff.rfl⟩
  | part :: p =>
    ⟨and_congr (holds_map m c part) (holdsParts_map m c p).1,
      or_congr (holds_map m c part) (holdsParts_map m c p).2⟩

end

mutual

theorem map_map (one : α → β) (two : β → γ) :
    ∀ f, map two (map one f) = map (fun atom => two (one atom)) f
  | leaf _ => rfl
  | and p => congrArg and (mapParts_mapParts one two p)
  | or p => congrArg or (mapParts_mapParts one two p)

theorem mapParts_mapParts (one : α → β) (two : β → γ) : ∀ p,
    mapParts two (mapParts one p) = mapParts (fun atom => two (one atom)) p
  | [] => rfl
  | part :: p => by
    rw [mapParts, mapParts, mapParts, map_map one two part,
      mapParts_mapParts one two p]

end

mutual

variable {one two : α → β}

theorem map_congr : ∀ f : Formula α,
    (∀ atom ∈ f.atoms, one atom = two atom) → map one f = map two f
  | leaf atom, hs => congrArg leaf (hs atom (mem_singleton_self atom))
  | and p, hs => congrArg and (mapParts_congr p hs)
  | or p, hs => congrArg or (mapParts_congr p hs)

theorem mapParts_congr : ∀ p : List (Formula α),
    (∀ atom ∈ partAtoms p, one atom = two atom) → mapParts one p = mapParts two p
  | [], _ => rfl
  | part :: p, hs => by
    rw [mapParts, mapParts,
      map_congr part fun atom mem => hs atom (mem_append_left _ mem),
      mapParts_congr p fun atom mem => hs atom (mem_append_right _ mem)]

end

mutual

@[simp]
theorem atoms_map (c : α → β) :
    ∀ f : Formula α, (map c f).atoms = f.atoms.map c
  | leaf _ => rfl
  | and p => partAtoms_map c p
  | or p => partAtoms_map c p

theorem partAtoms_map (c : α → β) :
    ∀ p : List (Formula α), partAtoms (mapParts c p) = (partAtoms p).map c
  | [] => rfl
  | part :: p => by
    rw [mapParts, partAtoms, partAtoms, map_append, atoms_map c part,
      partAtoms_map c p]

end

/-! ## Disjunctive form -/

section Clauses

variable (clauses : α → List β) (unit : β) (merge : β → β → Option β)

mutual

/-- The clauses of a formula.  A conjunction of one part is that part; any other one
starts from the clause that is always satisfied and merges, part by part, each clause so
far with each clause of the part. -/
def dnf : Formula α → List β
  | leaf atom => clauses atom
  | and [part] => dnf part
  | and parts => dnfAll [unit] parts
  | or parts => dnfAny parts

/-- Merge the clauses so far with the clauses of the parts. -/
def dnfAll (sofar : List β) : List (Formula α) → List β
  | [] => sofar
  | part :: parts =>
    dnfAll (sofar.flatMap fun left => (dnf part).filterMap fun right => merge left right) parts

/-- The clauses of the parts, one after the other. -/
def dnfAny : List (Formula α) → List β
  | [] => []
  | part :: parts => dnf part ++ dnfAny parts

end

variable {clauses unit merge} {Sat : β → Prop}

/-- Merging all clauses of two lists means that both lists have a satisfied clause. -/
theorem exists_merged (hm : ∀ left r,
      (∃ m, merge left r = some m ∧ Sat m) ↔ Sat left ∧ Sat r)
    (one two : List β) :
    (∃ c ∈ one.flatMap fun left => two.filterMap fun r => merge left r,
        Sat c) ↔ (∃ left ∈ one, Sat left) ∧ ∃ r ∈ two, Sat r := by
  simp only [mem_flatMap, mem_filterMap]
  constructor
  · rintro ⟨c, ⟨left, hif, r, his, m⟩, sat⟩
    obtain ⟨hsl, hsr⟩ := (hm left r).mp ⟨c, m, sat⟩
    exact ⟨⟨left, hif, hsl⟩, r, his, hsr⟩
  · rintro ⟨⟨left, hif, hsl⟩, r, his, hsr⟩
    obtain ⟨c, m, sat⟩ := (hm left r).mpr ⟨hsl, hsr⟩
    exact ⟨c, ⟨left, hif, r, his, m⟩, sat⟩

mutual

/-- **The disjunctive form means the formula**, where an atom means that one of its own
clauses is satisfied. -/
theorem dnf_iff (ha : Sat unit) (hm : ∀ left r,
      (∃ m, merge left r = some m ∧ Sat m) ↔ Sat left ∧ Sat r) :
    ∀ f : Formula α, (∃ c ∈ dnf clauses unit merge f, Sat c) ↔
      Holds (fun atom => ∃ c ∈ clauses atom, Sat c) f
  | leaf _ => Iff.rfl
  | and [] => by
    rw [dnf, dnfAll]
    · exact iff_of_true ⟨unit, mem_singleton_self unit, ha⟩ trivial
    · nofun
  | and [part] => by
    rw [dnf, dnf_iff ha hm part, Holds, HoldsAll, HoldsAll, and_true]
  | and (one :: two :: p) => by
    rw [dnf, dnfAll_iff ha hm]
    · simp [ha, Holds]
    · nofun
  | or p => by
    exact dnfAny_iff ha hm p

theorem dnfAll_iff (ha : Sat unit) (hm : ∀ left r,
      (∃ m, merge left r = some m ∧ Sat m) ↔ Sat left ∧ Sat r) :
    ∀ (p : List (Formula α)) (s : List β),
      (∃ c ∈ dnfAll clauses unit merge s p, Sat c) ↔
        (∃ c ∈ s, Sat c) ∧
          HoldsAll (fun atom => ∃ c ∈ clauses atom, Sat c) p
  | [], s => by rw [dnfAll, HoldsAll, and_true]
  | part :: p, s => by
    rw [dnfAll, dnfAll_iff ha hm p, exists_merged hm,
      dnf_iff ha hm part, HoldsAll, and_assoc]

theorem dnfAny_iff (ha : Sat unit) (hm : ∀ left r,
      (∃ m, merge left r = some m ∧ Sat m) ↔ Sat left ∧ Sat r) :
    ∀ p : List (Formula α), (∃ c ∈ dnfAny clauses unit merge p, Sat c) ↔
      HoldsAny (fun atom => ∃ c ∈ clauses atom, Sat c) p
  | [] => by simp [dnfAny, HoldsAny]
  | part :: p => by
    rw [dnfAny, HoldsAny, ← dnf_iff ha hm part, ← dnfAny_iff ha hm p]
    simp only [mem_append, or_and_right, exists_or]

end

end Clauses

end Formula

end Foundation
