import Mathlib.Data.Fintype.Card

/-!
# Depth-first closure

A traversal keeps the nodes it has visited in the order of its first visits, skips a
node it has seen and otherwise follows all its successors.  The recursion is bounded by
a fuel; **as much fuel as there are unvisited nodes is enough, on every graph, cyclic
ones included**: what was added is closed under successors and reachable from the roots.
-/

namespace Foundation

open List

universe u

variable {α : Type u}

/-- Follow edges. -/
def Reaches (succ : α → List α) : α → α → Prop :=
  Relation.ReflTransGen fun node next => next ∈ succ node

/-- A set of nodes that contains the successors of its members. -/
def ClosedUnder (succ : α → List α) (nodes : α → Prop) : Prop :=
  ∀ node, nodes node → ∀ next ∈ succ node, nodes next

theorem ClosedUnder.reaches {succ : α → List α} {n : α → Prop}
    (hc : ClosedUnder succ n) {node t : α} (mem : n node)
    (hp : Reaches succ node t) : n t := by
  induction hp with
  | refl => exact mem
  | tail _ he ih => exact hc _ ih _ he

section Visit

variable [DecidableEq α]

/-- Visit a node and everything behind it. -/
def visit (succ : α → List α) : ℕ → List α → α → List α
  | 0, visited, _ => visited
  | fuel + 1, visited, node =>
    if node ∈ visited then visited
    else (succ node).foldl (visit succ fuel) (visited ++ [node])

/-- What a traversal from some roots has achieved. -/
structure Explored (succ : α → List α) (roots before after : List α) : Prop where
  grows : before <+: after
  nodup : before.Nodup → after.Nodup
  contains : ∀ root ∈ roots, root ∈ after
  closed : ∀ node ∈ after, node ∈ before ∨ ∀ next ∈ succ node, next ∈ after
  reached : ∀ node ∈ after, node ∈ before ∨ ∃ root ∈ roots, Reaches succ root node

omit [DecidableEq α] in
theorem Explored.nil (succ : α → List α) (visited : List α) : Explored succ [] visited visited where
  grows := prefix_rfl
  nodup := id
  contains := by simp
  closed := fun _ mem => .inl mem
  reached := fun _ mem => .inl mem

variable {succ : α → List α} {post visited : List α} {fuel : ℕ}

omit [DecidableEq α] in
/-- Two traversals, one after the other. -/
theorem Explored.append {fst snd pre mid : List α}
    (one : Explored succ fst pre mid) (two : Explored succ snd mid post) :
    Explored succ (fst ++ snd) pre post where
  grows := one.grows.trans two.grows
  nodup := fun hd => two.nodup (one.nodup hd)
  contains := by
    intro root mem
    rcases mem_append.mp mem with hl | hr
    · exact two.grows.subset (one.contains root hl)
    · exact two.contains root hr
  closed := by
    intro node mem
    rcases two.closed node mem with he | hin
    · rcases one.closed node he with hs | hin
      · exact .inl hs
      · exact .inr fun next hed => two.grows.subset (hin next hed)
    · exact .inr hin
  reached := by
    intro node mem
    rcases two.reached node mem with he | ⟨root, hir, hp⟩
    · rcases one.reached node he with hs | ⟨root, hir, hp⟩
      · exact .inl hs
      · exact .inr ⟨root, mem_append_left _ hir, hp⟩
    · exact .inr ⟨root, mem_append_right _ hir, hp⟩

omit [DecidableEq α] in
/-- A node whose successors have been explored. -/
theorem Explored.cons {succ : α → List α} {node : α} {pre post : List α}
    (hf : node ∉ pre) (hr : Explored succ (succ node) (pre ++ [node]) post) :
    Explored succ [node] pre post where
  grows := (prefix_append _ _).trans hr.grows
  nodup := by
    intro hd
    refine hr.nodup (nodup_append.mpr ⟨hd, nodup_singleton _, ?_⟩)
    intro one hib two hie heq
    rw [mem_singleton] at hie
    rw [heq, hie] at hib
    exact hf hib
  contains := by
    intro root mem
    rw [mem_singleton] at mem
    subst mem
    exact hr.grows.subset (by simp)
  closed := by
    intro o mem
    rcases hr.closed o mem with he | hin
    · rcases mem_append.mp he with hst | hs
      · exact .inl hst
      · rw [mem_singleton] at hs
        subst hs
        exact .inr hr.contains
    · exact .inr hin
  reached := by
    intro o mem
    rcases hr.reached o mem with he | ⟨root, hed, hp⟩
    · rcases mem_append.mp he with hst | hs
      · exact .inl hst
      · rw [mem_singleton] at hs
        subst hs
        exact .inr ⟨o, mem_singleton_self _, Relation.ReflTransGen.refl⟩
    · exact .inr ⟨node, mem_singleton_self _, Relation.ReflTransGen.head hed hp⟩

omit [DecidableEq α] in
/-- A traversal from scratch reaches what is reachable. -/
theorem Explored.mem_iff {r : List α} (he : Explored succ r [] post) {node : α} :
    node ∈ post ↔ ∃ root ∈ r, Reaches succ root node := by
  constructor
  · intro mem
    exact (he.reached node mem).resolve_left not_mem_nil
  · rintro ⟨root, hir, hp⟩
    refine ClosedUnder.reaches (fun o hin => ?_) (he.contains root hir) hp
    exact (he.closed o hin).resolve_left not_mem_nil

/-! ## Enough fuel -/

variable [Fintype α]

/-- How many nodes a traversal has not visited. -/
def unvisited (visited : List α) : ℕ := (Finset.univ.filter (· ∉ visited)).card

theorem unvisited_le_card (visited : List α) : unvisited visited ≤ Fintype.card α :=
  Finset.card_filter_le _ _

theorem unvisited_mono {pre : List α} (hg : pre <+: post) : unvisited post ≤ unvisited pre := by
  refine Finset.card_le_card fun node mem => ?_
  simp only [Finset.mem_filter, Finset.mem_univ, true_and] at mem ⊢
  exact fun he => mem (hg.subset he)

theorem unvisited_append_lt {node : α} (hf : node ∉ visited) :
    unvisited (visited ++ [node]) < unvisited visited := by
  refine Finset.card_lt_card (Finset.ssubset_iff_subset_ne.mpr ⟨?_, fun he => ?_⟩)
  · intro o mem
    simp only [Finset.mem_filter, Finset.mem_univ, true_and, mem_append, not_or] at mem ⊢
    exact mem.1
  · have hin : node ∈ Finset.univ.filter (· ∉ visited) := by simpa using hf
    rw [← he] at hin
    simp at hin

/-- Visiting several roots explores them if visiting one does. -/
theorem explored_foldl {step : List α → α → List α}
    (hea : ∀ visited node, unvisited visited ≤ fuel →
      Explored succ [node] visited (step visited node))
    (n visited : List α) (he : unvisited visited ≤ fuel) :
    Explored succ n visited (n.foldl step visited) := by
  induction n generalizing visited with
  | nil => exact Explored.nil succ visited
  | cons node n ih =>
    have fst := hea visited node he
    exact fst.append (ih _ ((unvisited_mono fst.grows).trans he))

/-- **A traversal with enough fuel explores its root.** -/
theorem explored_visit (succ : α → List α) (he : unvisited visited ≤ fuel) (node : α) :
    Explored succ [node] visited (visit succ fuel visited node) := by
  -- induction on the fuel: every level below has one node less to visit
  induction fuel generalizing visited node with
  | zero =>
    have hs : node ∈ visited := by
      by_contra hf
      exact absurd (unvisited_append_lt hf) (by omega)
    refine { Explored.nil succ visited with contains := ?_, reached := ?_ }
    · simpa [visit] using hs
    · exact fun _ mem => .inl mem
  | succ fuel ih =>
    unfold visit
    split
    · next hs =>
      refine { Explored.nil succ visited with contains := ?_, reached := ?_ }
      · simpa using hs
      · exact fun _ mem => .inl mem
    · next hf =>
      have less := unvisited_append_lt hf
      exact Explored.cons hf
        (explored_foldl (fun _ o hb => ih hb o) _ _ (by omega))

end Visit

end Foundation
