import Mathlib.Data.List.Perm.Basic

/-!
# Depth-first traversals

A traversal visits a node, then its children, depth first and in order, before the nodes
that were waiting behind it.  It is stated with the stack of the nodes that wait, so that
children need not be known before their parent is visited.
-/

namespace Foundation

open List

universe u

variable {α : Type u} {children other : α → List α}

/-- `order` is the depth-first order, parents first, that starts from the nodes of a
list. -/
inductive Traverses (children : α → List α) : List α → List α → Prop where
  | nil : Traverses children [] []
  | cons {node : α} {rest order : List α}
      (next : Traverses children (children node ++ rest) order) :
      Traverses children (node :: rest) (node :: order)

/-- Nodes that wait behind are visited after the traversal of those before them. -/
theorem Traverses.append {fst snd oo ot : List α}
    (one : Traverses children fst oo) (two : Traverses children snd ot) :
    Traverses children (fst ++ snd) (oo ++ ot) := by
  induction one with
  | nil => exact two
  | cons hn ih =>
    rw [append_assoc] at ih
    exact .cons ih

/-- Only the children of visited nodes matter. -/
theorem Traverses.congr {r o : List α} (ht : Traverses children r o)
    (hs : ∀ node ∈ o, children node = other node) : Traverses other r o := by
  induction ht with
  | nil => exact .nil
  | @cons node rest o hn ih =>
    refine .cons ?_
    rw [← hs node mem_cons_self]
    exact ih fun node mem => hs node (mem_cons_of_mem _ mem)

end Foundation
