import Mathlib.Algebra.Group.Nat.Defs
import Voker.Ecs.Schedule.Graph.Graphs

/-!
# The search for strongly connected components

An iterative depth-first search that numbers the nodes it is busy with.  A node remembers
the smallest number it has seen, its `root`; if that is its own when it is left, the node
and what lies above it on the stack are a component, and their roots are set to a number
larger than those of all nodes the search is still busy with.

The visitation stack is listed from its top, the stack of finished nodes in the order in
which they were pushed.  Positions in the arrays of the source stand for nodes.
-/

namespace Voker.Ecs

open Function

/-- `usize::MAX`. -/
def usizeMax : ℕ := 2 ^ 64 - 1

/-- `TarjanScc`, with the data of each node. -/
structure TarjanScc (N : Type) where
  uncheckedNodes : List N
  root : N → Option ℕ
  pending : N → Option N
  neighbors : N → List N
  dfsIndex : ℕ
  sccIndex : ℕ
  stack : List N
  visitationStack : List (N × Bool)
  sccStart : Option ℕ
  sccLen : Option ℕ

namespace TarjanScc

variable {N : Type} [DecidableEq N]

/-- `new_tarjan_scc`.  There is no vector of more than `usize::MAX` elements. -/
def new (nodes : List N) (neighbors : N → List N) : Option (TarjanScc N) :=
  if nodes.length < usizeMax then
    some
      { uncheckedNodes := nodes
        root := fun _ => none
        pending := fun _ => none
        neighbors := neighbors
        dfsIndex := 1
        sccIndex := usizeMax
        stack := []
        visitationStack := []
        sccStart := none
        sccLen := none }
  else none

/-- `<` on roots: a node that has none comes first. -/
def rootLt : Option ℕ → Option ℕ → Bool
  | none, some _ => true
  | some one, some two => one < two
  | _, none => false

section

variable (search : TarjanScc N)

/-- Give the node its number. -/
def enter (v : N) : TarjanScc N :=
  if search.root v = none then
    { search with
      root := update search.root v (some search.dfsIndex)
      dfsIndex := search.dfsIndex + 1 }
  else search

/-- Lower the root of a node to that of another one. -/
def lower (v w : N) : TarjanScc N :=
  { search with root := update search.root v (search.root w) }

/-- Write `pending` of a node. -/
def setPending (v : N) (pending : Option N) : TarjanScc N :=
  { search with pending := update search.pending v pending }

/-- Advance the iterator over the neighbours of a node. -/
def setNeighbors (v : N) (rest : List N) : TarjanScc N :=
  { search with neighbors := update search.neighbors v rest }

/-- The neighbour that was visited since the node was left. -/
def resume (v : N) (isLocalRoot : Bool) : Bool × TarjanScc N :=
  match search.pending v with
  | none => (isLocalRoot, search)
  | some w =>
    let taken := search.setPending v none
    if rootLt (taken.root w) (taken.root v) then (false, taken.lower v w)
    else (isLocalRoot, taken)

end

/-- The loop over the remaining neighbours.  It is left, with `none`, at one that has not
been visited. -/
def scan (v : N) : List N → Bool → TarjanScc N → Option Bool × TarjanScc N
  | [], isLocalRoot, search => (some isLocalRoot, search)
  | w :: rest, isLocalRoot, search =>
    let next := search.setNeighbors v rest
    if next.root w = none then
      (none,
        { next.setPending v (some w) with
          visitationStack := (w, true) :: (v, isLocalRoot) :: next.visitationStack })
    else if rootLt (next.root w) (next.root v) then scan v rest false (next.lower v w)
    else scan v rest isLocalRoot next

/-- The loop that closes a component, down the stack: how many nodes it takes, and the
roots it leaves. -/
def close (sccId : Option ℕ) (v : N) : List N → (N → Option ℕ) → ℕ × (N → Option ℕ)
  | [], root => (0, root)
  | w :: below, root =>
    if rootLt (root w) (root v) then (0, root)
    else
      let rest := close sccId v below (update root w sccId)
      (rest.1 + 1, rest.2)

/-- Leave a node whose neighbours have all been visited. -/
def leave (search : TarjanScc N) (v : N) (isLocalRoot : Bool) : Option ℕ × TarjanScc N :=
  if isLocalRoot then
    let sccId := some search.sccIndex
    let closed := close sccId v search.stack.reverse search.root
    let sccStart := search.stack.length - closed.1
    (some sccStart,
      { search with
        root := update closed.2 v sccId
        stack := search.stack ++ [v]
        sccStart := some sccStart
        sccLen := some (closed.1 + 1) })
  else (none, { search with stack := search.stack ++ [v] })

/-- `visit_once`. -/
def visitOnce (search : TarjanScc N) (v : N) (isLocalRoot : Bool) : Option ℕ × TarjanScc N :=
  let resumed := (search.enter v).resume v isLocalRoot
  match scan v (resumed.2.neighbors v) resumed.1 resumed.2 with
  | (none, paused) => (none, paused)
  | (some isLocalRoot, scanned) => scanned.leave v isLocalRoot

/-- The cleanup at the start of `next_scc`. -/
def cleanup (search : TarjanScc N) : TarjanScc N :=
  match search.sccStart, search.sccLen with
  | some start, some len =>
    { search with
      stack := search.stack.take start
      dfsIndex := search.dfsIndex - len
      sccIndex := search.sccIndex - 1
      sccStart := none
      sccLen := none }
  | _, _ => { search with sccStart := none, sccLen := none }

/-- The loop of `next_scc`; `none` if there was not enough fuel. -/
def advance : ℕ → TarjanScc N → Option (Option (List N) × TarjanScc N)
  | 0, _ => none
  | fuel + 1, search =>
    match search.visitationStack with
    | (v, isLocalRoot) :: rest =>
      match { search with visitationStack := rest }.visitOnce v isLocalRoot with
      | (some start, found) => some (some (found.stack.drop start), found)
      | (none, next) => advance fuel next
    | [] =>
      match search.uncheckedNodes with
      | [] => some (none, search)
      | node :: rest =>
        let checked := { search with uncheckedNodes := rest }
        if checked.root node = none then
          advance fuel { checked with visitationStack := [(node, true)] }
        else advance fuel checked

/-- `next_scc`. -/
def nextScc (fuel : ℕ) (search : TarjanScc N) : Option (Option (List N) × TarjanScc N) :=
  advance fuel search.cleanup

/-- The components that are still to come. -/
def collect : ℕ → TarjanScc N → Option (List (List N))
  | 0, _ => none
  | fuel + 1, search =>
    (search.nextScc fuel).bind fun result =>
      match result.1 with
      | none => some []
      | some scc => (collect fuel result.2).map (scc :: ·)

end TarjanScc

/-- `iter_sccs`, run to its end. -/
def DiGraph.sccs {N : Type} [DecidableEq N] (fuel : ℕ) (graph : DiGraph N) :
    Option (List (List N)) :=
  (TarjanScc.new graph.nodes graph.neighbors).bind (TarjanScc.collect fuel)

/-- A triangle is one component. -/
example :
    DiGraph.sccs 20 ((((Graph.new : DiGraph ℕ).insertEdge 1 2).insertEdge 2 3).insertEdge 3 1) =
    some [[3, 2, 1]] := by decide +kernel

end Voker.Ecs
