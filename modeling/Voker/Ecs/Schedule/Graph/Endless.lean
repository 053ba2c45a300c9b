import Voker.Ecs.Schedule.Graph.Toposort

/-!
# A sort that does not end

A graph with cycles but without a self loop is not refused at once: the sort first lists the
cycles of its components.  The search that does so is meant to walk along simple paths, on
which a node is blocked until the walk has left it.  It does not keep to that, and **there is
a graph of five nodes whose sort never returns** (`DiGraph.toposort_endless`).

## Why nodes are freed too early

Whether a node has successors left is asked with `successors.peekable().peek()`.  The iterator
is borrowed, so the successor that is looked at is taken away from it and lost with the
`Peekable`.  A node can therefore be left while one of its successors is neither seen nor
blocked.  It is noted in `unblock_together` under all of its successors, this one included,
and the note outlives the moment at which the node is freed through another of them: the node
is entered again, and when the successor is left with a cycle found, the node is freed while
it is on the path.  In the graph below that is `4`, noted under `1`.  From then on the walk
enters nodes that are on its path already, and nothing bounds the path.

## How the search is followed

The set of a `CycleSearch` that grows with the path, `maybe_in_more_cycles`, is read only where
a cycle has been found.  The rounds are therefore followed in four stages that begin where that
happens: `knotSearch`, `firstFound`, `secondFound` and `thirdFound`, after which the search is
at `knotSearch` again, its path longer by two nodes and its stack by two entries.  Each stage
is a computation with the path below as a variable; `follow_of_rounds` turns it into a fact
about searches with any fuel, because more fuel does not change what a round does.
-/

namespace Voker.Ecs

open List Option

/-! ## More fuel changes nothing -/

namespace CycleSearch

variable {N : Type} [LinearOrder N] {subgraph : DiGraph N} {root node : N}
  {successors : List N} {below : List (N × List N)} {search next post : CycleSearch N}

theorem unblock_mono {fuel more : ℕ} (hle : fuel ≤ more) {pending : List N}
    (hd : search.unblock fuel pending = some post) : search.unblock more pending = some post := by
  induction fuel generalizing more pending search with
  | zero => cases hd
  | succ fuel ih =>
    obtain ⟨more, rfl⟩ := Nat.exists_eq_add_of_le' (Nat.one_le_of_lt hle)
    have hle := Nat.le_of_succ_le_succ hle
    cases pending with
    | nil => exact hd
    | cons n rest =>
      rw [unblock] at hd ⊢
      split
      · next hb =>
        rw [if_pos hb] at hd
        exact ih hle hd
      · next hb =>
        rw [if_neg hb] at hd
        exact ih hle hd

theorem leave_mono {fuel more : ℕ} (hle : fuel ≤ more)
    (hd : search.leave fuel subgraph node = some post) :
    search.leave more subgraph node = some post := by
  rw [leave] at hd ⊢
  obtain ⟨left, hu, rfl⟩ := map_eq_some_iff.mp hd
  refine map_eq_some_iff.mpr ⟨left, ?_, rfl⟩
  split
  · next hm =>
    rw [if_pos hm] at hu
    exact unblock_mono hle hu
  · next hm =>
    rwa [if_neg hm] at hu

theorem peek_mono {fuel more : ℕ} (hle : fuel ≤ more)
    (hd : search.peek fuel subgraph node successors below = some post) :
    search.peek more subgraph node successors below = some post := by
  rw [peek] at hd ⊢
  split
  · next he =>
    rw [if_pos he] at hd
    exact leave_mono hle hd
  · next he =>
    rwa [if_neg he] at hd

theorem examine_mono {fuel more : ℕ} (hle : fuel ≤ more)
    (hd : search.examine fuel subgraph root node successors below = some post) :
    search.examine more subgraph root node successors below = some post := by
  cases successors with
  | nil => exact peek_mono hle hd
  | cons n rest =>
    rw [examine] at hd ⊢
    split_ifs at hd ⊢ with hr hb
    · exact peek_mono hle hd
    · exact hd
    · exact peek_mono hle hd

/-- Rounds of the loop, each with the same fuel for its inner loop; `none` if the stack is
empty before they are over. -/
def rounds (subgraph : DiGraph N) (root : N) (fuel : ℕ) : ℕ → CycleSearch N → Option (CycleSearch N)
  | 0, search => some search
  | n + 1, search =>
    match search.stack with
    | [] => none
    | (node, successors) :: below =>
      (search.examine fuel subgraph root node successors below).bind (rounds subgraph root fuel n)

/-- A search that comes to its end does so after the rounds it can make, with what is left of
its fuel. -/
theorem follow_of_rounds {fuel given n : ℕ} (hr : rounds subgraph root given n search = some next)
    (hd : follow subgraph root fuel search = some post) :
    ∃ left, fuel = left + n ∧ follow subgraph root left next = some post := by
  induction n generalizing fuel search with
  | zero =>
    cases hr
    exact ⟨fuel, rfl, hd⟩
  | succ n ih =>
    cases fuel with
    | zero => cases hd
    | succ fuel =>
      rw [rounds] at hr
      rw [follow] at hd
      split at hr
      · cases hr
      · next hs =>
        rw [hs] at hd
        obtain ⟨mid, hm, hr⟩ := bind_eq_some_iff.mp hr
        obtain ⟨other, ho, hd⟩ := bind_eq_some_iff.mp hd
        have he : other = mid := by
          rcases Nat.le_total fuel given with hle | hle
          · exact some.inj ((examine_mono hle ho).symm.trans hm)
          · exact some.inj (ho.symm.trans (examine_mono hle hm))
        obtain ⟨left, rfl, hf⟩ := ih hr (he ▸ hd)
        exact ⟨left, rfl, hf⟩

end CycleSearch

namespace DiGraph

open CycleSearch

/-! ## The graph and its search -/

/-- Five nodes that reach each other, with edges in the order in which they are inserted. -/
def knot : DiGraph (Fin 5) :=
  ([(0, 3), (0, 4), (1, 2), (1, 3), (1, 4), (1, 0), (2, 1), (2, 4), (2, 3), (2, 0), (3, 2), (4, 2),
    (4, 1)] : List (Fin 5 × Fin 5)).foldl (fun graph edge => graph.insertEdge edge.1 edge.2)
      Graph.new

/-- What the search sees of the graph: its only component, in the order in which the search
of components lists it. -/
def knotSub : DiGraph (Fin 5) := knot.subgraph [4, 1, 2, 3, 0]

/-- A map with few entries. -/
def knotMap (entries : List (Fin 5 × List (Fin 5))) (node : Fin 5) : List (Fin 5) :=
  (entries.lookup node).getD []

/-- Some rounds lead to a state whose map is known by its values; as a function it is built
from one update after the other. -/
def Comes (found : Option (CycleSearch (Fin 5))) (post : CycleSearch (Fin 5)) : Prop :=
  ∃ map, found = some { post with unblockTogether := map } ∧
    ∀ node, map node = post.unblockTogether node

theorem Comes.eq {found : Option (CycleSearch (Fin 5))} {post : CycleSearch (Fin 5)}
    (hc : Comes found post) : found = some post := by
  obtain ⟨map, rfl, hm⟩ := hc
  rw [funext hm]

/-- A stage begins with a round that finds a cycle and adds the path to the set.  What the
set becomes is not a computation where the path is a variable. -/
theorem rounds_of_found {n : ℕ} {search post : CycleSearch (Fin 5)} {node : Fin 5}
    {rest set : List (Fin 5)} {below : List (Fin 5 × List (Fin 5))}
    (hs : search.stack = (node, 0 :: rest) :: below)
    (hu : search.path ∪ search.maybeInMoreCycles = set)
    (hr : Comes (({ search with
        maybeInMoreCycles := set
        cycles := search.cycles ++ [search.path.reverse] }.peek 20 knotSub node rest below).bind
        (rounds knotSub 0 20 n)) post) : rounds knotSub 0 20 (n + 1) search = some post := by
  rw [← hr.eq]
  obtain ⟨_, _, _, _, _, _⟩ := search
  cases hs
  cases hu
  rfl

/-- The path below the node `1` after some passes, from its top; the root is at its end. -/
def knotPath : ℕ → List (Fin 5)
  | 0 => [4, 0]
  | n + 1 => 4 :: 1 :: knotPath n

/-- What the path adds to a set that has the root. -/
theorem union_knotPath (n : ℕ) {set : List (Fin 5)} (hz : 0 ∈ set) :
    1 :: knotPath n ∪ set = (set.insert 4).insert 1 := by
  induction n with
  | zero =>
    change ((set.insert 0).insert 4).insert 1 = _
    rw [insert_of_mem hz]
  | succ n ih =>
    change ((1 :: knotPath n ∪ set).insert 4).insert 1 = _
    have four : 4 ∈ (set.insert 4).insert 1 := mem_insert_of_mem mem_insert_self
    rw [ih, insert_of_mem four, insert_of_mem mem_insert_self]

section

variable (n : ℕ) (below : List (Fin 5 × List (Fin 5))) (cycles : List (List (Fin 5)))

/-- The search comes here again and again, with a longer path: it has just entered `1`. -/
def knotSearch : CycleSearch (Fin 5) :=
  ⟨1 :: knotPath n, [1, 0], knotMap [(0, [1]), (3, [1])], [2, 4, 3, 0],
    (1, [2, 3, 4, 0]) :: below, cycles⟩

/-- The edge back to the root is the next one of the node on top, for the first time … -/
def firstFound : CycleSearch (Fin 5) :=
  ⟨2 :: 1 :: knotPath n, [3, 2, 1, 0], knotMap [(0, [1]), (2, [3]), (3, [1])], [4, 0],
    (2, [0]) :: (1, [3, 4, 0]) :: below, cycles⟩

/-- … for the second time, with `1` twice on what is new of the path … -/
def secondFound : CycleSearch (Fin 5) :=
  ⟨1 :: 2 :: 3 :: 1 :: knotPath n, [4, 1, 2, 3, 0], knotMap [(0, [1]), (1, [4]), (2, [4])], [0],
    (1, [0]) :: (2, [4, 3, 0]) :: (3, []) :: (1, [4, 0]) :: below, cycles⟩

/-- … and for the third time. -/
def thirdFound : CycleSearch (Fin 5) :=
  ⟨2 :: 4 :: 1 :: knotPath n, [1, 2, 4, 0],
    knotMap [(0, [1]), (1, [4]), (2, [1]), (3, [1]), (4, [1])], [3, 0],
    (2, [0]) :: (4, [1]) :: (1, [0]) :: below, cycles⟩

theorem rounds_knotSearch :
    rounds knotSub 0 20 4 (knotSearch n below cycles) = some (firstFound n below cycles) :=
  Comes.eq ⟨_, rfl, fun | 0 | 1 | 2 | 3 | 4 => rfl⟩

theorem rounds_firstFound : rounds knotSub 0 20 8 (firstFound n below cycles) =
    some (secondFound n below (cycles ++ [(2 :: 1 :: knotPath n).reverse])) := by
  refine rounds_of_found rfl (congrArg (List.insert 2) (@union_knotPath n [4, 0] (by decide))) ?_
  refine ⟨_, rfl, ?_⟩
  exact fun | 0 | 1 | 2 | 3 | 4 => rfl

theorem rounds_secondFound : rounds knotSub 0 20 14 (secondFound n below cycles) =
    some (thirdFound n below (cycles ++ [(1 :: 2 :: 3 :: 1 :: knotPath n).reverse])) := by
  refine rounds_of_found rfl (congrArg (fun set => ((set.insert 3).insert 2).insert 1)
    (@union_knotPath n [0] (by decide))) ?_
  refine ⟨_, rfl, ?_⟩
  exact fun | 0 | 1 | 2 | 3 | 4 => rfl

theorem rounds_thirdFound : rounds knotSub 0 20 2 (thirdFound n below cycles) =
    some (knotSearch (n + 1) ((4, []) :: (1, [0]) :: below)
      (cycles ++ [(2 :: 4 :: 1 :: knotPath n).reverse])) := by
  refine rounds_of_found rfl (congrArg (fun set => (set.insert 4).insert 2)
    (@union_knotPath n [3, 0] (by decide))) ?_
  refine ⟨_, rfl, ?_⟩
  exact fun | 0 | 1 | 2 | 3 | 4 => rfl

/-- A search that is there does not end. -/
theorem follow_knotSearch (fuel : ℕ) :
    follow knotSub 0 fuel (knotSearch n below cycles) = none := by
  induction fuel using Nat.strong_induction_on generalizing n below cycles with
  | h fuel ih =>
    refine eq_none_iff_forall_ne_some.mpr fun post hd => ?_
    obtain ⟨_, _, h1⟩ := follow_of_rounds (rounds_knotSearch n below cycles) hd
    obtain ⟨_, _, h2⟩ := follow_of_rounds (rounds_firstFound _ _ _) h1
    obtain ⟨_, _, h3⟩ := follow_of_rounds (rounds_secondFound _ _ _) h2
    obtain ⟨left, _, h4⟩ := follow_of_rounds (rounds_thirdFound _ _ _) h3
    rw [ih left (by omega)] at h4
    cases h4

end

/-- The search from the root gets there. -/
theorem rounds_root : ∃ below cycles, rounds knotSub 0 20 23
    ⟨[0], [0], fun _ => [], [], [(0, knotSub.neighbors 0)], []⟩ =
      some (knotSearch 0 below cycles) :=
  ⟨_, _, Comes.eq ⟨_, rfl, fun | 0 | 1 | 2 | 3 | 4 => rfl⟩⟩

/-! ## The sort -/

theorem simpleCycles_knot (fuel : ℕ) : knot.simpleCycles fuel [[4, 1, 2, 3, 0]] [] = none := by
  cases fuel with
  | zero => rfl
  | succ fuel =>
    refine bind_eq_none_iff.mpr fun post hd => ?_
    obtain ⟨below, cycles, hr⟩ := rounds_root
    obtain ⟨left, -, hd⟩ := follow_of_rounds hr hd
    rw [follow_knotSearch] at hd
    cases hd

/-- The components are found, given the fuel, but not what comes after. -/
theorem sccs_knot (fuel : ℕ) :
    sccs fuel knot = none ∨ sccs fuel knot = some [[4, 1, 2, 3, 0]] := by
  rcases Nat.lt_or_ge fuel 20 with hlt | hge
  · revert fuel
    decide +kernel
  · obtain ⟨fuel, rfl⟩ := Nat.exists_eq_add_of_le' hge
    exact .inr rfl

/-- **A graph with cycles whose sort does not return**, whatever the order in which the hash
set yields its edges. -/
theorem toposort_endless : ∃ graph : DiGraph (Fin 5), graph.Consistent ∧
    graph.nodes.length < usizeMax ∧ (∃ cycle, IsCycle graph.edges cycle) ∧
    ∀ allEdges, allEdges.Perm graph.edges → ∀ fuel, toposort fuel graph allEdges = none := by
  refine ⟨knot, ?_, by decide +kernel, ⟨[1, 2], 1, rfl, by decide +kernel⟩,
    fun allEdges hp fuel => ?_⟩
  · exact foldlRecOn _ _ Graph.consistent_new fun _ hc _ _ => hc.insertEdge _ _
  · have hn : ∀ edge ∈ knot.edges, ¬ decide (edge.1 = edge.2) = true := by decide +kernel
    rw [toposort, find?_eq_none.mpr fun edge mem => hn edge (hp.mem_iff.mp mem)]
    rcases sccs_knot fuel with hs | hs
    · rw [hs]
      rfl
    · rw [hs]
      refine map_eq_none_iff.mpr ?_
      change (knot.simpleCycles fuel [[4, 1, 2, 3, 0]] []).bind _ = none
      rw [simpleCycles_knot]
      rfl

end DiGraph

end Voker.Ecs
