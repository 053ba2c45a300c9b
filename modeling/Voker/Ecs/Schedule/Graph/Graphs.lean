import Mathlib.Order.Lattice
import Mathlib.Data.List.Nodup
import Voker.Foundation.Rows
import Voker.Foundation.Runs

/-!
# Graphs of a schedule

A graph keeps its nodes in an index map, with a list of links for each, and its edges in a
hash set.  Both say which edges there are, and **they never disagree** (`Consistent`): a
node's outgoing links are the edges that leave it, its incoming links those that reach it
from elsewhere, each once, and edges only join nodes.

The index map is modelled by the list of its keys and the links of each key; the hash set
by a list, whose order means nothing.
-/

namespace Voker.Ecs

open Foundation List Function

/-- `Direction`. -/
inductive Direction where
  | outgoing
  | incoming
  deriving DecidableEq, Repr

namespace Direction

/-- `opposite`. -/
def opposite : Direction → Direction
  | outgoing => incoming
  | incoming => outgoing

@[simp]
theorem opposite_opposite (d : Direction) : d.opposite.opposite = d := by
  cases d <;> rfl

end Direction

/-- `Graph<DIRECTED, N>`. -/
structure Graph (directed : Bool) (N : Type) where
  nodes : List N
  links : N → List (N × Direction)
  edges : List (N × N)

/-- `DiGraph<N>`. -/
abbrev DiGraph (N : Type) := Graph true N

/-- `UnGraph<N>`. -/
abbrev UnGraph (N : Type) := Graph false N

namespace Graph

variable {directed : Bool} {N : Type}

/-- `new`. -/
def new : Graph directed N := ⟨[], fun _ => [], []⟩

/-- `neighbors`. -/
def neighbors (graph : Graph directed N) (a : N) : List N :=
  (graph.links a).filterMap fun link =>
    if !directed || link.2 = .outgoing then some link.1 else none

section Operations

variable [LinearOrder N]

/-- `edge_key`. -/
def edgeKey (directed : Bool) (a b : N) : N × N :=
  if directed || decide (a ≤ b) then (a, b) else (b, a)

section

variable (graph : Graph directed N)

/-- `contains_edge`. -/
def containsEdge (a b : N) : Bool := decide (edgeKey directed a b ∈ graph.edges)

/-- `insert_node`. -/
def insertNode (n : N) : Graph directed N :=
  if n ∈ graph.nodes then graph else { graph with nodes := graph.nodes ++ [n] }

/-- Append a link to a node, which is inserted if it is missing. -/
def pushLink (a : N) (link : N × Direction) : Graph directed N :=
  { graph.insertNode a with
    links := update graph.links a (graph.links a ++ [link]) }

/-- `insert_edge`. -/
def insertEdge (a b : N) : Graph directed N :=
  if edgeKey directed a b ∈ graph.edges then graph
  else
    let one := { graph with edges := graph.edges ++ [edgeKey directed a b] }.pushLink a
      (b, .outgoing)
    -- self loops don't have the incoming entry
    if a = b then one else one.pushLink b (a, .incoming)

/-- `remove_link`. -/
def removeLink (x y : N) (dir : Direction) : Graph directed N :=
  if x ∈ graph.nodes ∧ (y, dir) ∈ graph.links x then
    let rest := swapRemove (graph.links x) ((graph.links x).findIdx (· = (y, dir)))
    { graph with links := update graph.links x rest }
  else graph

/-- `remove_edge`.  That all three removals agree is asserted in debug builds only. -/
def removeEdge (a b : N) : Bool × Graph directed N :=
  let one := graph.removeLink a b .outgoing
  let two := if a = b then one else one.removeLink b a .incoming
  (graph.containsEdge a b, { two with edges := two.edges.erase (edgeKey directed a b) })

end

/-- What `remove_node` does for one link of the node. -/
def dropLink (n : N) (graph : Graph directed N) (link : N × Direction) : Graph directed N :=
  let edge := match link.2 with
    | .outgoing => edgeKey directed n link.1
    | .incoming => edgeKey directed link.1 n
  let unlinked := graph.removeLink link.1 n link.2.opposite
  { unlinked with edges := unlinked.edges.erase edge }

/-- `remove_node`. -/
def removeNode (graph : Graph directed N) (n : N) : Graph directed N :=
  if n ∈ graph.nodes then
    (graph.links n).foldl (dropLink n)
      { graph with
        nodes := swapRemove graph.nodes (graph.nodes.findIdx (· = n))
        links := update graph.links n [] }
  else graph

end Operations

/-- Nodes, links and edges of a directed graph agree. -/
structure Consistent (graph : DiGraph N) : Prop where
  nodes : graph.nodes.Nodup
  edges : graph.edges.Nodup
  links : ∀ a, (graph.links a).Nodup
  outgoing : ∀ {a b}, (b, Direction.outgoing) ∈ graph.links a ↔ (a, b) ∈ graph.edges
  incoming : ∀ {a b}, (a, Direction.incoming) ∈ graph.links b ↔ (a, b) ∈ graph.edges ∧ a ≠ b
  endpoints : ∀ {a b}, (a, b) ∈ graph.edges → a ∈ graph.nodes ∧ b ∈ graph.nodes

theorem consistent_new : Consistent (new : DiGraph N) where
  nodes := .nil
  edges := .nil
  links := fun _ => .nil
  outgoing := by simp [new]
  incoming := by simp [new]
  endpoints := by simp [new]

section Directed

variable {g : DiGraph N} {a b : N}

/-- The neighbours of a node are the targets of its edges, each once. -/
theorem Consistent.mem_neighbors (con : Consistent g) : b ∈ g.neighbors a ↔ (a, b) ∈ g.edges := by
  rw [← con.outgoing, neighbors]
  simp

theorem Consistent.nodup_neighbors (con : Consistent g) (a : N) : (g.neighbors a).Nodup := by
  refine (con.links a).filterMap ?_
  intro one two t fst snd
  simp only [Bool.not_true, Bool.false_or, decide_eq_true_eq, Option.mem_def,
    Option.ite_none_right_eq_some, Option.some.injEq] at fst snd
  exact Prod.ext (fst.2.trans snd.2.symm) (fst.1.trans snd.1.symm)

end Directed

/-! ## Links and keys

What follows holds of directed and undirected graphs.  A link keeps the order in which the ends
of its edge were given; the key in the set does not, if the graph is undirected. -/

variable {graph before post : Graph directed N} {a b x : N} {link : N × Direction}

/-- The edge was inserted as one from `a` to `b`. -/
def Joins (graph : Graph directed N) (a b : N) : Prop := (b, Direction.outgoing) ∈ graph.links a

variable [LinearOrder N]

theorem edgeKey_eq_iff {c d : N} : edgeKey directed a b = edgeKey directed c d ↔
    a = c ∧ b = d ∨ directed = false ∧ a = d ∧ b = c := by
  unfold edgeKey
  cases directed with
  | true => simp
  | false =>
    rcases lt_trichotomy a b with hls | rfl | hmo <;>
      rcases lt_trichotomy c d with hle | rfl | hm <;> grind

/-- Every edge is linked at both ends, once, and its key is in the set. -/
structure Linked (graph : Graph directed N) : Prop where
  nodes : graph.nodes.Nodup
  edges : graph.edges.Nodup
  links : ∀ a, (graph.links a).Nodup
  mem_edges : ∀ {edge}, edge ∈ graph.edges ↔
    ∃ a b, graph.Joins a b ∧ edgeKey directed a b = edge
  incoming : ∀ {a b}, (a, Direction.incoming) ∈ graph.links b ↔ graph.Joins a b ∧ a ≠ b
  once : ∀ {a b c d}, graph.Joins a b → graph.Joins c d →
    edgeKey directed a b = edgeKey directed c d → a = c ∧ b = d
  endpoints : ∀ {a b}, graph.Joins a b → a ∈ graph.nodes ∧ b ∈ graph.nodes

theorem linked_new : Linked (new : Graph directed N) where
  nodes := .nil
  edges := .nil
  links := fun _ => .nil
  mem_edges := by simp [new, Joins]
  incoming := by simp [new, Joins]
  once := by simp [new, Joins]
  endpoints := by simp [new, Joins]

theorem consistent_iff {g : DiGraph N} : Consistent g ↔ Linked g := by
  constructor
  · intro con
    refine ⟨con.nodes, con.edges, con.links, ?_, ?_, ?_, ?_⟩
    · rintro ⟨a, b⟩
      simp [Joins, con.outgoing, edgeKey]
    · intro a b
      rw [con.incoming, Joins, con.outgoing]
    · intro a b c d _ _ hs
      exact Prod.mk.inj hs
    · exact fun hj => con.endpoints (con.outgoing.mp hj)
  · intro hl
    have he : ∀ {a b}, (a, b) ∈ g.edges ↔ g.Joins a b := by
      intro a b
      simp [hl.mem_edges, edgeKey]
    refine ⟨hl.nodes, hl.edges, hl.links, he.symm, ?_, ?_⟩
    · intro a b
      rw [hl.incoming, he]
    · exact fun hed => hl.endpoints (he.mp hed)

/-- Only nodes have links. -/
theorem Linked.rooted (hl : Linked graph) (mem : link ∈ graph.links a) : a ∈ graph.nodes := by
  obtain ⟨b, dir⟩ := link
  cases dir with
  | outgoing => exact (hl.endpoints mem).1
  | incoming => exact (hl.endpoints (hl.incoming.mp mem).1).2

/-- Edges go, together with their links and their keys. -/
theorem Linked.restrict (hl : Linked before) {Stays : N → N → Prop} (nodes : post.nodes.Nodup)
    (edges : post.edges.Nodup) (links : ∀ a, (post.links a).Nodup)
    (hf : ∀ edge ∈ post.edges, edge ∈ before.edges)
    (hk : ∀ {a b}, before.Joins a b → (edgeKey directed a b ∈ post.edges ↔ Stays a b))
    (hj : ∀ {a b}, post.Joins a b ↔ before.Joins a b ∧ Stays a b)
    (incoming : ∀ {a b}, (a, Direction.incoming) ∈ post.links b ↔
      (a, Direction.incoming) ∈ before.links b ∧ Stays a b)
    (endpoints : ∀ {a b}, before.Joins a b → Stays a b → a ∈ post.nodes ∧ b ∈ post.nodes) :
    Linked post where
  nodes := nodes
  edges := edges
  links := links
  mem_edges := by
    intro edge
    constructor
    · intro mem
      obtain ⟨a, b, was, rfl⟩ := hl.mem_edges.mp (hf edge mem)
      exact ⟨a, b, hj.mpr ⟨was, (hk was).mp mem⟩, rfl⟩
    · rintro ⟨a, b, hs, rfl⟩
      obtain ⟨was, hst⟩ := hj.mp hs
      exact (hk was).mpr hst
  incoming := by
    intro a b
    rw [incoming, hl.incoming, hj, and_right_comm]
  once := fun one two => hl.once (hj.mp one).1 (hj.mp two).1
  endpoints := fun hjo => endpoints (hj.mp hjo).1 (hj.mp hjo).2

/-! ## Insertion -/

theorem mem_insertNode {n : N} : x ∈ (graph.insertNode n).nodes ↔ x ∈ graph.nodes ∨ x = n := by
  unfold insertNode
  split
  · next hp =>
    refine ⟨.inl, ?_⟩
    rintro (mem | rfl)
    · exact mem
    · exact hp
  · simp

@[simp]
theorem edges_insertNode (n : N) : (graph.insertNode n).edges = graph.edges := by
  unfold insertNode
  split <;> rfl

@[simp]
theorem links_insertNode (n : N) : (graph.insertNode n).links = graph.links := by
  unfold insertNode
  split <;> rfl

theorem nodup_insertNode (hn : graph.nodes.Nodup) (n : N) : (graph.insertNode n).nodes.Nodup := by
  unfold insertNode
  split
  · exact hn
  · next ha => exact nodup_snoc hn ha

theorem Linked.insertNode (hl : Linked graph) (n : N) : Linked (graph.insertNode n) := by
  have hj : ∀ {a b}, (graph.insertNode n).Joins a b ↔ graph.Joins a b := by simp [Joins]
  refine ⟨nodup_insertNode hl.nodes n, ?_, ?_, ?_, ?_, ?_, fun hjo => ?_⟩
  · rw [edges_insertNode]
    exact hl.edges
  · rw [links_insertNode]
    exact hl.links
  · intro edge
    rw [edges_insertNode, hl.mem_edges]
    simp only [hj]
  · intro a b
    rw [links_insertNode, hl.incoming, hj]
  · exact fun one two => hl.once (hj.mp one) (hj.mp two)
  · obtain ⟨src, t⟩ := hl.endpoints (hj.mp hjo)
    exact ⟨mem_insertNode.mpr (.inl src), mem_insertNode.mpr (.inl t)⟩

theorem Consistent.insertNode {g : DiGraph N} (con : Consistent g) (n : N) :
    Consistent (g.insertNode n) :=
  consistent_iff.mpr ((consistent_iff.mp con).insertNode n)

@[simp]
theorem edges_pushLink (a : N) (link : N × Direction) :
    (graph.pushLink a link).edges = graph.edges :=
  edges_insertNode a

theorem mem_nodes_pushLink : x ∈ (graph.pushLink a link).nodes ↔ x ∈ graph.nodes ∨ x = a :=
  mem_insertNode

theorem nodup_nodes_pushLink (hn : graph.nodes.Nodup) : (graph.pushLink a link).nodes.Nodup :=
  nodup_insertNode hn a

theorem mem_links_pushLink {o : N × Direction} :
    o ∈ (graph.pushLink a link).links x ↔ o ∈ graph.links x ∨ x = a ∧ o = link := by
  change o ∈ update graph.links a _ x ↔ _
  rw [update_apply]
  split
  · next hs =>
    subst hs
    simp
  · next ne => simp [ne]

theorem nodup_links_pushLink (ha : link ∉ graph.links a) (hn : (graph.links x).Nodup) :
    ((graph.pushLink a link).links x).Nodup := by
  change (update graph.links a _ x).Nodup
  rw [update_apply]
  split
  · next hs =>
    subst hs
    exact nodup_snoc hn ha
  · exact hn

section Insert

variable (ha : edgeKey directed a b ∉ graph.edges)

include ha

theorem insertEdge_eq : graph.insertEdge a b =
    let one := { graph with edges := graph.edges ++ [edgeKey directed a b] }.pushLink a
      (b, .outgoing)
    if a = b then one else one.pushLink b (a, .incoming) :=
  if_neg ha

theorem edges_insertEdge :
    (graph.insertEdge a b).edges = graph.edges ++ [edgeKey directed a b] := by
  rw [insertEdge_eq ha]
  split <;> simp

theorem mem_nodes_insertEdge_new :
    x ∈ (graph.insertEdge a b).nodes ↔ x ∈ graph.nodes ∨ x = a ∨ x = b := by
  rw [insertEdge_eq ha]
  split
  · next hs =>
    subst hs
    rw [mem_nodes_pushLink, or_self]
  · rw [mem_nodes_pushLink, mem_nodes_pushLink, or_assoc]

theorem mem_links_insertEdge : link ∈ (graph.insertEdge a b).links x ↔
    link ∈ graph.links x ∨ x = a ∧ link = (b, .outgoing) ∨
      a ≠ b ∧ x = b ∧ link = (a, .incoming) := by
  rw [insertEdge_eq ha]
  split
  · next hs =>
    rw [mem_links_pushLink]
    simp [hs]
  · next ne =>
    rw [mem_links_pushLink, mem_links_pushLink]
    simp [ne, or_assoc]

/-- A new edge adds one link at each end. -/
theorem Linked.insertEdge_new (hl : Linked graph) : Linked (graph.insertEdge a b) := by
  have hf : ∀ {x y}, graph.Joins x y → edgeKey directed x y ≠ edgeKey directed a b :=
    fun hj hs => ha (hl.mem_edges.mpr ⟨_, _, hj, hs⟩)
  have hfo : ¬ graph.Joins a b := fun hj => hf hj rfl
  have hj : ∀ {x y}, (graph.insertEdge a b).Joins x y ↔ graph.Joins x y ∨ x = a ∧ y = b := by
    intro x y
    rw [Joins, mem_links_insertEdge ha]
    simp [Joins]
  have hn : (graph.insertEdge a b).nodes.Nodup := by
    rw [insertEdge_eq ha]
    split
    · exact nodup_nodes_pushLink hl.nodes
    · exact nodup_nodes_pushLink (nodup_nodes_pushLink hl.nodes)
  have hli : ∀ x, ((graph.insertEdge a b).links x).Nodup := by
    intro x
    rw [insertEdge_eq ha]
    split
    · exact nodup_links_pushLink hfo (hl.links x)
    · next ne =>
      refine nodup_links_pushLink (fun mem => ?_) (nodup_links_pushLink hfo (hl.links x))
      rcases mem_links_pushLink.mp mem with old | ⟨hs, -⟩
      · exact hfo (hl.incoming.mp old).1
      · exact ne hs.symm
  refine ⟨hn, ?_, hli, ?_, ?_, ?_, ?_⟩
  · rw [edges_insertEdge ha]
    exact nodup_snoc hl.edges ha
  · intro edge
    rw [edges_insertEdge ha, mem_append, mem_singleton, hl.mem_edges]
    simp only [hj]
    constructor
    · rintro (⟨x, y, hjo, key⟩ | rfl)
      · exact ⟨x, y, .inl hjo, key⟩
      · exact ⟨a, b, .inr ⟨rfl, rfl⟩, rfl⟩
    · rintro ⟨x, y, hjo | ⟨rfl, rfl⟩, rfl⟩
      · exact .inl ⟨x, y, hjo, rfl⟩
      · exact .inr rfl
  · intro x y
    rw [mem_links_insertEdge ha, hl.incoming, hj]
    grind
  · intro x y c d one two hs
    rcases hj.mp one with old | ⟨rfl, rfl⟩ <;> rcases hj.mp two with ho | ⟨rfl, rfl⟩
    · exact hl.once old ho hs
    · exact absurd hs (hf old)
    · exact absurd hs.symm (hf ho)
    · exact ⟨rfl, rfl⟩
  · intro x y hjo
    rw [mem_nodes_insertEdge_new ha, mem_nodes_insertEdge_new ha]
    rcases hj.mp hjo with old | ⟨rfl, rfl⟩
    · exact ⟨.inl (hl.endpoints old).1, .inl (hl.endpoints old).2⟩
    · exact ⟨.inr (.inl rfl), .inr (.inr rfl)⟩

end Insert

theorem Linked.insertEdge (hl : Linked graph) (a b : N) : Linked (graph.insertEdge a b) := by
  by_cases hp : edgeKey directed a b ∈ graph.edges
  · rw [show graph.insertEdge a b = graph from if_pos hp]
    exact hl
  · exact hl.insertEdge_new hp

section Directed

variable {g : DiGraph N}

theorem mem_edges_insertEdge {edge : N × N} :
    edge ∈ (g.insertEdge a b).edges ↔ edge ∈ g.edges ∨ edge = (a, b) := by
  by_cases hp : (a, b) ∈ g.edges
  · rw [show g.insertEdge a b = g from if_pos hp]
    refine ⟨.inl, ?_⟩
    rintro (mem | rfl)
    · exact mem
    · exact hp
  · rw [edges_insertEdge hp, mem_append, mem_singleton]
    rfl

theorem mem_nodes_insertEdge (con : Consistent g) :
    x ∈ (g.insertEdge a b).nodes ↔ x ∈ g.nodes ∨ x = a ∨ x = b := by
  by_cases hp : (a, b) ∈ g.edges
  · rw [show g.insertEdge a b = g from if_pos hp]
    refine ⟨.inl, ?_⟩
    obtain ⟨src, t⟩ := con.endpoints hp
    rintro (mem | rfl | rfl)
    · exact mem
    · exact src
    · exact t
  · exact mem_nodes_insertEdge_new hp

/-- Inserting an edge adds one link at each end. -/
theorem Consistent.insertEdge (con : Consistent g) (a b : N) : Consistent (g.insertEdge a b) :=
  consistent_iff.mpr ((consistent_iff.mp con).insertEdge a b)

end Directed

/-! ## Removal -/

@[simp]
theorem nodes_removeLink (x y : N) (dir : Direction) :
    (graph.removeLink x y dir).nodes = graph.nodes := by
  unfold removeLink
  split <;> rfl

@[simp]
theorem edges_removeLink (x y : N) (dir : Direction) :
    (graph.removeLink x y dir).edges = graph.edges := by
  unfold removeLink
  split <;> rfl

/-- Removing a link removes it from the list of its node. -/
theorem links_removeLink (hli : ∀ z, (graph.links z).Nodup)
    (hr : ∀ {z link}, link ∈ graph.links z → z ∈ graph.nodes) (x y : N) (dir : Direction)
    (z : N) : ((graph.removeLink x y dir).links z).Nodup ∧
      ∀ {link}, link ∈ (graph.removeLink x y dir).links z ↔
        link ∈ graph.links z ∧ ¬ (z = x ∧ link = (y, dir)) := by
  unfold removeLink
  split
  · next hf =>
    dsimp only
    rw [update_apply]
    split
    · next hs =>
      subst hs
      obtain ⟨hn, hm⟩ := nodup_of_cons_perm (cons_swapRemove_perm hf.2) (hli z)
      exact ⟨hn, fun {link} => hm.trans (by simp)⟩
    · next ne => exact ⟨hli z, fun {link} => by simp [ne]⟩
  · next hmi =>
    refine ⟨hli z, fun {link} => ⟨fun mem => ⟨mem, ?_⟩, And.left⟩⟩
    rintro ⟨rfl, rfl⟩
    exact hmi ⟨hr mem, mem⟩

/-- The key of the edge that a link of a node stands for. -/
def edgeOf (directed : Bool) (n : N) (link : N × Direction) : N × N :=
  match link.2 with
  | .outgoing => edgeKey directed n link.1
  | .incoming => edgeKey directed link.1 n

theorem edges_dropLink (n : N) (link : N × Direction) :
    (graph.dropLink n link).edges = graph.edges.erase (edgeOf directed n link) := by
  unfold dropLink edgeOf
  dsimp only
  rw [edges_removeLink]

/-- What the loop of `remove_node` leaves. -/
structure Dropped (n : N) (gone : List (N × Direction)) (before after : Graph directed N) :
    Prop where
  nodes : after.nodes = before.nodes
  edges : after.edges.Nodup
  mem_edges : ∀ {edge}, edge ∈ after.edges ↔
    edge ∈ before.edges ∧ ∀ link ∈ gone, edge ≠ edgeOf directed n link
  links : ∀ x, (after.links x).Nodup
  mem_links : ∀ {x link}, link ∈ after.links x ↔ link ∈ before.links x ∧
    ∀ dir, (x, dir) ∈ gone → link ≠ (n, dir.opposite)

theorem dropped_foldl (n : N) (gone : List (N × Direction)) (g : Graph directed N)
    (he : g.edges.Nodup) (hli : ∀ x, (g.links x).Nodup)
    (hro : ∀ {z link}, link ∈ g.links z → z ∈ g.nodes) :
    Dropped n gone g (gone.foldl (dropLink n) g) := by
  induction gone generalizing g with
  | nil => exact ⟨rfl, he, by simp, hli, by simp⟩
  | cons link gone ih =>
    have hd : ∀ z, ((g.dropLink n link).links z).Nodup ∧
        ∀ {o}, o ∈ (g.dropLink n link).links z ↔ o ∈ g.links z ∧
          ¬ (z = link.1 ∧ o = (n, link.2.opposite)) :=
      links_removeLink hli hro link.1 n link.2.opposite
    have hsn : (g.dropLink n link).nodes = g.nodes := nodes_removeLink _ _ _
    have hea : (g.dropLink n link).edges.Nodup := by
      rw [edges_dropLink]
      exact he.erase _
    have hr := ih (g.dropLink n link) hea (fun x => (hd x).1)
      fun mem => hsn ▸ hro ((hd _).2.mp mem).1
    rw [foldl_cons]
    refine ⟨hr.nodes.trans hsn, hr.edges, ?_, hr.links, ?_⟩
    · intro edge
      rw [hr.mem_edges, edges_dropLink, he.mem_erase_iff, forall_mem_cons]
      tauto
    · intro x o
      rw [hr.mem_links, (hd x).2, and_assoc]
      refine and_congr_right fun _ => ?_
      grind

/-- **Removing a node** removes its edges and no others. -/
theorem Linked.removeNode (hl : Linked graph) (n : N) : Linked (graph.removeNode n) ∧
    (∀ {x}, x ∈ (graph.removeNode n).nodes ↔ x ∈ graph.nodes ∧ x ≠ n) ∧
    ∀ {a b}, (graph.removeNode n).Joins a b ↔ graph.Joins a b ∧ a ≠ n ∧ b ≠ n := by
  unfold Graph.removeNode
  split
  · next hp =>
    let ta : Graph directed N := { graph with
        nodes := swapRemove graph.nodes (graph.nodes.findIdx (· = n))
        links := update graph.links n [] }
    have hlt : ∀ x, ta.links x = if x = n then [] else graph.links x := fun x =>
      update_apply _ _ _ _
    have hn : ∀ x, (ta.links x).Nodup := by
      intro x
      rw [hlt]
      split
      · exact .nil
      · exact hl.links x
    obtain ⟨hnn, hmn⟩ : ta.nodes.Nodup ∧
        ∀ {x}, x ∈ ta.nodes ↔ x ∈ graph.nodes ∧ x ≠ n :=
      nodup_of_cons_perm (cons_swapRemove_perm hp) hl.nodes
    have hr : ∀ {z link}, link ∈ ta.links z → z ∈ ta.nodes := by
      intro z link mem
      rw [hlt] at mem
      split at mem
      · cases mem
      · next o => exact hmn.mpr ⟨hl.rooted mem, o⟩
    have hd := dropped_foldl n (graph.links n) ta hl.edges hn hr
    -- the links of the node stand for the edges at it
    have hi : ∀ {a b : N}, graph.Joins a b →
        ((∀ link ∈ graph.links n, edgeKey directed a b ≠ edgeOf directed n link) ↔
          a ≠ n ∧ b ≠ n) := by
      intro a b hj
      constructor
      · intro hap
        have hle : a ≠ n := by
          rintro rfl
          exact hap (b, .outgoing) hj rfl
        refine ⟨hle, ?_⟩
        rintro rfl
        exact hap (a, .incoming) (hl.incoming.mpr ⟨hj, hle⟩) rfl
      · rintro ⟨hle, hri⟩ ⟨o, dir⟩ mem hs
        cases dir with
        | outgoing => exact hle (hl.once hj mem hs).1
        | incoming => exact hri (hl.once hj (hl.incoming.mp mem).1 hs).2
    have hml : ∀ {x y : N} {dir : Direction},
        (y, dir) ∈ ((graph.links n).foldl (dropLink n) ta).links x ↔
          (y, dir) ∈ graph.links x ∧ x ≠ n ∧ y ≠ n := by
      intro x y dir
      rw [hd.mem_links, hlt]
      by_cases he : x = n
      · simp [he]
      · rw [if_neg he]
        refine and_congr_right fun mem => ?_
        constructor
        · intro hap
          refine ⟨he, ?_⟩
          rintro rfl
          refine hap dir.opposite ?_ (by rw [Direction.opposite_opposite])
          cases dir with
          | outgoing => exact hl.incoming.mpr ⟨mem, he⟩
          | incoming => exact (hl.incoming.mp mem).1
        · rintro ⟨-, o⟩ back - hs
          exact o (Prod.mk.inj hs).1
    have hna := hd.nodes
    have hm : ∀ {x}, x ∈ ((graph.links n).foldl (dropLink n) ta).nodes ↔
        x ∈ graph.nodes ∧ x ≠ n := by
      rw [hna]
      exact hmn
    refine ⟨hl.restrict (by rw [hna]; exact hnn) hd.edges hd.links
      (fun edge mem => (hd.mem_edges.mp mem).1) (fun hj => ?_) hml ?_ ?_,
      hm, hml⟩
    · rw [hd.mem_edges, hi hj]
      exact and_iff_right (hl.mem_edges.mpr ⟨_, _, hj, rfl⟩)
    · exact hml.trans (and_congr_right fun _ => and_comm)
    · intro a b hj hst
      rw [hm, hm]
      obtain ⟨src, t⟩ := hl.endpoints hj
      exact ⟨⟨src, hst.1⟩, t, hst.2⟩
  · next ha =>
    refine ⟨hl, fun {x} => ⟨fun mem => ⟨mem, ?_⟩, And.left⟩,
      fun {a b} => ⟨fun hj => ⟨hj, ?_, ?_⟩, And.left⟩⟩
    · rintro rfl
      exact ha mem
    · rintro rfl
      exact ha (hl.endpoints hj).1
    · rintro rfl
      exact ha (hl.endpoints hj).2

/-- What is left when a node is removed. -/
structure Removed (n : N) (before after : DiGraph N) : Prop where
  nodes : after.nodes.Nodup
  mem_nodes : ∀ {x}, x ∈ after.nodes ↔ x ∈ before.nodes ∧ x ≠ n
  mem_edges : ∀ {a b}, (a, b) ∈ after.edges ↔ (a, b) ∈ before.edges ∧ a ≠ n ∧ b ≠ n

theorem Consistent.removeNode {g : DiGraph N} (con : Consistent g) (n : N) :
    Consistent (g.removeNode n) ∧ Removed n g (g.removeNode n) := by
  obtain ⟨hl, hn, hj⟩ := (consistent_iff.mp con).removeNode n
  have post := consistent_iff.mpr hl
  refine ⟨post, hl.nodes, hn, fun {a b} => ?_⟩
  rw [← post.outgoing, ← con.outgoing]
  exact hj

/-! ## Undirected graphs

`remove_edge` looks for the links of an edge in the order in which it is given the ends. -/

section RemoveEdge

variable (hl : Linked graph)

include hl

theorem Linked.containsEdge_iff : graph.containsEdge a b = true ↔
    graph.Joins a b ∨ directed = false ∧ graph.Joins b a := by
  rw [containsEdge, decide_eq_true_iff, hl.mem_edges]
  simp only [edgeKey_eq_iff]
  constructor
  · rintro ⟨x, y, hj, ⟨rfl, rfl⟩ | ⟨hu, rfl, rfl⟩⟩
    · exact .inl hj
    · exact .inr ⟨hu, hj⟩
  · rintro (hj | ⟨hu, hj⟩)
    · exact ⟨a, b, hj, .inl ⟨rfl, rfl⟩⟩
    · exact ⟨b, a, hj, .inr ⟨hu, rfl, rfl⟩⟩

theorem Linked.links_removeEdge (a b x : N) : ((graph.removeEdge a b).2.links x).Nodup ∧
    ∀ {link}, link ∈ (graph.removeEdge a b).2.links x ↔ link ∈ graph.links x ∧
      ¬ (x = a ∧ link = (b, .outgoing)) ∧ ¬ (a ≠ b ∧ x = b ∧ link = (a, .incoming)) := by
  have fst := links_removeLink hl.links hl.rooted a b .outgoing
  unfold removeEdge
  split
  · next hs => exact ⟨(fst x).1, fun {link} => (fst x).2.trans (by simp [hs])⟩
  · next ne =>
    obtain ⟨hn, hm⟩ := links_removeLink (fun z => (fst z).1)
      (fun mem => (nodes_removeLink a b .outgoing).symm ▸ hl.rooted ((fst _).2.mp mem).1)
      b a .incoming x
    refine ⟨hn, fun {link} => hm.trans ?_⟩
    rw [(fst x).2, and_assoc]
    simp [ne]

omit hl in
theorem nodes_removeEdge (a b : N) : (graph.removeEdge a b).2.nodes = graph.nodes := by
  unfold removeEdge
  split <;> simp

omit hl in
theorem edges_removeEdge (a b : N) :
    (graph.removeEdge a b).2.edges = graph.edges.erase (edgeKey directed a b) := by
  unfold removeEdge
  split <;> simp

theorem Linked.containsEdge_removeEdge (a b : N) :
    (graph.removeEdge a b).2.containsEdge a b = false := by
  rw [containsEdge, edges_removeEdge, decide_eq_false_iff_not, hl.edges.mem_erase_iff]
  exact fun hb => hb.1 rfl

/-- An edge that is there is removed if its ends are given in the order of its insertion. -/
theorem Linked.removeEdge (ho : graph.containsEdge a b = true → graph.Joins a b) :
    Linked (graph.removeEdge a b).2 := by
  have hli := hl.links_removeEdge a b
  have he : ∀ {edge}, edge ∈ (graph.removeEdge a b).2.edges ↔
      edge ≠ edgeKey directed a b ∧ edge ∈ graph.edges := by
    rw [edges_removeEdge]
    exact hl.edges.mem_erase_iff
  refine @hl.restrict _ _ _ _ _ (fun x y => ¬ (x = a ∧ y = b)) ?_ ?_ (fun x => (hli x).1)
    (fun edge mem => (he.mp mem).2) ?_ ?_ ?_ ?_
  · rw [nodes_removeEdge]
    exact hl.nodes
  · rw [edges_removeEdge]
    exact hl.edges.erase _
  · intro x y hj
    have key := hl.mem_edges.mpr ⟨x, y, hj, rfl⟩
    rw [he, and_iff_left key, not_iff_not]
    constructor
    · intro hs
      exact hl.once hj (ho (by rw [containsEdge, ← hs, decide_eq_true key])) hs
    · rintro ⟨rfl, rfl⟩
      rfl
  · intro x y
    rw [Joins, (hli x).2]
    simp [Joins]
  · intro x y
    rw [(hli y).2]
    refine and_congr_right fun mem => ?_
    have ne := (hl.incoming.mp mem).2
    grind
  · intro x y hj _
    rw [nodes_removeEdge]
    exact hl.endpoints hj

end RemoveEdge

/-- A call that changes a graph. -/
inductive Op (N : Type) where
  | insertNode (n : N)
  | insertEdge (a b : N)
  | removeNode (n : N)
  | removeEdge (a b : N)

/-- Make a call. -/
def step : Op N → Graph directed N → Option (Graph directed N)
  | .insertNode n, graph => some (graph.insertNode n)
  | .insertEdge a b, graph => some (graph.insertEdge a b)
  | .removeNode n, graph => some (graph.removeNode n)
  | .removeEdge a b, graph => some (graph.removeEdge a b).2

/-- If the edge to be removed is there, its ends are given in the order of its insertion. -/
def Op.Ordered (graph : Graph directed N) : Op N → Prop
  | .removeEdge a b => graph.containsEdge a b = true → (b, .outgoing) ∈ graph.links a
  | _ => True

theorem Linked.step (hl : Linked graph) {op : Op N} (hs : step op graph = some post)
    (ho : op.Ordered graph) : Linked post := by
  cases op with
  | insertNode n =>
    cases hs
    exact hl.insertNode n
  | insertEdge a b =>
    cases hs
    exact hl.insertEdge a b
  | removeNode n =>
    cases hs
    exact (hl.removeNode n).1
  | removeEdge a b =>
    cases hs
    exact hl.removeEdge ho

section Undirected

variable {graph after : UnGraph N}

/-- The adjacency lists say what the set of edges says, at both ends. -/
def Agrees (graph : UnGraph N) : Prop := ∀ a b,
  (b ∈ graph.neighbors a ↔ graph.containsEdge a b = true) ∧
    (b ∈ graph.neighbors a ↔ a ∈ graph.neighbors b)

theorem Linked.mem_neighbors_iff (hl : Linked graph) :
    b ∈ graph.neighbors a ↔ graph.Joins a b ∨ graph.Joins b a := by
  have he : b ∈ graph.neighbors a ↔
      graph.Joins a b ∨ (b, Direction.incoming) ∈ graph.links a := by
    unfold neighbors Joins
    simp only [Bool.not_false, Bool.true_or, if_true, mem_filterMap, Option.some.injEq]
    constructor
    · rintro ⟨⟨_, _ | _⟩, mem, rfl⟩
      · exact .inl mem
      · exact .inr mem
    · rintro (mem | mem)
      · exact ⟨_, mem, rfl⟩
      · exact ⟨_, mem, rfl⟩
  rw [he, hl.incoming]
  by_cases hs : b = a
  · simp [hs]
  · simp [hs]

theorem Linked.agrees (hl : Linked graph) : graph.Agrees := by
  intro a b
  rw [hl.mem_neighbors_iff, hl.mem_neighbors_iff, hl.containsEdge_iff]
  exact ⟨by simp, or_comm⟩

/-- An edge whose ends are given the other way round leaves its links behind. -/
theorem Linked.agrees_step_iff (hl : Linked graph) {op : Op N}
    (hs : Graph.step op graph = some after) : after.Agrees ↔ op.Ordered graph := by
  refine ⟨fun hag => ?_, fun ho => (hl.step hs ho).agrees⟩
  cases op with
  | removeEdge a b =>
    cases hs
    intro hc
    by_contra hb
    have hj := ((hl.containsEdge_iff.mp hc).resolve_left hb).2
    have ne : b ≠ a := by
      rintro rfl
      exact hb hj
    have hst : b ∈ (graph.removeEdge a b).2.neighbors a := by
      refine mem_filterMap.mpr ⟨(b, .incoming), (hl.links_removeEdge a b a).2.mpr ⟨?_, ?_⟩, rfl⟩
      · exact hl.incoming.mpr ⟨hj, ne⟩
      · simp [ne.symm]
    rw [(hag a b).1, hl.containsEdge_removeEdge] at hst
    cases hst
  | _ => trivial

/-- **Adjacency lists and edges agree after every run that removes edges with their ends in the
order of insertion**; a call that does not keep to it breaks the agreement.  No entry to a removed
node or edge remains. -/
theorem run_agrees_iff {ops : List (Op N)} (ran : run step ops (new : UnGraph N) = some graph)
    (ordered : EachStep step (fun op before _ => op.Ordered before) ops (new : UnGraph N)) :
    graph.Agrees ∧ (∀ op after, step op graph = some after → (after.Agrees ↔ op.Ordered graph)) ∧
      (∀ n a, n ∉ (graph.removeNode n).neighbors a) ∧
      ∀ a b, (Op.removeEdge a b).Ordered graph → b ∉ (graph.removeEdge a b).2.neighbors a := by
  have hli : Linked graph :=
    ordered.invariant (fun _ _ _ hli hs => hli.step hs) linked_new ran
  refine ⟨hli.agrees, fun op after hs => hli.agrees_step_iff hs, ?_, ?_⟩
  · intro n a
    obtain ⟨after, -, hj⟩ := hli.removeNode n
    rw [after.mem_neighbors_iff, hj, hj]
    simp
  · intro a b ordered
    rw [((hli.removeEdge ordered).agrees a b).1, hli.containsEdge_removeEdge]
    exact Bool.false_ne_true

end Undirected

section Directed

variable {graph : DiGraph N}

/-- **The set of edges and the adjacency lists of a directed graph agree after every run**: an
edge has one outgoing entry at its start and one incoming entry at its end, but a self loop has
the outgoing entry only.  Removing a node removes the edges at it and no others. -/
theorem run_directed {ops : List (Op N)} (ran : run step ops new = some graph) :
    (∀ a b, (a, b) ∈ graph.edges ↔ (graph.links a).count (b, .outgoing) = 1 ∧
      (graph.links b).count (a, .incoming) = if a = b then 0 else 1) ∧
    (∀ a b, (a, b) ∈ graph.edges → a ∈ graph.nodes ∧ b ∈ graph.nodes) ∧
    ∀ n a b, (a, b) ∈ (graph.removeNode n).edges ↔ (a, b) ∈ graph.edges ∧ a ≠ n ∧ b ≠ n := by
  have hli : Linked graph := by
    refine run_invariant (fun op g next hli hs => hli.step hs ?_) linked_new ran
    cases op with
    | removeEdge a b =>
      exact fun ht => (hli.containsEdge_iff.mp ht).resolve_right (by simp)
    | _ => trivial
  have hc := consistent_iff.mpr hli
  refine ⟨fun a b => ⟨fun he => ⟨?_, ?_⟩, fun hb => ?_⟩, fun a b => hc.endpoints,
    fun n a b => (hc.removeNode n).2.mem_edges⟩
  · exact count_eq_one_of_mem (hli.links a) (hc.outgoing.mpr he)
  · split
    · next hsa => exact count_eq_zero.mpr fun mem => (hc.incoming.mp mem).2 hsa
    · next ne => exact count_eq_one_of_mem (hli.links b) (hc.incoming.mpr ⟨he, ne⟩)
  · exact hc.outgoing.mp (count_pos_iff.mp (hb.1 ▸ Nat.one_pos))

end Directed

/-- An edge and a self loop. -/
theorem run_directed_loop : ∃ graph, run step [.insertEdge 1 2, .insertEdge 2 2]
    (new : DiGraph ℕ) = some graph ∧ ∀ a b, (a, b) ∈ graph.edges → b ∈ graph.nodes :=
  exists_of_isSome rfl fun _ ran a b he => ((run_directed ran).2.1 a b he).2

/-- A self loop has no incoming entry. -/
theorem loop_without_incoming : ∃ graph, run step [.insertEdge 1 1] (new : DiGraph ℕ) =
    some graph ∧ (1, 1) ∈ graph.edges ∧ (graph.links 1).count (1, .incoming) = 0 :=
  ⟨_, rfl, by decide⟩

/-- An edge and a self loop come and go. -/
theorem run_agrees_iff_loop : ∃ graph, run step [.insertEdge 2 1, .insertEdge 2 2,
    .removeEdge 2 1] (new : UnGraph ℕ) = some graph ∧ graph.Agrees := by
  refine exists_of_isSome rfl fun graph ran => (run_agrees_iff ran ?_).1
  rintro _ ⟨⟩
  refine ⟨trivial, ?_⟩
  rintro _ ⟨⟩
  refine ⟨trivial, ?_⟩
  rintro _ ⟨⟩
  exact ⟨fun _ => by decide, trivial⟩

/-- An edge is removed with its ends the other way round. -/
theorem run_backward : ∃ graph, run step [.insertEdge 1 2, .removeEdge 2 1] (new : UnGraph ℕ) =
    some graph ∧ graph.containsEdge 1 2 = false ∧ 2 ∈ graph.neighbors 1 ∧
      1 ∈ graph.neighbors 2 := ⟨_, rfl, by decide⟩

end Graph

end Voker.Ecs
