import Voker.Ecs.Schedule.Edits
import Voker.Ecs.Schedule.Tables

/-!
# The compilation of a schedule

An update initialises the new systems, sorts the merged graph and fills the compiled
schedule: the systems, the lists of edges, their counts and the table of conflicts.  Then
**the compiled schedule says about positions what the graphs say about keys**
(`Compiled`), and if no initialisation has been interrupted, the table of conflicts says
which two systems cannot run together (`Separates`).

The systems can be put back: opening the compiled schedule again yields the schedule that was
compiled.
-/

namespace Voker.Ecs.Schedule

open List Function SystemBuffer

variable {calm : Prop} {s : Schedule}

/-! ## Initialisation -/

section InitAccess

variable {start : SystemId → Option ValidTable}

/-- The first loop replaces access tables. -/
structure Prepared (keys : List SystemKey) (before after : SystemBuffer) : Prop where
  uninit : after.uninit = before.uninit
  other : ∀ key, key ∉ keys → after.nodes key = before.nodes key
  systems : ∀ key, (after.nodes key).map (Option.map SystemNode.system) =
    (before.nodes key).map (Option.map SystemNode.system)

theorem prepared_initAccess (keys : List SystemKey) (buf : SystemBuffer) :
    Prepared keys buf (initAccess start keys buf).1 := by
  induction keys generalizing buf with
  | nil => exact ⟨rfl, fun _ _ => rfl, fun _ => rfl⟩
  | cons key rest ih =>
    rw [initAccess]
    split
    · exact ⟨rfl, fun _ _ => rfl, fun _ => rfl⟩
    · next node hf =>
      split
      · exact ⟨rfl, fun _ _ => rfl, fun _ => rfl⟩
      · next access _ =>
        have ht := ih (buf.set key (some { node with access := access }))
        have hs : buf.nodes key = some (some node) := by
          cases hs : buf.nodes key with
          | none =>
            rw [getSystem, hs] at hf
            cases hf
          | some held =>
            rw [getSystem, hs] at hf
            exact congrArg some hf
        refine ⟨ht.uninit, fun o ha => ?_, fun o => (ht.systems o).trans ?_⟩
        · obtain ⟨ne, ha⟩ := not_or.mp (mem_cons.not.mp ha)
          rw [ht.other o ha, nodes_set, update_of_ne ne]
        · by_cases hsa : o = key
          · subst hsa
            rw [nodes_set, update_self, hs]
            rfl
          · rw [nodes_set, update_of_ne hsa]

variable {keys : List SystemKey}

/-- A system of the prepared buffer was in the buffer before. -/
theorem Prepared.getSystem {pre post : SystemBuffer} (hp : Prepared keys pre post)
    {key : SystemKey} {node : SystemNode} (hf : pre.nodes key = some (some node)) :
    ∃ o, post.nodes key = some (some o) ∧ o.system = node.system := by
  have hs := hp.systems key
  rw [hf, Option.map_some, Option.map_some] at hs
  obtain ⟨slot, hel, hm⟩ := Option.map_eq_some_iff.mp hs
  obtain ⟨o, rfl, he⟩ := Option.map_eq_some_iff.mp hm
  exact ⟨o, hel, he⟩

/-- The schedule with the prepared buffer. -/
theorem Opened.prepared (ho : Opened calm s) {buf : SystemBuffer}
    (hp : Prepared keys { s.buffer with uninit := [] } buf)
    {conflict : ConflictGraph} {ca : Prop}
    (hk : ca → Known { s with buffer := buf, conflict := conflict }) :
    Opened ca { s with buffer := buf, conflict := conflict } :=
  { changed := ho.changed
    empty := ho.empty
    fresh := ho.fresh
    holds := fun hf => by
      obtain ⟨node, he, hn⟩ := ho.holds hf
      obtain ⟨o, hel, hs⟩ := hp.getSystem he
      exact ⟨o, hel, hs ▸ hn⟩
    only := fun {key slot} he => by
      have hs := hp.systems key
      have he : buf.nodes key = some slot := he
      rw [he, Option.map_some] at hs
      obtain ⟨pre, hf, -⟩ := Option.map_eq_some_iff.mp hs.symm
      exact ho.only hf
    uninit := fun {key} mem => by
      have empty : buf.uninit = [] := hp.uninit
      rw [empty] at mem
      cases mem
    uninitNodup := by
      have empty : buf.uninit = [] := hp.uninit
      rw [empty]
      exact nodup_nil
    dependency := ho.dependency
    condition := ho.condition
    known := hk }

end InitAccess

/-! ## Conflicts -/

/-- What the second loop finds for the first of two systems. -/
def Clash (buffer : SystemBuffer) (a b : SystemKey) : Prop :=
  a ≠ b ∧ ∃ x y, buffer.getSystem a = some x ∧ buffer.getSystem b = some y ∧
    x.system.object.exclusive = false ∧ x.access.1.parallelizable y.access.1 = false

theorem conflicts_setConflict (c : ConflictGraph) (a b x y : SystemKey) :
    (c.setConflict a b).conflicts x y = true ↔
      c.conflicts x y = true ∨ x = a ∧ y = b ∨ x = b ∧ y = a := by
  have hc : (c.setConflict a b).conflicts x y =
      if x = a ∧ y = b ∨ x = b ∧ y = a then true else c.conflicts x y := rfl
  rw [hc]
  split
  · next hb => exact iff_of_true rfl (.inr hb)
  · next hn => exact ⟨.inl, fun he => he.resolve_right hn⟩

variable {a : SystemKey} {buf : SystemBuffer} {node : SystemNode} {al : Allocator}

theorem compareWith_spec (hf : buf.getSystem a = some node)
    (hp : node.system.object.exclusive = false) (c : ConflictGraph) (b : SystemKey) :
    (compareWith buf a node c b).exclusive = c.exclusive ∧
      ∀ x y, (compareWith buf a node c b).conflicts x y = true ↔
        c.conflicts x y = true ∨ Clash buf a b ∧ (x = a ∧ y = b ∨ x = b ∧ y = a) := by
  rw [compareWith]
  split
  · next o hfb =>
    split
    · next hc =>
      have hc : Clash buf a b := ⟨hc.1, node, o, hf, hfb, hp, hc.2⟩
      refine ⟨rfl, fun x y => ?_⟩
      rw [conflicts_setConflict, and_iff_right hc]
    · next hco =>
      refine ⟨rfl, fun x y => ⟨.inl, ?_⟩⟩
      rintro (pre | ⟨⟨ne, x, y, hfx, hfy, -, hc⟩, -⟩)
      · exact pre
      · rw [hf] at hfx
        rw [hfb] at hfy
        obtain rfl := Option.some.inj hfx
        obtain rfl := Option.some.inj hfy
        exact absurd ⟨ne, hc⟩ hco
  · next ha =>
    refine ⟨rfl, fun x y => ⟨.inl, ?_⟩⟩
    rintro (pre | ⟨⟨-, -, y, -, hfy, -⟩, -⟩)
    · exact pre
    · rw [ha] at hfy
      cases hfy

theorem foldl_compareWith (hf : buf.getSystem a = some node)
    (hp : node.system.object.exclusive = false) (keys : List SystemKey)
    (c : ConflictGraph) :
    (keys.foldl (compareWith buf a node) c).exclusive = c.exclusive ∧
      ∀ x y, (keys.foldl (compareWith buf a node) c).conflicts x y = true ↔
        c.conflicts x y = true ∨
          x = a ∧ y ∈ keys ∧ Clash buf a y ∨ y = a ∧ x ∈ keys ∧ Clash buf a x := by
  induction keys generalizing c with
  | nil => exact ⟨rfl, fun x y => by simp⟩
  | cons b rest ih =>
    obtain ⟨hex, hcn⟩ := ih (compareWith buf a node c b)
    obtain ⟨he, hco⟩ := compareWith_spec hf hp c b
    refine ⟨hex.trans he, fun x y => (hcn x y).trans ?_⟩
    rw [hco, mem_cons, mem_cons]
    constructor
    · rintro ((pre | ⟨hc, ⟨rfl, rfl⟩ | ⟨rfl, rfl⟩⟩) | hb | hb)
      · exact .inl pre
      · exact .inr (.inl ⟨rfl, .inl rfl, hc⟩)
      · exact .inr (.inr ⟨rfl, .inl rfl, hc⟩)
      · exact .inr (.inl ⟨hb.1, .inr hb.2.1, hb.2.2⟩)
      · exact .inr (.inr ⟨hb.1, .inr hb.2.1, hb.2.2⟩)
    · rintro (pre | ⟨rfl, rfl | mem, hc⟩ | ⟨rfl, rfl | mem, hc⟩)
      · exact .inl (.inl pre)
      · exact .inl (.inr ⟨hc, .inl ⟨rfl, rfl⟩⟩)
      · exact .inr (.inl ⟨rfl, mem, hc⟩)
      · exact .inl (.inr ⟨hc, .inr ⟨rfl, rfl⟩⟩)
      · exact .inr (.inr ⟨rfl, mem, hc⟩)

/-- Some systems have been initialised. -/
structure Marks (buffer : SystemBuffer) (keys : List SystemKey) (before after : ConflictGraph) :
    Prop where
  exclusive : ∀ key, after.exclusive key = true ↔ before.exclusive key = true ∨
    key ∈ keys ∧ ∃ node, buffer.getSystem key = some node ∧ node.system.object.exclusive = true
  conflicts : ∀ x y, after.conflicts x y = true ↔ before.conflicts x y = true ∨
    x ∈ keys ∧ Clash buffer x y ∨ y ∈ keys ∧ Clash buffer y x

/-- One turn of the second loop. -/
theorem marks_initConflict (hb : ∀ {key node}, buf.getSystem key = some node → key < al.next)
    (c : ConflictGraph) (a : SystemKey) :
    Marks buf [a] c (initConflict al buf c a) := by
  simp only [initConflict]
  split
  · next ha =>
    refine ⟨fun key => ⟨.inl, ?_⟩, fun x y => ⟨.inl, ?_⟩⟩
    · rintro (pre | ⟨hs, node, hf, -⟩)
      · exact pre
      · rw [mem_singleton.mp hs, ha] at hf
        cases hf
    · rintro (pre | ⟨hs, -, node, -, hf, -⟩ | ⟨hs, -, node, -, hf, -⟩)
      · exact pre
      · rw [mem_singleton.mp hs, ha] at hf
        cases hf
      · rw [mem_singleton.mp hs, ha] at hf
        cases hf
  · next node hf =>
    split
    · next he =>
      have hm : (c.setExclusive a).exclusive =
        Function.update c.exclusive a true := rfl
      refine ⟨fun key => ?_, fun x y => ⟨.inl, ?_⟩⟩
      · rw [hm, mem_singleton]
        by_cases hs : key = a
        · subst hs
          rw [update_self]
          exact iff_of_true rfl (.inr ⟨rfl, node, hf, he⟩)
        · rw [update_of_ne hs]
          exact ⟨.inl, fun hei => hei.resolve_right fun hbo => hs hbo.1⟩
      · have hp : ∀ {o}, ¬ Clash buf a o := by
          rintro o ⟨-, x, -, hfx, -, hp, -⟩
          rw [hf] at hfx
          obtain rfl := Option.some.inj hfx
          rw [he] at hp
          cases hp
        rintro (pre | ⟨hs, hc⟩ | ⟨hs, hc⟩)
        · exact pre
        · exact absurd (mem_singleton.mp hs ▸ hc) hp
        · exact absurd (mem_singleton.mp hs ▸ hc) hp
    · next hp =>
      have hp : node.system.object.exclusive = false := Bool.not_eq_true _ ▸ hp
      obtain ⟨he, hco⟩ := foldl_compareWith hf hp (range al.next) c
      have hin : ∀ {o}, Clash buf a o → o ∈ range al.next := by
        rintro o ⟨-, -, y, -, hfy, -⟩
        exact mem_range.mpr (hb hfy)
      refine ⟨fun key => ?_, fun x y => (hco x y).trans ?_⟩
      · rw [he, mem_singleton]
        refine ⟨.inl, ?_⟩
        rintro (pre | ⟨rfl, o, hfo, he⟩)
        · exact pre
        · rw [hf] at hfo
          obtain rfl := Option.some.inj hfo
          rw [hp] at he
          cases he
      · rw [mem_singleton, mem_singleton]
        constructor
        · rintro (pre | ⟨rfl, -, hc⟩ | ⟨rfl, -, hc⟩)
          · exact .inl pre
          · exact .inr (.inl ⟨rfl, hc⟩)
          · exact .inr (.inr ⟨rfl, hc⟩)
        · rintro (pre | ⟨rfl, hc⟩ | ⟨rfl, hc⟩)
          · exact .inl pre
          · exact .inr (.inl ⟨rfl, hin hc, hc⟩)
          · exact .inr (.inr ⟨rfl, hin hc, hc⟩)

theorem Marks.append {fst snd : List SystemKey} {pre mid post : ConflictGraph}
    (one : Marks buf fst pre mid) (two : Marks buf snd mid post) :
    Marks buf (fst ++ snd) pre post := by
  refine ⟨fun key => (two.exclusive key).trans ?_, fun x y => (two.conflicts x y).trans ?_⟩
  · rw [one.exclusive, mem_append, or_and_right, or_assoc]
  · rw [one.conflicts, mem_append, mem_append, or_and_right, or_and_right]
    tauto

/-- The second loop. -/
theorem marks_foldl (hb : ∀ {key node}, buf.getSystem key = some node → key < al.next)
    (keys : List SystemKey) (c : ConflictGraph) :
    Marks buf keys c (keys.foldl (initConflict al buf) c) := by
  induction keys generalizing c with
  | nil => exact ⟨fun key => by simp, fun x y => by simp⟩
  | cons key rest ih => exact (marks_initConflict hb c key).append (ih _)

theorem not_conflicts_uninit (hk : s.Known) {b : SystemKey}
    (hw : a ∈ s.buffer.uninit ∨ b ∈ s.buffer.uninit) : ¬ s.conflict.conflicts a b = true := by
  intro hc
  rcases hw with hw | hw
  · exact (hk.registered hc).2 hw
  · exact (hk.registered ((hk.symm b a).trans hc)).2 hw

/-- After both loops the conflict graph knows all systems. -/
theorem Known.marks (hk : s.Known) (hop : Opened calm s) {conflict : ConflictGraph}
    (hp : Prepared s.buffer.uninit { s.buffer with uninit := [] } buf)
    (hm : Marks buf s.buffer.uninit s.conflict conflict) :
    Known { s with buffer := buf, conflict := conflict } := by
  have ho : Opened False { s with buffer := buf, conflict := conflict } :=
    hop.prepared hp False.elim
  have he : ∀ {key}, key ∉ buf.uninit := fun {key} mem => by
    have he : buf.uninit = [] := hp.uninit
    rw [he] at mem
    cases mem
  have hke : ∀ {key}, key ∉ s.buffer.uninit →
      buf.getSystem key = s.buffer.getSystem key := fun {key} hr =>
    congrArg Option.join (hp.other key hr)
  refine ⟨fun key => (hm.exclusive key).trans ?_, fun {a b} hco => ?_, fun a b => ?_, ?_⟩
  · rw [hk.exclusive]
    constructor
    · rintro (⟨hr, node, hf, hex⟩ | ⟨-, node, hf, hex⟩)
      · exact ⟨he, node, (hke hr).trans hf, hex⟩
      · exact ⟨he, node, hf, hex⟩
    · rintro ⟨-, node, hf, hex⟩
      by_cases hw : key ∈ s.buffer.uninit
      · exact .inr ⟨hw, node, hf, hex⟩
      · exact .inl ⟨hw, node, (hke hw).symm.trans hf, hex⟩
  · refine ⟨?_, he⟩
    rcases (hm.conflicts a b).mp hco with pre | ⟨-, -, x, y, hf, -⟩ |
        ⟨-, -, x, y, -, hf, -⟩
    · exact (hk.registered pre).1
    · exact ⟨_, registered_of_getSystem ho hf⟩
    · exact ⟨_, registered_of_getSystem ho hf⟩
  · refine Bool.eq_iff_iff.mpr ((hm.conflicts a b).trans (Iff.trans ?_
      (hm.conflicts b a).symm))
    rw [hk.symm a b, or_comm (a := a ∈ _ ∧ _)]
  · intro a b x y ne _ _ hfa hfb hpa hpb
    refine (hm.conflicts a b).trans ?_
    have hca : Clash buf a b ↔ x.access.1.parallelizable y.access.1 = false := by
      refine ⟨?_, fun hc => ⟨ne, x, y, hfa, hfb, hpa, hc⟩⟩
      rintro ⟨-, x', y', hfx, hfy, -, hc⟩
      rw [hfa] at hfx
      rw [hfb] at hfy
      obtain rfl := Option.some.inj hfx
      obtain rfl := Option.some.inj hfy
      exact hc
    have hcb : Clash buf b a ↔ x.access.1.parallelizable y.access.1 = false := by
      rw [x.access.2.parallelizable_eq y.access.2]
      refine ⟨?_, fun hc => ⟨ne.symm, y, x, hfb, hfa, hpb, hc⟩⟩
      rintro ⟨-, y', x', hfy, hfx, -, hc⟩
      rw [hfa] at hfx
      rw [hfb] at hfy
      obtain rfl := Option.some.inj hfx
      obtain rfl := Option.some.inj hfy
      exact hc
    by_cases hw : a ∈ s.buffer.uninit ∨ b ∈ s.buffer.uninit
    · have hu := not_conflicts_uninit hk hw
      tauto
    · obtain ⟨hra, hrb⟩ := not_or.mp hw
      rw [hk.conflicts ne hra hrb ((hke hra).symm.trans hfa)
        ((hke hrb).symm.trans hfb) hpa hpb]
      tauto

/-- `init_systems` changes the buffer and the conflict graph; what the latter knows is lost
in a panic. -/
theorem initSystems_spec (ho : Opened calm s) (start : SystemId → Option ValidTable) :
    (∃ buf conflict, buf.uninit = [] ∧ (s.initSystems start).1 =
        { s with buffer := buf, conflict := conflict }) ∧
      Opened (calm ∧ (s.initSystems start).2 = true) (s.initSystems start).1 := by
  let t : SystemBuffer := { s.buffer with uninit := [] }
  have hp : Prepared s.buffer.uninit t
      (initAccess start s.buffer.uninit t).1 :=
    prepared_initAccess s.buffer.uninit t
  rw [initSystems]
  split
  · next buf hfa =>
    rw [hfa] at hp
    exact ⟨⟨buf, s.conflict, hp.uninit, rfl⟩,
      ho.prepared hp fun hb => nomatch hb.2⟩
  · next buf hr =>
    rw [hr] at hp
    refine ⟨⟨buf, _, hp.uninit, rfl⟩, ho.prepared hp fun hb => ?_⟩
    have hop : Opened False { s with buffer := buf } :=
      ho.prepared hp False.elim
    refine (ho.known hb.1).marks ho hp (marks_foldl (fun hf => ?_) _ _)
    exact ho.fresh (registered_of_getSystem hop hf)

/-! ## The merged graph -/

theorem merged_spec (ho : Opened calm s) (o : HashOrder) :
    let m := s.merged (o.conditionEdges s.ordering.condition.graph.edges)
    m.Over s.Registered ∧
      ∀ a b, (a, b) ∈ m.graph.edges ↔ s.Depends a b := by
  have hp := o.conditionEdges_perm s.ordering.condition.graph.edges
  have hl : ∀ (e : List (SystemKey × SystemKey)),
      (∀ edge ∈ e, edge ∈ s.ordering.condition.graph.edges) →
      ∀ dag : Dag, dag.Over s.Registered →
        (e.foldl (fun dag edge => dag.insertEdge edge.1 edge.2) dag).Over
            s.Registered ∧
          ∀ edge, edge ∈ (e.foldl (fun dag edge => dag.insertEdge edge.1 edge.2)
            dag).graph.edges ↔ edge ∈ dag.graph.edges ∨ edge ∈ e := by
    intro e
    induction e with
    | nil => exact fun _ dag hs => ⟨hs, fun edge => by simp⟩
    | cons fst rest ih =>
      intro hk dag hs
      obtain ⟨src, t⟩ := ho.condition.endpoints (hk fst mem_cons_self)
      obtain ⟨hsp, e⟩ := ih (fun edge mem => hk edge (mem_cons_of_mem _ mem))
        _ (hs.insertEdge src t)
      refine ⟨hsp, fun edge => (e edge).trans ?_⟩
      rw [Dag.insertEdge, Graph.mem_edges_insertEdge, mem_cons, or_assoc]
  obtain ⟨hs, e⟩ := hl _ (fun edge => hp.mem_iff.mp) _ ho.dependency
  exact ⟨hs, fun a b => (e (a, b)).trans (or_congr_right hp.mem_iff)⟩

/-- A successful sort lists the registered keys. -/
theorem sort_spec {dag : Dag} {reg : SystemKey → Prop} (hsp : dag.Over reg)
    {fuel : ℕ} {ae : List (SystemKey × SystemKey)} (hp : ae.Perm dag.graph.edges)
    {keys : List SystemKey} (hs : dag.sort fuel ae = some (.ok keys)) :
    keys.Nodup ∧ (∀ key, key ∈ keys ↔ reg key) ∧
      ∀ {a b} {i j : ℕ}, (a, b) ∈ dag.graph.edges → keys[i]? = some a → keys[j]? = some b →
        i < j := by
  rw [Dag.sort] at hs
  split at hs
  · obtain ⟨hpn, ht, hl⟩ := DiGraph.toposort_spec hsp.consistent hp hs
    refine ⟨ht.1, fun key => hpn.mem_iff.trans (hsp.nodes key), ?_⟩
    intro a b i j he atI atJ
    have ne : a ≠ b := by
      rintro rfl
      exact hl a he
    have hle := ht.idxOf_lt he ne (mem_of_getElem? atI) (mem_of_getElem? atJ)
    obtain ⟨hii, rfl⟩ := List.getElem?_eq_some_iff.mp atI
    obtain ⟨hij, rfl⟩ := List.getElem?_eq_some_iff.mp atJ
    rwa [ht.1.idxOf_getElem, ht.1.idxOf_getElem] at hle
  · next hcl =>
    obtain ⟨hn, hc⟩ := hsp.cached (Bool.not_eq_true _ ▸ hcl)
    have hem : keys = [] := (Except.ok.inj (Option.some.inj hs)).symm.trans hc
    subst hem
    refine ⟨nodup_nil, fun key => ?_, fun _ atI => nomatch atI⟩
    rw [← hsp.nodes, hn]

/-! ## Compiled schedules -/

/-- The positions of a compiled schedule stand for the registered systems, each once, and
its lists and counts for the edges between them; condition edges are among the edges, and
the table of conflicts is symmetric. -/
structure Compiled (schedule : Schedule) : Prop where
  aligned : List.Forall₂ (fun key node => schedule.allocator.idents node.system.id = some key)
    schedule.schedule.keys schedule.schedule.systems
  once : (schedule.schedule.systems.map fun node => node.system.id).Nodup
  registered : ∀ id, id ∈ (schedule.schedule.systems.map fun node => node.system.id) ↔
    ∃ key, schedule.allocator.idents id = some key
  dependencies : Lists schedule.schedule.keys schedule.Depends schedule.schedule.outgoing
    schedule.schedule.incoming
  conditions : Lists schedule.schedule.keys
    (fun a b => (a, b) ∈ schedule.ordering.condition.graph.edges)
    schedule.schedule.conditionOutgoing schedule.schedule.conditionIncoming
  forward : ∀ {i j : ℕ}, EdgeAt schedule.schedule.keys schedule.Depends i j → i < j
  subset : ∀ {i : ℕ} {conditions all : List ℕ},
    schedule.schedule.conditionOutgoing[i]? = some conditions →
    schedule.schedule.outgoing[i]? = some all → conditions ⊆ all
  symm : ∀ {i j}, i < schedule.schedule.keys.length → j < schedule.schedule.keys.length →
    schedule.schedule.conflict.isConflict i j = schedule.schedule.conflict.isConflict j i

/-- The table has a bit between two systems if their access tables are not compatible or one
of them is exclusive. -/
def Separates (schedule : Schedule) : Prop :=
  ∀ {i j : ℕ} {x y}, i ≠ j → schedule.schedule.systems[i]? = some x →
    schedule.schedule.systems[j]? = some y →
    (schedule.schedule.conflict.isConflict i j = true ↔
      x.access.1.parallelizable y.access.1 = false ∨
        x.system.object.exclusive = true ∨ y.system.object.exclusive = true)

section Assembly

variable {keys : List SystemKey} {systems : List SystemNode} {i : ℕ}

/-- A system at a position. -/
theorem getElem?_of_aligned {r : SystemKey → SystemNode → Prop}
    (ha : List.Forall₂ r keys systems) {node : SystemNode}
    (hf : systems[i]? = some node) : ∃ key, keys[i]? = some key ∧ r key node := by
  obtain ⟨hin, rfl⟩ := List.getElem?_eq_some_iff.mp hf
  have hik : i < keys.length := ha.length_eq ▸ hin
  exact ⟨keys[i], List.getElem?_eq_getElem hik, ha.get hik hin⟩

/-- What the keys are under which systems are registered. -/
theorem map_of_aligned {ide : SystemId → Option SystemKey}
    (ha : List.Forall₂ (fun key (node : SystemNode) => ide node.system.id = some key)
      keys systems) : (systems.map fun node => node.system.id).map ide = keys.map some := by
  induction ha with
  | nil => rfl
  | cons fst _ ih => rw [map_cons, map_cons, map_cons, ih, fst]

/-- The table that is made of what is known separates the systems. -/
theorem separates_conflictTable (hk : s.Known) (hr : s.buffer.uninit = []) (hn : keys.Nodup)
    (ha : List.Forall₂ (fun key node => s.buffer.nodes key = some (some node)) keys systems)
    {j : ℕ} {x y : SystemNode} (ne : i ≠ j) (atI : systems[i]? = some x)
    (atJ : systems[j]? = some y) : (conflictTable s.conflict keys).isConflict i j = true ↔
      x.access.1.parallelizable y.access.1 = false ∨
        x.system.object.exclusive = true ∨ y.system.object.exclusive = true := by
  have pos : ∀ {i : ℕ} {node : SystemNode}, systems[i]? = some node →
      keys[i]? = some (keys.getD i 0) ∧ s.buffer.getSystem (keys.getD i 0) = some node := by
    intro i node hf
    obtain ⟨key, hka, hsl⟩ := getElem?_of_aligned ha hf
    have hs : keys.getD i 0 = key := by rw [getD_eq_getElem?_getD, hka, Option.getD_some]
    rw [hs]
    refine ⟨hka, ?_⟩
    rw [getSystem, hsl, Option.join_some]
  obtain ⟨hki, hfi⟩ := pos atI
  obtain ⟨hkj, hfj⟩ := pos atJ
  obtain ⟨hii, -⟩ := List.getElem?_eq_some_iff.mp hki
  obtain ⟨hij, -⟩ := List.getElem?_eq_some_iff.mp hkj
  have hi : ∀ key, key ∉ s.buffer.uninit := by
    intro key
    rw [hr]
    exact not_mem_nil
  have he : ∀ {key node}, s.buffer.getSystem key = some node →
      (s.conflict.exclusive key = true ↔ node.system.object.exclusive = true) := by
    intro key node hf
    rw [hk.exclusive]
    refine ⟨?_, fun he => ⟨hi key, node, hf, he⟩⟩
    rintro ⟨-, o, hfo, he⟩
    rw [hf] at hfo
    obtain rfl := Option.some.inj hfo
    exact he
  rw [isConflict_conflictTable hii hij hk.symm ne, he hfi, he hfj]
  have hkd : keys.getD i 0 ≠ keys.getD j 0 := by
    intro hs
    rw [hs, ← hkj] at hki
    exact ne ((getElem?_inj hii hn).mp hki)
  cases hpx : x.system.object.exclusive with
  | true => simp
  | false =>
    cases hpy : y.system.object.exclusive with
    | true => simp
    | false =>
      rw [hk.conflicts hkd (hi _) (hi _) hfi hfj hpx hpy]
      simp

/-- What compiling an open schedule yields, when the order has been found. -/
theorem assemble_spec (ho : Opened calm s) (hre : s.buffer.uninit = [])
    {m : Dag} (hsp : m.Over s.Registered)
    (hed : ∀ a b, (a, b) ∈ m.graph.edges ↔ s.Depends a b) (hn : keys.Nodup)
    (mem : ∀ key, key ∈ keys ↔ s.Registered key)
    (forward : ∀ {a b} {i j : ℕ}, (a, b) ∈ m.graph.edges → keys[i]? = some a →
      keys[j]? = some b → i < j) : ∃ buf c,
      s.assemble m keys = some { s with buffer := buf, schedule := c } ∧
      touch { s with buffer := buf, schedule := c, isChanged := false } = s ∧
      Compiled { s with buffer := buf, schedule := c, isChanged := false } ∧
      (calm → Separates
        { s with buffer := buf, schedule := c, isChanged := false }) := by
  have hfl : ∀ key ∈ keys, ∃ node, s.buffer.nodes key = some (some node) := by
    intro key hm
    obtain ⟨id, hf⟩ := (mem key).mp hm
    obtain ⟨node, hsl, -⟩ := ho.holds hf
    exact ⟨node, hsl⟩
  obtain ⟨systems, t, ht, aligned, hun, hno⟩ :=
    takeSystems_spec keys hn s.buffer hfl
  obtain ⟨outgoing, hoe, dependencies⟩ := lists_targets hsp.consistent hn
    fun he => (mem _).mpr (hsp.endpoints he).2
  obtain ⟨conditionOutgoing, hce, conditions⟩ :=
    lists_targets ho.condition.consistent hn
      fun he => (mem _).mpr (ho.condition.endpoints he).2
  have dependencies : Lists keys s.Depends outgoing (countTargets keys.length outgoing) := by
    have hs : (fun a b => (a, b) ∈ m.graph.edges) = s.Depends :=
      funext₂ fun a b => propext (hed a b)
    rw [← hs]
    exact dependencies
  have hna : ∀ {key node}, s.buffer.nodes key = some (some node) →
      s.allocator.idents node.system.id = some key := fun hsl =>
    registered_of_getSystem ho (by rw [getSystem, hsl, Option.join_some])
  have hi : List.Forall₂ (fun key node =>
      s.allocator.idents node.system.id = some key) keys systems :=
    aligned.imp fun _ _ => hna
  let c : CompiledSchedule :=
    { keys := keys
      systems := systems
      conflict := conflictTable s.conflict keys
      incoming := countTargets keys.length outgoing
      outgoing := outgoing
      conditionIncoming := countTargets keys.length conditionOutgoing
      conditionOutgoing := conditionOutgoing }
  refine ⟨t, c, ?_, ?_, ?_, ?_⟩
  · rw [assemble, ht, Option.bind_some, hoe, Option.bind_some, hce]
    rfl
  · have hr : (keys.zip systems).foldl (fun buf e =>
        buf.set e.1 (some e.2)) t = s.buffer := by
      have hea := nodes_restore aligned hn t
      have hs : ((keys.zip systems).foldl (fun buf e =>
          buf.set e.1 (some e.2)) t).nodes = s.buffer.nodes := by
        funext key
        rw [(hea key).1]
        split
        · rfl
        · next ha => rw [hno, if_neg ha]
      exact SystemBuffer.ext hs ((hea 0).2.trans hun)
    have hu : touch { s with buffer := t, schedule := c, isChanged := false } =
        { s with
          schedule := .empty
          buffer := (keys.zip systems).foldl (fun buf e =>
            buf.set e.1 (some e.2)) t
          isChanged := true } := rfl
    rw [hu, hr, ← ho.empty, ← ho.changed]
  · have hna := map_of_aligned hi
    exact
      { aligned := hi
        once := by
          refine List.Nodup.of_map s.allocator.idents ?_
          rw [hna]
          exact hn.map (Option.some_injective _)
        registered := fun id => by
          constructor
          · intro hm
            have hma := mem_map_of_mem (f := s.allocator.idents) hm
            rw [hna] at hma
            obtain ⟨key, -, hs⟩ := mem_map.mp hma
            exact ⟨key, hs.symm⟩
          · rintro ⟨key, hf⟩
            have hma := mem_map_of_mem (f := some) ((mem key).mpr ⟨id, hf⟩)
            rw [← hna] at hma
            obtain ⟨ot, hm, hfu⟩ := mem_map.mp hma
            rwa [ho.injective hf hfu]
        dependencies := dependencies
        conditions := conditions
        forward := by
          rintro i j ⟨a, b, atI, atJ, he⟩
          exact forward ((hed a b).mpr he) atI atJ
        subset := fun {i part all} hl hla j hm =>
          (dependencies.mem hla).mpr ((conditions.mem hl).mp hm |>.imp fun a =>
            Exists.imp fun b => And.imp_right (And.imp_right .inr))
        symm := fun hii hij => isConflict_comm hii hij }
  · exact fun calm {i j x y} ne atI atJ =>
      separates_conflictTable (ho.known calm) hre hn aligned ne atI atJ

end Assembly

end Voker.Ecs.Schedule
