import Voker.Ecs.Schedule.Schedule

/-!
# What every change of a schedule keeps

A schedule that is being changed has all its systems in the buffer, under the keys of their
identities, and the two graphs are graphs over these keys (`Opened`).

What the conflict graph says is another matter.  It knows of the systems that have been
initialised (`Known`), and it does so **as long as no initialisation has been interrupted by
a panic**; `Opened` takes this as a parameter, so that there is one lemma for each change.
-/

namespace Voker.Ecs

open List Option Function SystemBuffer Allocator

/-! ## Keys and slots -/

theorem Allocator.idents_insert (al : Allocator) (id : SystemId) :
    (al.insert id).idents = update al.idents id (some al.next) := rfl

theorem Allocator.idents_remove (al : Allocator) (id : SystemId) :
    (al.remove id).idents = update al.idents id none := rfl

theorem SystemBuffer.nodes_insert (buf : SystemBuffer) (key : SystemKey) (sys : BoxedSystem) :
    (buf.insert key sys).nodes =
      update buf.nodes key (some (some ⟨sys, .new, AccessTable.valid_new⟩)) := rfl

theorem SystemBuffer.getSystem_insert_of_ne {buf : SystemBuffer} {key other : SystemKey}
    {sys : BoxedSystem} (ne : other ≠ key) :
    (buf.insert key sys).getSystem other = buf.getSystem other := by
  rw [getSystem, nodes_insert, update_of_ne ne, getSystem]

/-! ## Graphs over the registered keys -/

/-- The graph has exactly the given keys as nodes, and the cached order is only used as long
as there are none. -/
structure Dag.Over (dag : Dag) (keys : SystemKey → Prop) : Prop where
  consistent : dag.graph.Consistent
  nodes : ∀ key, key ∈ dag.graph.nodes ↔ keys key
  cached : dag.dirty = false → dag.graph.nodes = [] ∧ dag.toposort = []

namespace Dag.Over

variable {dag : Dag} {keys other : SystemKey → Prop}

section

variable (spans : dag.Over keys)

include spans

theorem congr (hs : ∀ key, keys key ↔ other key) : dag.Over other :=
  { spans with nodes := fun key => (spans.nodes key).trans (hs key) }

theorem insertNode (key : SystemKey) : (dag.insertNode key).Over fun k => keys k ∨ k = key where
  consistent := spans.consistent.insertNode key
  nodes := fun k => by rw [Dag.insertNode, Graph.mem_insertNode, spans.nodes]
  cached := fun hc => nomatch hc

theorem insertEdge {a b : SystemKey} (src : keys a) (t : keys b) :
    (dag.insertEdge a b).Over keys where
  consistent := spans.consistent.insertEdge a b
  nodes := fun k => by
    rw [Dag.insertEdge, Graph.mem_nodes_insertEdge spans.consistent, spans.nodes]
    constructor
    · rintro (mem | rfl | rfl) <;> assumption
    · exact .inl
  cached := fun hc => nomatch hc

theorem removeNode (key : SystemKey) : (dag.removeNode key).Over fun k => keys k ∧ k ≠ key where
  consistent := (spans.consistent.removeNode key).1
  nodes := fun k => by
    rw [Dag.removeNode, (spans.consistent.removeNode key).2.mem_nodes, spans.nodes]
  cached := fun hc => nomatch hc

/-- An edge leads from a key to a key. -/
theorem endpoints {a b : SystemKey} (he : (a, b) ∈ dag.graph.edges) : keys a ∧ keys b :=
  ⟨(spans.nodes a).mp (spans.consistent.endpoints he).1,
    (spans.nodes b).mp (spans.consistent.endpoints he).2⟩

end

end Dag.Over

namespace Schedule

/-- The key belongs to a registered system. -/
def Registered (schedule : Schedule) (key : SystemKey) : Prop :=
  ∃ id, schedule.allocator.idents id = some key

/-- The edges of the merged graph. -/
def Depends (schedule : Schedule) (a b : SystemKey) : Prop :=
  (a, b) ∈ schedule.ordering.dependency.graph.edges ∨
    (a, b) ∈ schedule.ordering.condition.graph.edges

/-- A registered system is a condition of another one. -/
def Gates (schedule : Schedule) (x y : SystemId) : Prop :=
  ∃ a b, schedule.allocator.idents x = some a ∧ schedule.allocator.idents y = some b ∧
    (a, b) ∈ schedule.ordering.condition.graph.edges

/-- What the conflict graph knows: the exclusive ones among the initialised systems, and the
conflicts between the others. -/
structure Known (schedule : Schedule) : Prop where
  exclusive : ∀ key, schedule.conflict.exclusive key = true ↔ key ∉ schedule.buffer.uninit ∧
    ∃ node, schedule.buffer.getSystem key = some node ∧ node.system.object.exclusive = true
  registered : ∀ {a b}, schedule.conflict.conflicts a b = true →
    schedule.Registered a ∧ a ∉ schedule.buffer.uninit
  symm : ∀ a b, schedule.conflict.conflicts a b = schedule.conflict.conflicts b a
  conflicts : ∀ {a b x y}, a ≠ b → a ∉ schedule.buffer.uninit → b ∉ schedule.buffer.uninit →
    schedule.buffer.getSystem a = some x → schedule.buffer.getSystem b = some y →
    x.system.object.exclusive = false → y.system.object.exclusive = false →
    (schedule.conflict.conflicts a b = true ↔ x.access.1.parallelizable y.access.1 = false)

/-- A schedule that is being changed. -/
structure Opened (calm : Prop) (schedule : Schedule) : Prop where
  changed : schedule.isChanged = true
  empty : schedule.schedule = .empty
  fresh : ∀ {id key}, schedule.allocator.idents id = some key → key < schedule.allocator.next
  holds : ∀ {id key}, schedule.allocator.idents id = some key →
    ∃ node, schedule.buffer.nodes key = some (some node) ∧ node.system.id = id
  only : ∀ {key slot}, schedule.buffer.nodes key = some slot → schedule.Registered key
  uninit : ∀ {key}, key ∈ schedule.buffer.uninit → schedule.Registered key
  uninitNodup : schedule.buffer.uninit.Nodup
  dependency : schedule.ordering.dependency.Over schedule.Registered
  condition : schedule.ordering.condition.Over schedule.Registered
  known : calm → schedule.Known

variable {calm : Prop} {s : Schedule}

variable {key : SystemKey} {id : SystemId} {sys : BoxedSystem}

theorem registered_of_getSystem (ho : Opened calm s) {node : SystemNode}
    (hf : s.buffer.getSystem key = some node) :
    s.allocator.idents node.system.id = some key := by
  cases hs : s.buffer.nodes key with
  | none =>
    rw [getSystem, hs] at hf
    cases hf
  | some held =>
    obtain ⟨id, reg⟩ := ho.only hs
    obtain ⟨other, held, hsa⟩ := ho.holds reg
    rw [getSystem, held] at hf
    obtain rfl := some.inj hf
    rw [hsa]
    exact reg

/-- Two systems have different keys. -/
theorem Opened.injective (ho : Opened calm s) {other : SystemId}
    (one : s.allocator.idents id = some key)
    (two : s.allocator.idents other = some key) : id = other := by
  obtain ⟨node, hel, hsa⟩ := ho.holds one
  obtain ⟨n, he, hs⟩ := ho.holds two
  rw [hel] at he
  obtain rfl := some.inj (some.inj he)
  exact hsa.symm.trans hs

/-! ## Registration -/

/-- A system that is not registered gets a new key. -/
theorem register_none (ha : s.allocator.idents sys.id = none) :
    s.register sys =
      { s with
        allocator := s.allocator.insert sys.id
        buffer := s.buffer.insert s.allocator.next sys
        ordering := s.ordering.insertNode s.allocator.next } := by
  rw [register]
  split
  · next key hf =>
    rw [ha] at hf
    cases hf
  · rfl

theorem register_some (hf : s.allocator.idents sys.id = some key) :
    s.register sys = s := by
  rw [register]
  split
  · rfl
  · next ha =>
    rw [hf] at ha
    cases ha

theorem registered_insert (ha : s.allocator.idents id = none) (key : SystemKey) :
    (∃ other, (s.allocator.insert id).idents other = some key) ↔
      s.Registered key ∨ key = s.allocator.next := by
  constructor
  · rintro ⟨other, hf⟩
    by_cases hs : other = id
    · subst hs
      rw [idents_insert, update_self] at hf
      exact .inr (some.inj hf).symm
    · rw [idents_insert, update_of_ne hs] at hf
      exact .inl ⟨other, hf⟩
  · rintro (⟨other, hf⟩ | rfl)
    · refine ⟨other, ?_⟩
      have ne : other ≠ id := by
        rintro rfl
        rw [ha] at hf
        cases hf
      rw [idents_insert, update_of_ne ne]
      exact hf
    · exact ⟨id, update_self ..⟩

theorem Opened.next_unregistered (ho : Opened calm s) :
    ¬ s.Registered s.allocator.next :=
  fun ⟨_, hf⟩ => Nat.lt_irrefl _ (ho.fresh hf)

/-- The conflict graph says nothing about a new system. -/
theorem Known.insert (hk : s.Known) (ho : Opened calm s)
    (ha : s.allocator.idents sys.id = none) : Known
      { s with
        allocator := s.allocator.insert sys.id
        buffer := s.buffer.insert s.allocator.next sys
        ordering := s.ordering.insertNode s.allocator.next } := by
  have mem : ∀ key, key ∉ (s.buffer.insert s.allocator.next sys).uninit ↔
      key ∉ s.buffer.uninit ∧ key ≠ s.allocator.next := by
    intro key
    rw [SystemBuffer.insert, mem_append, mem_singleton, not_or]
  refine ⟨fun key => ?_, fun {a b} hc => ?_, hk.symm, ?_⟩
  · rw [mem]
    refine (hk.exclusive key).trans ⟨?_, ?_⟩
    · rintro ⟨hr, node, hf, he⟩
      have ne : key ≠ s.allocator.next := by
        rintro rfl
        exact ho.next_unregistered ⟨_, registered_of_getSystem ho hf⟩
      exact ⟨⟨hr, ne⟩, node, (getSystem_insert_of_ne ne).trans hf, he⟩
    · rintro ⟨⟨hr, ne⟩, node, hf, he⟩
      rw [getSystem_insert_of_ne ne] at hf
      exact ⟨hr, node, hf, he⟩
  · obtain ⟨reg, hr⟩ := hk.registered hc
    refine ⟨(registered_insert ha a).mpr (.inl reg), (mem a).mpr ⟨hr, ?_⟩⟩
    rintro rfl
    exact ho.next_unregistered reg
  · intro a b x y ne hra hrb hfa hfb
    obtain ⟨hra, hda⟩ := (mem a).mp hra
    obtain ⟨hrb, hdb⟩ := (mem b).mp hrb
    rw [getSystem_insert_of_ne hda] at hfa
    rw [getSystem_insert_of_ne hdb] at hfb
    exact hk.conflicts ne hra hrb hfa hfb

theorem Opened.register (ho : Opened calm s) (sys : BoxedSystem) :
    Opened calm (s.register sys) := by
  cases hf : s.allocator.idents sys.id with
  | some key => rwa [register_some hf]
  | none =>
    rw [register_none hf]
    have reg := registered_insert hf
    refine
      { changed := ho.changed
        empty := ho.empty
        fresh := fun {id key} hf => ?_
        holds := fun {id key} hfo => ?_
        only := fun {key slot} he => (reg key).mpr ?_
        uninit := fun {key} mem => (reg key).mpr ?_
        uninitNodup := ?_
        dependency := (ho.dependency.insertNode _).congr fun key => (reg key).symm
        condition := (ho.condition.insertNode _).congr fun key => (reg key).symm
        known := fun calm => (ho.known calm).insert ho hf }
    · rcases (reg key).mp ⟨id, hf⟩ with ⟨other, pre⟩ | rfl
      · exact Nat.lt_succ_of_lt (ho.fresh pre)
      · exact Nat.lt_succ_self _
    · by_cases hs : id = sys.id
      · subst hs
        rw [idents_insert, update_self] at hfo
        obtain rfl := some.inj hfo
        exact ⟨_, update_self .., rfl⟩
      · rw [idents_insert, update_of_ne hs] at hfo
        obtain ⟨node, he, hn⟩ := ho.holds hfo
        have ne : key ≠ s.allocator.next := (ho.fresh hfo).ne
        exact ⟨node, (update_of_ne ne ..).trans he, hn⟩
    · by_cases hs : key = s.allocator.next
      · exact .inr hs
      · rw [nodes_insert, update_of_ne hs] at he
        exact .inl (ho.only he)
    · rcases mem_append.mp mem with old | new
      · exact .inl (ho.uninit old)
      · exact .inr (mem_singleton.mp new)
    · refine nodup_append.mpr ⟨ho.uninitNodup, nodup_singleton _, ?_⟩
      rintro key old _ new rfl
      rw [mem_singleton.mp new] at old
      exact ho.next_unregistered (ho.uninit old)

/-! ## What is only added to -/

/-- The members of a set. -/
def members (schedule : Schedule) (set : SystemSet) : List SystemId :=
  (schedule.systemSets set).getD []

/-- The sets that were put into a set. -/
def nested (schedule : Schedule) (set : SystemSet) : List SystemSet :=
  (schedule.children set).getD []

/-- Nothing is lost: registered systems keep their keys, and edges, sets and their members
stay. -/
structure Grows (before after : Schedule) : Prop where
  idents : ∀ {id key}, before.allocator.idents id = some key →
    after.allocator.idents id = some key
  dependency : ∀ {edge}, edge ∈ before.ordering.dependency.graph.edges →
    edge ∈ after.ordering.dependency.graph.edges
  condition : ∀ {edge}, edge ∈ before.ordering.condition.graph.edges →
    edge ∈ after.ordering.condition.graph.edges
  members : ∀ {set id}, id ∈ before.members set → id ∈ after.members set
  nested : ∀ {set child}, child ∈ before.nested set → child ∈ after.nested set

namespace Grows

variable {pre mid post : Schedule}

theorem refl (s : Schedule) : Grows s s := ⟨id, id, id, id, id⟩

theorem trans (fst : Grows pre mid) (snd : Grows mid post) : Grows pre post :=
  ⟨snd.idents ∘ fst.idents, snd.dependency ∘ fst.dependency,
    snd.condition ∘ fst.condition, snd.members ∘ fst.members,
    snd.nested ∘ fst.nested⟩

/-- Each of a number of steps only adds. -/
theorem foldl {α : Type*} {step : Schedule → α → Schedule}
    (he : ∀ s item, Grows s (step s item)) (i : List α)
    (s : Schedule) : Grows s (i.foldl step s) :=
  foldlRecOn i step (.refl _) fun _ hk item _ => hk.trans (he _ item)

end Grows

theorem grows_touch (s : Schedule) : Grows s s.touch := by
  rw [touch]
  split
  · exact .refl _
  · exact ⟨id, id, id, id, id⟩

theorem Dag.edges_insertNode (dag : Dag) (key : SystemKey) :
    (dag.insertNode key).graph.edges = dag.graph.edges :=
  Graph.edges_insertNode key

section

variable (s : Schedule)

theorem grows_register (sys : BoxedSystem) : Grows s (s.register sys) := by
  cases hf : s.allocator.idents sys.id with
  | some key =>
    rw [register_some hf]
    exact .refl _
  | none =>
    rw [register_none hf]
    refine ⟨fun {id key} pre => ?_, fun mem => ?_, fun mem => ?_, id, id⟩
    · have ne : id ≠ sys.id := by
        rintro rfl
        rw [hf] at pre
        cases pre
      exact (update_of_ne ne ..).trans pre
    · exact (Dag.edges_insertNode _ _).symm ▸ mem
    · exact (Dag.edges_insertNode _ _).symm ▸ mem

/-- After a registration the system has a key. -/
theorem idents_register (sys : BoxedSystem) :
    ∃ key, (s.register sys).allocator.idents sys.id = some key := by
  cases hf : s.allocator.idents sys.id with
  | some key =>
    rw [register_some hf]
    exact ⟨key, hf⟩
  | none =>
    rw [register_none hf]
    exact ⟨_, update_self ..⟩

theorem members_addMember (set : SystemSet) (id : SystemId) (other : SystemSet) (item : SystemId) :
    item ∈ (s.addMember set id).members other ↔
      item ∈ s.members other ∨ other = set ∧ item = id := by
  have hse : (s.addMember set id).systemSets = Function.update s.systemSets set
      (some ((s.members set).insert id)) := rfl
  rw [members, hse]
  by_cases hs : other = set
  · subst hs
    rw [update_self, getD_some, mem_insert_iff, or_comm]
    simp
  · simp [hs, members]

theorem grows_addMember (set : SystemSet) (id : SystemId) :
    Grows s (s.addMember set id) :=
  ⟨fun hf => hf, fun mem => mem, fun mem => mem,
    fun mem => (members_addMember ..).mpr (.inl mem), fun mem => mem⟩

theorem grows_insertOrder (a b : SystemKey) :
    Grows s { s with ordering := s.ordering.insertOrder a b } :=
  ⟨id, fun mem => Graph.mem_edges_insertEdge.mpr (.inl mem), id, id, id⟩

theorem grows_insertConditionOrder (a b : SystemKey) :
    Grows s { s with ordering := s.ordering.insertConditionOrder a b } :=
  ⟨id, id, fun mem => Graph.mem_edges_insertEdge.mpr (.inl mem), id, id⟩

end

/-! ## Sets -/

/-- The fields that the compilation looks at. -/
theorem Opened.congr {other : Schedule} (ho : Opened calm s)
    (al : other.allocator = s.allocator) (buf : other.buffer = s.buffer)
    (hor : other.ordering = s.ordering) (hco : other.conflict = s.conflict)
    (hc : other.schedule = s.schedule)
    (hch : other.isChanged = s.isChanged) : Opened calm other := by
  cases s
  cases other
  cases al
  cases buf
  cases hor
  cases hco
  cases hc
  cases hch
  exact { ho with known := fun calm => { ho.known calm with } }

theorem Opened.insertOrder (ho : Opened calm s) {a b : SystemKey}
    (src : s.Registered a) (t : s.Registered b) :
    Opened calm { s with ordering := s.ordering.insertOrder a b } :=
  { ho with
    dependency := ho.dependency.insertEdge src t
    known := fun calm => { ho.known calm with } }

theorem Opened.insertConditionOrder (ho : Opened calm s) {a b : SystemKey}
    (src : s.Registered a) (t : s.Registered b) :
    Opened calm { s with ordering := s.ordering.insertConditionOrder a b } :=
  { ho with
    condition := ho.condition.insertEdge src t
    known := fun calm => { ho.known calm with } }

/-- What registering a marker achieves. -/
theorem registerMarker_spec (s : Schedule) (set : SystemSet) (m : BoxedSystem) :
    Grows s (s.registerMarker set m) ∧
      (∃ key, (s.registerMarker set m).allocator.idents m.id = some key) ∧
      ∀ {calm}, Opened calm s → Opened calm (s.registerMarker set m) := by
  rw [registerMarker]
  split
  · next key hf => exact ⟨.refl _, ⟨key, hf⟩, id⟩
  · exact ⟨(grows_register ..).trans (grows_addMember ..), idents_register s m,
      fun ho => (ho.register m).congr rfl rfl rfl rfl rfl rfl⟩

theorem keyOf_eq (hf : s.allocator.idents id = some key) : s.keyOf id = key := by
  rw [keyOf, hf, getD_some]

theorem registered_keyOf (hf : s.allocator.idents id = some key) :
    s.Registered (s.keyOf id) :=
  ⟨id, by rw [keyOf_eq hf, hf]⟩

/-- What the wiring of a registered system achieves. -/
structure Wires (set : SystemSet) (id : SystemId) (systemKey : SystemKey)
    (before after : Schedule) : Prop where
  grows : Grows before after
  member : id ∈ after.members set
  markers : ∃ first last, after.allocator.idents set.begin.id = some first ∧
    after.allocator.idents set.end_.id = some last ∧
    (systemKey, last) ∈ after.ordering.dependency.graph.edges ∧
    (first, systemKey) ∈ after.ordering.condition.graph.edges ∧
    (first, last) ∈ after.ordering.condition.graph.edges
  opened : ∀ {calm}, before.allocator.idents id = some systemKey → Opened calm before →
    Opened calm after

theorem wires_wireSetBoundaries (s : Schedule) (sk : SystemKey) (id : SystemId)
    (set : SystemSet) :
    Wires set id sk s (s.wireSetBoundaries sk id set) := by
  let one := s.addMember set id
  let two := one.registerMarker set set.begin
  let t := two.registerMarker set set.end_
  obtain ⟨hgr, ⟨fst, hff⟩, hoe⟩ := registerMarker_spec one set set.begin
  obtain ⟨hgt, ⟨last, hfl⟩, hop⟩ := registerMarker_spec two set set.end_
  have hff : t.allocator.idents set.begin.id = some fst := hgt.idents hff
  have hg : Grows s t := (grows_addMember ..).trans (hgr.trans hgt)
  have hu : s.wireSetBoundaries sk id set =
      { t with ordering := ((t.ordering.insertOrder sk last).insertConditionOrder
        fst sk).insertConditionOrder fst last } := by
    rw [← keyOf_eq hff, ← keyOf_eq hfl]
    rfl
  rw [hu]
  refine ⟨hg.trans ?_, ?_, ⟨fst, last, hff, hfl, ?_, ?_, ?_⟩, ?_⟩
  · exact (grows_insertOrder ..).trans ((grows_insertConditionOrder ..).trans
      (grows_insertConditionOrder ..))
  · exact (hgr.trans hgt).members ((members_addMember ..).mpr (.inr ⟨rfl, rfl⟩))
  · exact Graph.mem_edges_insertEdge.mpr (.inr rfl)
  · exact Graph.mem_edges_insertEdge.mpr (.inl (Graph.mem_edges_insertEdge.mpr (.inr rfl)))
  · exact Graph.mem_edges_insertEdge.mpr (.inr rfl)
  · intro calm reg hod
    have hot : Opened calm t :=
      hop (hoe (hod.congr rfl rfl rfl rfl rfl rfl))
    have src : t.Registered sk := ⟨id, hg.idents reg⟩
    have ho := hot.insertOrder src ⟨_, hfl⟩
    exact (ho.insertConditionOrder ⟨_, hff⟩ src).insertConditionOrder
      ⟨_, hff⟩ ⟨_, hfl⟩

end Schedule

end Voker.Ecs
