import Voker.Ecs.Schedule.Declared
import Voker.Ecs.Schedule.Edits

/-!
# Sets

A set lies between two markers.  Every member waits for the first one as for a condition, and
the last one waits for every member (`Wired`); a set that is put into another one has its
markers among the members of the other.

**What a configuration or the configuration of a set declares about orders is found in the
graphs afterwards**, and as long as nothing is removed it stays there.
-/

namespace Voker.Ecs

open List Option Function SystemId

namespace Schedule

/-! ## Orders between systems -/

/-- The edges order two registered systems. -/
def Precedes (schedule : Schedule) (x y : SystemId) : Prop :=
  ∃ a b, schedule.allocator.idents x = some a ∧ schedule.allocator.idents y = some b ∧
    Relation.TransGen schedule.Depends a b

variable {s before after : Schedule} {y x id : SystemId} {set : SystemSet}

theorem Grows.precedes (hg : Grows before after) (hp : before.Precedes x y) :
    after.Precedes x y := by
  obtain ⟨a, b, hfx, hfy, hpa⟩ := hp
  have he : before.Depends ≤ after.Depends := fun _ _ hed =>
    hed.imp hg.dependency hg.condition
  exact ⟨a, b, hg.idents hfx, hg.idents hfy, Relation.TransGen.mono he a b hpa⟩

theorem Grows.gates (hg : Grows before after) (hga : before.Gates x y) : after.Gates x y := by
  obtain ⟨a, b, hfx, hfy, he⟩ := hga
  exact ⟨a, b, hg.idents hfx, hg.idents hfy, hg.condition he⟩

theorem Gates.precedes (hg : s.Gates x y) : s.Precedes x y := by
  obtain ⟨a, b, hfx, hfy, he⟩ := hg
  exact ⟨a, b, hfx, hfy, .single (.inr he)⟩

theorem Precedes.trans {z : SystemId} (fst : s.Precedes x y)
    (snd : s.Precedes y z) : s.Precedes x z := by
  obtain ⟨a, b, hfx, hfo, hpa⟩ := fst
  obtain ⟨b', c, hfy, hfz, hp⟩ := snd
  rw [hfo] at hfy
  obtain rfl := some.inj hfy
  exact ⟨a, c, hfx, hfz, hpa.trans hp⟩

/-! ## How sets change -/

/-- At most these become members of the set. -/
structure Joins (set : SystemSet) (added : List SystemId) (before after : Schedule) : Prop where
  members : ∀ {other item}, item ∈ after.members other →
    item ∈ before.members other ∨ other = set ∧ item ∈ added
  sets : ∀ {other}, after.systemSets other ≠ none → before.systemSets other ≠ none ∨ other = set
  children : after.children = before.children

namespace Joins

variable {set : SystemSet} {added more : List SystemId} {mid : Schedule}

theorem trans (fst : Joins set added before mid) (snd : Joins set more mid after) :
    Joins set (added ++ more) before after := by
  refine ⟨fun mem => ?_, fun hp => ?_, snd.children.trans fst.children⟩
  · rcases snd.members mem with old | ⟨hs, new⟩
    · exact (fst.members old).imp_right fun ⟨hs, new⟩ => ⟨hs, mem_append_left _ new⟩
    · exact .inr ⟨hs, mem_append_right _ new⟩
  · exact (snd.sets hp).elim fst.sets .inr

/-- The set gets another list of members. -/
theorem of_update {ids : List SystemId}
    (hse : after.systemSets = Function.update before.systemSets set (some ids))
    (new : ∀ item ∈ ids, item ∈ before.members set ∨ item ∈ added)
    (hc : after.children = before.children) : Joins set added before after := by
  refine ⟨fun {o item} mem => ?_, fun {o} hp => ?_, hc⟩
  · rw [Schedule.members, hse] at mem
    by_cases hs : o = set
    · rw [hs, update_self] at mem
      exact (new item mem).imp (hs ▸ ·) fun added => ⟨hs, added⟩
    · rw [update_of_ne hs] at mem
      exact .inl mem
  · by_cases hs : o = set
    · exact .inr hs
    · rw [hse, update_of_ne hs] at hp
      exact .inl hp

/-- Nothing about sets is changed. -/
theorem of_eq (set : SystemSet) (hss : after.systemSets = before.systemSets)
    (hc : after.children = before.children) : Joins set [] before after :=
  ⟨fun {o item} mem => .inl (by rwa [Schedule.members, hss] at mem),
    fun {o} hp => .inl (hss ▸ hp), hc⟩

end Joins

section

variable (s : Schedule)

theorem sets_touch : s.touch.systemSets = s.systemSets ∧ s.touch.children = s.children := by
  rw [touch]
  split <;> exact ⟨rfl, rfl⟩

theorem sets_register (sys : BoxedSystem) : (s.register sys).systemSets = s.systemSets ∧
      (s.register sys).children = s.children := by
  rw [register]
  split <;> exact ⟨rfl, rfl⟩

theorem joins_addMember (set : SystemSet) (id : SystemId) :
    Joins set [id] s (s.addMember set id) := by
  refine .of_update rfl (fun item mem => ?_) rfl
  rw [mem_singleton]
  exact (mem_insert_iff.mp mem).symm

theorem joins_registerMarker (set : SystemSet) (m : BoxedSystem) :
    Joins set [m.id] s (s.registerMarker set m) := by
  rw [registerMarker]
  split
  · exact ⟨.inl, .inl, rfl⟩
  · have hs := sets_register s m
    exact (Joins.of_eq set hs.1 hs.2).trans (joins_addMember ..)

theorem joins_wireSetBoundaries (key : SystemKey) (id : SystemId) (set : SystemSet) :
    Joins set [id, set.begin.id, set.end_.id] s (s.wireSetBoundaries key id set) :=
  ((joins_addMember ..).trans (joins_registerMarker ..)).trans
    ((joins_registerMarker ..).trans (.of_eq set rfl rfl))

theorem joins_insertSystem (sys : BoxedSystem) (set : SystemSet) :
    Joins set [sys.id, set.begin.id, set.end_.id] s (s.insertSystem sys set) := by
  have ht := sets_touch s
  have reg := sets_register s.touch sys
  exact (Joins.of_eq set ht.1 ht.2).trans ((Joins.of_eq set reg.1
    reg.2).trans (joins_wireSetBoundaries ..))

theorem joins_initSystemSet (set : SystemSet) :
    Joins set [set.begin.id, set.end_.id] s (s.initSystemSet set) := by
  rw [initSystemSet]
  split
  · exact ⟨.inl, .inl, rfl⟩
  · next ha =>
    let c : Schedule :=
      { s.touch with systemSets := Function.update s.systemSets set (some []) }
    have hc : Joins set [] s c :=
      .of_update rfl (fun _ mem => absurd mem not_mem_nil) (sets_touch s).2
    exact hc.trans ((joins_registerMarker c ..).trans
      ((joins_registerMarker ..).trans (.of_eq set rfl rfl)))

theorem sets_insertOrder (x y : SystemId) : (s.insertOrder x y).systemSets = s.systemSets ∧
      (s.insertOrder x y).children = s.children := by
  rw [insertOrder]
  split
  · exact sets_touch s
  · exact ⟨rfl, rfl⟩

theorem sets_insertRunIf (x y : SystemId) : (s.insertRunIf x y).systemSets = s.systemSets ∧
      (s.insertRunIf x y).children = s.children := by
  rw [insertRunIf]
  split
  · exact sets_touch s
  · exact ⟨rfl, rfl⟩

end

/-- At most these conditions are added. -/
structure Conditions (added : List (SystemId × SystemId)) (before after : Schedule) : Prop where
  grows : Grows before after
  edges : ∀ {edge}, edge ∈ after.ordering.condition.graph.edges →
    edge ∈ before.ordering.condition.graph.edges ∨
      ∃ pair ∈ added, after.allocator.idents pair.1 = some edge.1 ∧
        after.allocator.idents pair.2 = some edge.2

namespace Conditions

variable {added more : List (SystemId × SystemId)} {mid : Schedule}

theorem of_eq (hg : Grows before after)
    (hs : after.ordering.condition.graph.edges = before.ordering.condition.graph.edges) :
    Conditions [] before after :=
  ⟨hg, fun mem => .inl (hs ▸ mem)⟩

theorem trans (fst : Conditions added before mid) (snd : Conditions more mid after) :
    Conditions (added ++ more) before after := by
  refine ⟨fst.grows.trans snd.grows, fun mem => ?_⟩
  rcases snd.edges mem with old | ⟨pair, new, src, t⟩
  · rcases fst.edges old with old | ⟨pair, new, src, t⟩
    · exact .inl old
    · exact .inr ⟨pair, mem_append_left _ new, snd.grows.idents src, snd.grows.idents t⟩
  · exact .inr ⟨pair, mem_append_right _ new, src, t⟩

/-- Keys belong to one system, so that an old edge is a condition of the same systems. -/
theorem gates (hc : Conditions added before after) (ho : Opened False before.touch)
    (hoa : Opened False after.touch) {x y : SystemId} (gates : after.Gates x y) :
    before.Gates x y ∨ (x, y) ∈ added := by
  obtain ⟨a, b, hfx, hfy, he⟩ := gates
  have hs : ∀ {id o key}, after.allocator.idents id = some key →
      after.allocator.idents o = some key → id = o := by
    intro id o key one two
    rw [← allocator_touch] at one two
    exact hoa.injective one two
  rcases hc.edges he with old | ⟨pair, new, src, t⟩
  · have hol := old
    rw [← ordering_touch] at hol
    obtain ⟨⟨x', src⟩, y', t⟩ := ho.condition.endpoints hol
    rw [allocator_touch] at src t
    obtain rfl := hs hfx (hc.grows.idents src)
    obtain rfl := hs hfy (hc.grows.idents t)
    exact .inl ⟨a, b, src, t, old⟩
  · obtain rfl := hs hfx src
    obtain rfl := hs hfy t
    exact .inr new

end Conditions

theorem conditions_insertConditionOrder {x y : SystemId} {a b : SystemKey}
    (hfx : s.allocator.idents x = some a) (hfy : s.allocator.idents y = some b) :
    Conditions [(x, y)] s { s with ordering := s.ordering.insertConditionOrder a b } := by
  refine ⟨grows_insertConditionOrder .., fun mem => ?_⟩
  rcases Graph.mem_edges_insertEdge.mp mem with old | rfl
  · exact .inl old
  · exact .inr ⟨(x, y), mem_singleton_self _, hfx, hfy⟩

theorem idents_keyOf {key : SystemKey} (hf : s.allocator.idents id = some key) :
    s.allocator.idents id = some (s.keyOf id) := by
  rw [keyOf_eq hf, hf]

section

variable (s : Schedule)

theorem conditions_touch : Conditions [] s s.touch :=
  .of_eq (grows_touch _) (by rw [ordering_touch])

theorem conditions_register (sys : BoxedSystem) : Conditions [] s (s.register sys) := by
  refine .of_eq (grows_register ..) ?_
  cases hf : s.allocator.idents sys.id with
  | some key => rw [register_some hf]
  | none =>
    rw [register_none hf]
    exact Dag.edges_insertNode ..

theorem conditions_registerMarker (set : SystemSet) (m : BoxedSystem) :
    Conditions [] s (s.registerMarker set m) := by
  rw [registerMarker]
  split
  · exact .of_eq (.refl _) rfl
  · exact (conditions_register ..).trans (.of_eq (grows_addMember ..) rfl)

theorem conditions_initSystemSet (set : SystemSet) :
    Conditions [(set.begin.id, set.end_.id)] s (s.initSystemSet set) := by
  have hg := (initSystemSet_spec s set).2.1
  rw [initSystemSet] at hg ⊢
  split
  · exact ⟨.refl _, .inl⟩
  · next ha =>
    let c : Schedule :=
      { s.touch with systemSets := Function.update s.systemSets set (some []) }
    obtain ⟨-, ⟨fst, hff⟩, -⟩ := registerMarker_spec c set set.begin
    obtain ⟨hgt, ⟨last, hfl⟩, -⟩ :=
      registerMarker_spec (c.registerMarker set set.begin) set set.end_
    have hm := (conditions_registerMarker c set set.begin).trans
      (conditions_registerMarker _ set set.end_)
    have hc := conditions_insertConditionOrder (idents_keyOf (hgt.idents hff))
      (idents_keyOf hfl)
    refine ⟨?_, fun mem => ((hm.trans hc).edges mem).imp_left fun old => ?_⟩
    · simpa only [ha] using hg
    · rwa [← ordering_touch s]

theorem conditions_insertOrder (x y : SystemId) : Conditions [] s (s.insertOrder x y) := by
  refine .of_eq (insertOrder_spec ..).2.1 ?_
  rw [insertOrder]
  split <;> rfl

theorem conditions_insertRunIf (ru co : SystemId) :
    Conditions [(co, ru)] s (s.insertRunIf ru co) := by
  rw [insertRunIf]
  split
  · next r c hfr hfc =>
    rw [← ordering_touch]
    rw [← allocator_touch] at hfr hfc
    exact (conditions_touch _).trans (conditions_insertConditionOrder hfc hfr)
  · exact ⟨.refl _, .inl⟩

end

theorem conditions_wireSetBoundaries {sk : SystemKey}
    (hf : s.allocator.idents id = some sk) (set : SystemSet) :
    Conditions [(set.begin.id, id), (set.begin.id, set.end_.id)] s
      (s.wireSetBoundaries sk id set) := by
  let one := s.addMember set id
  let two := one.registerMarker set set.begin
  let t := two.registerMarker set set.end_
  obtain ⟨-, ⟨fst, hff⟩, -⟩ := registerMarker_spec one set set.begin
  obtain ⟨hgt, ⟨last, hfl⟩, -⟩ := registerMarker_spec two set set.end_
  have hff : t.allocator.idents set.begin.id = some fst := hgt.idents hff
  have hm : Conditions [] s t := (Conditions.of_eq (grows_addMember ..) rfl).trans
      ((conditions_registerMarker ..).trans (conditions_registerMarker ..))
  let o : Schedule :=
    { t with ordering := t.ordering.insertOrder sk (t.keyOf set.end_.id) }
  have ho : Conditions [] t o := .of_eq (grows_insertOrder ..) rfl
  let g : Schedule := { o with
      ordering := o.ordering.insertConditionOrder (t.keyOf set.begin.id) sk }
  have hg : Conditions [(set.begin.id, id)] o g :=
    conditions_insertConditionOrder (idents_keyOf hff) (hm.grows.idents hf)
  have hc : Conditions [(set.begin.id, set.end_.id)] g
      (s.wireSetBoundaries sk id set) :=
    @conditions_insertConditionOrder g _ _ _ _ (idents_keyOf hff)
      (idents_keyOf hfl)
  exact hm.trans (ho.trans (hg.trans hc))

theorem conditions_insertSystem (s : Schedule) (sys : BoxedSystem) (set : SystemSet) :
    Conditions [(set.begin.id, sys.id), (set.begin.id, set.end_.id)] s
      (s.insertSystem sys set) := by
  obtain ⟨key, hf⟩ := idents_register s.touch sys
  exact (conditions_touch _).trans ((conditions_register ..).trans
    (conditions_wireSetBoundaries (idents_keyOf hf) set))

/-! ## Wiring -/

/-- What makes a system a condition of the end of a set: it begins the set, or a set that
contains the beginning of the set, too. -/
def Closes (schedule : Schedule) (set : SystemSet) (id : SystemId) : Prop :=
  ∃ outer : SystemSet, id = outer.begin.id ∧
    (outer = set ∨ schedule.Gates outer.begin.id set.begin.id)

/-- The members of sets are wired to the markers.  If no configuration names a marker, a set
ends if it begins. -/
structure Wired (plain : Prop) (schedule : Schedule) : Prop where
  opened : Opened False schedule.touch
  members : ∀ {set id}, id ∈ schedule.members set → id = set.begin.id ∨ id = set.end_.id ∨
    schedule.Gates set.begin.id id ∧ schedule.Precedes id set.end_.id
  markers : ∀ {set}, schedule.systemSets set ≠ none → schedule.Gates set.begin.id set.end_.id
  nested : ∀ {set child}, child ∈ schedule.nested set →
    child.begin.id ∈ schedule.members set ∧ child.end_.id ∈ schedule.members set
  closed : plain → ∀ {set id}, schedule.Gates id set.end_.id → schedule.Closes set id

variable {plain : Prop}

/-- A set gets new members, which are wired. -/
theorem Wired.join (wired : before.Wired plain) {added : List SystemId}
    {g : List (SystemId × SystemId)} (he : Edits before after)
    (hj : Joins set added before after) (hc : Conditions g before after)
    (new : ∀ id ∈ added, id = set.begin.id ∨ id = set.end_.id ∨ after.Gates set.begin.id id ∧
      after.Precedes id set.end_.id)
    (hm : after.systemSets set ≠ none → after.Gates set.begin.id set.end_.id)
    (hcl : plain → ∀ pair ∈ g, ∀ o : SystemSet, pair.2 = o.end_.id →
      after.Closes o pair.1) : after.Wired plain := by
  have hg := hc.grows
  have ho := he.opened wired.opened
  refine ⟨ho, fun {o id} mem => ?_, fun {o} hp => ?_,
    fun {o c} mem => ?_, fun hpl {o id} g => ?_⟩
  · rcases hj.members mem with old | ⟨rfl, hf⟩
    · exact (wired.members old).imp_right (Or.imp_right (And.imp hg.gates hg.precedes))
    · exact new id hf
  · by_cases hs : o = set
    · exact hs ▸ hm (hs ▸ hp)
    · exact hg.gates (wired.markers ((hj.sets hp).resolve_right hs))
  · have mem : c ∈ before.nested o := by
      rw [Schedule.nested, hj.children] at mem
      exact mem
    exact (wired.nested mem).imp hg.members hg.members
  · rcases hc.gates wired.opened ho g with old | hf
    · exact (wired.closed hpl old).imp fun _ => And.imp_right (Or.imp_right hg.gates)
    · exact hcl hpl _ hf o rfl

/-- The begin of a set is a condition of its end. -/
theorem closes_self {o : SystemSet} (hs : set.end_.id = o.end_.id) :
    s.Closes o set.begin.id := by
  have ht : SystemType.setEnd set = .setEnd o := congrArg type hs
  obtain rfl := SystemType.setEnd.inj ht
  exact ⟨set, rfl, .inl rfl⟩

/-- A system is inserted; if it ends a set, then it is in the set with the begin. -/
theorem Wired.insertSystem (wired : s.Wired plain) (sys : BoxedSystem) (set : SystemSet)
    (hpa : plain → ∀ o : SystemSet, sys.id = o.end_.id →
      s.Gates set.begin.id o.begin.id) : (s.insertSystem sys set).Wired plain ∧
      sys.id ∈ (s.insertSystem sys set).members set := by
  obtain ⟨he, key, hf, hw⟩ := insertSystem_spec s sys set
  obtain ⟨fst, last, hff, hfl, ho, hc, hm⟩ := hw.markers
  refine ⟨wired.join he (joins_insertSystem ..) (conditions_insertSystem ..)
    (fun id mem => ?_) (fun _ => ⟨fst, last, hff, hfl, hm⟩)
    (fun hp pair mem o hs => ?_), hw.member⟩
  · simp only [mem_cons, not_mem_nil, or_false] at mem
    rcases mem with rfl | rfl | rfl
    · exact .inr (.inr ⟨⟨fst, key, hff, hf, hc⟩,
        key, last, hf, hfl, .single (.inl ho)⟩)
    · exact .inl rfl
    · exact .inr (.inl rfl)
  · simp only [mem_cons, not_mem_nil, or_false] at mem
    rcases mem with rfl | rfl
    · exact ⟨set, rfl, .inr (hw.grows.gates (hpa hp o hs))⟩
    · exact closes_self hs

theorem Wired.initSystemSet (wired : s.Wired plain) (set : SystemSet) :
    (s.initSystemSet set).Wired plain ∧ (s.initSystemSet set).Gates set.begin.id set.end_.id := by
  obtain ⟨he, hg, hc⟩ := initSystemSet_spec s set
  have hm : (s.initSystemSet set).Gates set.begin.id set.end_.id := by
    by_cases ha : s.systemSets set = none
    · exact hc ha
    · exact hg.gates (wired.markers ha)
  refine ⟨wired.join he (joins_initSystemSet ..) (conditions_initSystemSet ..)
    (fun id mem => ?_) (fun _ => hm) (fun _ pair mem o hs => ?_), hm⟩
  · simp only [mem_cons, not_mem_nil, or_false] at mem
    exact mem.imp_right .inl
  · rw [mem_singleton.mp mem] at hs ⊢
    exact closes_self hs

/-- No set is changed. -/
theorem Wired.keep (wired : before.Wired plain) {g : List (SystemId × SystemId)}
    (he : Edits before after) (hs : after.systemSets = before.systemSets ∧
      after.children = before.children) (hc : Conditions g before after)
    (hcl : plain → ∀ pair ∈ g, ∀ o : SystemSet, pair.2 = o.end_.id →
      after.Closes o pair.1) : after.Wired plain := by
  refine wired.join he (.of_eq .anonymous hs.1 hs.2) hc
    (fun _ mem => nomatch mem) (fun hp => ?_) hcl
  rw [hs.1] at hp
  exact hc.grows.gates (wired.markers hp)

theorem Wired.insertOrder (wired : s.Wired plain) (x y : SystemId) :
    (s.insertOrder x y).Wired plain :=
  wired.keep (insertOrder_spec ..).1 (sets_insertOrder ..) (conditions_insertOrder ..)
    fun _ _ mem => nomatch mem

theorem Wired.insertRunIf (wired : s.Wired plain) (r c : SystemId)
    (hu : plain → ∀ set : SystemSet, r ≠ set.end_.id) :
    (s.insertRunIf r c).Wired plain := by
  refine wired.keep (insertRunIf_spec ..).1 (sets_insertRunIf ..) (conditions_insertRunIf ..) ?_
  intro hp pair mem set hs
  rw [mem_singleton.mp mem] at hs
  exact absurd hs (hu hp set)

/-! ## What is declared -/

/-- What each of a number of steps achieves is there in the end. -/
theorem Grows.foldl_mem {α : Type*} {step : Schedule → α → Schedule} {Holds : α → Schedule → Prop}
    (he : ∀ s item, Grows s (step s item))
    (hk : ∀ {item before after}, Grows before after → Holds item before → Holds item after)
    (ha : ∀ {s item}, Holds item (step s item)) (i : List α)
    (s : Schedule) : ∀ item ∈ i, Holds item (i.foldl step s) := by
  induction i generalizing s with
  | nil => exact fun _ mem => nomatch mem
  | cons fst rest ih =>
    intro item mem
    rcases mem_cons.mp mem with rfl | hl
    · exact hk (Grows.foldl he rest _) ha
    · exact ih _ item hl

/-- The edges between registered systems are inserted. -/
theorem foldl_insertOrder (e : List (SystemId × SystemId)) (s : Schedule) :
    ∀ edge ∈ e, ∀ {a b}, s.allocator.idents edge.1 = some a →
      s.allocator.idents edge.2 = some b →
      (e.foldl (fun s edge => s.insertOrder edge.1 edge.2) s).Precedes edge.1 edge.2 := by
  induction e generalizing s with
  | nil => exact fun _ mem => nomatch mem
  | cons fst rest ih =>
    intro edge mem a b hfa hfb
    obtain ⟨-, hg, hi⟩ := insertOrder_spec s fst.1 fst.2
    rcases mem_cons.mp mem with rfl | hl
    · have hp : (s.insertOrder edge.1 edge.2).Precedes edge.1 edge.2 :=
        ⟨a, b, hg.idents hfa, hg.idents hfb, .single (.inl (hi hfa hfb))⟩
      exact (Grows.foldl (fun _ _ => (insertOrder_spec ..).2.1) rest _).precedes hp
    · exact ih _ edge hl (hg.idents hfa) (hg.idents hfb)

/-- The systems and helpers that a configuration registers. -/
def SystemConfig.Registers (config : SystemConfig) (id : SystemId) : Prop :=
  id ∈ config.ids ∨ ∃ entry ∈ config.deferred, id = entry.2.id

/-- A system that was added is a member of the set. -/
def Added (set : SystemSet) (id : SystemId) (schedule : Schedule) : Prop :=
  id ∈ schedule.members set ∧ ∃ key, schedule.allocator.idents id = some key

theorem Grows.added (hg : Grows before after) (added : Added set id before) :
    Added set id after :=
  ⟨hg.members added.1, added.2.imp fun _ => hg.idents⟩

theorem added_insertSystem (s : Schedule) (sys : BoxedSystem) (set : SystemSet) :
    Added set sys.id (s.insertSystem sys set) := by
  obtain ⟨-, key, hf, hw⟩ := insertSystem_spec s sys set
  exact ⟨hw.member, key, hf⟩

/-- What `add_systems` achieves: the systems and helpers are members of the set, and they are
ordered by the edges between them. -/
structure Adds (set : SystemSet) (config : SystemConfig) (schedule : Schedule) : Prop where
  added : ∀ id, SystemConfig.Registers config id → Added set id schedule
  dependencies : ∀ edge ∈ config.dependencies, SystemConfig.Registers config edge.1 →
    SystemConfig.Registers config edge.2 → schedule.Precedes edge.1 edge.2

theorem adds_addSystems (s : Schedule) (set : SystemSet) (c : SystemConfig) :
    Adds set (c.applyToSet set) (s.addSystems set c) := by
  let cfg := c.applyToSet set
  let i := cfg.systems.foldl (fun s sys => s.insertSystem sys set) (s.initSystemSet set)
  let d := cfg.deferred.foldl (fun s e =>
    (s.insertSystem e.2 set).insertOrder e.1 e.2.id) i
  let o := cfg.dependencies.foldl (fun s edge => s.insertOrder edge.1 edge.2) d
  have hgd : Grows i d := Grows.foldl (fun _ _ =>
    (grows_insertSystem ..).trans (insertOrder_spec ..).2.1) _ _
  have hgo : Grows d o :=
    Grows.foldl (fun _ _ => (insertOrder_spec ..).2.1) _ _
  have hge : Grows o (s.addSystems set c) :=
    Grows.foldl (fun _ _ => (insertRunIf_spec ..).2) _ _
  have hs : ∀ sys ∈ cfg.systems, Added set sys.id i :=
    @Grows.foldl_mem _ _ (fun (sys : BoxedSystem) => Added set sys.id)
      (fun _ _ => grows_insertSystem ..) (fun hg => hg.added) (added_insertSystem ..) _ _
  have he : ∀ e ∈ cfg.deferred, Added set e.2.id d :=
    @Grows.foldl_mem _ _ (fun (e : SystemId × BoxedSystem) => Added set e.2.id)
      (fun _ _ => (grows_insertSystem ..).trans (insertOrder_spec ..).2.1)
      (fun hg => hg.added) ((insertOrder_spec ..).2.1.added (added_insertSystem ..)) _ _
  have reg : ∀ id, SystemConfig.Registers cfg id → Added set id d := by
    rintro id (mem | ⟨e, mem, rfl⟩)
    · obtain ⟨sys, hin, rfl⟩ := mem_map.mp mem
      exact hgd.added (hs sys hin)
    · exact he e mem
  refine ⟨fun id mem => (hgo.trans hge).added (reg id mem), ?_⟩
  intro edge mem fst snd
  obtain ⟨-, a, hfa⟩ := reg _ fst
  obtain ⟨-, b, hfb⟩ := reg _ snd
  exact hge.precedes (foldl_insertOrder _ _ edge mem hfa hfb)

/-- **What is declared in a configuration is in the graphs after `add_systems`.** -/
theorem Adds.precedes {expr : ConfigExpr} {c : SystemConfig} {so : SystemType → ℕ}
    (ha : Adds set (c.applyToSet set) s) (hr : expr.config.Reorders c)
    (ht : ∀ sys ∈ expr.helped, sys.system = so sys.boxed.id.type)
    (hd : (x, y) ∈ expr.declared false) :
    s.Precedes (x.setSystemSet set) (y.setSystemSet set) := by
  obtain ⟨hc, hl⟩ := expr.linked ht
  obtain ⟨hmx, hmy, he | ⟨e, hp, fst, snd⟩⟩ :=
    ((hl (x, y) hd).extends hr.extends).applyToSet (hr.coherent hc) set
  · exact ha.dependencies _ he (.inl hmx) (.inl hmy)
  · exact (ha.dependencies _ fst (.inl hmx) (.inr ⟨e, hp, rfl⟩)).trans
      (ha.dependencies _ snd (.inr ⟨e, hp, rfl⟩) (.inl hmy))

/-- The configuration does not name a marker that ends a set. -/
structure SystemConfig.Plain (config : SystemConfig) : Prop where
  systems : ∀ system ∈ config.systems, ∀ set : SystemSet, system.id.type ≠ .setEnd set
  deferred : ∀ entry ∈ config.deferred, ∀ set : SystemSet, entry.2.id.type ≠ .setEnd set
  conditions : ∀ edge ∈ config.conditions, ∀ set : SystemSet, edge.2.type ≠ .setEnd set

/-- It does not either in a set. -/
theorem SystemConfig.Plain.applyToSet {c : SystemConfig} (plain : SystemConfig.Plain c)
    (set : SystemSet) : SystemConfig.Plain (c.applyToSet set) := by
  refine ⟨fun sys mem ot => ?_, fun e mem ot => ?_, fun edge mem ot => ?_⟩
  · obtain ⟨id, hin, hs⟩ := Ecs.SystemConfig.mem_ids_applyToSet.mp (mem_map_of_mem mem)
    obtain ⟨o, hl, rfl⟩ := mem_map.mp hin
    rw [hs, Ecs.SystemConfig.type_setSystemSet]
    exact plain.systems o hl ot
  · rcases Ecs.SystemConfig.foldl_insertDeferred.1 e mem with hin | hin
    · cases hin
    · obtain ⟨o, hl, rfl⟩ := mem_map.mp hin
      have hs : ((o.2.setSystemSet set).id).type = o.2.id.type :=
        Ecs.SystemConfig.type_setSystemSet ..
      rw [hs]
      exact plain.deferred o hl ot
  · rcases Ecs.SystemConfig.mem_insertAll.mp mem with hin | hin
    · cases hin
    · obtain ⟨o, hl, rfl⟩ := mem_map.mp hin
      have hs : (c.rename set o.2).type = o.2.type := by
        rw [Ecs.SystemConfig.rename]
        split
        · exact Ecs.SystemConfig.type_setSystemSet ..
        · rfl
      rw [hs]
      exact plain.conditions o hl ot

/-- What `config_set` achieves. -/
structure Configures (config : SystemSetConfig) (schedule : Schedule) : Prop where
  parent : ∀ parent, config.parent = some parent → config.set ∈ schedule.nested parent
  after : ∀ other ∈ config.runAfter, schedule.Precedes other.end_.id config.set.begin.id
  before : ∀ other ∈ config.runBefore, schedule.Precedes config.set.end_.id other.begin.id

theorem Grows.configures (hg : Grows before after) {c : SystemSetConfig}
    (hc : Configures c before) : Configures c after :=
  ⟨fun p hs => hg.nested (hc.parent p hs),
    fun o mem => hg.precedes (hc.after o mem),
    fun o mem => hg.precedes (hc.before o mem)⟩

/-- The orders between a set and others, whose markers are registered. -/
theorem Wired.foldl_sets {base : Schedule} {fst snd : SystemSet → SystemId}
    (reg : ∀ {s} (o : SystemSet), Grows base s → s.Gates o.begin.id o.end_.id →
      (∃ a, s.allocator.idents (fst o) = some a) ∧ ∃ b, s.allocator.idents (snd o) = some b)
    (ot : List SystemSet) {s : Schedule} (wired : s.Wired plain)
    (hg : Grows base s) : let after := ot.foldl (fun s o =>
      (s.initSystemSet o).insertOrder (fst o) (snd o)) s
    after.Wired plain ∧ Grows s after ∧
      ∀ o ∈ ot, after.Precedes (fst o) (snd o) := by
  induction ot generalizing s with
  | nil => exact ⟨wired, .refl _, fun _ mem => nomatch mem⟩
  | cons o rest ih =>
    obtain ⟨hwi, hm⟩ := wired.initSystemSet o
    have hgi := (initSystemSet_spec s o).2.1
    obtain ⟨⟨a, hfa⟩, b, hfb⟩ := reg o (hg.trans hgi) hm
    obtain ⟨-, hgo, hi⟩ :=
      insertOrder_spec (s.initSystemSet o) (fst o) (snd o)
    have hgs := hgi.trans hgo
    obtain ⟨hwa, hga, hp⟩ :=
      ih (hwi.insertOrder (fst o) (snd o)) (hg.trans hgs)
    refine ⟨hwa, hgs.trans hga, fun item mem => ?_⟩
    rcases mem_cons.mp mem with rfl | hl
    · exact hga.precedes ⟨a, b, hgo.idents hfa, hgo.idents hfb,
        .single (.inl (hi hfa hfb))⟩
    · exact hp item hl

section

variable (wired : s.Wired plain)

include wired

theorem Wired.addSystems (set : SystemSet) (c : SystemConfig)
    (hp : plain → SystemConfig.Plain c) : (s.addSystems set c).Wired plain := by
  have hp : plain → SystemConfig.Plain (c.applyToSet set) :=
    fun ho => SystemConfig.Plain.applyToSet (hp ho) set
  have hi := @foldlRecOn _ _ (Wired plain) (c.applyToSet set).systems _ _
    (wired.initSystemSet set).1
    fun _ wired sys mem => (wired.insertSystem sys set fun ho o hs =>
      absurd (congrArg type hs) ((hp ho).systems sys mem o)).1
  have hd := @foldlRecOn _ _ (Wired plain) (c.applyToSet set).deferred _ _ hi
    fun _ wired e mem => (wired.insertSystem e.2 set fun ho o hs =>
      absurd (congrArg type hs) ((hp ho).deferred e mem o)).1.insertOrder
        e.1 e.2.id
  have hor := @foldlRecOn _ _ (Wired plain) (c.applyToSet set).dependencies _ _ hd
    fun _ wired edge _ => wired.insertOrder edge.1 edge.2
  exact @foldlRecOn _ _ (Wired plain) (c.applyToSet set).conditions _ _ hor
    fun _ wired edge mem => wired.insertRunIf edge.2 edge.1 fun ho o hs =>
      (hp ho).conditions edge mem o (congrArg type hs)

theorem Wired.addSystem (set : SystemSet) (sys : IntoSystem)
    (hp : plain → ∀ o, sys.boxed.id.type ≠ .setEnd o) :
    (s.addSystem set sys).Wired plain := by
  refine ((wired.initSystemSet set).1.insertSystem _ set fun ho o hs => ?_).1
  have ht : (sys.boxed.id.setSystemSet set).type = .setEnd o := congrArg type hs
  rw [Ecs.SystemConfig.type_setSystemSet] at ht
  exact absurd ht (hp ho o)

/-- A set is put into another one. -/
theorem Wired.nest (set p : SystemSet) :
    (s.nest set p).Wired plain ∧ set ∈ (s.nest set p).nested p := by
  let one := (s.initSystemSet p).insertSystem set.begin p
  let two := one.insertSystem set.end_ p
  obtain ⟨hwo, hmo⟩ := (wired.initSystemSet p).1.insertSystem set.begin p
    fun _ o hs => nomatch congrArg type hs
  obtain ⟨-, key, hf, hw⟩ := insertSystem_spec (s.initSystemSet p) set.begin p
  obtain ⟨fst, -, hff, -, -, hc, -⟩ := hw.markers
  obtain ⟨hwt, hmt⟩ := hwo.insertSystem set.end_ p fun _ o hs => by
    have ht : SystemType.setEnd set = .setEnd o := congrArg type hs
    obtain rfl := SystemType.setEnd.inj ht
    exact ⟨fst, key, hff, hf, hc⟩
  have hmo : set.begin.id ∈ two.members p := (grows_insertSystem ..).members hmo
  have hch : (s.nest set p).children = Function.update two.children p
      (some ((two.nested p).insert set)) := rfl
  have hn : ∀ {o c}, c ∈ (s.nest set p).nested o ↔
      c ∈ two.nested o ∨ o = p ∧ c = set := by
    intro o c
    rw [Schedule.nested, hch]
    by_cases hs : o = p
    · subst hs
      rw [update_self, getD_some, mem_insert_iff, or_comm]
      simp
    · rw [update_of_ne hs]
      simp [hs, Schedule.nested]
  have hs : SameCore two (s.nest set p) := rfl
  have ho : Opened False (s.nest set p).touch :=
    (Edits.of_sameCore hs).opened hwt.opened
  refine ⟨⟨ho, hwt.members, hwt.markers, fun {o c} mem => ?_,
    hwt.closed⟩, hn.mpr (.inr ⟨rfl, rfl⟩)⟩
  rcases hn.mp mem with old | ⟨rfl, rfl⟩
  · exact hwt.nested old
  · exact ⟨hmo, hmt⟩

theorem Wired.configSet (c : SystemSetConfig)
    (hpl : plain → ∀ cond ∈ c.conditions, ∀ set : SystemSet, cond.id.type ≠ .setEnd set) :
    (s.configSet c).Wired plain ∧ Configures c (s.configSet c) := by
  let cr := s.initSystemSet c.set
  obtain ⟨hwc, fst, last, hff, hfl, -⟩ := wired.initSystemSet c.set
  let n := (c.parent.map (cr.nest c.set)).getD cr
  obtain ⟨hwn, hgn, hp⟩ : n.Wired plain ∧ Grows cr n ∧
      ∀ p, c.parent = some p → c.set ∈ n.nested p := by
    cases hf : c.parent with
    | none =>
      have hs : n = cr := by simp only [n, hf, map_none, getD_none]
      rw [hs]
      exact ⟨hwc, .refl _, fun _ hs => nomatch hs⟩
    | some p =>
      have hs : n = cr.nest c.set p := by
        simp only [n, hf, map_some, getD_some]
      obtain ⟨hwi, mem⟩ := hwc.nest c.set p
      rw [hs]
      refine ⟨hwi, (nest_spec ..).2, fun o he => ?_⟩
      rw [← some.inj he]
      exact mem
  obtain ⟨hwa, hga, after⟩ :=
    @Wired.foldl_sets plain cr (fun o => o.end_.id) (fun _ => c.set.begin.id)
      (fun _ hg ⟨_, b, _, hf, _⟩ => ⟨⟨b, hf⟩, fst, hg.idents hff⟩)
      c.runAfter n hwn hgn
  obtain ⟨hwb, hgb, before⟩ :=
    @Wired.foldl_sets plain cr (fun _ => c.set.end_.id) (fun o => o.begin.id)
      (fun _ hg ⟨a, _, hf, _, _⟩ => ⟨⟨last, hg.idents hfl⟩, a, hf⟩)
      c.runBefore _ hwa (hgn.trans hga)
  have hge := Grows.foldl (fun s (cond : BoxedSystem) =>
    (grows_insertSystem s cond .anonymous).trans
      (insertRunIf_spec _ c.set.begin.id cond.id).2) c.conditions
    (c.runBefore.foldl (fun s o =>
      (s.initSystemSet o).insertOrder c.set.end_.id o.begin.id)
      (c.runAfter.foldl (fun s o =>
        (s.initSystemSet o).insertOrder o.end_.id c.set.begin.id) n))
  have hwe := @foldlRecOn _ _ (Wired plain) c.conditions _ _ hwb
    fun _ wired cond mem => (wired.insertSystem cond .anonymous fun ho o hs =>
      absurd (congrArg type hs) (hpl ho cond mem o)).1.insertRunIf
        c.set.begin.id cond.id fun _ o hs => nomatch congrArg type hs
  refine ⟨hwe, hge.configures ?_⟩
  exact ⟨fun p hs => (hga.trans hgb).nested (hp p hs),
    fun o mem => hgb.precedes (after o mem), before⟩

end

end Schedule

end Voker.Ecs
