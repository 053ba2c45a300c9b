import Voker.Ecs.Schedule.Exclusion
import Voker.Ecs.Schedule.Sets
import Voker.Ecs.Schedule.Single

/-!
# Runs of sets

When a schedule is compiled its systems are in an order that respects all edges, and the
single-threaded executor runs them in this order.  Hence **what is declared holds in every
run**: the systems of a set, and of the sets that were put into it, run between its markers,
and do not run if the first of them does not run; and systems and sets run in the declared
order.

The exception is in the configurations: that a system runs after one that defers commands can
be declared, and is forgotten (`after_deferred_forgotten`).
-/

namespace Voker.Ecs

open Foundation Option SystemSchedule SingleThreadedExecutor

/-! ## What operations achieve -/

namespace ScheduleOp

/-- Nothing is removed. -/
def Additive : ScheduleOp → Prop
  | removeSystemSet _ _ _ => False
  | _ => True

/-- No marker that ends a set is named. -/
def Plain : ScheduleOp → Prop
  | addSystems _ config => Schedule.SystemConfig.Plain config
  | addSystem _ system => ∀ set, system.boxed.id.type ≠ .setEnd set
  | configSet config => ∀ cond ∈ config.conditions, ∀ set : SystemSet, cond.id.type ≠ .setEnd set
  | _ => True

/-- What an operation achieves. -/
def Achieves : ScheduleOp → Schedule → Prop
  | addSystems set config, schedule => Schedule.Adds set (config.applyToSet set) schedule
  | addSystem set system, schedule =>
    Schedule.Added set (system.boxed.id.setSystemSet set) schedule
  | configSet config, schedule => Schedule.Configures config schedule
  | _, _ => True

end ScheduleOp

open List

namespace Schedule

variable {op : ScheduleOp} {fuel : ℕ} {order : HashOrder} {start : SystemId → Option ValidTable}
  {ops : List ScheduleOp} {ran : List ℕ}

theorem Grows.achieves {pre post : Schedule} (hg : Grows pre post)
    (ha : op.Achieves pre) : op.Achieves post := by
  cases op with
  | addSystems set c =>
    exact ⟨fun id mem => hg.added (ha.added id mem),
      fun edge mem one two => hg.precedes (ha.dependencies edge mem one two)⟩
  | addSystem set sys => exact hg.added ha
  | configSet c => exact hg.configures ha
  | removeSystemSet fuel order set => trivial
  | update fuel order start => trivial
  | run fuel order start => trivial

/-- An update changes neither the graphs nor the sets. -/
theorem frame_update {s post : Schedule} (hu : s.update fuel order start = some post) :
    post.allocator = s.allocator ∧ post.ordering = s.ordering ∧
      post.systemSets = s.systemSets ∧ post.children = s.children := by
  have hfi : ∀ {r res}, s.initSystems start = (r, res) →
      r.allocator = s.allocator ∧ r.ordering = s.ordering ∧
        r.systemSets = s.systemSets ∧ r.children = s.children := by
    intro r res hi
    rw [initSystems] at hi
    split at hi <;> cases hi <;> exact ⟨rfl, rfl, rfl, rfl⟩
  rw [update] at hu
  split at hu
  · split at hu
    · next f hi =>
      obtain rfl := some.inj hu
      exact hfi hi
    · next r hi =>
      obtain ⟨so, -, hd⟩ := bind_eq_some_iff.mp hu
      cases so with
      | error _ =>
        obtain rfl := some.inj hd
        exact hfi hi
      | ok keys =>
        obtain ⟨b, ha, rfl⟩ := map_eq_some_iff.mp hd
        obtain ⟨t, -, ha⟩ := bind_eq_some_iff.mp ha
        obtain ⟨o, -, ha⟩ := bind_eq_some_iff.mp ha
        obtain ⟨co, -, rfl⟩ := map_eq_some_iff.mp ha
        obtain ⟨al, ho, hss, hc⟩ := hfi hi
        exact ⟨al, ho, hss, hc⟩
  · obtain rfl := some.inj hu
    exact ⟨rfl, rfl, rfl, rfl⟩

variable {plain : Prop} {schedule after : Schedule}

theorem wired_new (plain : Prop) : Wired plain .new where
  opened := (faithful_new False).opened
  members := fun mem => nomatch mem
  markers := fun hp => absurd rfl hp
  nested := fun mem => nomatch mem
  closed := fun _ {_ _} ⟨_, _, hf, _⟩ => nomatch hf

theorem Wired.update (hw : schedule.Wired plain)
    (hu : schedule.update fuel order start = some after) (hop : Opened False after.touch) :
    after.Wired plain ∧ Grows schedule after := by
  obtain ⟨al, ho, hss, hc⟩ := frame_update hu
  have hm : after.members = schedule.members := by
    funext set
    rw [Schedule.members, hss, Schedule.members]
  have hn : after.nested = schedule.nested := by
    funext set
    rw [Schedule.nested, hc, Schedule.nested]
  have hg : after.Gates = schedule.Gates := by
    funext x y
    rw [Gates, al, ho, Gates]
  have hp : after.Precedes = schedule.Precedes := by
    have hd : after.Depends = schedule.Depends := by
      funext a b
      rw [Depends, ho, Depends]
    funext x y
    rw [Precedes, al, hd, Precedes]
  have hcl : after.Closes = schedule.Closes := by
    funext set id
    rw [Closes, hg, Closes]
  refine ⟨⟨hop, ?_, ?_, ?_, ?_⟩, ?_, ?_, ?_, ?_, ?_⟩
  · rw [hm, hg, hp]
    exact hw.members
  · rw [hss, hg]
    exact hw.markers
  · rw [hm, hn]
    exact hw.nested
  · rw [hg, hcl]
    exact hw.closed
  · rw [al]
    exact id
  · rw [ho]
    exact id
  · rw [ho]
    exact id
  · rw [hm]
    exact id
  · rw [hn]
    exact id

theorem Wired.step (hw : schedule.Wired plain) (hs : Schedule.step op schedule = some after)
    (ho : Opened False after.touch) (ha : op.Additive) (hp : plain → op.Plain) :
    after.Wired plain ∧ Grows schedule after ∧ op.Achieves after := by
  cases op with
  | addSystems set c =>
    obtain rfl := some.inj hs
    exact ⟨hw.addSystems set c hp, (addSystems_spec ..).2, adds_addSystems ..⟩
  | addSystem set sys =>
    obtain rfl := some.inj hs
    exact ⟨hw.addSystem set sys hp, (addSystem_spec ..).2, added_insertSystem ..⟩
  | configSet c =>
    obtain rfl := some.inj hs
    obtain ⟨hwa, hc⟩ := hw.configSet c hp
    exact ⟨hwa, (configSet_spec ..).2, hc⟩
  | removeSystemSet fuel order set => exact ha.elim
  | update fuel order start =>
    obtain ⟨hwa, hg⟩ := hw.update hs ho
    exact ⟨hwa, hg, trivial⟩
  | run fuel order start =>
    obtain ⟨hwa, hg⟩ := hw.update hs ho
    exact ⟨hwa, hg, trivial⟩

/-- What each operation achieved is there after a run in which nothing is removed. -/
theorem Wired.run (hf : Faithful False schedule) (hw : schedule.Wired plain)
    (ran : run Schedule.step ops schedule = some after)
    (ha : ∀ op ∈ ops, op.Additive) (hp : plain → ∀ op ∈ ops, op.Plain) :
    after.Wired plain ∧ Grows schedule after ∧ ∀ op ∈ ops, op.Achieves after := by
  induction ops generalizing schedule with
  | nil =>
    obtain rfl := some.inj ran
    exact ⟨hw, .refl _, fun _ mem => nomatch mem⟩
  | cons op ops ih =>
    rw [run_cons, bind_eq_some_iff] at ran
    obtain ⟨next, hs, hr⟩ := ran
    have hfn := hf.step hs False.elim
    obtain ⟨hwn, hgn, hac⟩ := hw.step hs hfn.opened
      (ha op mem_cons_self) fun ho => hp ho op mem_cons_self
    obtain ⟨hwa, hg, hl⟩ := ih hfn hwn hr
      (fun other mem => ha other (mem_cons_of_mem _ mem))
      fun ho other mem => hp ho other (mem_cons_of_mem _ mem)
    refine ⟨hwa, hgn.trans hg, fun other mem => ?_⟩
    rcases mem_cons.mp mem with rfl | hin
    · exact hg.achieves hac
    · exact hl other hin

/-! ## Sets within sets -/

/-- The system is a member of the set or of a set within it. -/
def Within (schedule : Schedule) (set : SystemSet) (id : SystemId) : Prop :=
  ∃ inner, Relation.ReflTransGen (fun outer child => child ∈ schedule.nested outer) set inner ∧
    id ∈ schedule.members inner

variable {y x id : SystemId} {set other : SystemSet}

theorem precedes_of_gates (hga : Relation.TransGen schedule.Gates x y) :
    schedule.Precedes x y := by
  induction hga with
  | single hg => exact hg.precedes
  | tail _ hg ih => exact ih.trans hg.precedes

theorem begin_ne_end : set.begin.id ≠ other.end_.id :=
  fun hs => nomatch congrArg SystemId.type hs

theorem begin_injective (hs : set.begin.id = other.begin.id) : set = other :=
  SystemType.setBegin.inj (congrArg SystemId.type hs)

theorem end_injective (hs : set.end_.id = other.end_.id) : set = other :=
  SystemType.setEnd.inj (congrArg SystemId.type hs)

theorem systemSets_ne_none (mem : id ∈ schedule.members set) : schedule.systemSets set ≠ none := by
  intro ha
  rw [members, ha] at mem
  cases mem

/-- What is within a set lies between its markers. -/
theorem Wired.within (hw : schedule.Wired plain) (within_ : schedule.Within set id) :
    schedule.systemSets set ≠ none ∧ (id = set.begin.id ∨ id = set.end_.id ∨
      Relation.TransGen schedule.Gates set.begin.id id ∧ schedule.Precedes id set.end_.id) := by
  obtain ⟨inner, hpa, mem⟩ := within_
  -- from the inner set outwards
  induction hpa using Relation.ReflTransGen.head_induction_on with
  | refl =>
    exact ⟨systemSets_ne_none mem, (hw.members mem).imp_right (Or.imp_right
      (And.imp_left .single))⟩
  | @head o c hn _ ih =>
    obtain ⟨one, hl⟩ := hw.nested hn
    refine ⟨systemSets_ne_none one, ?_⟩
    by_cases hs : c = o
    · exact hs ▸ ih.2
    obtain ⟨hgf, hbe⟩ := ((hw.members one).resolve_left
      (mt begin_injective hs)).resolve_left begin_ne_end
    obtain ⟨hgl, hlb⟩ := ((hw.members hl).resolve_left
      begin_ne_end.symm).resolve_left (mt end_injective hs)
    rcases ih.2 with rfl | rfl | ⟨hg, hp⟩
    · exact .inr (.inr ⟨.single hgf, hbe⟩)
    · exact .inr (.inr ⟨.single hgl, hlb⟩)
    · exact .inr (.inr ⟨hg.head hgf, hp.trans hlb⟩)

/-- The first marker is a condition of what is within the set. -/
theorem Wired.gates_of_within (hw : schedule.Wired plain) (within_ : schedule.Within set id)
    (ne : id ≠ set.begin.id) : Relation.TransGen schedule.Gates set.begin.id id := by
  obtain ⟨hp, hm | rfl | ⟨hg, -⟩⟩ := hw.within within_
  · exact absurd hm ne
  · exact .single (hw.markers hp)
  · exact hg

theorem Wired.precedes_of_within (hw : schedule.Wired plain) (within_ : schedule.Within set id)
    (ne : id ≠ set.end_.id) : schedule.Precedes id set.end_.id := by
  obtain ⟨hp, rfl | hm | ⟨-, hpr⟩⟩ := hw.within within_
  · exact (hw.markers hp).precedes
  · exact absurd hm ne
  · exact hpr

/-! ## Positions -/

/-- The system is at this position of the compiled schedule. -/
def Position (schedule : Schedule) (id : SystemId) (i : ℕ) : Prop :=
  ∃ node, schedule.schedule.systems[i]? = some node ∧ node.system.id = id

/-- The systems that have been run. -/
def names (schedule : Schedule) (ran : List ℕ) : List SystemId :=
  ran.filterMap fun i => schedule.schedule.systems[i]?.map fun node => node.system.id

theorem mem_names : id ∈ schedule.names ran ↔ ∃ i ∈ ran, schedule.Position id i := by
  rw [names, mem_filterMap]
  refine exists_congr fun i => and_congr_right fun _ => ?_
  rw [map_eq_some_iff, Position]

/-- Two systems have been run in the order of their positions. -/
theorem sublist_names (hs : ran.Pairwise (· < ·)) {i j : ℕ} (hmi : i ∈ ran)
    (hmj : j ∈ ran) (hl : i < j) (atI : schedule.Position x i) (atJ : schedule.Position y j) :
    [x, y].Sublist (schedule.names ran) := by
  obtain ⟨nx, hfx, rfl⟩ := atI
  obtain ⟨ny, hfy, rfl⟩ := atJ
  have hp : [i, j].Sublist ran := by
    obtain ⟨e, l, rfl⟩ := append_of_mem hmi
    have after : j ∈ l := by
      rcases mem_append.mp hmj with hin | hin
      · have := (pairwise_append.mp hs).2.2 j hin i mem_cons_self
        omega
      · exact (mem_cons.mp hin).resolve_left hl.ne'
    exact ((singleton_sublist.mpr after).cons_cons i).trans (sublist_append_right ..)
  have hm := hp.filterMap fun i =>
    schedule.schedule.systems[i]?.map fun node => node.system.id
  rw [names]
  simpa only [filterMap_cons, hfx, hfy, map_some, filterMap_nil] using hm

section Compiled

variable {i j : ℕ} {x y : SystemId}

section

variable (compiled : schedule.Compiled)

include compiled

theorem Compiled.position {key : SystemKey} (hf : schedule.allocator.idents x = some key) :
    ∃ i, schedule.Position x i ∧ schedule.schedule.keys[i]? = some key := by
  obtain ⟨node, mem, rfl⟩ := mem_map.mp ((compiled.registered x).mpr ⟨key, hf⟩)
  obtain ⟨i, atI⟩ := getElem?_of_mem mem
  obtain ⟨other, hka, reg⟩ := getElem?_of_aligned compiled.aligned atI
  rw [hf] at reg
  obtain rfl := some.inj reg
  exact ⟨i, ⟨node, atI, rfl⟩, hka⟩

theorem Compiled.key {key : SystemKey} (hf : schedule.allocator.idents x = some key)
    (atI : schedule.Position x i) : schedule.schedule.keys[i]? = some key := by
  obtain ⟨node, atI, rfl⟩ := atI
  obtain ⟨other, hka, reg⟩ := getElem?_of_aligned compiled.aligned atI
  rw [hf] at reg
  obtain rfl := some.inj reg
  exact hka

theorem Compiled.position_unique (atI : schedule.Position x i) (atJ : schedule.Position x j) :
    i = j := by
  obtain ⟨node, atI, rfl⟩ := atI
  obtain ⟨other, atJ, hs⟩ := atJ
  have hni : (schedule.schedule.systems.map fun node => node.system.id)[i]? =
      some node.system.id := by
    rw [getElem?_map, atI, map_some]
  have hnj : (schedule.schedule.systems.map fun node => node.system.id)[j]? =
      some node.system.id := by
    rw [getElem?_map, atJ, map_some, hs]
  exact (List.getElem?_inj (List.getElem?_eq_some_iff.mp hni).1 compiled.once).mp
    (hni.trans hnj.symm)

/-- What precedes comes earlier. -/
theorem Compiled.lt_of_precedes (ho : Opened False schedule.touch)
    (hp : schedule.Precedes x y) (atI : schedule.Position x i) (atJ : schedule.Position y j) :
    i < j := by
  obtain ⟨a, b, hfx, hfy, hpa⟩ := hp
  have hkj := compiled.key hfy atJ
  clear atJ hfy
  induction hpa generalizing j with
  | single he => exact compiled.forward ⟨a, _, compiled.key hfx atI, hkj, he⟩
  | @tail mid last _ he ih =>
    obtain ⟨id, hf⟩ : schedule.Registered mid := by
      rw [Depends, ← ordering_touch] at he
      have reg : schedule.touch.Registered mid := he.elim
        (fun he => (ho.dependency.endpoints he).1)
        fun he => (ho.condition.endpoints he).1
      rwa [Registered, allocator_touch] at reg
    obtain ⟨k, -, hkk⟩ := compiled.position hf
    exact (ih hkk).trans (compiled.forward ⟨mid, last, hkk, hkj, he⟩)

/-- A condition of a system. -/
theorem Compiled.mem_conditions (hg : schedule.Gates x y) (atI : schedule.Position x i)
    (atJ : schedule.Position y j) : i ∈ (schedule.systemSchedule compiled).conditions j := by
  obtain ⟨a, b, hfx, hfy, he⟩ := hg
  refine SystemSchedule.mem_conditions.mpr (((compiled.conditions.getD i).2 j).mpr ?_)
  exact ⟨a, b, compiled.key hfx atI, compiled.key hfy atJ, he⟩

/-- The conditions of a system are those of its identity. -/
theorem Compiled.gates_of_mem (mem : i ∈ (schedule.systemSchedule compiled).conditions j)
    (atJ : schedule.Position y j) : ∃ x, schedule.Position x i ∧ schedule.Gates x y := by
  obtain ⟨a, b, hki, hkj, he⟩ :=
    ((compiled.conditions.getD i).2 j).mp (SystemSchedule.mem_conditions.mp mem)
  have node : ∀ {k : ℕ} {key : SystemKey}, schedule.schedule.keys[k]? = some key →
      ∃ node, schedule.schedule.systems[k]? = some node ∧
        schedule.allocator.idents node.system.id = some key := by
    intro k key hka
    obtain ⟨hin, rfl⟩ := List.getElem?_eq_some_iff.mp hka
    have his : k < schedule.schedule.systems.length := compiled.aligned.length_eq ▸ hin
    exact ⟨_, List.getElem?_eq_getElem his, compiled.aligned.get hin his⟩
  obtain ⟨ni, atI, hfi⟩ := node hki
  obtain ⟨nj, haj, hfj⟩ := node hkj
  obtain ⟨other, atJ, rfl⟩ := atJ
  rw [atJ] at haj
  obtain rfl := some.inj haj
  exact ⟨ni.system.id, ⟨ni, atI, rfl⟩, a, b, hfi, hfj, he⟩

end

theorem Gates.position (hg : schedule.Gates x y) (compiled : schedule.Compiled) :
    (∃ i, schedule.Position x i) ∧ ∃ j, schedule.Position y j := by
  obtain ⟨a, b, hfx, hfy, -⟩ := hg
  exact ⟨(compiled.position hfx).imp fun _ => And.left,
    (compiled.position hfy).imp fun _ => And.left⟩

/-- If a system is to run then all its conditions run and pass, and theirs. -/
theorem Compiled.activated_of_gates (compiled : schedule.Compiled) {p : ℕ → Prop}
    (hga : Relation.TransGen schedule.Gates x y) (atI : schedule.Position x i)
    (atJ : schedule.Position y j) (ha : (schedule.systemSchedule compiled).Activated p j) :
    (schedule.systemSchedule compiled).Activated p i ∧ p i := by
  induction hga generalizing j with
  | single hg =>
    exact activated_iff.mp ha i (compiled.mem_conditions hg atI atJ)
  | tail _ hg ih =>
    obtain ⟨⟨k, atK⟩, -⟩ := hg.position compiled
    exact ih atK (activated_iff.mp ha k (compiled.mem_conditions hg atK atJ)).1

/-- Systems that have been run are in the order of the edges. -/
theorem Compiled.sublist_of_precedes (compiled : schedule.Compiled)
    (ho : Opened False schedule.touch) {ran : List ℕ} (hs : ran.Pairwise (· < ·))
    (hp : schedule.Precedes x y) (hrx : x ∈ schedule.names ran)
    (hry : y ∈ schedule.names ran) : [x, y].Sublist (schedule.names ran) := by
  obtain ⟨i, hmi, atI⟩ := mem_names.mp hrx
  obtain ⟨j, hmj, atJ⟩ := mem_names.mp hry
  exact sublist_names hs hmi hmj (compiled.lt_of_precedes ho hp atI atJ) atI atJ

end Compiled

/-! ## Runs of the executor -/

/-- The operations put the system into the set. -/
def Holds (ops : List ScheduleOp) (set : SystemSet) (id : SystemId) : Prop :=
  (∃ config, .addSystems set config ∈ ops ∧ SystemConfig.Registers (config.applyToSet set) id) ∨
    ∃ system, .addSystem set system ∈ ops ∧ id = system.boxed.id.setSystemSet set

/-- The operations put a set into another one. -/
def Nests (ops : List ScheduleOp) (outer inner : SystemSet) : Prop :=
  ∃ config, .configSet config ∈ ops ∧ config.set = inner ∧ config.parent = some outer

/-- What was declared holds among the systems that have been run: all, or, as for
configurations, all but what was declared to run after a system that defers commands. -/
structure Respects (all : Bool) (ops : List ScheduleOp) (schedule : Schedule)
    (ran : List SystemId) : Prop where
  skips : ∀ {set : SystemSet} {id}, schedule.Within set id → set.begin.id ∉ ran → id ∉ ran
  begins : ∀ {set : SystemSet} {id}, schedule.Within set id → id ≠ set.begin.id → id ∈ ran →
    [set.begin.id, id].Sublist ran
  ends : ∀ {set : SystemSet} {id}, schedule.Within set id → id ≠ set.end_.id → id ∈ ran →
    set.end_.id ∈ ran → [id, set.end_.id].Sublist ran
  systems : ∀ {set config} {expr : ConfigExpr} {systemOf : SystemType → ℕ} {x y},
    .addSystems set config ∈ ops → expr.config.Reorders config →
    (∀ system ∈ expr.helped, system.system = systemOf system.boxed.id.type) →
    (x, y) ∈ expr.declared all → x.setSystemSet set ∈ ran → y.setSystemSet set ∈ ran →
    [x.setSystemSet set, y.setSystemSet set].Sublist ran
  after : ∀ {config other x y}, .configSet config ∈ ops → other ∈ config.runAfter →
    schedule.Within other x → schedule.Within config.set y → x ∈ ran → y ∈ ran →
    [x, y].Sublist ran
  before : ∀ {config other x y}, .configSet config ∈ ops → other ∈ config.runBefore →
    schedule.Within config.set x → schedule.Within other y → x ∈ ran → y ∈ ran →
    [x, y].Sublist ran

theorem within_of_nests (ha : ∀ op ∈ ops, op.Achieves schedule) {inn : SystemSet}
    (hpa : Relation.ReflTransGen (Nests ops) set inn) (ho : Holds ops inn id) :
    schedule.Within set id := by
  have hn : ∀ o ch, Nests ops o ch → ch ∈ schedule.nested o := by
    rintro o ch ⟨c, mem, rfl, hp⟩
    have hc : Configures c schedule := ha _ mem
    exact hc.parent o hp
  refine ⟨inn, Relation.ReflTransGen.mono hn _ _ hpa, ?_⟩
  rcases ho with ⟨c, mem, hr⟩ | ⟨sys, mem, rfl⟩
  · have has : Adds inn (c.applyToSet inn) schedule := ha _ mem
    exact (has.added id hr).1
  · have had : Added inn (sys.boxed.id.setSystemSet inn) schedule := ha _ mem
    exact had.1

/-- Everything in a set is before everything in another one. -/
theorem Wired.precedes_of_sets (hw : schedule.Wired plain) {one two : SystemSet}
    (ho : schedule.Precedes one.end_.id two.begin.id) (hwx : schedule.Within one x)
    (hwy : schedule.Within two y) : schedule.Precedes x y := by
  have hte : x = one.end_.id ∨ schedule.Precedes x one.end_.id :=
    (em _).imp_right (hw.precedes_of_within hwx)
  have hfb : y = two.begin.id ∨ schedule.Precedes two.begin.id y :=
    (em _).imp_right fun ne => precedes_of_gates (hw.gates_of_within hwy ne)
  rcases hte with rfl | hte <;> rcases hfb with rfl | hfb
  · exact ho
  · exact ho.trans hfb
  · exact hte.trans ho
  · exact hte.trans (ho.trans hfb)

section Executor

variable {out : ℕ → Outcome} {count : ℕ} {executor : SingleThreadedExecutor}

/-- The first marker of a set runs before what is within the set. -/
theorem Wired.begins (hw : schedule.Wired plain) (compiled : schedule.Compiled)
    (hv : SingleThreadedExecutor.Visited (schedule.systemSchedule compiled) out count
      executor) {set : SystemSet} {id : SystemId} (within_ : schedule.Within set id)
    (ne : id ≠ set.begin.id) (ran : id ∈ schedule.names executor.ran) :
    set.begin.id ∈ schedule.names executor.ran := by
  have hg := hw.gates_of_within within_ ne
  obtain ⟨j, mem, atJ⟩ := mem_names.mp ran
  obtain ⟨hb, ha⟩ := (hv.ran j).mp mem
  obtain ⟨a, -, hf, -⟩ := precedes_of_gates hg
  obtain ⟨i, atI, -⟩ := compiled.position hf
  have hl := compiled.lt_of_precedes hw.opened (precedes_of_gates hg) atI atJ
  exact mem_names.mpr ⟨i, (hv.ran i).mpr ⟨hl.trans hb,
    (compiled.activated_of_gates hg atI atJ ha).1⟩, atI⟩

/-- If something in a set runs then the last marker of the set runs, if the executor comes to
it. -/
theorem Wired.ends (hw : schedule.Wired plain) (hp : plain) (compiled : schedule.Compiled)
    (hv : SingleThreadedExecutor.Visited (schedule.systemSchedule compiled) out
      (schedule.systemSchedule compiled).size executor)
    {set : SystemSet} {id : SystemId} (within_ : schedule.Within set id)
    (ne : id ≠ set.begin.id) (ran : id ∈ schedule.names executor.ran) :
    set.end_.id ∈ schedule.names executor.ran := by
  have hg := hw.gates_of_within within_ ne
  have hm := hw.markers (hw.within within_).1
  obtain ⟨⟨i, atI⟩, k, atK⟩ := hm.position compiled
  obtain ⟨j, mem, atJ⟩ := mem_names.mp ran
  obtain ⟨hai, hpi⟩ := compiled.activated_of_gates hg atI atJ ((hv.ran j).mp mem).2
  refine mem_names.mpr ⟨k, (hv.ran k).mpr ⟨?_, ?_⟩, atK⟩
  · obtain ⟨node, atK, -⟩ := atK
    rw [size, systemSchedule, length_map]
    exact (List.getElem?_eq_some_iff.mp atK).1
  · refine activated_iff.mpr fun c mem => ?_
    obtain ⟨x, atX, hgx⟩ := compiled.gates_of_mem mem atK
    obtain ⟨o, rfl, rfl | ho⟩ := hw.closed hp hgx
    · obtain rfl := compiled.position_unique atI atX
      exact ⟨hai, hpi⟩
    · exact compiled.activated_of_gates (.single ho) atX atI hai

theorem Wired.respects (hw : schedule.Wired plain) (compiled : schedule.Compiled)
    {ops : List ScheduleOp} (ha : ∀ op ∈ ops, op.Achieves schedule)
    (hv : SingleThreadedExecutor.Visited (schedule.systemSchedule compiled) out count
      executor) (hso : executor.ran.Pairwise (· < ·)) :
    Respects false ops schedule (schedule.names executor.ran) := by
  have ho : ∀ {x y}, schedule.Precedes x y → x ∈ schedule.names executor.ran →
      y ∈ schedule.names executor.ran → [x, y].Sublist (schedule.names executor.ran) :=
    fun hp => compiled.sublist_of_precedes hw.opened hso hp
  refine ⟨?_, ?_, ?_, ?_, ?_, ?_⟩
  · intro set id within_ hs ran
    by_cases hsa : id = set.begin.id
    · exact hs (hsa ▸ ran)
    · exact hs (hw.begins compiled hv within_ hsa ran)
  · intro set id within_ ne ran
    exact ho (precedes_of_gates (hw.gates_of_within within_ ne))
      (hw.begins compiled hv within_ ne ran) ran
  · intro set id within_ ne ran he
    exact ho (hw.precedes_of_within within_ ne) ran he
  · intro set c expr so x y mem hr ht hd
    have had : Adds set (c.applyToSet set) schedule := ha _ mem
    exact ho (had.precedes hr ht hd)
  · intro c other x y mem hl hwx hwy
    have hc : Configures c schedule := ha _ mem
    exact ho (hw.precedes_of_sets (hc.after other hl) hwx hwy)
  · intro c other x y mem hl hwx hwy
    have hc : Configures c schedule := ha _ mem
    exact ho (hw.precedes_of_sets (hc.before other hl) hwx hwy)

end Executor

/-- **In every run of the single-threaded executor, also if it ends with a panic, what was
declared holds, except that a system runs after one that defers commands.**  If no operation
names a marker itself and no system panics, then sets of which something runs end. -/
theorem run_respects {ops : List ScheduleOp} {schedule : Schedule}
    (built : run step ops .new = some schedule) (clean : schedule.isChanged = false)
    (additive : ∀ op ∈ ops, op.Additive) :
    (∀ set inner id, Relation.ReflTransGen (Nests ops) set inner → Holds ops inner id →
      schedule.Within set id) ∧
    ∃ compiled : schedule.Compiled, ∀ (outcome : ℕ → Outcome) (count : ℕ)
      (executor : SingleThreadedExecutor), runTo (schedule.systemSchedule compiled) outcome count =
        some executor → Respects false ops schedule (schedule.names executor.ran) ∧
      ((∀ op ∈ ops, op.Plain) → count = (schedule.systemSchedule compiled).size →
        ∀ {set : SystemSet} {id}, schedule.Within set id → id ≠ set.begin.id →
          id ∈ schedule.names executor.ran → set.end_.id ∈ schedule.names executor.ran) := by
  obtain ⟨hw, -, ha⟩ := (wired_new (∀ op ∈ ops, op.Plain)).run (faithful_new False) built
    additive id
  have compiled := compiled_of_run built clean
  refine ⟨fun set inner id => within_of_nests ha, compiled, fun outcome count executor ran => ?_⟩
  obtain ⟨hv, hs⟩ := runTo_spec ran
  refine ⟨hw.respects compiled ha hv hs, ?_⟩
  rintro hp rfl set id within_ hd hm
  exact hw.ends hp compiled hv within_ hd hm

/-! ## A declared order that is forgotten -/

/-- A system that defers commands. -/
def deferringSystem (type : ℕ) : IntoSystem where
  source := type
  system := type
  boxed := ⟨⟨.user type, .anonymous⟩, ⟨.action, false, true, false⟩⟩

section

variable (chained : Bool)

/-- One system is to run after another one: both are chained, or `after` is used. -/
def twoSystems : ConfigExpr :=
  if chained then
    .chain (.merge (.system (deferringSystem 1)) (.system (functionSystem 0 false))) false
  else .after (.system (functionSystem 0 false)) (deferringSystem 1) false

/-- The first system is added before, and sets are put around the two. -/
def twoOperations : List ScheduleOp :=
  [.configSet ⟨.named 1, some (.named 0), [.named 2], [], []⟩,
    .addSystem (.named 1) (deferringSystem 1), .addSystems (.named 1) (twoSystems chained).config,
    .addSystem (.named 2) (functionSystem 2 false),
    .update 100 .same fun _ => FunctionSystem.initTable []]

/-- The schedule that is compiled in the end. -/
def twoSchedule : Schedule :=
  built (twoOperations chained)

theorem twoSchedule_spec : run step (twoOperations chained) .new = some (twoSchedule chained) ∧
      (twoSchedule chained).isChanged = false :=
  built_spec (by cases chained <;> decide +kernel)

theorem additive_twoOperations : ∀ op ∈ twoOperations chained, op.Additive := by
  intro op mem
  simp only [twoOperations, mem_cons, not_mem_nil, or_false] at mem
  rcases mem with rfl | rfl | rfl | rfl | rfl <;> trivial

/-- The systems in the order in which they run. -/
def runTwo : Option (List SystemId) :=
  let schedule := (twoSchedule chained).systemSchedule
    (compiled_of_run (twoSchedule_spec chained).1 (twoSchedule_spec chained).2)
  (run schedule fun _ => .met).map fun executor =>
    (twoSchedule chained).names executor.ran

end

/-- The chained systems run in order, after the other set. -/
theorem run_respects_chained : ∃ ran, runTwo true = some ran ∧
    Respects false (twoOperations true) (twoSchedule true) ran ∧
    [(⟨.user 2, .named 2⟩ : SystemId), ⟨.user 1, .named 1⟩].Sublist ran := by
  have he : ((runTwo true).any fun ran =>
      decide ((⟨.user 2, .named 2⟩ : SystemId) ∈ ran) && (⟨.user 1, .named 1⟩ : SystemId) ∈ ran) =
      true := by
    decide +kernel
  obtain ⟨ran, hfo, hb⟩ := (any_eq_true _ _).mp he
  obtain ⟨hfr, hs⟩ := Bool.and_eq_true_iff.mp hb
  have hf := hfo
  rw [runTwo, map_eq_some_iff] at hf
  obtain ⟨executor, hfi, rfl⟩ := hf
  obtain ⟨within_, compiled, hr⟩ := run_respects (twoSchedule_spec true).1
    (twoSchedule_spec true).2 (additive_twoOperations true)
  have hk := (hr _ _ executor hfi).1
  refine ⟨_, hfo, hk, ?_⟩
  refine hk.after mem_cons_self mem_cons_self ?_ ?_ (of_decide_eq_true hfr)
    (of_decide_eq_true hs)
  · refine within_ _ _ _ .refl (.inr ⟨functionSystem 2 false, ?_, rfl⟩)
    exact mem_cons_of_mem _ (mem_cons_of_mem _ (mem_cons_of_mem _ mem_cons_self))
  · refine within_ _ _ _ .refl (.inr ⟨deferringSystem 1, ?_, rfl⟩)
    exact mem_cons_of_mem _ mem_cons_self

/-- **A system is declared to run after one that defers commands, and runs before it.** -/
theorem after_deferred_forgotten : ∃ ran, runTwo false = some ran ∧
    ¬ Respects true (twoOperations false) (twoSchedule false) ran := by
  have he : ((runTwo false).any fun ran => decide ((⟨.user 0, .named 1⟩ : SystemId) ∈ ran) &&
      (decide ((⟨.user 1, .named 1⟩ : SystemId) ∈ ran) &&
        !decide ([(⟨.user 1, .named 1⟩ : SystemId), ⟨.user 0, .named 1⟩].Sublist ran))) = true := by
    decide +kernel
  obtain ⟨ran, hfo, all⟩ := (any_eq_true _ _).mp he
  obtain ⟨hs, hrs⟩ := Bool.and_eq_true_iff.mp all
  obtain ⟨hf, hr⟩ := Bool.and_eq_true_iff.mp hrs
  refine ⟨ran, hfo, fun hre => ?_⟩
  have ha : .addSystems (.named 1) (twoSystems false).config ∈ twoOperations false :=
    mem_cons_of_mem _ (mem_cons_of_mem _ mem_cons_self)
  have hd : (⟨.user 1, .anonymous⟩, ⟨.user 0, .anonymous⟩) ∈ (twoSystems false).declared true :=
    mem_cons_self
  let so : SystemType → ℕ := fun _ => 0
  have ht : ∀ s ∈ (twoSystems false).helped,
      s.system = so s.boxed.id.type := by
    intro s hm
    rw [mem_singleton.mp hm]
    rfl
  have ho := hre.systems ha ⟨rfl, .refl _, .refl _, .refl _, .refl _⟩ ht hd
    (of_decide_eq_true hf) (of_decide_eq_true hs)
  rw [Bool.not_eq_true', decide_eq_false_iff_not] at hr
  exact hr ho

end Schedule

end Voker.Ecs
