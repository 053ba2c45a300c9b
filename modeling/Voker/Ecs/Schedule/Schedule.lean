import Voker.Ecs.Schedule.Config
import Voker.Ecs.Schedule.Graph.Toposort
import Voker.Ecs.System.AccessTable

/-!
# Schedules

A schedule registers systems under keys.  Systems lie in a buffer, or, when the schedule is
compiled, in an array in topological order; the first change moves them back.  Two graphs
hold the dependencies and the run conditions, a third structure the conflicts of the systems
that have been initialised.

An update that panics can be caught.  It does so in the middle of the initialisation, if a
system cannot be initialised, and then the list of the systems that are still to be
initialised is lost; or when the graphs have a cycle.

The hash sets are lists; an operation that iterates over one is given the order.  The parents
of sets are written and never read, and are left out, as are the executor and the system
objects' own state.
-/

namespace Voker.Ecs

open Foundation Function

/-- `SystemKey`.  The slot map does not hand out a key twice. -/
abbrev SystemKey := ℕ

/-- `Allocator`. -/
structure Allocator where
  next : SystemKey
  idents : SystemId → Option SystemKey

namespace Allocator

/-- `insert`, of an identity that is not registered. -/
def insert (allocator : Allocator) (id : SystemId) : Allocator where
  next := allocator.next + 1
  idents := update allocator.idents id (some allocator.next)

/-- `remove`. -/
def remove (allocator : Allocator) (id : SystemId) : Allocator :=
  { allocator with idents := update allocator.idents id none }

end Allocator

/-- The access tables that systems can declare. -/
abbrev ValidTable := { table : AccessTable // table.Valid }

/-- `initialize` of a function system: it panics if its parameters contradict each other. -/
def FunctionSystem.initTable (params : List SystemParam) : Option ValidTable :=
  match built : AccessTable.build params with
  | some table => some ⟨table, valid_build built⟩
  | none => none

/-- `SystemObject`: a system with its access table. -/
structure SystemNode where
  system : BoxedSystem
  access : ValidTable

/-- `SystemBuffer`: a node is absent, empty, or holds a system. -/
@[ext]
structure SystemBuffer where
  nodes : SystemKey → Option (Option SystemNode)
  uninit : List SystemKey

namespace SystemBuffer

variable (buffer : SystemBuffer) (key : SystemKey)

/-- `insert_action` and `insert_condition`. -/
def insert (system : BoxedSystem) : SystemBuffer where
  nodes := update buffer.nodes key (some (some ⟨system, .new, AccessTable.valid_new⟩))
  uninit := buffer.uninit ++ [key]

/-- `remove`. -/
def remove : SystemBuffer where
  nodes := update buffer.nodes key none
  uninit := if key ∈ buffer.uninit then swapRemove buffer.uninit (buffer.uninit.findIdx (· = key))
    else buffer.uninit

/-- `get_system`. -/
def getSystem : Option SystemNode :=
  (buffer.nodes key).join

/-- Write a node. -/
def set (node : Option SystemNode) : SystemBuffer :=
  { buffer with nodes := update buffer.nodes key (some node) }

end SystemBuffer

/-- `Dag`, with the cached order. -/
structure Dag where
  graph : DiGraph SystemKey
  toposort : List SystemKey
  dirty : Bool

namespace Dag

/-- `new`. -/
def new : Dag := ⟨.new, [], false⟩

/-- `insert_node`, and so on: each use of the graph as a mutable one marks it as dirty. -/
def insertNode (dag : Dag) (key : SystemKey) : Dag :=
  { dag with graph := dag.graph.insertNode key, dirty := true }

def insertEdge (dag : Dag) (a b : SystemKey) : Dag :=
  { dag with graph := dag.graph.insertEdge a b, dirty := true }

def removeNode (dag : Dag) (key : SystemKey) : Dag :=
  { dag with graph := dag.graph.removeNode key, dirty := true }

/-- `toposort`. -/
def sort (fuel : ℕ) (dag : Dag) (allEdges : List (SystemKey × SystemKey)) :
    Option (Except (ToposortError SystemKey) (List SystemKey)) :=
  if dag.dirty then dag.graph.toposort fuel allEdges else some (.ok dag.toposort)

end Dag

/-- `OrderingGraph`. -/
structure OrderingGraph where
  dependency : Dag
  condition : Dag

namespace OrderingGraph

variable (ordering : OrderingGraph)

/-- `insert_order`. -/
def insertOrder (before after : SystemKey) : OrderingGraph :=
  { ordering with dependency := ordering.dependency.insertEdge before after }

/-- `insert_condition_order`. -/
def insertConditionOrder (condition runnable : SystemKey) : OrderingGraph :=
  { ordering with condition := ordering.condition.insertEdge condition runnable }

/-- `insert_node`. -/
def insertNode (key : SystemKey) : OrderingGraph :=
  ⟨ordering.dependency.insertNode key, ordering.condition.insertNode key⟩

/-- `remove_node`. -/
def removeNode (key : SystemKey) : OrderingGraph :=
  ⟨ordering.dependency.removeNode key, ordering.condition.removeNode key⟩

end OrderingGraph

/-- `ConflictGraph`. -/
structure ConflictGraph where
  exclusive : SystemKey → Bool
  conflicts : SystemKey → SystemKey → Bool

namespace ConflictGraph

variable (conflict : ConflictGraph)

/-- `set_exclusive`. -/
def setExclusive (key : SystemKey) : ConflictGraph :=
  { conflict with exclusive := update conflict.exclusive key true }

/-- `set_conflict`. -/
def setConflict (a b : SystemKey) : ConflictGraph :=
  { conflict with conflicts := fun x y =>
      if x = a ∧ y = b ∨ x = b ∧ y = a then true else conflict.conflicts x y }

/-- `remove`: the key goes from the sets of those in its own set. -/
def remove (key : SystemKey) : ConflictGraph where
  exclusive := update conflict.exclusive key false
  conflicts := fun x y =>
    if x = key ∨ y = key ∧ conflict.conflicts key x then false else conflict.conflicts x y

end ConflictGraph

/-- `ConflictTable`: a matrix of bits, line by line. -/
structure ConflictTable where
  lines : ℕ
  table : ℕ → Bool

namespace ConflictTable

/-- `new`. -/
def new (lines : ℕ) : ConflictTable := ⟨lines, fun _ => false⟩

variable (table : ConflictTable)

/-- `set_conflict`. -/
def setConflict (a b : ℕ) : ConflictTable :=
  { table with table := update table.table (a * table.lines + b) true }

/-- `set_exclusive`. -/
def setExclusive (a : ℕ) : ConflictTable :=
  let row := (List.range table.lines).foldl (fun bits line =>
    update bits (a * table.lines + line) true) table.table
  let column := (List.range table.lines).foldl (fun bits line =>
    update bits (a + line * table.lines) true) row
  { table with table := column }

/-- `is_conflict`. -/
def isConflict (a b : ℕ) : Bool := table.table (a * table.lines + b)

end ConflictTable

/-- `SystemSchedule`: what executors are given. -/
structure CompiledSchedule where
  keys : List SystemKey
  systems : List SystemNode
  conflict : ConflictTable
  incoming : List ℕ
  outgoing : List (List ℕ)
  conditionIncoming : List ℕ
  conditionOutgoing : List (List ℕ)

/-- An empty one. -/
def CompiledSchedule.empty : CompiledSchedule := ⟨[], [], .new 0, [], [], [], []⟩

/-- `Schedule`. -/
structure Schedule where
  allocator : Allocator
  buffer : SystemBuffer
  ordering : OrderingGraph
  conflict : ConflictGraph
  schedule : CompiledSchedule
  systemSets : SystemSet → Option (List SystemId)
  children : SystemSet → Option (List SystemSet)
  isChanged : Bool

/-- In which order the hash sets are iterated over. -/
structure HashOrder where
  members : SystemSet → List SystemId → List SystemId
  children : SystemSet → List SystemSet → List SystemSet
  conditionEdges : List (SystemKey × SystemKey) → List (SystemKey × SystemKey)
  mergedEdges : List (SystemKey × SystemKey) → List (SystemKey × SystemKey)
  members_perm : ∀ set ids, (members set ids).Perm ids
  children_perm : ∀ set sets, (children set sets).Perm sets
  conditionEdges_perm : ∀ edges, (conditionEdges edges).Perm edges
  mergedEdges_perm : ∀ edges, (mergedEdges edges).Perm edges

/-- The order in which the lists are kept. -/
def HashOrder.same : HashOrder where
  members := fun _ ids => ids
  children := fun _ sets => sets
  conditionEdges := id
  mergedEdges := id
  members_perm := fun _ _ => .refl _
  children_perm := fun _ _ => .refl _
  conditionEdges_perm := fun _ => .refl _
  mergedEdges_perm := fun _ => .refl _

namespace Schedule

/-- `new`. -/
def new : Schedule where
  allocator := ⟨0, fun _ => none⟩
  buffer := ⟨fun _ => none, []⟩
  ordering := ⟨.new, .new⟩
  conflict := ⟨fun _ => false, fun _ _ => false⟩
  schedule := .empty
  systemSets := fun _ => none
  children := fun _ => none
  isChanged := false

/-! ## Changes -/

variable (schedule : Schedule)

/-- `recycle_schedule`: the systems go back to their nodes.  (`get_mut` would panic at a key
without a node.) -/
def recycleSchedule : Schedule :=
  { schedule with
    schedule := .empty
    buffer := (schedule.schedule.keys.zip schedule.schedule.systems).foldl
      (fun buffer entry => buffer.set entry.1 (some entry.2)) schedule.buffer }

/-- What a change does first. -/
def touch : Schedule :=
  if schedule.isChanged then schedule
  else { schedule.recycleSchedule with isChanged := true }

/-- Register a system under a new key, unless it is registered. -/
def register (system : BoxedSystem) : Schedule :=
  match schedule.allocator.idents system.id with
  | some _ => schedule
  | none =>
    let key := schedule.allocator.next
    { schedule with
      allocator := schedule.allocator.insert system.id
      buffer := schedule.buffer.insert key system
      ordering := schedule.ordering.insertNode key }

/-- Insert an identity into a set, which is created if it is missing. -/
def addMember (set : SystemSet) (id : SystemId) : Schedule :=
  { schedule with
    systemSets := update schedule.systemSets set
      (some (((schedule.systemSets set).getD []).insert id)) }

/-- Register a marker of a set; a new one becomes a member of it. -/
def registerMarker (set : SystemSet) (marker : BoxedSystem) : Schedule :=
  match schedule.allocator.idents marker.id with
  | some _ => schedule
  | none => (schedule.register marker).addMember set marker.id

/-- The key of a system. -/
def keyOf (id : SystemId) : SystemKey := (schedule.allocator.idents id).getD 0

/-- `wire_set_boundaries`. -/
def wireSetBoundaries (systemKey : SystemKey) (id : SystemId) (set : SystemSet) : Schedule :=
  let marked := ((schedule.addMember set id).registerMarker set set.begin).registerMarker set
    set.end_
  let begin_ := marked.keyOf set.begin.id
  let end_ := marked.keyOf set.end_.id
  { marked with
    ordering := ((marked.ordering.insertOrder systemKey end_).insertConditionOrder begin_
      systemKey).insertConditionOrder begin_ end_ }

/-- `insert_action` and `insert_condition`.  (The number of systems is asserted to fit into
`u32`.) -/
def insertSystem (system : BoxedSystem) (set : SystemSet) : Schedule :=
  let registered := schedule.touch.register system
  registered.wireSetBoundaries (registered.keyOf system.id) system.id set

/-- `init_system_set`. -/
def initSystemSet (set : SystemSet) : Schedule :=
  match schedule.systemSets set with
  | some _ => schedule
  | none =>
    let created :=
      { schedule.touch with systemSets := update schedule.systemSets set (some []) }
    let marked := (created.registerMarker set set.begin).registerMarker set set.end_
    { marked with
      ordering := marked.ordering.insertConditionOrder (marked.keyOf set.begin.id)
        (marked.keyOf set.end_.id) }

/-- `insert_order`. -/
def insertOrder (before after : SystemId) : Schedule :=
  match schedule.allocator.idents before, schedule.allocator.idents after with
  | some b, some a =>
    { schedule.touch with ordering := schedule.ordering.insertOrder b a }
  | _, _ => schedule

/-- `insert_run_if`. -/
def insertRunIf (runnable condition : SystemId) : Schedule :=
  match schedule.allocator.idents runnable, schedule.allocator.idents condition with
  | some r, some c =>
    { schedule.touch with ordering := schedule.ordering.insertConditionOrder c r }
  | _, _ => schedule

/-- `add_systems`. -/
def addSystems (set : SystemSet) (config : SystemConfig) : Schedule :=
  let cfg := config.applyToSet set
  let inserted := cfg.systems.foldl (fun schedule system => schedule.insertSystem system set)
    (schedule.initSystemSet set)
  let deferred := cfg.deferred.foldl (fun schedule entry =>
    (schedule.insertSystem entry.2 set).insertOrder entry.1 entry.2.id) inserted
  let ordered := cfg.dependencies.foldl (fun schedule edge => schedule.insertOrder edge.1 edge.2)
    deferred
  cfg.conditions.foldl (fun schedule edge => schedule.insertRunIf edge.2 edge.1) ordered

/-- `add_system`. -/
def addSystem (set : SystemSet) (system : IntoSystem) : Schedule :=
  (schedule.initSystemSet set).insertSystem (system.boxed.setSystemSet set) set

end Schedule

/-- `SystemSetConfig`. -/
structure SystemSetConfig where
  set : SystemSet
  parent : Option SystemSet
  runAfter : List SystemSet
  runBefore : List SystemSet
  conditions : List BoxedSystem
  deriving DecidableEq, Repr

namespace Schedule

/-- Put a set into a parent: its markers become members of the parent. -/
def nest (schedule : Schedule) (set parent : SystemSet) : Schedule :=
  let nested := ((schedule.initSystemSet parent).insertSystem set.begin parent).insertSystem
    set.end_ parent
  { nested with
    children := update nested.children parent
      (some (((nested.children parent).getD []).insert set)) }

/-- `config_set`. -/
def configSet (schedule : Schedule) (config : SystemSetConfig) : Schedule :=
  let set := config.set
  let created := schedule.initSystemSet set
  let nested := (config.parent.map (created.nest set)).getD created
  let after := config.runAfter.foldl (fun schedule other =>
    (schedule.initSystemSet other).insertOrder other.end_.id set.begin.id) nested
  let before := config.runBefore.foldl (fun schedule other =>
    (schedule.initSystemSet other).insertOrder set.end_.id other.begin.id) after
  config.conditions.foldl (fun schedule cond =>
    (schedule.insertSystem cond .anonymous).insertRunIf set.begin.id cond.id) before

/-! ## Removal -/

/-- `remove`. -/
def remove (schedule : Schedule) (name : SystemId) : Schedule :=
  match schedule.allocator.idents name with
  | none => schedule
  | some key =>
    let touched := { schedule with allocator := schedule.allocator.remove name }.touch
    { touched with
      buffer := touched.buffer.remove key
      ordering := touched.ordering.removeNode key
      conflict := touched.conflict.remove key
      systemSets := fun set => (touched.systemSets set).map fun ids => ids.erase name }

/-- `remove_system_set_inner`. -/
def removeSystemSetInner (schedule : Schedule) (order : HashOrder) (set : SystemSet) : Schedule :=
  match schedule.systemSets set with
  | none => schedule
  | some ids =>
    (order.members set ids).foldl remove
      { schedule with systemSets := update schedule.systemSets set none }

/-- `remove_set_recursive`; `none` if there was not enough fuel. -/
def removeSetRecursive (order : HashOrder) : ℕ → Schedule → SystemSet → Option Schedule
  | 0, _, _ => none
  | fuel + 1, schedule, set =>
    let below := match schedule.children set with
      | none => some schedule
      | some children =>
        (order.children set children).foldlM (removeSetRecursive order fuel)
          { schedule with children := update schedule.children set none }
    below.map fun schedule => schedule.removeSystemSetInner order set

/-! ## Compilation -/

/-- The first loop of `init_systems`: the access tables; `initialize` panics if it yields
nothing. -/
def initAccess (start : SystemId → Option ValidTable) :
    List SystemKey → SystemBuffer → SystemBuffer × Bool
  | [], buffer => (buffer, true)
  | key :: rest, buffer =>
    match buffer.getSystem key with
    | none => (buffer, false)
    | some node =>
      match start node.system.id with
      | none => (buffer, false)
      | some access => initAccess start rest (buffer.set key (some { node with access := access }))

/-- The comparison of a system with another one. -/
def compareWith (buffer : SystemBuffer) (a : SystemKey) (node : SystemNode)
    (conflict : ConflictGraph) (b : SystemKey) : ConflictGraph :=
  match buffer.getSystem b with
  | some other =>
    if a ≠ b ∧ node.access.1.parallelizable other.access.1 = false then conflict.setConflict a b
    else conflict
  | none => conflict

/-- What the second loop of `init_systems` does for one system. -/
def initConflict (allocator : Allocator) (buffer : SystemBuffer) (conflict : ConflictGraph)
    (a : SystemKey) : ConflictGraph :=
  match buffer.getSystem a with
  | none => conflict
  | some node =>
    if node.system.object.exclusive then conflict.setExclusive a
    else (List.range allocator.next).foldl (compareWith buffer a node) conflict

/-- `init_systems`; it says whether it returned. -/
def initSystems (schedule : Schedule) (start : SystemId → Option ValidTable) : Schedule × Bool :=
  let uninit := schedule.buffer.uninit
  let taken := { schedule.buffer with uninit := [] }
  match initAccess start uninit taken with
  | (buffer, false) => ({ schedule with buffer := buffer }, false)
  | (buffer, true) =>
    ({ schedule with
      buffer := buffer
      conflict := uninit.foldl (initConflict schedule.allocator buffer) schedule.conflict }, true)

/-- The merged graph. -/
def merged (schedule : Schedule) (edges : List (SystemKey × SystemKey)) : Dag :=
  edges.foldl (fun dag edge => dag.insertEdge edge.1 edge.2) schedule.ordering.dependency

/-- Take the systems out of the buffer, or panic. -/
def takeSystems : List SystemKey → SystemBuffer → Option (List SystemNode × SystemBuffer)
  | [], buffer => some ([], buffer)
  | key :: rest, buffer =>
    (buffer.getSystem key).bind fun node =>
      (takeSystems rest (buffer.set key none)).map fun taken => (node :: taken.1, taken.2)

/-- The positions of the neighbours of each key, or a panic if one has none. -/
def targets (keys : List SystemKey) (graph : DiGraph SystemKey) : Option (List (List ℕ)) :=
  if ∀ key ∈ keys, ∀ target ∈ graph.neighbors key, target ∈ keys then
    some (keys.map fun key => (graph.neighbors key).map keys.idxOf)
  else none

/-- How often each position is a target. -/
def countTargets (size : ℕ) (lists : List (List ℕ)) : List ℕ :=
  lists.flatten.foldl (fun counts target => counts.modify target (· + 1)) (List.replicate size 0)

/-- The table of conflicts. -/
def conflictTable (conflict : ConflictGraph) (keys : List SystemKey) : ConflictTable :=
  (List.range keys.length).foldl (fun table a =>
    if conflict.exclusive (keys.getD a 0) then table.setExclusive a
    else (List.range' (a + 1) (keys.length - (a + 1))).foldl (fun table b =>
      if conflict.conflicts (keys.getD a 0) (keys.getD b 0) then
        (table.setConflict a b).setConflict b a
      else table) table) (.new keys.length)

/-- `build_schedule`, when the order has been found. -/
def assemble (schedule : Schedule) (merged : Dag) (keys : List SystemKey) : Option Schedule :=
  (takeSystems keys schedule.buffer).bind fun taken =>
    (targets keys merged.graph).bind fun outgoing =>
      (targets keys schedule.ordering.condition.graph).map fun conditionOutgoing =>
        { schedule with
          buffer := taken.2
          schedule :=
            { keys := keys
              systems := taken.1
              conflict := conflictTable schedule.conflict keys
              incoming := countTargets keys.length outgoing
              outgoing := outgoing
              conditionIncoming := countTargets keys.length conditionOutgoing
              conditionOutgoing := conditionOutgoing } }

/-- `update`; `none` if there was not enough fuel.  (The panics of `assemble` are shown not to
happen.) -/
def update (fuel : ℕ) (order : HashOrder) (start : SystemId → Option ValidTable)
    (schedule : Schedule) : Option Schedule :=
  if schedule.isChanged then
    match schedule.initSystems start with
    | (failed, false) => some failed
    | (ready, true) =>
      let merged := ready.merged (order.conditionEdges ready.ordering.condition.graph.edges)
      (merged.sort fuel (order.mergedEdges merged.graph.edges)).bind fun
        | .error _ => some ready
        | .ok keys =>
          (ready.assemble merged keys).map fun built => { built with isChanged := false }
  else some schedule

end Schedule

/-- What is done with a schedule.  `run` updates it first, and what it does then does not
change it. -/
inductive ScheduleOp where
  | addSystems (set : SystemSet) (config : SystemConfig)
  | addSystem (set : SystemSet) (system : IntoSystem)
  | configSet (config : SystemSetConfig)
  | removeSystemSet (fuel : ℕ) (order : HashOrder) (set : SystemSet)
  | update (fuel : ℕ) (order : HashOrder) (start : SystemId → Option ValidTable)
  | run (fuel : ℕ) (order : HashOrder) (start : SystemId → Option ValidTable)

namespace Schedule

/-- One operation. -/
def step : ScheduleOp → Schedule → Option Schedule
  | .addSystems set config, schedule => some (schedule.addSystems set config)
  | .addSystem set system, schedule => some (schedule.addSystem set system)
  | .configSet config, schedule => some (schedule.configSet config)
  | .removeSystemSet fuel order set, schedule => removeSetRecursive order fuel schedule set
  | .update fuel order start, schedule => schedule.update fuel order start
  | .run fuel order start, schedule => schedule.update fuel order start

end Schedule

end Voker.Ecs
