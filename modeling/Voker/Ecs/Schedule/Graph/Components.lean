import Mathlib.Algebra.Order.BigOperators.Group.List
import Mathlib.Algebra.Order.Ring.Nat
import Voker.Ecs.Schedule.Graph.Search

/-!
# Components come out in reverse order

A node that is left with its own number as its root has no examined edge that leads below
it, nor has a finished node of its frame: **the frame is a strongly connected component, and
all edges from it lead to it or to components found before**
(`Search.connected`, `Search.leave_component`).

Each visit lessens what is left to do, so that the search ends; then every node is in
exactly one component (`DiGraph.sccs_exact`).
-/

namespace Voker.Ecs

open Foundation List Function

namespace TarjanScc

variable {N : Type} [DecidableEq N] {succ : N → List N} {nodes : List N} {s : TarjanScc N}
  {number : N → ℕ} {rest : List (Frame N)} {done block : List N} {child : Option N} {v w : N}
  {isLocalRoot : Bool}

/-! ## Leaving a node -/

/-- The loop takes the nodes whose root is not smaller, up to the first one whose root is. -/
theorem close_append {si : Option ℕ} {v : N} {t b : List N} {root : N → Option ℕ}
    (hn : t.Nodup) (hla : ∀ w ∈ t, w ≠ v ∧ rootLt (root w) (root v) = false)
    (hs : ∀ w ∈ b, w ∉ t ∧ rootLt (root w) (root v) = true) :
    close si v (t ++ b) root =
      (t.length, fun x => if x ∈ t then si else root x) := by
  induction t generalizing root with
  | nil =>
    cases b with
    | nil => simp [close]
    | cons w b =>
      have hl := (hs w mem_cons_self).2
      simp [close, hl]
  | cons w t ih =>
    obtain ⟨ha, hnr⟩ := nodup_cons.mp hn
    obtain ⟨ne, hnl⟩ := hla w mem_cons_self
    have hrv : update root w si v = root v := update_of_ne ne.symm _ _
    have rest := @ih (update root w si) hnr (fun u mem => by
        have hot : u ≠ w := by
          rintro rfl
          exact ha mem
        rw [hrv, update_of_ne hot]
        exact hla u (mem_cons_of_mem _ mem))
      (fun u mem => by
        obtain ⟨ho, hl⟩ := hs u mem
        have hot : u ≠ w := by
          rintro rfl
          exact ho mem_cons_self
        rw [hrv, update_of_ne hot]
        exact ⟨fun hin => ho (mem_cons_of_mem _ hin), hl⟩)
    rw [cons_append, close, hnl, if_neg Bool.false_ne_true]
    rw [rest]
    refine Prod.ext rfl (funext fun x => ?_)
    by_cases hin : x ∈ t
    · simp [hin]
    · by_cases hsa : x = w
      · subst hsa
        simp [hin]
      · simp [hin, hsa]

omit [DecidableEq N] in
theorem mem_busy_cons {x : N} :
    x ∈ busy (⟨v, isLocalRoot, block⟩ :: rest) ↔ x ∈ block ++ [v] ∨ x ∈ busy rest := by
  simp only [busy, mem_cons, mem_append, mem_nil_iff, or_false]
  tauto

namespace Search

section

variable (state : Search succ nodes s number (⟨v, isLocalRoot, block⟩ :: rest) done none)

include state

omit [DecidableEq N] in
/-- The finished nodes of the frame on top have no smaller roots than its node. -/
theorem low_le {x : N} (mem : x ∈ block) : s.low v ≤ s.low x := by
  rcases (state.framed.1.lower x mem).2 with hd | ⟨w, -, hc, -⟩
  · exact hd
  · cases hc

omit [DecidableEq N] in
/-- The frame on top has larger numbers than the others. -/
theorem number_le {x : N} (mem : x ∈ block ++ [v]) : number v ≤ number x := by
  rcases mem_append.mp mem with hin | hs
  · exact (state.framed.1.above x hin).1.le
  · rw [mem_singleton.mp hs]

end

/-- A node that is no local root is left: it is finished, and its frame joins the one below. -/
theorem leave_finished (state : Search succ nodes s number (⟨v, false, block⟩ :: rest) done none)
    (hsc : s.neighbors v = []) : ∃ fr more, rest = fr :: more ∧
      Search succ nodes { s with stack := s.stack ++ [v] } number
        (⟨fr.node, fr.isLocalRoot, fr.finished ++ block ++ [v]⟩ :: more) done
        (some v) := by
  obtain ⟨top, hf⟩ := state.framed
  have hfl : s.low v < number v := top.flag
  cases rest with
  | nil =>
    -- the node whose number is the root would have to be below
    obtain ⟨y, mem, hs, -⟩ := state.sink v mem_cons_self
    rcases mem_busy_cons.mp mem with he | hc
    · have le := state.number_le he
      omega
    · cases hc
  | cons fr more =>
    obtain ⟨u, ir, f⟩ := fr
    obtain ⟨hv, hfm⟩ := hf
    have hp : (busy (⟨u, ir, f ++ block ++ [v]⟩ :: more)).Perm
        (busy (⟨v, false, block⟩ :: ⟨u, ir, f⟩ :: more)) := by
      refine perm_iff_count.mpr fun x => ?_
      simp only [busy, count_cons, count_append, count_nil]
      omega
    have ha : v ∉ f := fun mem =>
      (nodup_cons.mp (nodup_append.mp state.nodup).1).1
        (mem_append_right _ (mem_cons_of_mem _ (mem_append_left _ mem)))
    have hsi : s.dfsIndex = number v + block.length + 1 := top.size
    have hsb : number v = number u + f.length + 1 := hv.size
    have hpa : ∀ {x}, x ∈ f ++ block ++ [v] → x ∈ f ∨ x ∈ block ∨ x = v := by
      intro x mem
      simpa [or_assoc] using mem
    refine ⟨_, more, rfl, hp.append_right done |>.nodup_iff.mpr state.nodup, ?_, ?_, state.high,
      state.room, ?_, ⟨⟨?_, ?_, hv.waits, hv.link, hv.flag, ?_, ?_, ?_⟩, hfm⟩, ?_,
      state.untouched, ?_, state.closed⟩
    · exact fun x mem => state.inside x ((hp.append_right done).mem_iff.mp mem)
    · exact fun x => (state.seen x).trans (hp.append_right done).mem_iff.symm
    · change s.stack ++ [v] = _
      rw [state.stack]
      simp [stackOf]
    · change s.dfsIndex = number u + (f ++ block ++ [v]).length + 1
      rw [length_append, length_append, length_singleton]
      omega
    · intro x mem
      change number u < number x ∧ number x < s.dfsIndex
      rcases hpa mem with old | hin | rfl
      · have hb : number u < number x ∧ number x < number v := hv.above x old
        omega
      · have hb : number v < number x ∧ number x < s.dfsIndex := top.above x hin
        omega
      · omega
    · intro x mem
      rcases hpa mem with old | hin | rfl
      · exact hv.quiet x old
      · exact top.quiet x hin
      · exact ⟨hsc, top.waits⟩
    · intro x mem
      have he : v ∈ f ++ block ++ [v] := mem_append_right _ mem_cons_self
      rcases hpa mem with old | hin | rfl
      · obtain ⟨hl, hd | ⟨w, hc, hs, -⟩⟩ := hv.lower x old
        · exact ⟨hl, .inl hd⟩
        · rw [← Option.some.inj hs] at hc
          exact absurd hc ha
      · exact ⟨(top.lower x hin).1, .inr ⟨v, he, rfl, state.low_le hin⟩⟩
      · exact ⟨hfl, .inr ⟨x, he, rfl, le_rfl⟩⟩
    · intro x mem
      have hed := hv.link v rfl
      rcases hpa mem with old | hin | rfl
      · exact hv.reach x old
      · exact Relation.ReflTransGen.head hed (top.reach x hin)
      · exact Relation.ReflTransGen.single hed
    · intro x mem
      obtain ⟨y, hin, hs⟩ := state.sink x (hp.mem_iff.mp mem)
      exact ⟨y, hp.mem_iff.mpr hin, hs⟩
    · exact fun x mem => state.edges x (hp.mem_iff.mp mem)

section Component

variable (state : Search succ nodes s number (⟨v, true, block⟩ :: rest) done none)

include state

omit [DecidableEq N] in
/-- **The frame of a local root is strongly connected.** -/
theorem connected {x : N} (mem : x ∈ block ++ [v]) : Reaches succ v x ∧ Reaches succ x v := by
  have hf : s.low v = number v := state.framed.1.flag
  refine ⟨?_, ?_⟩
  · rcases mem_append.mp mem with hin | hs
    · exact state.framed.1.reach x hin
    · rw [mem_singleton.mp hs]
      exact Relation.ReflTransGen.refl
  · -- the node whose number is the root is nearer to the local root
    induction rank : number x using Nat.strong_induction_on generalizing x with
    | h n ih =>
      rcases mem_append.mp mem with hin | hs
      · obtain ⟨y, hby, hny, path⟩ := state.sink x (mem_busy_cons.mpr (.inl mem))
        have hle : s.low x < number x := (state.framed.1.lower x hin).1
        have le := state.low_le hin
        rcases mem_busy_cons.mp hby with he | hl
        · exact path.trans (ih (number y) (by omega) he rfl)
        · have hc := state.below hl
          omega
      · rw [mem_singleton.mp hs]
        exact Relation.ReflTransGen.refl

/-- **A local root is left: it closes a component.** -/
theorem leave_component (fits : nodes.length < usizeMax) (hsc : s.neighbors v = []) :
    ∃ st hf, s.leave v true = (some st, hf) ∧ hf.stack.drop st = block ++ [v] ∧
      hf.cleanup.visitationStack = s.visitationStack ∧
      hf.cleanup.uncheckedNodes = s.uncheckedNodes ∧ hf.cleanup.neighbors = s.neighbors ∧
      (∀ x, hf.cleanup.root x = none → s.root x = none) ∧
      Search succ nodes hf.cleanup number rest (done ++ (block ++ [v])) (some v) := by
  obtain ⟨top, hfr⟩ := state.framed
  have hfl : s.low v = number v := top.flag
  have hsi : s.dfsIndex = number v + block.length + 1 := top.size
  have hr := state.dfsIndex_le fits
  have stack : s.stack = stackOf rest ++ block := state.stack
  have hv : s.root v ≠ none := state.visited mem_cons_self
  have hmb : ∀ {x}, x ∈ block → x ∈ busy (⟨v, true, block⟩ :: rest) := fun hin =>
    mem_busy_cons.mpr (.inl (mem_append_left _ hin))
  have hmr : ∀ {x}, x ∈ busy rest → x ∈ busy (⟨v, true, block⟩ :: rest) := fun hin =>
    mem_busy_cons.mpr (.inr hin)
  obtain ⟨ha, hno⟩ := nodup_cons.mp (nodup_append.mp state.nodup).1
  have hra : ∀ {x}, x ∈ busy rest → x ∉ block ++ [v] := fun hin mem =>
    absurd (state.below hin) (Nat.not_lt.mpr (state.number_le mem))
  -- what the loop takes
  have closed : close (some s.sccIndex) v s.stack.reverse s.root =
      (block.length, fun x => if x ∈ block then some s.sccIndex else s.root x) := by
    rw [stack, reverse_append, close_append (nodup_reverse.mpr hno.of_append_left),
      length_reverse]
    · simp only [mem_reverse]
    · intro w mem
      have hin := mem_reverse.mp mem
      refine ⟨?_, ?_⟩
      · rintro rfl
        exact ha (mem_append_left _ hin)
      · rw [rootLt_eq hv (state.visited (hmb hin))]
        exact decide_eq_false (Nat.not_lt.mpr (state.low_le hin))
    · intro w mem
      have hin := mem_busy_of_mem_stackOf (mem_reverse.mp mem)
      refine ⟨fun hot => hra hin (mem_append_left _ (mem_reverse.mp hot)), ?_⟩
      have hb : s.low w ≤ number w ∧ number w < number v := hfr.bounds w hin
      rw [rootLt_eq hv (state.visited (hmr hin))]
      exact decide_eq_true (by omega)
  let hf : TarjanScc N := { s with
      root := update (fun x => if x ∈ block then some s.sccIndex else s.root x) v (some s.sccIndex)
      stack := s.stack ++ [v]
      sccStart := some (stackOf rest).length
      sccLen := some (block.length + 1) }
  have hle : s.leave v true = (some (stackOf rest).length, hf) := by
    have hl : s.stack.length - block.length = (stackOf rest).length := by
      rw [stack, length_append, Nat.add_sub_cancel]
    unfold leave
    rw [if_pos rfl]
    dsimp only
    rw [closed]
    rw [hl]
  have hrr : hf.cleanup.root = update
      (fun x => if x ∈ block then some s.sccIndex else s.root x) v (some s.sccIndex) := rfl
  have hrs : ∀ {x}, x ∈ block ++ [v] → hf.cleanup.root x = some s.sccIndex := by
    intro x mem
    rw [hrr, update_apply]
    split
    · rfl
    · next ne =>
      exact if_pos ((mem_append.mp mem).resolve_right fun hsa => ne (mem_singleton.mp hsa))
  have hro : ∀ {x}, x ∉ block ++ [v] → hf.cleanup.root x = s.root x := by
    intro x ho
    rw [hrr, update_of_ne]
    · exact if_neg fun hin => ho (mem_append_left _ hin)
    · rintro rfl
      exact ho (mem_append_right _ mem_cons_self)
  have hlo : ∀ {x}, x ∉ block ++ [v] → hf.cleanup.low x = s.low x := fun ho =>
    congrArg (Option.getD · 0) (hro ho)
  have hss : ∀ {x}, s.root x ≠ none → hf.cleanup.root x ≠ none := by
    intro x hs
    by_cases hin : x ∈ block ++ [v]
    · rw [hrs hin]
      nofun
    · rwa [hro hin]
  have hp : (busy rest ++ (done ++ (block ++ [v]))).Perm
      (busy (⟨v, true, block⟩ :: rest) ++ done) := by
    refine perm_iff_count.mpr fun x => ?_
    simp only [busy, count_cons, count_append, count_nil]
    omega
  have hu : ∀ x, hf.cleanup.root x = none → s.root x = none := fun x none_ =>
    not_not.mp fun hs => hss hs none_
  refine ⟨_, hf, hle, ?_, rfl, rfl, rfl, hu, hp.nodup_iff.mpr state.nodup,
    fun x mem => state.inside x (hp.mem_iff.mp mem), fun x => ?_, ?_, ?_, ?_, ?_, ?_, ?_, ?_, ?_⟩
  · change (s.stack ++ [v]).drop _ = _
    rw [stack, append_assoc, drop_left]
  · rw [hp.mem_iff, ← state.seen x]
    refine ⟨fun hs => ?_, hss⟩
    by_cases hin : x ∈ block ++ [v]
    · exact state.visited (mem_busy_cons.mpr (.inl hin))
    · rwa [hro hin] at hs
  · intro x mem
    change s.sccIndex - 1 < _
    by_cases hin : x ∈ block ++ [v]
    · rw [low_eq (hrs hin)]
      omega
    · rw [hlo hin]
      have old := state.high x ((mem_append.mp mem).resolve_right hin)
      omega
  · change usizeMax ≤ s.sccIndex - 1 + (done ++ (block ++ [v])).length
    have pre := state.room
    rw [length_append, length_append, length_singleton]
    omega
  · change (s.stack ++ [v]).take _ = _
    rw [stack, append_assoc, take_left]
  · change Framed succ _ (s.dfsIndex - (block.length + 1)) _ _
    rw [hsi, Nat.add_assoc, Nat.add_sub_cancel]
    refine hfr.congr fun x hin => ?_
    unfold mark
    rw [hlo (hra hin)]
    rfl
  · intro x hin
    obtain ⟨y, mem, hsa, path⟩ := state.sink x (hmr hin)
    rw [hlo (hra hin)]
    refine ⟨y, (mem_busy_cons.mp mem).resolve_left fun her => ?_, hsa, path⟩
    have hb : s.low x ≤ number x ∧ number x < number v := hfr.bounds x hin
    have le := state.number_le her
    omega
  · exact fun x none_ => state.untouched x (hu x none_)
  · intro x hin
    obtain ⟨past, split, hk⟩ := state.edges x (hmr hin)
    refine ⟨past, split, fun y mem => (hk y mem).imp_right ?_⟩
    rintro ⟨hs, t⟩
    rw [hlo (hra hin)]
    exact ⟨hss hs, t.imp_left (mem_append_left _)⟩
  · -- an examined edge does not lead below the local root
    intro x mem y edge
    rcases mem_append.mp mem with old | new
    · exact mem_append_left _ (state.closed x old y edge)
    · have hq : (s.neighbors x = [] ∧ s.pending x = none) ∧ number v ≤ s.low x := by
        rcases mem_append.mp new with hin | hsa
        · exact ⟨top.quiet x hin, hfl ▸ state.low_le hin⟩
        · rw [mem_singleton.mp hsa]
          exact ⟨⟨hsc, top.waits⟩, hfl.ge⟩
      obtain ⟨⟨hn, hse⟩, hla⟩ := hq
      obtain ⟨past, split, hk⟩ := state.edges x (mem_busy_cons.mpr (.inl new))
      rw [split, hn, append_nil] at edge
      rcases hk y edge with hc | ⟨hs, hf | le⟩
      · cases hse.symm.trans hc
      · exact mem_append_left _ hf
      · rcases mem_append.mp ((state.seen y).mp hs) with hin | hf
        · refine mem_append_right _ ((mem_busy_cons.mp hin).resolve_right fun hlw => ?_)
          have hls := state.below hlw
          omega
        · exact mem_append_left _ hf

end Component

/-! ## A visit -/

/-- What is done with the node the current one waited for. -/
theorem resume (fits : nodes.length < usizeMax)
    (state : Search succ nodes s number (⟨v, isLocalRoot, block⟩ :: rest) done child)
    (hv : ∀ w, child = some w → s.root w ≠ none) :
    ∃ ir next, s.resume v isLocalRoot = (ir, next) ∧ Touches v s next ∧
      next.neighbors v = s.neighbors v ∧
      Search succ nodes next number (⟨v, ir, block⟩ :: rest) done none := by
  have hw : s.pending v = child := state.framed.1.waits
  unfold TarjanScc.resume
  rw [hw]
  cases child with
  | none => exact ⟨isLocalRoot, s, rfl, Touches.refl v s, rfl, state⟩
  | some w =>
    refine ⟨_, _, ?_, (touches_setPending s v none).trans (touches_lessen _ v w), rfl,
      state.settle fits (hv w rfl)⟩
    exact lessen_eq (s.setPending v none) v w isLocalRoot

/-- The loop over the neighbours ends, or stops at one that has not been visited. -/
theorem scan (fits : nodes.length < usizeMax) (todo : List N)
    (state : Search succ nodes s number (⟨v, isLocalRoot, block⟩ :: rest) done none)
    (hn : s.neighbors v = todo) : (∃ w ir paused, scan v todo isLocalRoot s =
        (none, { paused with
          visitationStack := (w, true) :: (v, ir) :: s.visitationStack }) ∧
        Touches v s paused ∧ (paused.neighbors v).length < todo.length ∧ w ∈ succ v ∧
        paused.root w = none ∧
        Search succ nodes paused number (⟨v, ir, block⟩ :: rest) done (some w)) ∨
      ∃ ir sc, scan v todo isLocalRoot s = (some ir, sc) ∧
        Touches v s sc ∧ sc.neighbors v = [] ∧
        Search succ nodes sc number (⟨v, ir, block⟩ :: rest) done none := by
  induction todo generalizing s isLocalRoot with
  | nil => exact .inr ⟨isLocalRoot, s, rfl, Touches.refl v s, hn, state⟩
  | cons w more ih =>
    have own : (s.setNeighbors v more).neighbors v = more := update_self ..
    by_cases hu : s.root w = none
    · have touches := (touches_setNeighbors s v more).trans
        (touches_setPending _ v (some w))
      have hst : scan v (w :: more) isLocalRoot s = (none,
          { (s.setNeighbors v more).setPending v (some w) with
            visitationStack := (w, true) :: (v, isLocalRoot) :: s.visitationStack }) :=
        if_pos hu
      refine .inl ⟨w, isLocalRoot, _, hst, touches, ?_,
        (state.examined hn le_rfl).1, hu, state.pause hn⟩
      exact (congrArg length own).trans_lt (Nat.lt_succ_self _)
    · have hg : scan v (w :: more) isLocalRoot s =
          scan v more (isLocalRoot && !rootLt (s.root w) (s.root v))
            ((s.setNeighbors v more).lessen v w) :=
        (if_neg hu).trans (scan_lessen (s.setNeighbors v more) v w isLocalRoot more)
      have touches := (touches_setNeighbors s v more).trans (touches_lessen _ v w)
      rw [hg, ← touches.visitationStack]
      refine (ih (state.pass fits hn hu) own).imp ?_ ?_
      · rintro ⟨u, ir, paused, res, hl, hs, hf⟩
        exact ⟨u, ir, paused, res, touches.trans hl, hs.trans (Nat.lt_succ_self _),
          hf⟩
      · rintro ⟨ir, sc, res, hl, hf⟩
        exact ⟨ir, sc, res, touches.trans hl, hf⟩

end Search

/-! ## Runs of the search -/

/-- The search between two visits: the visitation stack is the path, with a node to be
entered on top of it or not, and every node has been visited, is to be entered, or has not
been checked yet. -/
def Paused (succ : N → List N) (nodes : List N) (search : TarjanScc N) (done : List N) : Prop :=
  ∃ number frames child, Search succ nodes search number frames done child ∧
    (∀ x ∈ search.uncheckedNodes, x ∈ nodes) ∧
    (∀ x ∈ nodes, search.root x = none → x ∈ search.uncheckedNodes ∨ child = some x) ∧
    ((search.visitationStack = frames.map (fun frame => (frame.node, frame.isLocalRoot)) ∧
        ∀ w, child = some w → search.root w ≠ none) ∨
      ∃ w ∈ nodes, child = some w ∧ search.root w = none ∧ search.visitationStack =
        (w, true) :: frames.map (fun frame => (frame.node, frame.isLocalRoot)))

/-- How many neighbours are to be examined. -/
def remaining (nodes : List N) (search : TarjanScc N) : ℕ :=
  (nodes.map fun x => (search.neighbors x).length).sum

/-- What is left to do. -/
def effort (nodes : List N) (search : TarjanScc N) : ℕ :=
  2 * (remaining nodes search + search.uncheckedNodes.length) + search.visitationStack.length

section

variable {pre post : TarjanScc N} (touches : Touches v pre post)

include touches

theorem Touches.remaining_le (hf : (post.neighbors v).length ≤ (pre.neighbors v).length) :
    remaining nodes post ≤ remaining nodes pre := by
  refine sum_le_sum fun x _ => ?_
  by_cases hs : x = v
  · rw [hs]
    exact hf
  · rw [(touches.others x hs).2.2]

theorem Touches.remaining_lt (mem : v ∈ nodes)
    (hf : (post.neighbors v).length < (pre.neighbors v).length) :
    remaining nodes post < remaining nodes pre := by
  refine sum_lt_sum _ _ (fun x _ => ?_) ⟨v, mem, hf⟩
  by_cases hs : x = v
  · rw [hs]
    exact hf.le
  · rw [(touches.others x hs).2.2]

end

/-- Some nodes reach each other. -/
def Connected (succ : N → List N) (scc : List N) : Prop :=
  scc ≠ [] ∧ ∀ x ∈ scc, ∀ y ∈ scc, Reaches succ x y

section

variable (fits : nodes.length < usizeMax) (closed : ∀ x ∈ nodes, ∀ y ∈ succ x, y ∈ nodes)

section

variable {path : List (N × Bool)} (paused : Paused succ nodes s done)
  (top : s.visitationStack = (v, isLocalRoot) :: path)

include paused top

/-- The node on top of the visitation stack is entered, or the visit of it goes on. -/
theorem Paused.enter : ∃ number block f child,
      Search succ nodes ({ s with visitationStack := path }.enter v) number
        (⟨v, isLocalRoot, block⟩ :: f) done child ∧
      (∀ w, child = some w → ({ s with visitationStack := path }.enter v).root w ≠ none) ∧
      path = f.map (fun fr => (fr.node, fr.isLocalRoot)) ∧
      ∀ x ∈ nodes, ({ s with visitationStack := path }.enter v).root x = none →
        x ∈ s.uncheckedNodes := by
  obtain ⟨number, f, child, state, -, hc, ⟨st, hse⟩ | ⟨w, node, rfl, new, st⟩⟩ :=
    paused
  · cases f with
    | nil => cases st.symm.trans top
    | cons fr rest =>
      obtain ⟨node, flag, block⟩ := fr
      obtain ⟨hs, rfl⟩ := cons.inj (st.symm.trans top)
      obtain ⟨rfl, rfl⟩ := Prod.mk.inj hs
      have he : ∀ st, { s with visitationStack := st }.enter node =
          { s with visitationStack := st } :=
        fun _ => if_neg (state.visited mem_cons_self)
      rw [he]
      refine ⟨number, block, rest, child, { state with }, hse, rfl, fun x mem hu => ?_⟩
      exact (hc x mem hu).resolve_right fun hs => hse x hs hu
  · obtain ⟨hs, rfl⟩ := cons.inj (st.symm.trans top)
    obtain ⟨rfl, rfl⟩ := Prod.mk.inj hs
    let p : TarjanScc N :=
      { s with visitationStack := f.map fun fr => (fr.node, fr.isLocalRoot) }
    have pre : Search succ nodes p number f done (some w) := { state with }
    refine ⟨_, [], f, none, pre.enter new node, nofun, rfl, fun x mem hu => ?_⟩
    have hr : (p.enter w).root = update s.root w (some s.dfsIndex) := by
      rw [enter, if_pos new]
    rw [hr, update_apply] at hu
    split at hu
    · cases hu
    · next ne =>
      exact (hc x mem hu).resolve_right fun hs =>
        ne (Option.some.inj hs).symm

include fits closed

/-- **One visit** of the node on top of the visitation stack. -/
theorem Paused.visitOnce :
    (∃ next, { s with visitationStack := path }.visitOnce v isLocalRoot = (none, next) ∧
        Paused succ nodes next done ∧ effort nodes next < effort nodes s) ∨
      ∃ st hf,
        { s with visitationStack := path }.visitOnce v isLocalRoot = (some st, hf) ∧
        Connected succ (hf.stack.drop st) ∧
        Paused succ nodes hf.cleanup (done ++ hf.stack.drop st) ∧
        effort nodes hf.cleanup < effort nodes s := by
  obtain ⟨number, block, f, child, state, seen, hst, hc⟩ := paused.enter top
  obtain ⟨-, -, -, -, hun, -⟩ := paused
  have e : ({ s with visitationStack := path }.enter v).uncheckedNodes =
        s.uncheckedNodes ∧
      ({ s with visitationStack := path }.enter v).visitationStack = path ∧
      ({ s with visitationStack := path }.enter v).neighbors = s.neighbors := by
    unfold TarjanScc.enter
    split <;> exact ⟨rfl, rfl, rfl⟩
  obtain ⟨hsn, hss, hsa⟩ := e
  have pre : effort nodes s =
      2 * (remaining nodes ({ s with visitationStack := path }.enter v) +
        s.uncheckedNodes.length) + (path.length + 1) := by
    rw [effort, top, remaining, remaining, hsa, length_cons]
  unfold TarjanScc.visitOnce
  generalize { s with visitationStack := path }.enter v = e at *
  obtain ⟨isR, r, res, ht, same, state⟩ := state.resume fits seen
  rw [res]
  dsimp only
  have mem : v ∈ nodes := state.inside v mem_cons_self
  -- what is left of the pool is the same, whatever the visit ends with
  have next : ∀ {post : TarjanScc N} {f done child},
      Search succ nodes post number f done child →
      post.uncheckedNodes = s.uncheckedNodes →
      (∀ x, post.root x = none → e.root x = none) → _ → Paused succ nodes post done :=
    fun {post f done child} state pool hu hst => ⟨number, f, child, state,
      by rw [pool]; exact hun,
      fun x hno none_ => .inl (by rw [pool]; exact hc x hno (hu x none_)), hst⟩
  rcases state.scan fits _ rfl with
    ⟨w, ir, wa, sc, hto, hfe, he, new, state⟩ |
    ⟨ir, sc, ends, hto, hn, state⟩
  · have touches := ht.trans hto
    have pool := touches.uncheckedNodes.trans hsn
    have hl := touches.remaining_lt mem (same ▸ hfe)
    have hu := touches.unseen (state.visited mem_cons_self)
    rw [sc]
    refine .inl ⟨_, rfl, next { state with } pool hu (.inr ⟨w, closed v mem w he, rfl,
      new, ?_⟩), ?_⟩
    · rw [ht.visitationStack, hss, hst]
      rfl
    · change 2 * (remaining nodes wa + wa.uncheckedNodes.length) +
        (r.visitationStack.length + 2) < _
      rw [pre, pool, ht.visitationStack, hss]
      omega
  · have touches := ht.trans hto
    have pool := touches.uncheckedNodes.trans hsn
    have hpa := touches.visitationStack.trans hss
    have hu := touches.unseen (state.visited mem_cons_self)
    have le : remaining nodes sc ≤ remaining nodes e :=
      touches.remaining_le (by rw [hn]; exact Nat.zero_le _)
    have hl : 2 * (remaining nodes sc + sc.uncheckedNodes.length) +
        sc.visitationStack.length < effort nodes s := by
      rw [pre, pool, hpa]
      omega
    rw [ends]
    cases ir with
    | false =>
      have hv : sc.root v ≠ none := state.visited mem_cons_self
      obtain ⟨fr, more, rfl, hs⟩ := state.leave_finished hn
      refine .inl ⟨_, rfl, next hs pool hu (.inl ⟨hpa.trans hst, ?_⟩), hl⟩
      intro u hw
      rw [← Option.some.inj hw]
      exact hv
    | true =>
      obtain ⟨st, hf, left, hd, hsm, hsp, hse, hsi, hs⟩ :=
        state.leave_component fits hn
      refine .inr ⟨st, hf, left, ?_, ?_, ?_⟩
      · rw [hd]
        refine ⟨by simp, fun x one y two => ?_⟩
        exact (state.connected one).2.trans (state.connected two).1
      · rw [hd]
        refine next hs (hsp.trans pool) (fun x none_ => hu x (hsi x none_))
          (.inl ⟨(hsm.trans hpa).trans hst, fun u hw => ?_⟩)
        rw [← Option.some.inj hw]
        refine (hs.seen v).mpr (mem_append_right _ (mem_append_right _ ?_))
        exact mem_append_right _ mem_cons_self
      · rw [effort, remaining, hse, hsp, hsm]
        exact hl

end

omit [DecidableEq N] in
/-- The next node is taken from the pool when no node is being visited. -/
theorem Paused.idle (paused : Paused succ nodes s done) (hi : s.visitationStack = []) :
    (∀ x ∈ done, x ∈ nodes) ∧ done.Nodup ∧ (∀ x ∈ nodes, s.root x = none → x ∈ s.uncheckedNodes) ∧
    ∃ number, ∀ child, Search succ nodes s number [] done child := by
  obtain ⟨number, f, child, state, -, hc, ⟨hs, hse⟩ | ⟨w, -, -, -, hs⟩⟩ := paused
  · obtain rfl := map_eq_nil_iff.mp (hs.symm.trans hi)
    refine ⟨state.inside, state.nodup, fun x mem hu => ?_, number, fun _ => { state with }⟩
    exact (hc x mem hu).resolve_right fun hsa => hse x hsa hu
  · cases hs.symm.trans hi

/-- What the loop of `next_scc` ends with. -/
def Advanced (succ : N → List N) (nodes done : List N) (fuel bound : ℕ) :
    Option (Option (List N) × TarjanScc N) → Prop
  | none => fuel ≤ bound
  | some (none, _) => done.Nodup ∧ ∀ x, x ∈ done ↔ x ∈ nodes
  | some (some scc, found) => Connected succ scc ∧
      Paused succ nodes found.cleanup (done ++ scc) ∧ effort nodes found.cleanup < bound

omit [DecidableEq N] in
theorem Advanced.mono {fuel less b : ℕ} {res : Option (Option (List N) × TarjanScc N)}
    (ha : Advanced succ nodes done fuel less res) (hs : less < b) :
    Advanced succ nodes done (fuel + 1) b res :=
  match res, ha with
  | none, few => Nat.succ_le_of_lt (Nat.lt_of_le_of_lt few hs)
  | some (none, _), all => all
  | some (some _, _), ⟨hc, paused, hf⟩ => ⟨hc, paused, hf.trans hs⟩

include fits closed

/-- **The loop of `next_scc`** finds a component, or has seen all nodes, if it has fuel. -/
theorem Paused.advance (fuel : ℕ) (paused : Paused succ nodes s done) :
    Advanced succ nodes done fuel (effort nodes s) (advance fuel s) := by
  induction fuel generalizing s with
  | zero => exact Nat.zero_le _
  | succ fuel ih =>
    unfold advance
    split
    · next v isLocalRoot path top =>
      rcases paused.visitOnce fits closed top with
        ⟨next, hv, paused, hl⟩ | ⟨st, hf, hv, hco, paused, hl⟩
      · rw [hv]
        exact (ih paused).mono hl
      · rw [hv]
        exact ⟨hco, paused, hl⟩
    · next hi =>
      obtain ⟨hin, hno, hc, number, state⟩ := paused.idle hi
      obtain ⟨-, -, -, -, hun, -⟩ := paused
      split
      · next hch =>
        refine ⟨hno, fun x => ⟨hin x, fun mem => ?_⟩⟩
        refine ((state none).seen x).mp fun hu => ?_
        have hcn := hc x mem hu
        rw [hch] at hcn
        cases hcn
      · next node rest hp =>
        have hs : ∀ {post : TarjanScc N}, post.neighbors = s.neighbors →
            post.uncheckedNodes = rest → post.visitationStack.length ≤ 1 →
            effort nodes post < effort nodes s := by
          intro post hn unchecked_ hst
          rw [effort, effort, remaining, remaining, hn, unchecked_, hp, length_cons]
          omega
        have hla : ∀ x ∈ rest, x ∈ nodes := fun x mem =>
          hun x (by rw [hp]; exact mem_cons_of_mem _ mem)
        rw [hp] at hc
        dsimp only
        split
        · next new =>
          have paused : Paused succ nodes
              { s with uncheckedNodes := rest, visitationStack := [(node, true)] }
              done := by
            refine ⟨number, [], some node, { state (some node) with }, hla, ?_,
              .inr ⟨node, ?_, rfl, new, rfl⟩⟩
            · intro x mem hu
              exact (mem_cons.mp (hc x mem hu)).symm.imp_right
                fun hsa => congrArg some hsa.symm
            · exact hun node (by rw [hp]; exact mem_cons_self)
          exact (ih paused).mono (hs rfl rfl le_rfl)
        · next hv =>
          have paused : Paused succ nodes { s with uncheckedNodes := rest } done := by
            refine ⟨number, [], none, { state none with }, hla, ?_, .inl ⟨hi, nofun⟩⟩
            intro x mem hu
            refine .inl ((mem_cons.mp (hc x mem hu)).resolve_left ?_)
            rintro rfl
            exact hv hu
          exact (ih paused).mono (hs rfl rfl ((congrArg length hi).le.trans (Nat.zero_le 1)))

/-- Edges from a component lead to it or to what came before. -/
def Ordered (succ : N → List N) : List N → List (List N) → Prop
  | _, [] => True
  | done, scc :: rest =>
    (∀ x ∈ scc, ∀ y ∈ succ x, y ∈ done ++ scc) ∧ Ordered succ (done ++ scc) rest

/-- What the rest of the search yields. -/
theorem Paused.collect (fuel : ℕ) (paused : Paused succ nodes s.cleanup done) :
    match collect fuel s with
    | none => fuel ≤ effort nodes s.cleanup + 1
    | some sccs => (done ++ sccs.flatten).Nodup ∧ (∀ x, x ∈ done ++ sccs.flatten ↔ x ∈ nodes) ∧
        Ordered succ done sccs ∧ ∀ scc ∈ sccs, Connected succ scc := by
  induction fuel generalizing s done with
  | zero => exact Nat.zero_le _
  | succ fuel ih =>
    have ha := paused.advance fits closed fuel
    unfold TarjanScc.collect nextScc
    cases res : TarjanScc.advance fuel s.cleanup with
    | none =>
      rw [res] at ha
      exact Nat.succ_le_succ ha
    | some out =>
      obtain ⟨item, hf⟩ := out
      rw [res] at ha
      cases item with
      | none =>
        obtain ⟨hn, all⟩ := ha
        refine ⟨?_, ?_, trivial, nofun⟩
        · rw [flatten_nil, append_nil]
          exact hn
        · rw [flatten_nil, append_nil]
          exact all
      | some scc =>
        obtain ⟨hco, hp, hle⟩ := ha
        have rest := ih hp
        rw [Option.bind_some]
        dsimp only
        cases hc : collect fuel hf with
        | none =>
          rw [hc] at rest
          have few : fuel ≤ effort nodes hf.cleanup + 1 := rest
          change fuel + 1 ≤ _
          omega
        | some sccs =>
          rw [hc] at rest
          obtain ⟨hn, hm, ho, hcr⟩ := rest
          rw [Option.map_some]
          dsimp only
          rw [flatten_cons, ← append_assoc]
          refine ⟨hn, hm, ⟨fun x mem y he => ?_, ho⟩, fun o hin => ?_⟩
          · obtain ⟨number, f, child, state, -⟩ := hp
            exact state.closed x (mem_append_right _ mem) y he
          · rcases mem_cons.mp hin with rfl | hl
            · exact hco
            · exact hcr o hl

end

omit [DecidableEq N] in
/-- Components that come out in this order are maximal, and no edge leads to a later one. -/
theorem Ordered.exact {sccs : List (List N)} (ho : Ordered succ done sccs)
    (closed : ClosedUnder succ (· ∈ done)) (hn : (done ++ sccs.flatten).Nodup) :
    (∀ scc ∈ sccs, ∀ x ∈ scc, ∀ y, Reaches succ x y → Reaches succ y x → y ∈ scc) ∧
      sccs.Pairwise fun e l => ∀ x ∈ e, ∀ y ∈ l, y ∉ succ x := by
  induction sccs generalizing done with
  | nil => exact ⟨nofun, .nil⟩
  | cons one rest ih =>
    obtain ⟨hed, hor⟩ := ho
    rw [flatten_cons, ← append_assoc] at hn
    have hcf : ClosedUnder succ (· ∈ done ++ one) := by
      intro x mem y he
      rcases mem_append.mp mem with old | new
      · exact mem_append_left _ (closed x old y he)
      · exact hed x new y he
    obtain ⟨hm, hb⟩ := ih hor hcf hn
    obtain ⟨hnf, -, ha⟩ := nodup_append.mp hn
    refine ⟨fun scc mem x hin y ht hba => ?_, pairwise_cons.mpr ⟨?_, hb⟩⟩
    · rcases mem_cons.mp mem with rfl | l
      · have hr := hcf.reaches (mem_append_right _ hin) ht
        refine (mem_append.mp hr).resolve_left fun old => ?_
        exact (nodup_append.mp hnf).2.2 x (closed.reaches old hba) x hin rfl
      · exact hm scc l x hin y ht hba
    · intro scc l x hin y mem he
      exact ha y (hed x hin y he) y (mem_flatten_of_mem l mem) rfl

end TarjanScc

open TarjanScc

section

variable {N : Type} [LinearOrder N] {graph : DiGraph N} (consistent : graph.Consistent)

include consistent

/-- **Every node is in exactly one component, and components come out in reverse order of
the edges**, if there was enough fuel. -/
theorem DiGraph.sccs_cases (fits : graph.nodes.length < usizeMax) (fuel : ℕ) :
    match DiGraph.sccs fuel graph with
    | none => fuel ≤ 2 * ((graph.nodes.map fun x => (graph.neighbors x).length).sum +
        graph.nodes.length) + 1
    | some sccs => sccs.flatten.Perm graph.nodes ∧ Ordered graph.neighbors [] sccs ∧
        ∀ scc ∈ sccs, Connected graph.neighbors scc := by
  have closed : ∀ x ∈ graph.nodes, ∀ y ∈ graph.neighbors x, y ∈ graph.nodes :=
    fun x _ y he => (consistent.endpoints (consistent.mem_neighbors.mp he)).2
  obtain ⟨st, hcr, paused, hw⟩ : ∃ st,
      new graph.nodes graph.neighbors = some st ∧
      Paused graph.neighbors graph.nodes st.cleanup [] ∧ effort graph.nodes st.cleanup =
        2 * ((graph.nodes.map fun x => (graph.neighbors x).length).sum + graph.nodes.length) := by
    refine ⟨_, if_pos fits, ⟨fun _ => 0, [], none, ?_, fun _ mem => mem,
      fun _ mem _ => .inl mem, .inl ⟨rfl, nofun⟩⟩, rfl⟩
    exact ⟨.nil, nofun, fun _ => iff_of_false (fun hs => hs rfl) nofun, nofun, le_rfl, rfl, rfl,
      nofun, fun _ _ => ⟨rfl, rfl⟩, nofun, nofun⟩
  have hc := paused.collect fits closed fuel
  unfold DiGraph.sccs
  rw [hcr, Option.bind_some]
  cases res : collect fuel st with
  | none =>
    rw [res, hw] at hc
    exact hc
  | some sccs =>
    rw [res] at hc
    obtain ⟨hn, hm, ho, hco⟩ := hc
    exact ⟨(perm_ext_iff_of_nodup hn consistent.nodes).mpr hm, ho, hco⟩

theorem DiGraph.sccs_spec {fuel : ℕ} {sccs : List (List N)}
    (hr : DiGraph.sccs fuel graph = some sccs) :
    sccs.flatten.Perm graph.nodes ∧ Ordered graph.neighbors [] sccs ∧
      ∀ scc ∈ sccs, Connected graph.neighbors scc := by
  have fits : graph.nodes.length < usizeMax := by
    by_contra hl
    rw [DiGraph.sccs, new, if_neg hl] at hr
    cases hr
  have cases_ := DiGraph.sccs_cases consistent fits fuel
  rw [hr] at cases_
  exact cases_

/-- **The search ends, with exactly the strongly connected components**, each node in one
of them and no edge to a later one. -/
theorem DiGraph.sccs_exact (fits : graph.nodes.length < usizeMax) {fuel : ℕ}
    (enough : 2 * ((graph.nodes.map fun x => (graph.neighbors x).length).sum +
      graph.nodes.length) + 1 < fuel) :
    ∃ sccs, DiGraph.sccs fuel graph = some sccs ∧ sccs.flatten.Perm graph.nodes ∧
      (∀ scc ∈ sccs, scc ≠ [] ∧ ∀ x ∈ scc, ∀ y, y ∈ scc ↔
        Reaches graph.neighbors x y ∧ Reaches graph.neighbors y x) ∧
      sccs.Pairwise fun earlier later => ∀ x ∈ earlier, ∀ y ∈ later, (x, y) ∉ graph.edges := by
  have cases_ := DiGraph.sccs_cases consistent fits fuel
  cases hr : DiGraph.sccs fuel graph with
  | none =>
    rw [hr] at cases_
    exact absurd enough (Nat.not_lt.mpr cases_)
  | some sccs =>
    rw [hr] at cases_
    obtain ⟨hp, hor, hc⟩ := cases_
    obtain ⟨hma, hb⟩ := hor.exact nofun (hp.nodup_iff.mpr consistent.nodes)
    refine ⟨sccs, rfl, hp, fun scc hm => ⟨(hc scc hm).1, fun x hi y => ?_⟩,
      hb.imp fun ha x hf y hs he => ?_⟩
    · exact ⟨fun ho => ⟨(hc scc hm).2 x hi y ho,
        (hc scc hm).2 y ho x hi⟩,
        fun ⟨ht, hba⟩ => hma scc hm x hi y ht hba⟩
    · exact ha x hf y hs (consistent.mem_neighbors.mpr he)

end

/-- A triangle. -/
theorem DiGraph.sccs_exact_triangle :
    ∃ sccs, DiGraph.sccs 20 ((((Graph.new : DiGraph ℕ).insertEdge 1 2).insertEdge 2 3).insertEdge
      3 1) = some sccs ∧ ∀ scc ∈ sccs, scc ≠ [] := by
  obtain ⟨sccs, hr, -, all, -⟩ := DiGraph.sccs_exact
    (((Graph.consistent_new.insertEdge 1 2).insertEdge 2 3).insertEdge 3 1) (by decide +kernel)
    (show _ < 20 by decide +kernel)
  exact ⟨sccs, hr, fun scc hm => (all scc hm).1⟩

end Voker.Ecs
