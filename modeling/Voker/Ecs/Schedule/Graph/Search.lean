import Voker.Ecs.Schedule.Graph.Scc
import Voker.Foundation.Closure

/-!
# What the search knows

The nodes the search is busy with are on the path to the current one, or finished.  A
`Frame` is a node of the path with the nodes that were finished between it and the next
one; their numbers lie between those of the two.  **The stack lists the finished nodes frame
by frame**, so that the frame of a local root is what is above it on the stack.

Roots are compared with numbers: **every edge that has been examined leads to a node that
is done or to one whose number is at least the root of the source**, the finished nodes of
a frame have no smaller roots than the node of the path, and a node reaches the one whose
number is its root (`Search`).  Each step of a visit keeps this.
-/

namespace Voker.Ecs

open Foundation List Option Function

namespace TarjanScc

variable {N : Type}

/-! ## Roots -/

/-- The number in the root of a node that has been visited. -/
def low (search : TarjanScc N) (x : N) : ℕ := (search.root x).getD 0

section Roots

variable {s : TarjanScc N} {v w : N}

theorem root_eq (hv : s.root v ≠ none) : s.root v = some (s.low v) := by
  obtain ⟨r, hr⟩ := ne_none_iff_exists'.mp hv
  rw [low, hr, getD_some]

theorem low_eq {r : ℕ} (hr : s.root v = some r) : s.low v = r := by
  rw [low, hr, getD_some]

theorem rootLt_eq (hvv : s.root v ≠ none) (hvw : s.root w ≠ none) :
    rootLt (s.root w) (s.root v) = decide (s.low w < s.low v) := by
  rw [root_eq hvv, root_eq hvw]
  rfl

end Roots

/-- The search has changed the data of one node only. -/
structure Touches (v : N) (before after : TarjanScc N) : Prop where
  others : ∀ x, x ≠ v → after.root x = before.root x ∧ after.pending x = before.pending x ∧
    after.neighbors x = before.neighbors x
  stack : after.stack = before.stack
  dfsIndex : after.dfsIndex = before.dfsIndex
  sccIndex : after.sccIndex = before.sccIndex
  visitationStack : after.visitationStack = before.visitationStack
  uncheckedNodes : after.uncheckedNodes = before.uncheckedNodes

theorem Touches.refl (v : N) (s : TarjanScc N) : Touches v s s :=
  ⟨fun _ _ => ⟨rfl, rfl, rfl⟩, rfl, rfl, rfl, rfl, rfl⟩

theorem Touches.trans {v : N} {one two t : TarjanScc N} (fst : Touches v one two)
    (snd : Touches v two t) : Touches v one t where
  others := fun x hd => by
    obtain ⟨hr, hp, neighbors⟩ := snd.others x hd
    rw [hr, hp, neighbors]
    exact fst.others x hd
  stack := snd.stack.trans fst.stack
  dfsIndex := snd.dfsIndex.trans fst.dfsIndex
  sccIndex := snd.sccIndex.trans fst.sccIndex
  visitationStack := snd.visitationStack.trans fst.visitationStack
  uncheckedNodes := snd.uncheckedNodes.trans fst.uncheckedNodes

theorem Touches.unseen {v : N} {pre post : TarjanScc N} (ht : Touches v pre post)
    (hv : post.root v ≠ none) (x : N) (hu : post.root x = none) : pre.root x = none := by
  refine (ht.others x ?_).1.symm.trans hu
  rintro rfl
  exact hv hu

/-! ## Frames -/

/-- A node of the path, whether it can still be a local root, and the nodes that were
finished between it and the next one. -/
structure Frame (N : Type) where
  node : N
  isLocalRoot : Bool
  finished : List N

/-- The nodes the search is busy with. -/
def busy : List (Frame N) → List N
  | [] => []
  | frame :: rest => frame.node :: (frame.finished ++ busy rest)

/-- The finished nodes, from the lowest frame up. -/
def stackOf : List (Frame N) → List N
  | [] => []
  | frame :: rest => stackOf rest ++ frame.finished

/-- What is known of a node. -/
structure Mark (N : Type) where
  number : ℕ
  low : ℕ
  pending : Option N
  neighbors : List N

/-- What the search knows of a node, which has got a number. -/
def mark (search : TarjanScc N) (number : N → ℕ) (x : N) : Mark N :=
  ⟨number x, search.low x, search.pending x, search.neighbors x⟩

variable {succ : N → List N} {nodes : List N}

/-- A frame with the numbers below `upper`, whose node waits for `child`. -/
structure Frame.Valid (succ : N → List N) (mark : N → Mark N) (frame : Frame N) (upper : ℕ)
    (child : Option N) : Prop where
  size : upper = (mark frame.node).number + frame.finished.length + 1
  above : ∀ x ∈ frame.finished,
    (mark frame.node).number < (mark x).number ∧ (mark x).number < upper
  waits : (mark frame.node).pending = child
  link : ∀ w, child = some w → w ∈ succ frame.node
  flag : if frame.isLocalRoot then (mark frame.node).low = (mark frame.node).number
    else (mark frame.node).low < (mark frame.node).number
  quiet : ∀ x ∈ frame.finished, (mark x).neighbors = [] ∧ (mark x).pending = none
  lower : ∀ x ∈ frame.finished, (mark x).low < (mark x).number ∧
    ((mark frame.node).low ≤ (mark x).low ∨
      ∃ w ∈ frame.finished, child = some w ∧ (mark w).low ≤ (mark x).low)
  reach : ∀ x ∈ frame.finished, Reaches succ frame.node x

/-- The frames of the path: each node waits for the next one. -/
def Framed (succ : N → List N) (mark : N → Mark N) : ℕ → Option N → List (Frame N) → Prop
  | upper, _, [] => upper = 1
  | upper, child, frame :: rest => frame.Valid succ mark upper child ∧
      Framed succ mark (mark frame.node).number (some frame.node) rest

section Framed

variable {mark post : N → Mark N} {frame : Frame N} {frames : List (Frame N)} {upper : ℕ}
  {child : Option N}

theorem Frame.Valid.congr (hv : frame.Valid succ mark upper child)
    (ha : ∀ x ∈ frame.node :: frame.finished, post x = mark x) :
    frame.Valid succ post upper child := by
  have own := ha frame.node mem_cons_self
  have he := fun x mem => ha x (mem_cons_of_mem _ mem)
  refine ⟨?_, ?_, ?_, hv.link, ?_, ?_, ?_, hv.reach⟩
  · rw [own]
    exact hv.size
  · intro x mem
    rw [own, he x mem]
    exact hv.above x mem
  · rw [own]
    exact hv.waits
  · rw [own]
    exact hv.flag
  · intro x mem
    rw [he x mem]
    exact hv.quiet x mem
  · intro x mem
    obtain ⟨hs, hd | ⟨w, hin, hw, le⟩⟩ := hv.lower x mem
    · rw [own, he x mem]
      exact ⟨hs, .inl hd⟩
    · rw [he x mem]
      exact ⟨hs, .inr ⟨w, hin, hw, by rw [he w hin]; exact le⟩⟩

theorem Framed.congr (hf : Framed succ mark upper child frames)
    (ha : ∀ x ∈ busy frames, post x = mark x) : Framed succ post upper child frames := by
  induction frames generalizing upper child with
  | nil => exact hf
  | cons frame rest ih =>
    obtain ⟨hv, hfr⟩ := hf
    refine ⟨hv.congr fun x mem => ha x ?_, ?_⟩
    · exact mem_append_left (busy rest) mem
    · rw [ha frame.node mem_cons_self]
      exact ih hfr fun x mem => ha x (mem_cons_of_mem _ (mem_append_right _ mem))

/-- Roots are not larger than numbers, and numbers are below the next one. -/
theorem Framed.bounds (hf : Framed succ mark upper child frames) :
    ∀ x ∈ busy frames, (mark x).low ≤ (mark x).number ∧ (mark x).number < upper := by
  induction frames generalizing upper child with
  | nil => nofun
  | cons frame rest ih =>
    obtain ⟨hv, hfr⟩ := hf
    have hs := hv.size
    intro x mem
    rcases mem_cons.mp mem with rfl | hin
    · have hfl := hv.flag
      split at hfl <;> omega
    · rcases mem_append.mp hin with he | hb
      · exact ⟨(hv.lower x he).1.le, (hv.above x he).2⟩
      · obtain ⟨le, hl⟩ := ih hfr x hb
        exact ⟨le, by omega⟩

theorem Framed.length (hf : Framed succ mark upper child frames) :
    upper = (busy frames).length + 1 := by
  induction frames generalizing upper child with
  | nil => exact hf
  | cons frame rest ih =>
    rw [hf.1.size, ih hf.2, busy, length_cons, length_append]
    omega

end Framed

theorem mem_busy_of_mem_stackOf {frames : List (Frame N)} {x : N} (mem : x ∈ stackOf frames) :
    x ∈ busy frames := by
  induction frames with
  | nil => cases mem
  | cons frame rest ih =>
    refine mem_cons_of_mem _ (mem_append.mpr ?_)
    exact (mem_append.mp mem).symm.imp_right ih

/-! ## The invariant -/

/-- What the search knows.  `number` are the numbers it gave out, `frames` the nodes it is
busy with, the current one first; `done` those in components that have been found; `child`
is what the current node waits for. -/
structure Search (succ : N → List N) (nodes : List N) (search : TarjanScc N) (number : N → ℕ)
    (frames : List (Frame N)) (done : List N) (child : Option N) : Prop where
  nodup : (busy frames ++ done).Nodup
  inside : ∀ x ∈ busy frames ++ done, x ∈ nodes
  seen : ∀ x, search.root x ≠ none ↔ x ∈ busy frames ++ done
  high : ∀ x ∈ done, search.sccIndex < search.low x
  room : usizeMax ≤ search.sccIndex + done.length
  stack : search.stack = stackOf frames
  framed : Framed succ (search.mark number) search.dfsIndex child frames
  sink : ∀ x ∈ busy frames, ∃ y ∈ busy frames, number y = search.low x ∧ Reaches succ x y
  untouched : ∀ x, search.root x = none → search.neighbors x = succ x ∧ search.pending x = none
  edges : ∀ x ∈ busy frames, ∃ past, succ x = past ++ search.neighbors x ∧ ∀ y ∈ past,
    search.pending x = some y ∨ search.root y ≠ none ∧ (y ∈ done ∨ search.low x ≤ number y)
  closed : ∀ x ∈ done, ∀ y ∈ succ x, y ∈ done

variable {s post : TarjanScc N} {n : N → ℕ} {frames rest : List (Frame N)}
  {done block : List N} {child next : Option N} {v w : N} {isLocalRoot isRoot : Bool}

namespace Search

section

variable (state : Search succ nodes s n frames done child)

include state

theorem visited {x : N} (mem : x ∈ busy frames) : s.root x ≠ none :=
  (state.seen x).mpr (mem_append_left _ mem)

theorem not_done {x : N} (mem : x ∈ busy frames) : x ∉ done := fun hf =>
  (nodup_append.mp state.nodup).2.2 x mem x hf rfl

/-- The numbers given out are below all numbers of components. -/
theorem dfsIndex_le (fits : nodes.length < usizeMax) : s.dfsIndex ≤ s.sccIndex := by
  have few := (subperm_of_subset state.nodup state.inside).length_le
  have hr := state.room
  rw [length_append] at few
  rw [state.framed.length]
  omega

/-- A visited node is not left out by a number that is at most its root. -/
theorem known (hv : s.root w ≠ none) {l : ℕ} (le : l ≤ s.low w) :
    s.root w ≠ none ∧ (w ∈ done ∨ l ≤ n w) := by
  refine ⟨hv, ?_⟩
  rcases mem_append.mp ((state.seen w).mp hv) with hin | hf
  · exact .inr (le.trans (state.framed.bounds w hin).1)
  · exact .inl hf

end

section

variable (state : Search succ nodes s n (⟨v, isLocalRoot, block⟩ :: rest) done child)

include state

/-- What is below the current node has smaller numbers. -/
theorem below {x : N} (mem : x ∈ busy rest) : n x < n v :=
  (state.framed.2.bounds x mem).2

/-- **The current node changes its data**: it lowers its root, goes past some neighbours,
and waits for another node or for none. -/
theorem revise (ht : Touches v s post) {l : ℕ} (hr : post.root v = some l)
    (hfl : if isRoot then l = n v else l < n v) (le : l ≤ s.low v)
    (hwa : ∀ w ∈ block, child = some w → next = some w ∨ l ≤ s.low w)
    (hp : post.pending v = next) (hl : ∀ w, next = some w → w ∈ succ v)
    (hsi : ∃ y ∈ busy (⟨v, isLocalRoot, block⟩ :: rest), n y = l ∧ Reaches succ v y)
    (he : ∃ past, succ v = past ++ post.neighbors v ∧ ∀ y ∈ past,
      next = some y ∨ s.root y ≠ none ∧ (y ∈ done ∨ l ≤ n y)) :
    Search succ nodes post n (⟨v, isRoot, block⟩ :: rest) done next := by
  have top : v ∈ busy (⟨v, isLocalRoot, block⟩ :: rest) := mem_cons_self
  have hlv := low_eq hr
  have hlo : ∀ x, x ≠ v → post.low x = s.low x := fun x hd =>
    congrArg (Option.getD · 0) (ht.others x hd).1
  have hmo : ∀ x, x ≠ v → post.mark n x = s.mark n x := by
    intro x hd
    obtain ⟨-, hp, neighbors⟩ := ht.others x hd
    unfold mark
    rw [hlo x hd, hp, neighbors]
  have hse : ∀ x, post.root x ≠ none ↔ s.root x ≠ none := by
    intro x
    by_cases hs : x = v
    · subst hs
      exact iff_of_true (by rw [hr]; nofun) (state.visited top)
    · rw [(ht.others x hs).1]
  have ha : ∀ x ∈ block ++ busy rest, x ≠ v := by
    rintro x mem rfl
    exact (nodup_cons.mp (nodup_append.mp state.nodup).1).1 mem
  obtain ⟨hv, hf⟩ := state.framed
  refine ⟨state.nodup, state.inside, fun x => (hse x).trans (state.seen x), ?_, ?_, ?_,
    ⟨⟨?_, ?_, ?_, hl, ?_, ?_, ?_, hv.reach⟩, ?_⟩, ?_, ?_, ?_, state.closed⟩
  · intro x mem
    rw [ht.sccIndex, hlo x fun hs => state.not_done top (hs ▸ mem)]
    exact state.high x mem
  · rw [ht.sccIndex]
    exact state.room
  · exact ht.stack.trans state.stack
  · rw [ht.dfsIndex]
    exact hv.size
  · rw [ht.dfsIndex]
    exact hv.above
  · exact hp
  · change if isRoot then post.low v = n v else post.low v < n v
    rw [hlv]
    exact hfl
  · intro x mem
    rw [hmo x (ha x (mem_append_left _ mem))]
    exact hv.quiet x mem
  · intro x mem
    rw [hmo x (ha x (mem_append_left _ mem))]
    obtain ⟨hsa, hb⟩ := hv.lower x mem
    refine ⟨hsa, ?_⟩
    change post.low v ≤ s.low x ∨ _
    rw [hlv]
    rcases hb with hdi | ⟨w, hin, hw, hsm⟩
    · exact .inl (le.trans hdi)
    · refine (hwa w hin hw).symm.imp (fun le => le.trans hsm) fun hs =>
        ⟨w, hin, hs, ?_⟩
      rw [hmo w (ha w (mem_append_left _ hin))]
      exact hsm
  · exact hf.congr fun x mem => hmo x (ha x (mem_append_right _ mem))
  · intro x mem
    by_cases hs : x = v
    · subst hs
      rw [hlv]
      exact hsi
    · rw [hlo x hs]
      exact state.sink x mem
  · intro x hu
    have hd : x ≠ v := by
      rintro rfl
      rw [hr] at hu
      cases hu
    obtain ⟨hrx, hpx, hnx⟩ := ht.others x hd
    rw [hpx, hnx]
    exact state.untouched x (hrx.symm.trans hu)
  · intro x mem
    by_cases hs : x = v
    · subst hs
      rw [hp, hlv]
      simp only [hse]
      exact he
    · rw [(ht.others x hs).2.1, (ht.others x hs).2.2, hlo x hs]
      simp only [hse]
      exact state.edges x mem

/-- What the root of the current node becomes at a neighbour that has been visited. -/
theorem lessened (hv : s.root w ≠ none) (he : w ∈ succ v) (fits : nodes.length < usizeMax) :
    (if isLocalRoot && !rootLt (s.root w) (s.root v) then
        min (s.low w) (s.low v) = n v
      else min (s.low w) (s.low v) < n v) ∧ ∃ y ∈ busy (⟨v, isLocalRoot, block⟩ :: rest),
      n y = min (s.low w) (s.low v) ∧ Reaches succ v y := by
  have top : v ∈ busy (⟨v, isLocalRoot, block⟩ :: rest) := mem_cons_self
  have hfl : if isLocalRoot then s.low v = n v else s.low v < n v := state.framed.1.flag
  have hb : s.low v ≤ n v ∧ n v < s.dfsIndex := state.framed.bounds v top
  rw [rootLt_eq (state.visited top) hv]
  by_cases hl : s.low w < s.low v
  · rw [decide_eq_true hl, min_eq_left hl.le, Bool.not_true, Bool.and_false,
      if_neg Bool.false_ne_true]
    -- a node with a smaller root is not done
    have hin : w ∈ busy (⟨v, isLocalRoot, block⟩ :: rest) := by
      refine (mem_append.mp ((state.seen w).mp hv)).resolve_right fun hf => ?_
      have hla := state.high w hf
      have hr := state.dfsIndex_le fits
      omega
    obtain ⟨y, mem, hs, hp⟩ := state.sink w hin
    exact ⟨by omega, y, mem, hs, Relation.ReflTransGen.head he hp⟩
  · rw [decide_eq_false hl, min_eq_right (Nat.not_lt.mp hl), Bool.not_false, Bool.and_true]
    exact ⟨hfl, state.sink v top⟩

end

end Search

/-! ## Steps of a visit -/

variable [DecidableEq N]

/-- Lower the root of a node to that of another one, if that is smaller. -/
def lessen (search : TarjanScc N) (v w : N) : TarjanScc N :=
  { search with
    root := if rootLt (search.root w) (search.root v) then
        update search.root v (search.root w)
      else search.root }

/-- The two ways in which the source lowers a root. -/
theorem lessen_eq (s : TarjanScc N) (v w : N) (isLocalRoot : Bool) :
    (if rootLt (s.root w) (s.root v) then (false, s.lower v w)
      else (isLocalRoot, s)) = (isLocalRoot && !rootLt (s.root w) (s.root v), s.lessen v w) := by
  unfold lessen
  cases rootLt (s.root w) (s.root v) with
  | true => rw [Bool.not_true, Bool.and_false]; rfl
  | false => rw [Bool.not_false, Bool.and_true]; rfl

theorem scan_lessen (s : TarjanScc N) (v w : N) (isLocalRoot : Bool) (more : List N) :
    (if rootLt (s.root w) (s.root v) then scan v more false (s.lower v w)
      else scan v more isLocalRoot s) =
      scan v more (isLocalRoot && !rootLt (s.root w) (s.root v)) (s.lessen v w) := by
  have he := lessen_eq s v w isLocalRoot
  split at he
  · next hl => rw [if_pos hl, ← (Prod.mk.inj he).1, ← (Prod.mk.inj he).2]
  · next hl => rw [if_neg hl, ← (Prod.mk.inj he).1, ← (Prod.mk.inj he).2]

theorem root_lessen (hvv : s.root v ≠ none) (hvw : s.root w ≠ none) :
    (s.lessen v w).root v = some (min (s.low w) (s.low v)) := by
  unfold lessen
  rw [rootLt_eq hvv hvw]
  by_cases hl : s.low w < s.low v
  · rw [if_pos (decide_eq_true hl), min_eq_left hl.le, ← root_eq hvw]
    exact update_self ..
  · rw [if_neg fun ho => hl (of_decide_eq_true ho), min_eq_right (Nat.not_lt.mp hl)]
    exact root_eq hvv

section

variable (s : TarjanScc N) (v : N)

theorem touches_lessen (w : N) : Touches v s (s.lessen v w) := by
  refine ⟨fun x hd => ⟨?_, rfl, rfl⟩, rfl, rfl, rfl, rfl, rfl⟩
  unfold lessen
  split
  · exact update_of_ne hd ..
  · rfl

theorem touches_setPending (p : Option N) : Touches v s (s.setPending v p) :=
  ⟨fun _ hd => ⟨rfl, update_of_ne hd .., rfl⟩, rfl, rfl, rfl, rfl, rfl⟩

theorem touches_setNeighbors (rest : List N) : Touches v s (s.setNeighbors v rest) :=
  ⟨fun _ hd => ⟨rfl, rfl, update_of_ne hd ..⟩, rfl, rfl, rfl, rfl, rfl⟩

end

namespace Search

/-- A node is entered. -/
theorem enter (state : Search succ nodes s n frames done (some w))
    (new : s.root w = none) (hn : w ∈ nodes) :
    Search succ nodes (s.enter w) (update n w s.dfsIndex) (⟨w, true, []⟩ :: frames) done none := by
  have ha : w ∉ busy frames ++ done := fun mem => (state.seen w).mpr mem new
  have hen : s.enter w = { s with
        root := update s.root w (some s.dfsIndex)
        dfsIndex := s.dfsIndex + 1 } := if_pos new
  rw [hen]
  let post : TarjanScc N := { s with
      root := update s.root w (some s.dfsIndex)
      dfsIndex := s.dfsIndex + 1 }
  let nu := update n w s.dfsIndex
  have hlw : post.low w = s.dfsIndex := low_eq (update_self ..)
  have hnw : nu w = s.dfsIndex := update_self ..
  have ne : ∀ x ∈ busy frames ++ done, x ≠ w := by
    rintro x mem rfl
    exact ha mem
  have hlo : ∀ x, x ≠ w → post.low x = s.low x := fun x hd =>
    congrArg (Option.getD · 0) (update_of_ne hd ..)
  have hno : ∀ x, x ≠ w → nu x = n x := fun x hd => update_of_ne hd ..
  have hmo : ∀ x, x ≠ w → post.mark nu x = s.mark n x := by
    intro x hd
    unfold mark
    rw [hlo x hd, hno x hd]
  have hs : ∀ x, post.root x ≠ none ↔ x = w ∨ s.root x ≠ none := by
    intro x
    change update s.root w _ x ≠ none ↔ _
    rw [update_apply]
    split
    · next hsa => exact iff_of_true nofun (.inl hsa)
    · next hd => exact (or_iff_right hd).symm
  have old : ∀ x ∈ busy frames, x ≠ w := fun x mem => ne x (mem_append_left _ mem)
  have hu := state.untouched w new
  refine ⟨nodup_cons.mpr ⟨ha, state.nodup⟩, ?_, ?_, ?_, state.room, ?_,
    ⟨⟨?_, nofun, hu.2, nofun, ?_, nofun, nofun, nofun⟩, ?_⟩, ?_, ?_, ?_, state.closed⟩
  · intro x mem
    rcases mem_cons.mp mem with rfl | hin
    · exact hn
    · exact state.inside x hin
  · intro x
    exact (hs x).trans (or_congr_right (state.seen x) |>.trans mem_cons.symm)
  · intro x mem
    exact (state.high x mem).trans_eq (hlo x (ne x (mem_append_right _ mem))).symm
  · exact state.stack.trans (append_nil _).symm
  · exact congrArg (· + 1) hnw.symm
  · exact hlw.trans hnw.symm
  · change Framed succ (post.mark nu) (nu w) (some w) frames
    rw [hnw]
    exact state.framed.congr fun x mem => hmo x (old x mem)
  · intro x mem
    rcases mem_cons.mp mem with rfl | hin
    · exact ⟨x, mem, hnw.trans hlw.symm, Relation.ReflTransGen.refl⟩
    · obtain ⟨y, her, hsa, hp⟩ := state.sink x hin
      refine ⟨y, mem_cons_of_mem _ her, ?_, hp⟩
      exact (hno y (old y her)).trans (hsa.trans (hlo x (old x hin)).symm)
  · intro x hun
    exact state.untouched x (not_not.mp fun hv => (hs x).mpr (.inr hv) hun)
  · intro x mem
    rcases mem_cons.mp mem with rfl | hin
    · exact ⟨[], hu.1.symm, nofun⟩
    · obtain ⟨past, split, hk⟩ := state.edges x hin
      refine ⟨past, split, fun y he => (hk y he).imp_right ?_⟩
      rintro ⟨hv, t⟩
      refine ⟨(hs y).mpr (.inr hv), t.imp_right fun le => ?_⟩
      have hd := ne y ((state.seen y).mp hv)
      exact (hlo x (old x hin)).trans_le (le.trans_eq (hno y hd).symm)

section

variable (fits : nodes.length < usizeMax)

include fits

/-- The current node is done with the node it waited for. -/
theorem settle (state : Search succ nodes s n (⟨v, isLocalRoot, block⟩ :: rest) done (some w))
    (hv : s.root w ≠ none) : Search succ nodes ((s.setPending v none).lessen v w) n
      (⟨v, isLocalRoot && !rootLt (s.root w) (s.root v), block⟩ :: rest) done none := by
  have top := state.visited mem_cons_self
  obtain ⟨hf, hsi⟩ := state.lessened hv (state.framed.1.link w rfl) fits
  have ht := (touches_setPending s v none).trans (touches_lessen _ v w)
  have hl : ((s.setPending v none).lessen v w).root v = _ := root_lessen top hv
  have hw : s.pending v = some w := state.framed.1.waits
  refine state.revise ht hl hf (min_le_right _ _) ?_ (update_self ..) nofun hsi ?_
  · intro u _ hs
    rw [← some.inj hs]
    exact .inr (min_le_left _ _)
  · obtain ⟨past, hsp, hk⟩ := state.edges v mem_cons_self
    refine ⟨past, hsp, fun y he => .inr ?_⟩
    rcases hk y he with hs | ⟨hse, t⟩
    · rw [← some.inj (hw.symm.trans hs)]
      exact state.known hv (min_le_left _ _)
    · exact ⟨hse, t.imp_right fun le => (min_le_right _ _).trans le⟩

section

variable {more : List N}
  (state : Search succ nodes s n (⟨v, isLocalRoot, block⟩ :: rest) done none)
  (neighbors : s.neighbors v = w :: more)

include state neighbors

omit fits [DecidableEq N] in
/-- The current node has examined one more edge. -/
theorem examined {l : ℕ} (le : l ≤ s.low v) :
    w ∈ succ v ∧ ∃ past, succ v = past ++ more ∧ ∀ y ∈ past,
      y = w ∨ s.root y ≠ none ∧ (y ∈ done ∨ l ≤ n y) := by
  obtain ⟨past, hs, hk⟩ := state.edges v mem_cons_self
  have hw : s.pending v = none := state.framed.1.waits
  rw [neighbors] at hs
  refine ⟨?_, past ++ [w], by rw [hs, append_assoc]; rfl, fun y mem => ?_⟩
  · rw [hs]
    exact mem_append_right _ mem_cons_self
  · rcases mem_append.mp mem with old | new
    · refine .inr ?_
      rcases hk y old with hsa | ⟨hse, t⟩
      · cases hw.symm.trans hsa
      · exact ⟨hse, t.imp_right le.trans⟩
    · exact .inl (mem_singleton.mp new)

/-- The current node goes past a neighbour that has been visited. -/
theorem pass (hv : s.root w ≠ none) : Search succ nodes ((s.setNeighbors v more).lessen v w) n
      (⟨v, isLocalRoot && !rootLt (s.root w) (s.root v), block⟩ :: rest) done none := by
  have top := state.visited mem_cons_self
  obtain ⟨he, past, hs, hk⟩ := state.examined neighbors (min_le_right (s.low w) (s.low v))
  obtain ⟨hf, hsi⟩ := state.lessened hv he fits
  have ht := (touches_setNeighbors s v more).trans (touches_lessen _ v w)
  have hl : ((s.setNeighbors v more).lessen v w).root v = _ := root_lessen top hv
  have own : ((s.setNeighbors v more).lessen v w).neighbors v = more := update_self ..
  refine state.revise ht hl hf (min_le_right _ _) nofun state.framed.1.waits nofun
    hsi ⟨past, by rw [own]; exact hs, fun y mem => .inr ?_⟩
  rcases hk y mem with rfl | pre
  · exact state.known hv (min_le_left _ _)
  · exact pre

omit fits in
/-- The current node waits for a neighbour that is to be entered. -/
theorem pause : Search succ nodes ((s.setNeighbors v more).setPending v (some w)) n
      (⟨v, isLocalRoot, block⟩ :: rest) done (some w) := by
  obtain ⟨he, past, hsp, hk⟩ := state.examined neighbors (le_refl (s.low v))
  have ht := (touches_setNeighbors s v more).trans (touches_setPending _ v (some w))
  have top := state.visited mem_cons_self
  have own : ((s.setNeighbors v more).setPending v (some w)).neighbors v = more := update_self ..
  refine state.revise ht (root_eq top) state.framed.1.flag le_rfl nofun
    (update_self ..) ?_ (state.sink v mem_cons_self)
    ⟨past, by rw [own]; exact hsp, fun y mem => ?_⟩
  · intro u hs
    rw [← some.inj hs]
    exact he
  · exact (hk y mem).imp_left fun hs => congrArg some hs.symm

end

end

end Search

end TarjanScc

end Voker.Ecs
