import Voker.Ecs.Command.Queue
import Voker.Foundation.Traversal

/-!
# The record of a command queue

A pass and the rest of a command each make a stretch of the record (`Segment`): who may have
pushed in it, and that the commands started and the commands left are those that were there
and those that were pushed.  Stretches are put together by `Segment.append`,
`Segment.pushed_cons` and `Segment.node`, and their traversals (`Visits`) alike.
-/

namespace Voker.Ecs

open Foundation List Option

namespace QueueEvent

/-- The commands that are started, in order. -/
def starts (events : List QueueEvent) : List ℕ :=
  events.filterMap fun
    | .started tag => some tag
    | .pushed _ _ => none

/-- The commands that are pushed, in order. -/
def pushes (events : List QueueEvent) : List ℕ :=
  events.filterMap fun
    | .started _ => none
    | .pushed _ child => some child

/-- The commands that a command pushes, in order. -/
def children (events : List QueueEvent) (parent : ℕ) : List ℕ :=
  events.filterMap fun
    | .started _ => none
    | .pushed source child => if source = some parent then some child else none

variable {fst snd : List QueueEvent}

@[simp]
theorem starts_append : starts (fst ++ snd) = starts fst ++ starts snd :=
  filterMap_append

@[simp]
theorem pushes_append : pushes (fst ++ snd) = pushes fst ++ pushes snd :=
  filterMap_append

@[simp]
theorem children_append (parent : ℕ) :
    children (fst ++ snd) parent = children fst parent ++ children snd parent :=
  filterMap_append

@[simp]
theorem starts_started (tag : ℕ) (events : List QueueEvent) :
    starts (.started tag :: events) = tag :: starts events := rfl

@[simp]
theorem starts_pushed (parent : Option ℕ) (c : ℕ) (events : List QueueEvent) :
    starts (.pushed parent c :: events) = starts events := rfl

@[simp]
theorem pushes_pushed (parent : Option ℕ) (c : ℕ) (events : List QueueEvent) :
    pushes (.pushed parent c :: events) = c :: pushes events := rfl

variable {parent : ℕ}

theorem children_eq_nil {events : List QueueEvent}
    (hs : ∀ c, .pushed (some parent) c ∉ events) : children events parent = [] := by
  refine filterMap_eq_nil_iff.mpr fun e mem => ?_
  cases e with
  | started tag => rfl
  | pushed src c =>
    refine if_neg fun hsa => hs c ?_
    rwa [← hsa]

end QueueEvent

open QueueEvent

/-! ## Stretches of the record -/

/-- A stretch of the record, made for the command `tag`, that starts with the commands
`roots` and leaves the commands `left`; `first` is the next number. -/
structure Segment (tag : Option ℕ) (roots : List ℕ) (first : ℕ) (events : List QueueEvent)
    (left : List ℕ) : Prop where
  pushed : pushes events = range' first (pushes events).length
  parents : ∀ parent child, .pushed (some parent) child ∈ events →
    tag = some parent ∨ parent ∈ starts events
  conserved : (starts events ++ left).Perm (roots ++ pushes events)

/-- The commands are distinct and have been numbered, and the one that runs is none of
them. -/
structure Distinct (tag : Option ℕ) (roots : List ℕ) (first : ℕ) : Prop where
  nodup : roots.Nodup
  numbered : ∀ root ∈ roots, root < first
  running : ∀ parent, tag = some parent → parent < first ∧ parent ∉ roots

variable {tag : Option ℕ} {roots left : List ℕ} {fst : ℕ} {events : List QueueEvent} {parent : ℕ}
  {later : List ℕ} {snd : List QueueEvent}

theorem distinct_nil (hn : parent < fst) : Distinct (some parent) [] fst :=
  ⟨.nil, nofun, fun _ hs => ⟨some.inj hs ▸ hn, nofun⟩⟩

/-- What is started was there or is new. -/
theorem Segment.started (hs : Segment tag roots fst events left) {node : ℕ}
    (mem : node ∈ starts events) :
    node ∈ roots ∨ fst ≤ node ∧ node < fst + (pushes events).length := by
  have hin := hs.conserved.subset (mem_append_left _ mem)
  rcases mem_append.mp hin with hr | new
  · exact .inl hr
  · rw [hs.pushed, mem_range'_1] at new
    exact .inr new

/-- Commands that the stretch does not start push nothing in it. -/
theorem Segment.children_eq_nil (hs : Segment tag roots fst events left) {node : ℕ}
    (hi : tag ≠ some node) (ha : node ∉ starts events) : children events node = [] :=
  QueueEvent.children_eq_nil fun c mem =>
    (hs.parents node c mem).elim hi ha

theorem segment_nil (tag : Option ℕ) (roots : List ℕ) (fst : ℕ) :
    Segment tag roots fst [] roots where
  pushed := rfl
  parents := fun _ _ ha => nomatch ha
  conserved := by
    change ([] ++ roots).Perm (roots ++ [])
    rw [append_nil]
    exact .refl _

/-- One stretch after another. -/
theorem Segment.append (one : Segment none roots fst events [])
    (two : Segment tag later (fst + (pushes events).length) snd left) :
    Segment tag (roots ++ later) fst (events ++ snd) left where
  pushed := by
    rw [pushes_append, length_append, ← range'_append_1, ← one.pushed, ← two.pushed]
  parents := by
    intro parent c mem
    rw [starts_append]
    rcases mem_append.mp mem with he | hl
    · exact .inr (mem_append_left _ ((one.parents parent c he).resolve_left nofun))
    · exact (two.parents parent c hl).imp_right (mem_append_right _)
  conserved := by
    have he := one.conserved
    rw [append_nil] at he
    rw [starts_append, pushes_append, append_assoc]
    refine (he.append two.conserved).trans ?_
    rw [append_assoc, append_assoc]
    refine List.Perm.append_left _ ?_
    rw [← append_assoc, ← append_assoc]
    exact perm_append_comm.append_right _

/-- The command that runs pushes another one. -/
theorem Segment.pushed_cons (hr : Segment (some parent) (roots ++ [fst]) (fst + 1) events left) :
    Segment (some parent) roots fst (.pushed (some parent) fst :: events) left where
  pushed := by
    rw [pushes_pushed, length_cons, range'_succ, ← hr.pushed]
  parents := by
    intro src c mem
    rcases mem_cons.mp mem with hs | later
    · cases hs
      exact .inl rfl
    · exact hr.parents src c later
  conserved := by
    refine hr.conserved.trans ?_
    rw [append_assoc]
    exact .refl _

/-- A command is started, and then runs. -/
theorem Segment.node {node : ℕ} (hb : Segment (some node) [] fst events left) :
    Segment none [node] fst (.started node :: events) left where
  pushed := hb.pushed
  parents := by
    intro parent c mem
    refine .inr ?_
    rcases mem_cons.mp mem with hs | later
    · cases hs
    · rcases hb.parents parent c later with hs | hst
      · rw [some.inj hs]
        exact mem_cons_self
      · exact mem_cons_of_mem _ hst
  conserved := by
    exact hb.conserved.cons _

/-! ## Their order -/

/-- The stretch is a depth-first traversal of the commands it starts with, followed by
those the running command pushes. -/
def Visits (tag : Option ℕ) (roots : List ℕ) (events : List QueueEvent) : Prop :=
  Traverses (children events) (roots ++ tag.elim [] (children events)) (starts events)

theorem Visits.append (one : Segment none roots fst events [])
    (two : Segment tag later (fst + (pushes events).length) snd [])
    (hd : Distinct tag (roots ++ later) fst) (he : Visits none roots events)
    (hl : Visits tag later snd) : Visits tag (roots ++ later) (events ++ snd) := by
  obtain ⟨-, hnl, hap⟩ := nodup_append.mp hd.nodup
  -- who is started in one stretch does not push in the other
  have hdi : ∀ node, node ∈ starts events → node ∈ starts snd → False := by
    intro node hio hit
    rcases one.started hio with hr | new
    · have hk := hd.numbered node (mem_append_left _ hr)
      rcases two.started hit with other | hn
      · exact hap node hr node other rfl
      · omega
    · rcases two.started hit with other | hn
      · have hk := hd.numbered node (mem_append_right _ other)
        omega
      · omega
  have ho : ∀ parent, tag = some parent → parent ∉ starts events := by
    intro parent hs hio
    obtain ⟨hk, ha⟩ := hd.running parent hs
    rcases one.started hio with hr | new
    · exact ha (mem_append_left _ hr)
    · omega
  unfold Visits at *
  rw [elim_none, append_nil] at he
  have hff : ∀ node ∈ starts events,
      children events node = children (events ++ snd) node := by
    intro node mem
    rw [children_append, two.children_eq_nil (fun hs => ho node hs mem)
      fun hit => hdi node mem hit, append_nil]
  have hfs : ∀ node, node ∉ starts events →
      children snd node = children (events ++ snd) node := by
    intro node ha
    rw [children_append, one.children_eq_nil nofun ha, nil_append]
  have own : tag.elim [] (children snd) = tag.elim [] (children (events ++ snd)) := by
    cases tag with
    | none => rfl
    | some parent => exact hfs parent (ho parent rfl)
  rw [starts_append, append_assoc, ← own]
  exact (he.congr hff).append
    (hl.congr fun node mem => hfs node fun hio => hdi node hio mem)

theorem Visits.pushed_cons (ho : parent ∉ starts events)
    (hr : Visits (some parent) (roots ++ [fst]) events) :
    Visits (some parent) roots (.pushed (some parent) fst :: events) := by
  unfold Visits at *
  rw [elim_some] at *
  have own : children (.pushed (some parent) fst :: events) parent =
      fst :: children events parent := by simp [children]
  rw [own, starts_pushed]
  rw [append_assoc, singleton_append] at hr
  refine hr.congr fun node mem => ?_
  have ne : parent ≠ node := by
    rintro rfl
    exact ho mem
  simp [children, ne]

theorem Visits.node {node : ℕ} (hb : Visits (some node) [] events) :
    Visits none [node] (.started node :: events) := by
  unfold Visits at *
  rw [elim_none, append_nil, starts_started]
  refine .cons ?_
  rw [append_nil]
  exact hb

/-- Commands that are left alone are left over. -/
theorem Segment.idle {e rest : List ℕ} (hs : Segment tag roots fst events left)
    (hk : rest.Perm (left ++ e)) : Segment tag (roots ++ e) fst events rest where
  pushed := hs.pushed
  parents := hs.parents
  conserved := by
    refine (hk.append_left _).trans ?_
    rw [← append_assoc]
    refine (hs.conserved.append_right _).trans ?_
    rw [append_assoc, append_assoc]
    exact perm_append_comm.append_left _

/-- A stretch without a running command, seen as part of the run of a command. -/
theorem Segment.within (hs : Segment none roots fst events left) (tag : Option ℕ) :
    Segment tag roots fst events left where
  pushed := hs.pushed
  parents := fun parent c mem =>
    .inr ((hs.parents parent c mem).resolve_left nofun)
  conserved := hs.conserved

theorem Visits.within (hs : Segment none roots fst events left)
    (ho : parent ∉ starts events) (hv : Visits none roots events) :
    Visits (some parent) roots events := by
  unfold Visits at *
  rw [elim_some, hs.children_eq_nil nofun ho]
  exact hv

/-- The running command is not started again. -/
theorem Segment.not_started (hs : Segment tag roots fst events left)
    (hd : Distinct (some parent) roots fst) : parent ∉ starts events := by
  intro mem
  obtain ⟨hk, ha⟩ := hd.running parent rfl
  rcases hs.started mem with hr | new
  · exact ha hr
  · omega

end Voker.Ecs
