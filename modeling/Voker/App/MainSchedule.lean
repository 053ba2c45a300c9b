import Mathlib.Data.List.Infix
import Voker.Ecs.Message.Queue

/-!
# The main loop and its message queues

Each frame writes `MainBegin` and each step of the fixed loop `FixedMainBegin`.  In `First`,
`message_update_condition` reads both, and the queues of the world are updated once it has
seen the two since the last update.  The queues it reads are among those it lets update.

**A message outlives a whole fixed step and a whole `Update`**, however irregularly the fixed
steps come: the second update after it was written is never made before both.
-/

namespace Voker.App

open List Ecs Function

/-- What happens in the main loop. -/
inductive Event
  | mainBegin
  | messageUpdate
  | fixedBegin
  | fixedEnd
  | updateBegin
  | updateEnd
  | last
  deriving DecidableEq, Repr

open Event

/-- A queue of begin messages and its reader: how many messages the newer sequence has, and how
many are unread.  Which ones they are makes no difference to the loop; that the numbers are
those of a queue and a cursor is `Inbox.Counts`. -/
structure Inbox where
  newer : ℕ
  unread : ℕ
  deriving DecidableEq, Repr

namespace Inbox

variable (self : Inbox)

/-- `write_default`. -/
def write : Inbox := { self with newer := self.newer + 1, unread := self.unread + 1 }

/-- `MessageReader::is_empty`. -/
def isEmpty : Bool := self.unread == 0

/-- `MessageReader::clear`. -/
def clear : Inbox := { self with unread := 0 }

/-- `MessageQueue::update`: unread messages of the older sequence are lost. -/
def update : Inbox := ⟨0, min self.unread self.newer⟩

/-- The numbers are those of a queue and a cursor that has not overtaken it. -/
structure Counts {M : Type} (queue : MessageQueue M) (cursor : MessageCursor) : Prop where
  behind : cursor.lastIndex ≤ queue.counter
  newer : self.newer = queue.messagesB.messages.length
  unread : self.unread = min (queue.counter - cursor.lastIndex) queue.len

/-- **What the loop does with an inbox is what it does with the queue and the cursor**, until
the counter of the queue wraps around. -/
theorem Counts.ops {M : Type} {self : Inbox} {queue : MessageQueue M} {cursor : MessageCursor}
    (hc : self.Counts queue cursor) (message : M) :
    (queue.counter + 1 < usizeSize → self.write.Counts (queue.write message).1 cursor) ∧
      self.isEmpty = cursor.isEmpty queue ∧ self.clear.Counts queue (.clear queue) ∧
      self.update.Counts queue.update cursor := by
  obtain ⟨behind, newer, unread⟩ := hc
  unfold MessageQueue.len at unread
  refine ⟨fun fits => ?_, ?_, ⟨le_rfl, newer, ?_⟩, ⟨behind, rfl, ?_⟩⟩
  · have hn : (queue.write message).1.counter = queue.counter + 1 := Nat.mod_eq_of_lt fits
    have hl : (queue.write message).1.messagesB.messages.length =
      queue.messagesB.messages.length + 1 := length_append
    refine ⟨by omega, by rw [hl, ← newer]; rfl, ?_⟩
    rw [hn, MessageQueue.len, hl]
    change self.unread + 1 = min _ (queue.messagesA.messages.length + _)
    omega
  · rw [isEmpty, MessageCursor.isEmpty, MessageQueue.len, Bool.eq_iff_iff]
    simp only [beq_iff_eq, Bool.or_eq_true, decide_eq_true_eq]
    omega
  · simp [clear, MessageCursor.clear]
  · simp only [update, MessageQueue.update, MessageQueue.len, length_nil]
    omega

end Inbox

/-- The world of the main loop, with the locals of `message_update_condition`. -/
structure MainLoop where
  main : Inbox
  fixedMain : Inbox
  mainRan : Bool
  fixedMainRan : Bool
  enableFixed : Bool
  deriving DecidableEq, Repr

/-- The fixed steps of a frame and what comes after them. -/
def restOfFrame (count : ℕ) : List Event :=
  (replicate count [fixedBegin, fixedEnd]).flatten ++ [updateBegin, updateEnd, last]

namespace MainLoop

/-- A new app with the fixed loop enabled. -/
def initial : MainLoop := ⟨⟨0, 0⟩, ⟨0, 0⟩, false, false, true⟩

variable (self : MainLoop)

/-- `main_begin`. -/
def mainBegin : MainLoop := { self with main := self.main.write }

/-- `fixed_main_begin`. -/
def fixedMainBegin : MainLoop := { self with fixedMain := self.fixedMain.write }

/-- The part of the condition that reads `MainBegin`. -/
def readMain : MainLoop :=
  if self.main.isEmpty then self else { self with mainRan := true, main := self.main.clear }

/-- The part of the condition that reads `FixedMainBegin`. -/
def readFixedMain : MainLoop :=
  if self.fixedMain.isEmpty then self
  else { self with fixedMainRan := true, fixedMain := self.fixedMain.clear }

/-- `message_update_condition`. -/
def messageUpdateCondition : Bool × MainLoop :=
  let self := self.readMain
  if self.enableFixed then
    let self := self.readFixedMain
    if self.mainRan && self.fixedMainRan then
      (true, { self with mainRan := false, fixedMainRan := false })
    else (false, self)
  else if self.mainRan then (true, { self with mainRan := false })
  else (false, self)

/-- `World::update_messages`, as far as it concerns the begin messages. -/
def updateMessages : MainLoop :=
  { self with main := self.main.update, fixedMain := self.fixedMain.update }

/-- `First`. -/
def first : MainLoop × List Event :=
  let condition := self.messageUpdateCondition
  if condition.1 then (condition.2.updateMessages, [messageUpdate]) else (condition.2, [])

/-- A frame with some number of fixed steps. -/
def frame (count : ℕ) : MainLoop × List Event :=
  let first := self.mainBegin.first
  (fixedMainBegin^[count] first.1, Event.mainBegin :: first.2 ++ restOfFrame count)

/-- What happens in a sequence of frames. -/
def trace (self : MainLoop) : List ℕ → List Event
  | [] => []
  | count :: counts => (self.frame count).2 ++ trace (self.frame count).1 counts

end MainLoop

/-! ## When the condition holds -/

/-- The trace by a closed form: a frame updates the messages if the one before it had a fixed
step. -/
def traceFrom (pending : Bool) : List ℕ → List Event
  | [] => []
  | count :: counts =>
    (mainBegin :: (if pending then [messageUpdate] else []) ++ restOfFrame count) ++
      traceFrom (count != 0) counts

namespace MainLoop

/-- Between two frames: no fixed step has been seen since the last update, except for those that
are not read yet. -/
structure Between (world : MainLoop) (pending : Bool) : Prop where
  enabled : world.enableFixed = true
  unseen : world.fixedMainRan = false
  unread : world.fixedMain.isEmpty = !pending

variable {self : MainLoop} {pending : Bool}

/-- A fixed step that is pending makes the condition true; afterwards none is. -/
theorem Between.first (hb : self.Between pending) :
    (self.mainBegin.first.1.Between false ∧ self.mainBegin.first.1.fixedMain.unread = 0) ∧
      self.mainBegin.first.2 = if pending then [messageUpdate] else [] := by
  obtain ⟨main, fm, mr, fmr, ef⟩ := self
  obtain ⟨rfl, rfl, hu⟩ := hb
  have hc : (mainBegin ⟨main, fm, mr, false, true⟩).messageUpdateCondition =
      (pending, ⟨main.write.clear, if pending then fm.clear else fm, !pending,
        false, true⟩) := by
    unfold messageUpdateCondition
    change (if true then _ else _) = _
    rw [if_pos rfl, readFixedMain, readMain]
    cases pending <;> simp_all [mainBegin, Inbox.write, Inbox.isEmpty]
  unfold MainLoop.first
  rw [hc]
  cases pending with
  | false => exact ⟨⟨⟨rfl, rfl, hu⟩, beq_iff_eq.mp hu⟩, rfl⟩
  | true =>
    have none_left : fm.clear.update.unread = 0 := Nat.zero_min _
    exact ⟨⟨⟨rfl, rfl, beq_iff_eq.mpr none_left⟩, none_left⟩, rfl⟩

theorem Between.fixedSteps (hb : self.Between false) (none_left : self.fixedMain.unread = 0)
    (c : ℕ) : (fixedMainBegin^[c] self).Between (c != 0) ∧
      (fixedMainBegin^[c] self).fixedMain.unread = c := by
  induction c with
  | zero => exact ⟨hb, none_left⟩
  | succ c ih =>
    rw [iterate_succ_apply']
    exact ⟨⟨ih.1.enabled, ih.1.unseen, rfl⟩, congrArg (· + 1) ih.2⟩

theorem Between.trace (hb : self.Between pending) (counts : List ℕ) :
    self.trace counts = traceFrom pending counts := by
  induction counts generalizing self pending with
  | nil => rfl
  | cons c counts ih =>
    obtain ⟨⟨hp, none_left⟩, hu⟩ := hb.first
    have hr := ih (hp.fixedSteps none_left c).1
    simp only [MainLoop.trace, frame, traceFrom, hr, hu]

end MainLoop

/-! ## Between two updates -/

variable {pre mid after : List Event} {pending : Bool} {counts : List ℕ}

theorem messageUpdate_notMem_restOfFrame (c : ℕ) : messageUpdate ∉ restOfFrame c := by
  simp [restOfFrame]

theorem fixedStep_infix_restOfFrame {c : ℕ} (pos : c ≠ 0) :
    [fixedBegin, fixedEnd] <:+: restOfFrame c := by
  obtain ⟨c, rfl⟩ := Nat.exists_eq_succ_of_ne_zero pos
  refine infix_append_of_infix_left ?_
  rw [replicate_succ, flatten_cons]
  exact (prefix_append ..).isInfix

theorem update_infix_restOfFrame (c : ℕ) : [updateBegin, updateEnd] <:+: restOfFrame c :=
  infix_append_of_infix_right ⟨[], [last], rfl⟩

/-- What has no update lies before the first one. -/
theorem split_at_update {f tail : List Event} (hfr : messageUpdate ∉ f)
    (hs : f ++ tail = mid ++ messageUpdate :: after) :
    ∃ more, mid = f ++ more ∧ tail = more ++ messageUpdate :: after := by
  obtain hf | ⟨cut, rfl, hr⟩ := append_eq_append_iff.mp hs
  · exact hf
  · cases cut with
    | nil => exact ⟨[], by simp, hr.symm⟩
    | cons ev e =>
      obtain ⟨rfl, -⟩ := cons.inj hr
      exact absurd (mem_append_right _ mem_cons_self) hfr

/-- While no step is pending, an update waits for a fixed step. -/
theorem fixedStep_before_update (hs : traceFrom false counts = mid ++ messageUpdate :: after) :
    [fixedBegin, fixedEnd] <:+: mid := by
  induction counts generalizing mid with
  | nil => simp [traceFrom] at hs
  | cons c counts ih =>
    have hf : messageUpdate ∉ mainBegin :: restOfFrame c := by
      simp [messageUpdate_notMem_restOfFrame]
    obtain ⟨more, rfl, hr⟩ := split_at_update hf hs
    by_cases pos : c = 0
    · subst pos
      exact infix_append_of_infix_right (ih hr)
    · exact infix_append_of_infix_left (infix_cons (fixedStep_infix_restOfFrame pos))

/-- An update is followed by the rest of its frame. -/
theorem after_update (hs : traceFrom pending counts = pre ++ messageUpdate :: after) :
    ∃ c counts, after = restOfFrame c ++ traceFrom (c != 0) counts := by
  induction counts generalizing pre pending with
  | nil => simp [traceFrom] at hs
  | cons c counts ih =>
    cases pending with
    | false =>
      have hf : messageUpdate ∉ mainBegin :: restOfFrame c := by
        simp [messageUpdate_notMem_restOfFrame]
      obtain ⟨more, -, hr⟩ := split_at_update hf hs
      exact ih hr
    | true =>
      -- the update of this frame, or one of a later frame
      have hf : messageUpdate ∉ [mainBegin] := by simp
      obtain ⟨more, -, hr⟩ := split_at_update hf hs
      cases more with
      | nil => exact ⟨c, counts, (cons.inj hr).2.symm⟩
      | cons e more =>
        obtain ⟨later, -, hr⟩ :=
          split_at_update (messageUpdate_notMem_restOfFrame c) (cons.inj hr).2
        exact ih hr

theorem between_updates
    (hs : traceFrom pending counts = pre ++ messageUpdate :: mid ++ messageUpdate :: after) :
    [fixedBegin, fixedEnd] <:+: mid ∧ ∃ c, restOfFrame c <+: mid := by
  rw [append_assoc] at hs
  obtain ⟨c, counts, ht⟩ := after_update hs
  obtain ⟨more, rfl, hr⟩ := split_at_update (messageUpdate_notMem_restOfFrame c) ht.symm
  refine ⟨?_, c, prefix_append ..⟩
  by_cases pos : c = 0
  · subst pos
    exact infix_append_of_infix_right (fixedStep_before_update hr)
  · exact infix_append_of_infix_left (fixedStep_infix_restOfFrame pos)

/-! ## Messages in a queue -/

section Stored

variable {M : Type}

/-- A queue after some events, with what is written to it after each of them. -/
def carry (queue : MessageQueue M) (written : ℕ → List M) : List Event → MessageQueue M
  | [] => queue
  | event :: events =>
    let after := if event = messageUpdate then queue.update else queue
    carry (after.extend (written 0)) (written ∘ Nat.succ) events

/-- A message is stored under its number. -/
def Stored (entry : ℕ × M) (queue : MessageQueue M) : Prop :=
  entry ∈ queue.messagesA.messages ∨ entry ∈ queue.messagesB.messages

variable {entry : ℕ × M} {queue : MessageQueue M}

theorem mem_extend (m : List M) (hn : entry ∈ queue.messagesB.messages) :
    entry ∈ (queue.extend m).messagesB.messages :=
  mem_append_left _ hn

/-- Of two updates, the first makes a new message an older one, and the second drops it. -/
theorem stored_carry {e : List Event} (w : ℕ → List M)
    (hy : entry ∈ queue.messagesB.messages ∧ e.count messageUpdate ≤ 1 ∨
      Stored entry queue ∧ e.count messageUpdate = 0) :
    Stored entry (carry queue w e) := by
  induction e generalizing queue w with
  | nil => exact hy.elim (fun hn => .inr hn.1) And.left
  | cons ev e ih =>
    unfold carry
    apply ih
    rw [count_cons] at hy
    by_cases hu : ev = messageUpdate
    · subst hu
      rw [if_pos rfl]
      obtain ⟨hn, ho⟩ | ⟨-, hne⟩ := hy
      · exact .inr ⟨.inl hn, Nat.le_zero.mp (Nat.le_of_succ_le_succ ho)⟩
      · exact absurd hne (Nat.succ_ne_zero _)
    · rw [if_neg hu]
      rw [if_neg (by simpa using hu)] at hy
      exact hy.imp (.imp_left (mem_extend _)) (.imp_left (.imp_right (mem_extend _)))

/-- A sequence of events has at most one update, or it has two in a row. -/
theorem count_update_le_one_or (e : List Event) : e.count messageUpdate ≤ 1 ∨
    ∃ pre mid after, e = pre ++ messageUpdate :: mid ++ messageUpdate :: after ∧
      messageUpdate ∉ pre ∧ messageUpdate ∉ mid := by
  by_cases some_update : messageUpdate ∈ e
  · obtain ⟨pre, rest, rfl, one⟩ := eq_append_cons_of_mem some_update
    by_cases ha : messageUpdate ∈ rest
    · obtain ⟨mid, after, rfl, two⟩ := eq_append_cons_of_mem ha
      exact .inr ⟨pre, mid, after, by simp, one, two⟩
    · left
      rw [count_append, count_cons_self, count_eq_zero.mpr one, count_eq_zero.mpr ha]
  · exact .inl (by rw [count_eq_zero.mpr some_update]; exact Nat.zero_le 1)

end Stored

/-- Between two updates a fixed step starts and ends and the rest of a frame runs.  So a message
is stored through a fixed step and an `Update` phase that start after it is written, or to the
end of the run. -/
theorem message_outlives_frame (counts : List ℕ) :
    (∀ before middle after, MainLoop.initial.trace counts =
        before ++ messageUpdate :: middle ++ messageUpdate :: after →
      [fixedBegin, fixedEnd] <:+: middle ∧ ∃ count, restOfFrame count <+: middle) ∧
    ∀ (M : Type) (index : ℕ) (queue : MessageQueue M) (message : M) (written : ℕ → List M),
      ∃ during, during <+: (MainLoop.initial.trace counts).drop index ∧
        (∀ passed, passed <+: during →
          Stored (queue.counter, message) (carry (queue.write message).1 written passed)) ∧
        (during = (MainLoop.initial.trace counts).drop index ∨
          [fixedBegin, fixedEnd] <:+: during ∧ [updateBegin, updateEnd] <:+: during) := by
  have hsa : MainLoop.initial.Between false := ⟨rfl, rfl, rfl⟩
  rw [hsa.trace]
  refine ⟨fun before middle after hs => between_updates hs, ?_⟩
  intro M i queue message written
  have hn : (queue.counter, message) ∈ (queue.write message).1.messagesB.messages :=
    mem_append_right _ mem_cons_self
  have hst (during : List Event) (ho : during.count messageUpdate ≤ 1) (passed : List Event)
      (hr : passed <+: during) :
      Stored (queue.counter, message) (carry (queue.write message).1 written passed) :=
    stored_carry written (.inl ⟨hn, (hr.sublist.count_le _).trans ho⟩)
  obtain ho | ⟨before, middle, after, hs, hf, second⟩ :=
    count_update_le_one_or ((traceFrom false counts).drop i)
  · exact ⟨_, prefix_rfl, hst _ ho, .inl rfl⟩
  · -- the message is dropped by the second update
    have hw : traceFrom false counts =
        ((traceFrom false counts).take i ++ before) ++ messageUpdate :: middle ++
          messageUpdate :: after := by
      refine (take_append_drop i _).symm.trans ?_
      rw [hs]
      simp
    obtain ⟨hfi, count, hre⟩ := between_updates hw
    refine ⟨before ++ messageUpdate :: middle, hs ▸ prefix_append .., hst _ ?_, .inr ⟨?_, ?_⟩⟩
    · rw [count_append, count_cons_self, count_eq_zero.mpr hf, count_eq_zero.mpr second]
    · exact infix_append_of_infix_right (infix_cons hfi)
    · exact infix_append_of_infix_right
        (infix_cons ((update_infix_restOfFrame count).trans hre.isInfix))

end Voker.App
