import Mathlib.Data.List.Range
import Voker.Ecs.Message.Queue

/-!
# Reading messages

The two sequences of a queue hold consecutive numbers, up to the counter; what comes before
was removed, by `clear` or `drain` or by two updates (`Ordered`).

A cursor that points into the older sequence lies before the start of the newer one, so its
position in the newer sequence wraps around and **the newer sequence is left out**.  A read
yields what it should exactly if what is unread lies in one sequence (`OneSided`), and a
cursor whose reads are all like that sees every message at most once, in order, and misses
only messages that were removed (`run_reads_iff`).
-/

namespace Voker.Ecs

open Nat (mod_eq_of_lt not_lt_zero le_add_right le_succ_of_le succ_le_succ sub_le zero_le)
open Foundation List Option Function Prod MessageWithKeyIter MessageQueue Reader

variable {M : Type}

/-! ## Arithmetic -/

variable {y x : ℕ}

theorem wrappingAdd_eq (fits : x + y < usizeSize) : wrappingAdd x y = x + y :=
  mod_eq_of_lt fits

theorem wrappingSub_eq (ordered : y ≤ x) (fits : x < usizeSize) : wrappingSub x y = x - y := by
  unfold wrappingSub usizeSize at *
  omega

theorem wrappingSub_of_lt (hl : x < y) (fits : y < usizeSize) :
    wrappingSub x y = usizeSize - (y - x) := by
  unfold wrappingSub usizeSize at *
  omega

theorem sliceFrom_eq {α : Type} (s : List α) (index : ℕ) :
    sliceFrom s index = s.drop index := by
  unfold sliceFrom
  split
  · rfl
  · next hb => exact (drop_eq_nil_of_le (Nat.le_of_not_le hb)).symm

theorem numbered_spec {count : ℕ} {m : List M} (fits : count + m.length < usizeSize) :
    (numbered count m).1.map fst = range' count m.length ∧
      (numbered count m).2 = count + m.length := by
  induction m generalizing count with
  | nil => exact ⟨rfl, rfl⟩
  | cons me m ih =>
    rw [length_cons] at fits
    unfold numbered
    rw [wrappingAdd_eq (by omega)]
    obtain ⟨hk, next⟩ := ih (show count + 1 + m.length < usizeSize by omega)
    refine ⟨?_, ?_⟩
    · rw [map_cons, hk, length_cons, range'_succ]
    · rw [next, length_cons]
      omega

/-- Which of some consecutively numbered messages have at least a certain number. -/
theorem filter_numbered {e : List (ℕ × M)} {s : ℕ}
    (hk : e.map fst = range' s e.length) (bound : ℕ) :
    e.filter (fun en => bound ≤ en.1) = e.drop (bound - s) := by
  induction e generalizing s with
  | nil => rw [filter_nil, drop_nil]
  | cons en e ih =>
    rw [map_cons, length_cons, range'_succ, cons.injEq] at hk
    obtain ⟨he, ht⟩ := hk
    rw [filter_cons, ih ht]
    by_cases hr : bound ≤ s
    · rw [he, if_pos (decide_eq_true hr), Nat.sub_eq_zero_of_le hr,
        Nat.sub_eq_zero_of_le (by omega), drop_zero, drop_zero]
    · rw [he, if_neg (by simpa using hr),
        show bound - s = (bound - (s + 1)) + 1 by omega, drop_succ_cons]

namespace Channel

/-! ## What a queue holds -/

/-- A message was removed by `clear` or `drain`, or by two updates. -/
def Removed (channel : Channel M) (index : ℕ) : Prop :=
  index < channel.purged ∨
    ∃ epoch, channel.epochs[index]? = some epoch ∧ epoch + 2 ≤ channel.updates

/-- The sequences hold the latest messages, consecutively; earlier ones were removed. -/
structure Ordered (channel : Channel M) : Prop where
  older : channel.queue.messagesA.messages.map fst =
    range' channel.queue.messagesA.startId channel.queue.messagesA.messages.length
  newer : channel.queue.messagesB.messages.map fst =
    range' channel.queue.messagesB.startId channel.queue.messagesB.messages.length
  joined : channel.queue.messagesA.startId + channel.queue.messagesA.messages.length =
    channel.queue.messagesB.startId
  full : channel.queue.messagesB.startId + channel.queue.messagesB.messages.length =
    channel.queue.counter
  counter : channel.queue.counter = channel.epochs.length
  removed : ∀ index < channel.queue.messagesA.startId, channel.Removed index
  aged : ∀ (index epoch : ℕ), channel.epochs[index]? = some epoch → epoch ≤ channel.updates ∧
    (channel.queue.messagesA.startId ≤ index → index < channel.queue.messagesB.startId →
      epoch + 1 ≤ channel.updates)
  purged : channel.purged ≤ channel.epochs.length

variable {channel : Channel M}

theorem ordered_new : (new : Channel M).Ordered where
  older := rfl
  newer := rfl
  joined := rfl
  full := rfl
  counter := rfl
  removed := fun _ ha => absurd ha (not_lt_zero _)
  aged := fun _ _ ha => nomatch ha
  purged := le_rfl

variable {count : ℕ} {reader : Reader} {iter : MessageWithKeyIter M} {op : ChannelOp M}
  {next : Channel M}

theorem advance_eq {count : ℕ} {iter : MessageWithKeyIter M}
    (fits : iter.cursor.lastIndex + count < usizeSize) :
    iter.advance count = ⟨iter.cursor.lastIndex + count⟩ := by
  rw [advance, wrappingAdd_eq fits]

/-- Only the value of a message changes. -/
theorem keys_replaceAt (s : MessageSequence M) (index : ℕ) (v : M) :
    (replaceAt s index v).messages.map fst = s.messages.map fst := by
  refine ext_getElem? fun p => ?_
  unfold replaceAt
  rw [getElem?_map, getElem?_map, getElem?_modify]
  split
  · cases s.messages[p]? with
    | none => rfl
    | some e => rfl
  · cases s.messages[p]? with
    | none => rfl
    | some e => rfl

theorem length_replaceAt (s : MessageSequence M) (index : ℕ) (v : M) :
    (replaceAt s index v).messages.length = s.messages.length :=
  length_modify ..

/-- What was removed stays removed, and what was written stays written. -/
def Grows (before after : Channel M) : Prop :=
  before.epochs.length ≤ after.epochs.length ∧ ∀ index, before.Removed index → after.Removed index

theorem grows_recordWrites (q : MessageQueue M) (count : ℕ) :
    Grows channel (channel.recordWrites q count) := by
  refine ⟨?_, fun index hre => hre.imp_right ?_⟩
  · change _ ≤ (channel.epochs ++ replicate count channel.updates).length
    rw [length_append]
    exact le_add_right _ _
  · rintro ⟨e, hr, old⟩
    have hin := (List.getElem?_eq_some_iff.mp hr).1
    exact ⟨e, (getElem?_append_left hin).trans hr, old⟩

theorem grows_recordUpdate (q : MessageQueue M) : Grows channel (channel.recordUpdate q) := by
  refine ⟨le_rfl, fun index hre => hre.imp_right ?_⟩
  rintro ⟨e, hr, old⟩
  exact ⟨e, hr, le_succ_of_le old⟩

section

variable (ordered : channel.Ordered)

include ordered

/-- Messages are written. -/
theorem Ordered.writes {e : List (ℕ × M)} {next : ℕ} (hs : e.length = count)
    (hk : e.map fst = range' channel.queue.counter count)
    (hc : next = channel.queue.counter + count) :
    (channel.recordWrites { channel.queue.push e with counter := next } count).Ordered where
  older := ordered.older
  newer := by
    change (channel.queue.messagesB.messages ++ e).map fst = range'
      channel.queue.messagesB.startId (channel.queue.messagesB.messages ++ e).length
    rw [map_append, ordered.newer, hk, length_append, hs, ← ordered.full,
      range'_append_1]
  joined := ordered.joined
  full := by
    change channel.queue.messagesB.startId +
      (channel.queue.messagesB.messages ++ e).length = next
    rw [length_append, ← add_assoc, ordered.full, hc, hs]
  counter := by
    change next = (channel.epochs ++ replicate count channel.updates).length
    rw [length_append, length_replicate, hc, ordered.counter]
  removed := fun index he => (grows_recordWrites _ _).2 index (ordered.removed index he)
  aged := by
    intro index ep hr
    change (channel.epochs ++ replicate count channel.updates)[index]? = some ep at hr
    rw [getElem?_append] at hr
    split at hr
    · exact ordered.aged index ep hr
    · next hl =>
      have hsa := eq_of_mem_replicate (mem_of_getElem? hr)
      refine ⟨hsa.le, fun _ he => absurd ?_ hl⟩
      change index < channel.queue.messagesB.startId at he
      have full := ordered.full
      have counter := ordered.counter
      omega
  purged := ordered.purged.trans (grows_recordWrites channel.queue count).1

/-- All messages are removed. -/
theorem Ordered.purge : (channel.recordPurge channel.queue.clear).Ordered where
  older := rfl
  newer := rfl
  joined := rfl
  full := rfl
  counter := ordered.counter
  removed := fun index he => .inl (by
    change index < channel.queue.counter at he
    rwa [ordered.counter] at he)
  aged := fun index e hr =>
    ⟨(ordered.aged index e hr).1, fun hl he => absurd he (Nat.not_lt_of_le hl)⟩
  purged := le_rfl

/-- The older sequence is dropped, and the newer one becomes the older one. -/
theorem Ordered.rotate : (channel.recordUpdate channel.queue.update).Ordered where
  older := ordered.newer
  newer := rfl
  joined := ordered.full
  full := rfl
  counter := ordered.counter
  removed := by
    intro index he
    change index < channel.queue.messagesB.startId at he
    by_cases hg : index < channel.queue.messagesA.startId
    · exact (grows_recordUpdate _).2 index (ordered.removed index hg)
    · have hw : index < channel.epochs.length := by
        have full := ordered.full
        have counter := ordered.counter
        omega
      have hr := getElem?_eq_getElem hw
      have old := (ordered.aged index _ hr).2 (Nat.le_of_not_lt hg) he
      exact .inr ⟨_, hr, succ_le_succ old⟩
  aged := fun index e hr =>
    have hy := (ordered.aged index e hr).1
    ⟨le_succ_of_le hy, fun _ _ => succ_le_succ hy⟩
  purged := ordered.purged

theorem Ordered.getMut (id : ℕ) (v : M) :
    ({ channel with queue := channel.queue.getMut id v } : Channel M).Ordered := by
  unfold MessageQueue.getMut
  split
  · exact ordered
  · split
    · refine ⟨?_, ordered.newer, ?_, ordered.full, ordered.counter, ordered.removed, ordered.aged,
        ordered.purged⟩
      · dsimp only
        rw [keys_replaceAt, length_replaceAt]
        exact ordered.older
      · dsimp only
        rw [length_replaceAt]
        exact ordered.joined
    · refine ⟨ordered.older, ?_, ordered.joined, ?_, ordered.counter, ordered.removed, ordered.aged,
        ordered.purged⟩
      · dsimp only
        rw [keys_replaceAt, length_replaceAt]
        exact ordered.newer
      · dsimp only
        rw [length_replaceAt]
        exact ordered.full

end

/-! ## What a read starts with -/

/-- The first message a cursor can still read, or the next one to be written. -/
def position (queue : MessageQueue M) (cursor : MessageCursor) : ℕ :=
  max cursor.lastIndex queue.messagesA.startId

/-- What is unread lies in one sequence. -/
def OneSided (queue : MessageQueue M) (cursor : MessageCursor) : Prop :=
  queue.messagesB.messages.length = 0 ∨ queue.messagesB.startId ≤ position queue cursor

section

variable (ordered : channel.Ordered) (fits : channel.epochs.length < usizeSize)
  {cursor : MessageCursor} (bound : cursor.lastIndex ≤ channel.epochs.length)
include ordered

theorem Ordered.position_le (bound : cursor.lastIndex ≤ channel.epochs.length) :
    position channel.queue cursor ≤ channel.queue.counter := by
  obtain ⟨-, -, hj, hf, hc, -⟩ := ordered
  unfold position
  omega

/-- What is stored is numbered consecutively. -/
theorem Ordered.keys_stored :
    (channel.queue.messagesA.messages ++ channel.queue.messagesB.messages).map fst =
      range' channel.queue.messagesA.startId
        (channel.queue.messagesA.messages ++ channel.queue.messagesB.messages).length := by
  rw [map_append, ordered.older, ordered.newer, ← ordered.joined, range'_append_1, length_append]

/-- What is unread is stored from the position on. -/
theorem Ordered.unread_eq : unread channel.queue cursor =
    (channel.queue.messagesA.messages ++ channel.queue.messagesB.messages).drop
      (position channel.queue cursor - channel.queue.messagesA.startId) := by
  unfold Reader.unread
  rw [filter_numbered ordered.keys_stored]
  congr 1
  unfold position
  omega

theorem Ordered.unread_append : unread channel.queue cursor = channel.queue.messagesA.messages.drop
        (position channel.queue cursor - channel.queue.messagesA.startId) ++
      channel.queue.messagesB.messages.drop
        (position channel.queue cursor - channel.queue.messagesB.startId) := by
  rw [ordered.unread_eq, drop_append, Nat.sub_sub, ordered.joined]

theorem Ordered.length_stored : channel.queue.messagesA.startId +
    (channel.queue.messagesA.messages ++ channel.queue.messagesB.messages).length =
      channel.queue.counter := by
  rw [length_append, ← Nat.add_assoc, ordered.joined, ordered.full]

theorem Ordered.length_unread : (unread channel.queue cursor).length =
    channel.queue.counter - position channel.queue cursor := by
  have hl : channel.queue.messagesA.startId ≤ position channel.queue cursor := le_max_right _ _
  have ht := ordered.length_stored
  rw [ordered.unread_eq, length_drop]
  omega

theorem Ordered.keys_unread : (unread channel.queue cursor).map fst =
    range' (position channel.queue cursor) (unread channel.queue cursor).length := by
  have hl : channel.queue.messagesA.startId ≤ position channel.queue cursor := le_max_right _ _
  rw [ordered.unread_eq, map_drop, ordered.keys_stored, drop_range', length_drop]
  congr 1
  omega

include fits bound

theorem Ordered.len_eq : cursor.len channel.queue =
    channel.queue.counter - position channel.queue cursor := by
  have ht := ordered.length_stored
  have hc := ordered.counter
  unfold MessageCursor.len len position
  rw [wrappingSub_eq (by omega) (by omega), ← length_append]
  omega

/-- **`MessageWithKeyIter::new`**: the newer sequence is left out if the position is in the
older one. -/
theorem Ordered.new_eq : MessageWithKeyIter.new cursor channel.queue =
    ⟨⟨position channel.queue cursor⟩, channel.queue.messagesA.messages.drop
          (position channel.queue cursor - channel.queue.messagesA.startId) ++
        (if channel.queue.messagesB.startId ≤ position channel.queue cursor then
          channel.queue.messagesB.messages.drop
            (position channel.queue cursor - channel.queue.messagesB.startId)
        else []), channel.queue.counter - position channel.queue cursor⟩ := by
  have hr := ordered.position_le bound
  have hl : channel.queue.messagesA.startId ≤ position channel.queue cursor := le_max_right _ _
  have hc := ordered.counter
  have hf := ordered.full
  have hs : wrappingSub channel.queue.counter
      (channel.queue.counter - position channel.queue cursor) = position channel.queue cursor := by
    rw [wrappingSub_eq (sub_le _ _) (by omega)]
    omega
  unfold MessageWithKeyIter.new
  dsimp only
  rw [ordered.len_eq fits bound, hs, wrappingSub_eq hl (by omega), sliceFrom_eq]
  congr 2
  split
  · next hn => rw [wrappingSub_eq hn (by omega), sliceFrom_eq]
  · next ho =>
    -- the position wraps around to beyond the end
    rw [wrappingSub_of_lt (by omega) (by omega)]
    exact if_neg (by omega)

theorem Ordered.chain_sublist : (MessageWithKeyIter.new cursor channel.queue).chain.Sublist
    (unread channel.queue cursor) := by
  rw [ordered.new_eq fits bound, ordered.unread_append]
  refine (List.Sublist.refl _).append ?_
  split
  · exact List.Sublist.refl _
  · exact nil_sublist _

/-- **A read yields what is unread exactly if that lies in one sequence.** -/
theorem Ordered.chain_eq_iff :
    (MessageWithKeyIter.new cursor channel.queue).chain = unread channel.queue cursor ↔
      OneSided channel.queue cursor := by
  rw [ordered.new_eq fits bound, ordered.unread_append, append_cancel_left_eq]
  unfold OneSided
  split
  · next hn => exact iff_of_true rfl (.inr hn)
  · next ho =>
    rw [show position channel.queue cursor - channel.queue.messagesB.startId = 0 by omega,
      drop_zero, or_iff_left ho, length_eq_zero_iff, eq_comm]

theorem Ordered.asserted_iff : (MessageWithKeyIter.new cursor channel.queue).asserted = true ↔
      OneSided channel.queue cursor := by
  rw [← ordered.chain_eq_iff fits bound]
  have unread : (MessageWithKeyIter.new cursor channel.queue).unread =
      (unread channel.queue cursor).length := by
    rw [ordered.new_eq fits bound, ordered.length_unread]
  unfold MessageWithKeyIter.asserted
  rw [decide_eq_true_iff, unread]
  -- the chain is a part of what is unread, so the lengths decide
  exact ⟨fun hs => (ordered.chain_sublist fits bound).eq_of_length hs.symm,
    fun hs => by rw [hs]⟩

end

/-! ## What a cursor has seen -/

/-- The cursor has yielded messages in order, and what lies behind it was yielded, passed
over by its user, or removed. -/
structure Tracked (channel : Channel M) (reader : Reader) : Prop where
  bound : reader.cursor.lastIndex ≤ channel.epochs.length
  started : reader.first ≤ reader.cursor.lastIndex
  inOrder : reader.seen.Pairwise (· < ·)
  range : ∀ index ∈ reader.seen, reader.first ≤ index ∧ index < reader.cursor.lastIndex
  covered : ∀ index, reader.first ≤ index → index < reader.cursor.lastIndex →
    index ∈ reader.seen ∨ index ∈ reader.skipped ∨ channel.Removed index

variable {after : Channel M} {Meets : ChannelOp M → Channel M → Channel M → Prop}
  {P : Channel M → Reader → Prop} {session : Session M}

theorem Tracked.mono (ht : Tracked channel reader) (hg : Grows channel after) :
    Tracked after reader where
  bound := ht.bound.trans hg.1
  started := ht.started
  inOrder := ht.inOrder
  range := ht.range
  covered := fun index hl he =>
    (ht.covered index hl he).imp_right (Or.imp_right (hg.2 index))

/-- The cursor moves on, and yields some of the messages on the way. -/
theorem Tracked.advance (ht : Tracked channel reader) {t : ℕ} {yi p : List ℕ}
    (hf : reader.cursor.lastIndex ≤ t) (bound : t ≤ channel.epochs.length)
    (inOrder : yi.Pairwise (· < ·))
    (range : ∀ index ∈ yi, reader.cursor.lastIndex ≤ index ∧ index < t)
    (covered : ∀ index, reader.cursor.lastIndex ≤ index → index < t → index ∈ yi ∨
      index ∈ p ∨ channel.Removed index) :
    Tracked channel ⟨⟨t⟩, reader.first, reader.seen ++ yi, reader.skipped ++ p⟩ where
  bound := bound
  started := ht.started.trans hf
  inOrder := by
    refine pairwise_append.mpr ⟨ht.inOrder, inOrder, fun e hs late new => ?_⟩
    exact (ht.range e hs).2.trans_le (range late new).1
  range := by
    intro index mem
    have started := ht.started
    rcases mem_append.mp mem with hs | new
    · have hk := ht.range index hs
      exact ⟨hk.1, hk.2.trans_le hf⟩
    · have hk := range index new
      exact ⟨started.trans hk.1, hk.2⟩
  covered := by
    intro index late e
    rw [mem_append, mem_append]
    by_cases hb : index < reader.cursor.lastIndex
    · rcases ht.covered index late hb with hs | hsk | hr
      · exact .inl (.inl hs)
      · exact .inr (.inl (.inl hsk))
      · exact .inr (.inr hr)
    · rcases covered index (Nat.le_of_not_lt hb) e with hs | hsk | hr
      · exact .inl (.inr hs)
      · exact .inr (.inl (.inr hsk))
      · exact .inr (.inr hr)

/-- The iterator holds the messages from the cursor to the counter. -/
structure Aligned (channel : Channel M) (iter : MessageWithKeyIter M) : Prop where
  keys : iter.chain.map fst = range' iter.cursor.lastIndex iter.chain.length
  unread : iter.unread = iter.chain.length
  full : iter.cursor.lastIndex + iter.chain.length = channel.epochs.length

section

variable (aligned : Aligned channel iter)

include aligned

variable {index : ℕ}

/-- The message at a place of the chain. -/
theorem Aligned.key_eq {p : ℕ} {item : ℕ × M} (hf : iter.chain[p]? = some item) :
    item.1 = iter.cursor.lastIndex + p := by
  have key : (iter.chain.map fst)[p]? = some item.1 := by
    rw [getElem?_map, hf]
    rfl
  have hin : p < iter.chain.length := (List.getElem?_eq_some_iff.mp hf).1
  rw [aligned.keys, getElem?_range' hin] at key
  have hs := some.inj key
  omega

/-- What remains after a number of messages. -/
theorem Aligned.drop (hin : count ≤ iter.chain.length) :
    Aligned channel
      ⟨⟨iter.cursor.lastIndex + count⟩, iter.chain.drop count, iter.unread - count⟩ where
  keys := by
    rw [map_drop, aligned.keys, drop_range', length_drop, mul_one]
  unread := by rw [aligned.unread, length_drop]
  full := by
    have full := aligned.full
    rw [length_drop]
    change iter.cursor.lastIndex + count + _ = _
    omega

end

/-- A read in progress. -/
structure Reading (channel : Channel M) (first : ℕ) (session : Session M) : Prop where
  tracked : Tracked channel ⟨session.iter.cursor, first, session.seen, session.skipped⟩
  aligned : Aligned channel session.iter

section

variable {one : ℕ} {session : Session M} (reading : Reading channel one session)
  (fits : channel.epochs.length < usizeSize)
include reading fits

/-- The message at a place of the chain is yielded, and those before it are passed over. -/
theorem Reading.yield {p : ℕ} {item : ℕ × M} (hf : session.iter.chain[p]? = some item) :
    Reading channel one ⟨⟨session.iter.advance (p + 1), session.iter.chain.drop (p + 1),
          session.iter.unread - (p + 1)⟩, session.seen ++ [item.1],
        session.skipped ++ (session.iter.chain.take p).map fst⟩ := by
  have hin : p < session.iter.chain.length := (List.getElem?_eq_some_iff.mp hf).1
  have hfu := reading.aligned.full
  have key := reading.aligned.key_eq hf
  rw [advance_eq (by omega)]
  refine ⟨reading.tracked.advance ?_ ?_ (pairwise_singleton _ _) ?_ ?_, reading.aligned.drop hin⟩
  · exact le_add_right _ _
  · omega
  · intro index mem
    rw [mem_singleton.mp mem]
    change session.iter.cursor.lastIndex ≤ item.1 ∧ _
    omega
  · intro index hl he
    change session.iter.cursor.lastIndex ≤ index at hl
    rw [mem_singleton, map_take, reading.aligned.keys, take_range'_of_length_ge hin.le,
      mem_range'_1, key]
    omega

/-- The whole chain is passed over. -/
theorem Reading.passAll : Tracked channel
    ⟨session.iter.advance session.iter.unread, one, session.seen,
      session.skipped ++ session.iter.chain.map fst⟩ := by
  have hf := reading.aligned.full
  have hm : session.iter.advance session.iter.unread = ⟨channel.epochs.length⟩ := by
    rw [reading.aligned.unread, advance_eq (by omega), hf]
  rw [hm]
  have hp : Tracked channel ⟨⟨channel.epochs.length⟩, one, session.seen ++ [],
      session.skipped ++ session.iter.chain.map fst⟩ :=
    reading.tracked.advance reading.tracked.bound le_rfl List.Pairwise.nil
      (fun _ ha => nomatch ha) fun index hl he =>
        .inr (.inl (by rw [reading.aligned.keys, mem_range'_1, hf]; exact ⟨hl, he⟩))
  rwa [append_nil] at hp

theorem Reading.call (r : ReadCall) : Reading channel one (session.call r) := by
  cases r with
  | next =>
    unfold Session.call MessageWithKeyIter.next
    cases hl : session.iter.chain with
    | nil =>
      rw [take_nil, map_nil, append_nil]
      exact reading
    | cons item rest =>
      have he : session.iter.chain[0]? = some item := by rw [hl, getElem?_cons_zero]
      have hy := reading.yield fits he
      rw [hl, take_zero, map_nil, append_nil] at hy
      exact hy
  | nth n =>
    unfold Session.call MessageWithKeyIter.nth
    dsimp only
    cases hf : session.iter.chain[n]? with
    | some item =>
      have hin : n < session.iter.chain.length := (List.getElem?_eq_some_iff.mp hf).1
      have hfu := reading.aligned.full
      have hs : min (n + 1) (usizeSize - 1) = n + 1 := by omega
      simp only [hs]
      exact reading.yield fits hf
    | none =>
      have hb := getElem?_eq_none_iff.mp hf
      have hp := reading.passAll fits
      simp only [toList_none, map_nil, append_nil, take_of_length_le hb]
      refine ⟨hp, ⟨rfl, rfl, ?_⟩⟩
      have hfu := reading.aligned.full
      rw [reading.aligned.unread, advance_eq (by omega)]
      exact hfu

theorem Reading.finish (how : ReadEnd) : Tracked channel (session.finish one how) := by
  cases how with
  | drop => exact reading.tracked
  | count => exact reading.passAll fits
  | last =>
    unfold Session.finish last
    rcases eq_nil_or_concat session.iter.chain with hn | ⟨f, item, hl⟩
    · rw [hn]
      simpa using reading.tracked
    · have hf : session.iter.chain[f.length]? = some item := by
        rw [hl, concat_eq_append, getElem?_concat_length]
      have hy := (reading.yield fits hf).tracked
      have ht : session.iter.unread = f.length + 1 := by
        rw [reading.aligned.unread, hl, length_concat]
      rw [hl, concat_eq_append, getLast?_concat, dropLast_concat]
      rw [hl, concat_eq_append, take_left'] at hy
      · dsimp only
        rw [ht]
        exact hy
      · rfl

end

/-- A read that starts with all that is unread keeps the cursor in order. -/
theorem Tracked.read (ht : Tracked channel reader) (ordered : channel.Ordered)
    (fits : channel.epochs.length < usizeSize) (hos : OneSided channel.queue reader.cursor)
    (c : List ReadCall) (how : ReadEnd) :
    Tracked channel (reader.read channel.queue c how) := by
  have hco := ordered.counter
  have hc := (ordered.chain_eq_iff fits ht.bound).mpr hos
  have hs := ordered.new_eq fits ht.bound
  have hr := ordered.position_le ht.bound
  have cursor : (MessageWithKeyIter.new reader.cursor channel.queue).cursor =
      ⟨position channel.queue reader.cursor⟩ := by rw [hs]
  have ho : Reading channel reader.first
      ⟨MessageWithKeyIter.new reader.cursor channel.queue, reader.seen, reader.skipped⟩ := by
    refine ⟨?_, ⟨?_, ?_, ?_⟩⟩
    · -- the cursor first moves up to the oldest message
      have hm : Tracked channel ⟨⟨position channel.queue reader.cursor⟩, reader.first,
          reader.seen ++ [], reader.skipped ++ []⟩ := by
        refine ht.advance (le_max_left _ _) (by omega) List.Pairwise.nil
          (fun _ ha => nomatch ha) fun index hl he => .inr (.inr ?_)
        refine ordered.removed index ?_
        unfold position at he
        omega
      rw [append_nil, append_nil] at hm
      rw [cursor]
      exact hm
    · rw [hc, cursor]
      exact ordered.keys_unread
    · rw [hc, ordered.length_unread, hs]
    · rw [hc, cursor, ordered.length_unread]
      change position channel.queue reader.cursor + _ = _
      omega
  have hca : Reading channel reader.first (c.foldl Session.call _) :=
    foldlRecOn c _ ho fun _ reading r _ => reading.call fits r
  exact hca.finish fits how

/-! ## Runs -/

/-- Nothing that concerns the queue changes. -/
theorem Grows.refl : Grows channel channel := ⟨le_rfl, fun _ hr => hr⟩

theorem Ordered.extend (ordered : channel.Ordered) {m : List M}
    (fits : channel.epochs.length + m.length < usizeSize) :
    (channel.recordWrites (channel.queue.extend m) m.length).Ordered := by
  rw [← ordered.counter] at fits
  obtain ⟨hk, hc⟩ := numbered_spec fits
  have hs : (numbered channel.queue.counter m).1.length = m.length := by
    have hl := congrArg length hk
    rwa [length_map, length_range'] at hl
  exact ordered.writes hs hk hc

/-- **The queue stays in order**, below the limit of its counter. -/
theorem Ordered.step (ordered : channel.Ordered) (hs : step op channel = some next)
    (fits : next.epochs.length < usizeSize) : next.Ordered ∧ Grows channel next := by
  have hu : ∀ readers, ({ channel with readers := readers } : Channel M).Ordered ∧
      Grows channel { channel with readers := readers } := fun _ =>
    ⟨⟨ordered.older, ordered.newer, ordered.joined, ordered.full, ordered.counter,
      ordered.removed, ordered.aged, ordered.purged⟩, Grows.refl⟩
  have hw : ∀ count, (channel.epochs ++ replicate count channel.updates).length =
      channel.epochs.length + count := fun count => by
    rw [length_append, length_replicate]
  cases op with
  | write me =>
    cases hs
    change (channel.epochs ++ replicate 1 channel.updates).length < _ at fits
    rw [hw, ← ordered.counter] at fits
    exact ⟨ordered.writes rfl rfl (wrappingAdd_eq fits), grows_recordWrites _ _⟩
  | writeBatch m | extend m =>
    cases hs
    change (channel.epochs ++ replicate m.length channel.updates).length < _ at fits
    rw [hw] at fits
    exact ⟨ordered.extend fits, grows_recordWrites _ _⟩
  | update | updateDrain =>
    cases hs
    exact ⟨ordered.rotate, grows_recordUpdate _⟩
  | drain | clear =>
    cases hs
    exact ⟨ordered.purge, le_rfl, fun _ hr =>
      hr.imp_left fun he => he.trans_le ordered.purged⟩
  | getMut id v =>
    cases hs
    exact ⟨ordered.getMut id v, Grows.refl⟩
  | newCursor key | defaultCursor key =>
    cases hs
    exact hu _
  | copyCursor s t | clearCursor key | read key c how =>
    obtain ⟨reader, -, rfl⟩ := map_eq_some_iff.mp hs
    exact hu _

/-- An operation may only read if what is unread lies in one sequence. -/
def ReadsOneSided (op : ChannelOp M) (before _after : Channel M) : Prop :=
  ∀ key calls finish, op = .read key calls finish → ∀ reader, before.readers key = some reader →
    OneSided before.queue reader.cursor

instance (queue : MessageQueue M) (cursor : MessageCursor) : Decidable (OneSided queue cursor) :=
  inferInstanceAs (Decidable (_ ∨ _))

/-- How to find out. -/
def readsOneSided (before : Channel M) : ChannelOp M → Bool
  | .read key _ _ => (before.readers key).all fun reader => OneSided before.queue reader.cursor
  | _ => true

theorem readsOneSided_of {pre : Channel M} (hf : readsOneSided pre op = true) :
    ReadsOneSided op pre after := by
  rintro key c how rfl reader hp
  change (pre.readers key).all _ = true at hf
  rw [hp] at hf
  exact of_decide_eq_true hf

/-- A property of cursors that lasts while the channel grows, that holds of new and of
cleared cursors, and that reads keep. -/
structure Lasting (Meets : ChannelOp M → Channel M → Channel M → Prop)
    (P : Channel M → Reader → Prop) : Prop where
  mono : ∀ {before after : Channel M} {reader}, P before reader → Grows before after →
    P after reader
  fresh : ∀ {channel : Channel M} {first}, first ≤ channel.epochs.length →
    P channel ⟨⟨first⟩, first, [], []⟩
  clear : ∀ {channel : Channel M} {reader}, channel.Ordered → P channel reader →
    P channel { reader with
      cursor := MessageCursor.clear channel.queue
      skipped := reader.skipped ++ (unread channel.queue reader.cursor).map fst }
  read : ∀ {channel next : Channel M} {key calls finish reader}, channel.Ordered →
    channel.epochs.length < usizeSize → Meets (.read key calls finish) channel next →
    channel.readers key = some reader → P channel reader →
    P channel (reader.read channel.queue calls finish)

theorem Lasting.step (hl : Lasting Meets P) (ordered : channel.Ordered)
    (hs : step op channel = some next) (fits : next.epochs.length < usizeSize)
    (hm : Meets op channel next)
    (he : ∀ key reader, channel.readers key = some reader → P channel reader) :
    ∀ key reader, next.readers key = some reader → P next reader := by
  have hg := (ordered.step hs fits).2
  have hr : ∀ key reader, P channel reader → ∀ o hf,
      (channel.setReader key reader).readers o = some hf →
      P (channel.setReader key reader) hf := by
    intro key reader new o hf hp
    refine hl.mono (?_ : P channel hf) Grows.refl
    change update channel.readers key (some reader) o = some hf at hp
    rw [update_apply] at hp
    split at hp
    · cases hp
      exact new
    · exact he o hf hp
  have ho : channel.queue.oldestMessageIndex ≤ channel.epochs.length := by
    obtain ⟨-, -, hj, hfu, hc, -⟩ := ordered
    unfold oldestMessageIndex
    omega
  cases op with
  | write me | writeBatch m | extend m | update | updateDrain | drain | clear
  | getMut id v =>
    cases hs
    exact fun key reader hp => hl.mono (he key reader hp) hg
  | newCursor key =>
    cases hs
    exact hr key _ (hl.fresh ho)
  | defaultCursor key =>
    cases hs
    exact hr key _ (hl.fresh (zero_le _))
  | copyCursor s t =>
    obtain ⟨reader, hp, rfl⟩ := map_eq_some_iff.mp hs
    exact hr t reader (he s reader hp)
  | clearCursor key =>
    obtain ⟨reader, hp, rfl⟩ := map_eq_some_iff.mp hs
    exact hr key _ (hl.clear ordered (he key reader hp))
  | read key c how =>
    obtain ⟨reader, hp, rfl⟩ := map_eq_some_iff.mp hs
    exact hr key _ (hl.read ordered fits hm hp (he key reader hp))

/-- Messages are only ever written. -/
theorem length_le_of_step (hs : step op channel = some next) :
    channel.epochs.length ≤ next.epochs.length := by
  cases op with
  | write me | writeBatch m | extend m =>
    cases hs
    exact (grows_recordWrites _ _).1
  | update | updateDrain | drain | clear | getMut id v | newCursor key | defaultCursor key =>
    cases hs
    exact le_rfl
  | copyCursor s t | clearCursor key | read key c how =>
    obtain ⟨reader, -, rfl⟩ := map_eq_some_iff.mp hs
    exact le_rfl

/-- Below the limit of the counter, a lasting property holds of all cursors at the end of a
run whose steps meet the condition. -/
theorem Lasting.run (hl : Lasting Meets P) {ops : List (ChannelOp M)}
    (he : EachStep Channel.step Meets ops new)
    (ran : Foundation.run Channel.step ops new = some channel)
    (fits : channel.epochs.length < usizeSize) :
    channel.Ordered ∧ ∀ key reader, channel.readers key = some reader → P channel reader := by
  have hk : ∀ op (pre after : Channel M), (pre.epochs.length < usizeSize → pre.Ordered ∧
        ∀ key reader, pre.readers key = some reader → P pre reader) →
      Channel.step op pre = some after → Meets op pre after →
      after.epochs.length < usizeSize → after.Ordered ∧
        ∀ key reader, after.readers key = some reader → P after reader := by
    intro op pre after inv hs hm fits
    obtain ⟨ordered, hel⟩ := inv ((length_le_of_step hs).trans_lt fits)
    exact ⟨(ordered.step hs fits).1, hl.step ordered hs fits hm hel⟩
  exact he.invariant hk (fun _ => ⟨ordered_new, fun _ _ ha => nomatch ha⟩) ran fits

/-- A cursor whose reads are all one-sided is tracked. -/
theorem lasting_tracked : Lasting ReadsOneSided (Tracked (M := M)) where
  mono := Tracked.mono
  fresh := fun bound => ⟨bound, le_rfl, List.Pairwise.nil, (fun _ ha => nomatch ha),
    fun _ hl he => absurd he (Nat.not_lt_of_le hl)⟩
  clear := by
    intro channel reader ordered ht
    have hc := ordered.counter
    have hmo : Tracked channel ⟨⟨channel.queue.counter⟩, reader.first, reader.seen ++ [],
        reader.skipped ++ (unread channel.queue reader.cursor).map fst⟩ := by
      refine ht.advance (hc ▸ ht.bound) hc.le List.Pairwise.nil
        (fun _ ha => nomatch ha) fun index hl he => ?_
      by_cases hg : index < channel.queue.messagesA.startId
      · exact .inr (.inr (ordered.removed index hg))
      · refine .inr (.inl ?_)
        have hr : position channel.queue reader.cursor ≤ index := by
          unfold position
          omega
        rw [ordered.keys_unread, mem_range'_1, ordered.length_unread]
        omega
    rwa [append_nil] at hmo
  read := fun ordered fits hm hp ht =>
    ht.read ordered fits (hm _ _ _ rfl _ hp) _ _

/-- The cursor of an iterator does not run past the counter, whatever the chain holds. -/
def Bounded (channel : Channel M) (iter : MessageWithKeyIter M) : Prop :=
  iter.cursor.lastIndex + iter.unread ≤ channel.epochs.length ∧ iter.chain.length ≤ iter.unread

theorem Bounded.call (hbo : Bounded channel session.iter)
    (fits : channel.epochs.length < usizeSize) (r : ReadCall) :
    Bounded channel (session.call r).iter := by
  obtain ⟨hb, hfe⟩ := hbo
  cases r with
  | next =>
    unfold Session.call MessageWithKeyIter.next Bounded
    cases hl : session.iter.chain with
    | nil => exact ⟨hb, hfe⟩
    | cons item rest =>
      rw [hl, length_cons] at hfe
      rw [advance_eq (by omega)]
      dsimp only
      omega
  | nth n =>
    unfold Session.call MessageWithKeyIter.nth Bounded
    dsimp only
    cases hf : session.iter.chain[n]? with
    | some item =>
      have hin : n < session.iter.chain.length := (List.getElem?_eq_some_iff.mp hf).1
      rw [advance_eq (by omega), length_drop]
      dsimp only
      omega
    | none =>
      dsimp only
      rw [advance_eq (by omega)]
      exact ⟨hb, le_rfl⟩

theorem Bounded.finish (hbo : Bounded channel session.iter)
    (fits : channel.epochs.length < usizeSize) (one : ℕ) (how : ReadEnd) :
    (session.finish one how).cursor.lastIndex ≤ channel.epochs.length := by
  obtain ⟨hb, hf⟩ := hbo
  cases how with
  | drop => exact (le_add_right _ _).trans hb
  | count =>
    change (session.iter.advance session.iter.unread).lastIndex ≤ _
    rw [advance_eq (by omega)]
    exact hb
  | last =>
    unfold Session.finish last
    cases session.iter.chain.getLast? with
    | none => exact (le_add_right _ _).trans hb
    | some item =>
      rw [advance_eq (by omega)]
      exact hb

/-- No cursor runs past the counter. -/
theorem lasting_bound : Lasting (fun _ _ _ => True)
    fun (ch : Channel M) reader => reader.cursor.lastIndex ≤ ch.epochs.length where
  mono := fun bound hg => bound.trans hg.1
  fresh := fun bound => bound
  clear := fun ordered _ => ordered.counter.le
  read := by
    intro ch next key c how reader ordered fits _ _ bound
    have ho : Bounded ch (MessageWithKeyIter.new reader.cursor ch.queue) := by
      have hr := ordered.position_le bound
      have hco := ordered.counter
      have hf := (ordered.chain_sublist fits bound).length_le
      rw [ordered.length_unread] at hf
      unfold Bounded
      rw [ordered.new_eq fits bound] at hf ⊢
      dsimp only at hf ⊢
      omega
    have hc : Bounded ch (c.foldl Session.call ⟨_, reader.seen, reader.skipped⟩).iter :=
      @foldlRecOn _ _ (fun session : Session M => Bounded ch session.iter) c _ _ ho
        fun _ hb r _ => hb.call fits r
    exact hc.finish fits _ _

/-- Calls of `next` yield the chain. -/
theorem collect_eq (count : ℕ) (iter : MessageWithKeyIter M) :
    iter.collect count = iter.chain.take count := by
  induction count generalizing iter with
  | zero => rfl
  | succ count ih =>
    unfold collect
    rw [ih]
    unfold MessageWithKeyIter.next
    cases hl : iter.chain with
    | nil =>
      rw [hl, toList_none, take_nil, nil_append, take_nil]
    | cons item rest =>
      rw [toList_some, take_succ_cons, singleton_append]

/-- **What cursors read.**  In every run below the limit of the counter, a cursor's `len` is
the number of stored messages it has not passed, and a read of it, consumed to its end,
yields these in order (and its assertion holds) exactly if they lie in one sequence.  If
all reads of the run are like that, every cursor has seen messages in order and at most
once, and has missed only messages that its user passed over or that were removed. -/
theorem run_reads_iff {ops : List (ChannelOp M)} {channel : Channel M}
    (ran : run step ops new = some channel) (fits : channel.epochs.length < usizeSize) :
    (∀ key reader, channel.readers key = some reader →
      reader.cursor.len channel.queue = (unread channel.queue reader.cursor).length ∧
      (unread channel.queue reader.cursor).Pairwise (fun early late => early.1 < late.1) ∧
      ((∀ count ≥ channel.queue.len, (MessageWithKeyIter.new reader.cursor channel.queue).collect
          count = unread channel.queue reader.cursor) ↔ OneSided channel.queue reader.cursor) ∧
      ((MessageWithKeyIter.new reader.cursor channel.queue).asserted = true ↔
        OneSided channel.queue reader.cursor)) ∧
    (EachStep Channel.step ReadsOneSided ops new → ∀ key reader,
      channel.readers key = some reader → reader.seen.Pairwise (· < ·) ∧
      ∀ index, reader.first ≤ index → index < reader.cursor.lastIndex →
        index ∈ reader.seen ∨ index ∈ reader.skipped ∨ channel.Removed index) := by
  have any : EachStep Channel.step (fun _ _ _ => True) ops (new : Channel M) :=
    eachStep_of_forall (fun _ _ _ => trivial) ops new
  obtain ⟨ordered, hb⟩ := lasting_bound.run any ran fits
  refine ⟨fun key reader hp => ?_, fun hea key reader hp => ?_⟩
  · have bound := hb key reader hp
    refine ⟨?_, ?_, ?_, ordered.asserted_iff fits bound⟩
    · rw [ordered.len_eq fits bound, ordered.length_unread]
    · have hso : ((unread channel.queue reader.cursor).map fst).Pairwise (· < ·) := by
        rw [ordered.keys_unread]
        exact pairwise_lt_range'
      exact pairwise_map.mp hso
    · rw [← ordered.chain_eq_iff fits bound]
      have hs : (MessageWithKeyIter.new reader.cursor channel.queue).chain.length ≤
          channel.queue.len := by
        refine (ordered.chain_sublist fits bound).length_le.trans ?_
        rw [ordered.unread_eq, length_drop, length_append]
        exact sub_le _ _
      constructor
      · intro hc
        rw [← hc _ le_rfl, collect_eq, take_of_length_le hs]
      · intro hsa count he
        rw [collect_eq, take_of_length_le (hs.trans he), hsa]
  · have ht := (lasting_tracked.run hea ran fits).2 key reader hp
    exact ⟨ht.inOrder, ht.covered⟩

/-- Two messages, one before and one after an update; a cursor reads in between. -/
def eachUpdateRead : List (ChannelOp ℕ) :=
  [.newCursor 0, .write 7, .read 0 [.next] .drop, .update, .write 8, .read 0 [.next] .drop]

/-- A cursor that reads in every update sees both. -/
theorem run_reads_iff_each : ∃ channel : Channel ℕ, run step eachUpdateRead new = some channel ∧
    (channel.readers 0).map seen = some [0, 1] ∧
    ∀ reader, channel.readers 0 = some reader → reader.seen.Pairwise (· < ·) := by
  have ran : run step eachUpdateRead (new : Channel ℕ) = some _ := rfl
  have fits : 2 < usizeSize := by decide
  refine ⟨_, ran, by decide, fun reader hp => ?_⟩
  refine ((run_reads_iff ran fits).2 ?_ 0 reader hp).1
  iterate 6
    intro next hs
    cases hs
    refine ⟨readsOneSided_of (by decide), ?_⟩
  trivial

/-- A cursor that has not read before the update yields the first message only; counting
passes the second one by. -/
theorem second_message_missed : ∃ channel reader,
    run step [.newCursor 0, .write 7, .update, .write 8] (new : Channel ℕ) = some channel ∧
    channel.readers 0 = some reader ∧ unread channel.queue reader.cursor = [(0, 7), (1, 8)] ∧
    (MessageWithKeyIter.new reader.cursor channel.queue).collect 10 = [(0, 7)] ∧
    ∃ counted after, step (.read 0 [] .count) channel = some counted ∧
      counted.readers 0 = some after ∧ after.cursor.lastIndex = 2 ∧
      1 ∉ after.seen ∧ 1 ∉ after.skipped ∧ ¬ counted.Removed 1 := by
  refine ⟨_, _, rfl, rfl, by decide, by decide, _, _, rfl, rfl, by decide, by decide, by decide, ?_⟩
  rintro (he | ⟨e, hr, old⟩)
  · cases he
  · cases hr
    exact absurd old (by decide)

end Channel

end Voker.Ecs
