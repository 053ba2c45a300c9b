import Mathlib.Algebra.Group.Nat.Defs
import Voker.Foundation.Runs

/-!
# Message queues

Messages are numbered as they are written.  A queue keeps them in two sequences, those
written before the last update and those written since; an update drops the older sequence.
A cursor is the number of the next message to read.  To read, it is turned into a position
in each of the two sequences, by subtractions that **wrap around**.

A channel is a queue with the cursors that read from it.  While a cursor reads, the queue is
borrowed: a read is a sequence of calls of its iterator, with nothing in between.

The following is recorded that the source does not keep: how many updates had been made when
a message was written, how many messages had been written at the last `clear` or `drain`,
and which messages a cursor has yielded and which its user passed over.
-/

namespace Voker.Ecs

open Prod

/-- The number of values of `usize`. -/
def usizeSize : ℕ := 2 ^ 64

/-- `wrapping_add`. -/
def wrappingAdd (x y : ℕ) : ℕ := (x + y) % usizeSize

/-- `wrapping_sub`. -/
def wrappingSub (x y : ℕ) : ℕ := (x + (usizeSize - y)) % usizeSize

/-- `slice.get(index..).unwrap_or_default()`. -/
def sliceFrom {α : Type} (slice : List α) (index : ℕ) : List α :=
  if index ≤ slice.length then slice.drop index else []

/-- `MessageSequence`. -/
structure MessageSequence (M : Type) where
  messages : List (ℕ × M)
  startId : ℕ
  deriving DecidableEq, Repr

/-- `MessageQueue`. -/
structure MessageQueue (M : Type) where
  messagesA : MessageSequence M
  messagesB : MessageSequence M
  counter : ℕ
  deriving DecidableEq, Repr

variable {M : Type}

namespace MessageQueue

/-- `Default`. -/
def empty : MessageQueue M := ⟨⟨[], 0⟩, ⟨[], 0⟩, 0⟩

variable (queue : MessageQueue M)

/-- `len`. -/
def len : ℕ :=
  queue.messagesA.messages.length + queue.messagesB.messages.length

/-- `oldest_message_index`. -/
def oldestMessageIndex : ℕ := queue.messagesA.startId

/-- Push messages to the newer sequence. -/
def push (messages : List (ℕ × M)) : MessageQueue M :=
  { queue with messagesB := { queue.messagesB with
      messages := queue.messagesB.messages ++ messages } }

/-- `write`; returns the key. -/
def write (message : M) : MessageQueue M × ℕ :=
  ({ queue.push [(queue.counter, message)] with counter := wrappingAdd queue.counter 1 },
    queue.counter)

/-- The numbering in `extend`, and the next number. -/
def numbered (count : ℕ) : List M → List (ℕ × M) × ℕ
  | [] => ([], count)
  | message :: messages =>
    let rest := numbered (wrappingAdd count 1) messages
    ((count, message) :: rest.1, rest.2)

/-- `extend`. -/
def extend (messages : List M) : MessageQueue M :=
  let counted := numbered queue.counter messages
  { queue.push counted.1 with counter := counted.2 }

/-- `write_batch`; returns the range of keys. -/
def writeBatch (messages : List M) : MessageQueue M × ℕ × ℕ :=
  let after := queue.extend messages
  (after, queue.counter, after.counter)

/-- `clear`. -/
def clear : MessageQueue M where
  messagesA := ⟨[], queue.counter⟩
  messagesB := ⟨[], queue.counter⟩
  counter := queue.counter

/-- `update`: the sequences are swapped, and the older one is cleared. -/
def update : MessageQueue M where
  messagesA := queue.messagesB
  messagesB := ⟨[], queue.counter⟩
  counter := queue.counter

/-- `drain`; returns the messages. -/
def drain : MessageQueue M × List M :=
  (queue.clear, (queue.messagesA.messages ++ queue.messagesB.messages).map snd)

/-- `update_drain`; returns the messages that were dropped. -/
def updateDrain : MessageQueue M × List M :=
  (queue.update, queue.messagesA.messages.map snd)

/-- Change the value at a position of a sequence. -/
def replaceAt (sequence : MessageSequence M) (index : ℕ) (value : M) : MessageSequence M :=
  { sequence with messages := sequence.messages.modify index fun entry => (entry.1, value) }

/-- `get_mut`, and a new value for what it returns; nothing is changed where it returns
`None`. -/
def getMut (id : ℕ) (value : M) : MessageQueue M :=
  if id < queue.messagesA.startId then queue
  else if id < queue.messagesB.startId then
    { queue with
      messagesA := replaceAt queue.messagesA (wrappingSub id queue.messagesA.startId) value }
  else
    { queue with
      messagesB := replaceAt queue.messagesB (wrappingSub id queue.messagesB.startId) value }

end MessageQueue

/-- `MessageCursor`. -/
structure MessageCursor where
  lastIndex : ℕ
  deriving DecidableEq, Repr

namespace MessageCursor

/-- `len`. -/
def len (cursor : MessageCursor) (queue : MessageQueue M) : ℕ :=
  min (wrappingSub queue.counter cursor.lastIndex) queue.len

/-- `is_empty`. -/
def isEmpty (cursor : MessageCursor) (queue : MessageQueue M) : Bool :=
  queue.len = 0 || queue.counter = cursor.lastIndex

/-- `clear`. -/
def clear (queue : MessageQueue M) : MessageCursor := ⟨queue.counter⟩

end MessageCursor

/-- `MessageWithKeyIter`.  (`MessageMutWithKeyIter` is the same with mutable references.) -/
structure MessageWithKeyIter (M : Type) where
  cursor : MessageCursor
  chain : List (ℕ × M)
  unread : ℕ
  deriving DecidableEq, Repr

namespace MessageWithKeyIter

/-- `new`. -/
def new (cursor : MessageCursor) (queue : MessageQueue M) : MessageWithKeyIter M :=
  let unread := cursor.len queue
  let lastIndex := wrappingSub queue.counter unread
  let aIndex := wrappingSub lastIndex queue.messagesA.startId
  let bIndex := wrappingSub lastIndex queue.messagesB.startId
  let a := sliceFrom queue.messagesA.messages aIndex
  let b := sliceFrom queue.messagesB.messages bIndex
  ⟨⟨lastIndex⟩, a ++ b, unread⟩

section

variable (iter : MessageWithKeyIter M)

/-- The assertion in `new`, where debug assertions are compiled in. -/
def asserted : Bool := iter.unread = iter.chain.length

/-- Advance the cursor. -/
def advance (count : ℕ) : MessageCursor :=
  ⟨wrappingAdd iter.cursor.lastIndex count⟩

/-- `next`. -/
def next : Option (ℕ × M) × MessageWithKeyIter M :=
  match iter.chain with
  | [] => (none, iter)
  | item :: rest => (some item, ⟨iter.advance 1, rest, iter.unread - 1⟩)

/-- `nth`. -/
def nth (n : ℕ) : Option (ℕ × M) × MessageWithKeyIter M :=
  match iter.chain[n]? with
  | some item =>
    let advanced := min (n + 1) (usizeSize - 1)
    (some item, ⟨iter.advance advanced, iter.chain.drop (n + 1), iter.unread - advanced⟩)
  | none => (none, ⟨iter.advance iter.unread, [], 0⟩)

/-- `count`. -/
def count : ℕ × MessageCursor :=
  (iter.unread, iter.advance iter.unread)

/-- `last`. -/
def last : Option (ℕ × M) × MessageCursor :=
  match iter.chain.getLast? with
  | none => (none, iter.cursor)
  | some item => (some item, iter.advance iter.unread)

end

/-- What a number of calls of `next` yields. -/
def collect : ℕ → MessageWithKeyIter M → List (ℕ × M)
  | 0, _ => []
  | count + 1, iter => iter.next.1.toList ++ collect count iter.next.2

end MessageWithKeyIter

/-! ## Channels -/

/-- A cursor, with what is recorded: where it started, the messages it has yielded, and
those its user passed over. -/
structure Reader where
  cursor : MessageCursor
  first : ℕ
  seen : List ℕ
  skipped : List ℕ
  deriving DecidableEq, Repr

/-- A queue with its cursors.  Recorded: the number of updates before each message, the
number of updates so far, and the number of messages written before the last `clear` or
`drain`. -/
structure Channel (M : Type) where
  queue : MessageQueue M
  readers : ℕ → Option Reader
  epochs : List ℕ
  updates : ℕ
  purged : ℕ

/-- A call during a read. -/
inductive ReadCall where
  | next
  | nth (n : ℕ)
  deriving DecidableEq, Repr

/-- How a read ends. -/
inductive ReadEnd where
  | drop
  | count
  | last
  deriving DecidableEq, Repr

/-- What can happen to a channel. -/
inductive ChannelOp (M : Type) where
  | write (message : M)
  | writeBatch (messages : List M)
  | extend (messages : List M)
  | update
  | updateDrain
  | drain
  | clear
  | getMut (id : ℕ) (value : M)
  | newCursor (key : ℕ)
  | defaultCursor (key : ℕ)
  | copyCursor (source target : ℕ)
  | clearCursor (key : ℕ)
  | read (key : ℕ) (calls : List ReadCall) (finish : ReadEnd)
  deriving DecidableEq, Repr

/-- A read in progress, with what it has yielded and passed over. -/
structure Session (M : Type) where
  iter : MessageWithKeyIter M
  seen : List ℕ
  skipped : List ℕ

namespace Session

/-- A call of the iterator. -/
def call (session : Session M) : ReadCall → Session M
  | .next =>
    { session with
      iter := session.iter.next.2
      seen := session.seen ++ (session.iter.chain.take 1).map fst }
  | .nth n =>
    { iter := (session.iter.nth n).2
      seen := session.seen ++ session.iter.chain[n]?.toList.map fst
      skipped := session.skipped ++ (session.iter.chain.take n).map fst }

/-- The call that consumes the iterator. -/
def finish (session : Session M) (first : ℕ) : ReadEnd → Reader
  | .drop => ⟨session.iter.cursor, first, session.seen, session.skipped⟩
  | .count =>
    ⟨session.iter.count.2, first, session.seen,
      session.skipped ++ session.iter.chain.map fst⟩
  | .last =>
    ⟨session.iter.last.2, first,
      session.seen ++ session.iter.chain.getLast?.toList.map fst,
      session.skipped ++ session.iter.chain.dropLast.map fst⟩

end Session

namespace Reader

/-- The messages a cursor has not passed that are still stored. -/
def unread (queue : MessageQueue M) (cursor : MessageCursor) : List (ℕ × M) :=
  (queue.messagesA.messages ++ queue.messagesB.messages).filter fun entry =>
    cursor.lastIndex ≤ entry.1

/-- A whole read. -/
def read (reader : Reader) (queue : MessageQueue M) (calls : List ReadCall) (finish : ReadEnd) :
    Reader :=
  (calls.foldl Session.call
    ⟨MessageWithKeyIter.new reader.cursor queue, reader.seen, reader.skipped⟩).finish
    reader.first finish

end Reader

namespace Channel

/-- A new channel. -/
def new : Channel M := ⟨MessageQueue.empty, fun _ => none, [], 0, 0⟩

variable (channel : Channel M)

/-- Record that messages were written. -/
def recordWrites (queue : MessageQueue M) (count : ℕ) : Channel M :=
  { channel with
    queue := queue
    epochs := channel.epochs ++ List.replicate count channel.updates }

/-- Record that all messages were removed. -/
def recordPurge (queue : MessageQueue M) : Channel M :=
  { channel with queue := queue, purged := channel.epochs.length }

/-- Record an update. -/
def recordUpdate (queue : MessageQueue M) : Channel M :=
  { channel with queue := queue, updates := channel.updates + 1 }

/-- Replace one cursor. -/
def setReader (key : ℕ) (reader : Reader) : Channel M :=
  { channel with readers := Function.update channel.readers key (some reader) }

/-- One operation; `none` if there is no such cursor. -/
def step : ChannelOp M → Channel M → Option (Channel M)
  | .write message, channel => some (channel.recordWrites (channel.queue.write message).1 1)
  | .writeBatch messages, channel =>
    some (channel.recordWrites (channel.queue.writeBatch messages).1 messages.length)
  | .extend messages, channel =>
    some (channel.recordWrites (channel.queue.extend messages) messages.length)
  | .update, channel => some (channel.recordUpdate channel.queue.update)
  | .updateDrain, channel => some (channel.recordUpdate channel.queue.updateDrain.1)
  | .drain, channel => some (channel.recordPurge channel.queue.drain.1)
  | .clear, channel => some (channel.recordPurge channel.queue.clear)
  | .getMut id value, channel => some { channel with queue := channel.queue.getMut id value }
  | .newCursor key, channel =>
    let first := channel.queue.oldestMessageIndex
    some (channel.setReader key ⟨⟨first⟩, first, [], []⟩)
  -- `from_world` where the world has no queue yet
  | .defaultCursor key, channel => some (channel.setReader key ⟨⟨0⟩, 0, [], []⟩)
  | .copyCursor source target, channel => (channel.readers source).map (channel.setReader target)
  | .clearCursor key, channel => (channel.readers key).map fun reader =>
    channel.setReader key { reader with
      cursor := MessageCursor.clear channel.queue
      skipped := reader.skipped ++ (Reader.unread channel.queue reader.cursor).map fst }
  | .read key calls finish, channel => (channel.readers key).map fun reader =>
    channel.setReader key (reader.read channel.queue calls finish)

end Channel

end Voker.Ecs
