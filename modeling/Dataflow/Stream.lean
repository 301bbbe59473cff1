import Dataflow.Stream.Select
import Dataflow.Stream.Transducer
import Dataflow.Stream.FanOut

/-!
# Streams

A feed together with the world it is polled in.  The world also tells how much of the
given input was taken, which shows how far ahead a stream reads.

Streams run in calm moments, in which nothing has to wait and merges take turns.
-/

namespace Dataflow

/-- A stream with everything that it is made from. -/
structure Stream (α : Type) where
  World : Type
  [ranked : Ranked World]
  feed : Feed World α
  /-- The number of input chunks that were taken. -/
  taken : World → Nat
  world : World

attribute [instance] Stream.ranked

namespace Stream

variable {α β : Type}

/-- The given chunks, errors included. -/
def ofChunks (chunks : List (Chunk α)) : Stream α where
  World := Tape α
  feed := Tape.feed
  taken := Tape.taken
  world := ⟨chunks, 0⟩

/-- The given values. -/
def ofValues (values : List α) : Stream α :=
  ofChunks (values.map .ok)

/-- One value. -/
def once (value : α) : Stream α := ofValues [value]

/-- Applies a function to every chunk, up to the first error. -/
def convert (f : α → Except Error β) (stream : Stream α) : Stream β where
  World := Tap × stream.World
  feed := stream.feed.convert f
  taken w := stream.taken w.2
  world := (.opened, stream.world)

/-- The stream that a transducer makes of a stream. -/
def transduce (t : Transducer α β) (stream : Stream α) (key : String := "") : Stream β where
  World := Reacting α β × stream.World
  feed := stream.feed.transduce key t
  taken w := stream.taken w.2
  world := (t.begin, stream.world)

/-- What the stream answers when it is polled at some moments. -/
def answers (moments : List Moment) (stream : Stream α) : List (Answer α) :=
  (polled stream.feed.poll moments stream.world).1

/-- The chunks that the stream has delivered when it was polled at some moments. -/
def received (moments : List Moment) (stream : Stream α) : List (Chunk α) :=
  (stream.answers moments).flatMap Answer.toList

/-- The stream after it was polled at some moments. -/
def after (moments : List Moment) (stream : Stream α) : Stream α :=
  { stream with world := (polled stream.feed.poll moments stream.world).2 }

/-- The number of input chunks that were taken so far. -/
def pulled (stream : Stream α) : Nat := stream.taken stream.world

/-- What was seen of a stream in calm moments. -/
structure Listing (α : Type) where
  /-- The chunks, each with the number of input chunks taken by then. -/
  chunks : List (Chunk α × Nat)
  /-- Whether the end was reached. -/
  ended : Bool
  /-- The number of input chunks taken in the end. -/
  total : Nat

/-- Polls a feed to its end, or until a number of chunks came, or until something is not
ready. -/
def listFrom {W : Type} [Ranked W] (feed : Feed W α) (taken : W → Nat) (limit : Option Nat)
    (w : W) : Listing α :=
  if limit = some 0 then
    ⟨[], false, taken w⟩
  else
    match _h : feed.poll .calm w with
    | (.pending, w') => ⟨[], false, taken w'⟩
    | (.ended, w') => ⟨[], true, taken w'⟩
    | (.chunk c, w') =>
      let rest := listFrom feed taken (limit.map (· - 1)) w'
      { rest with chunks := (c, taken w') :: rest.chunks }
termination_by rank w
decreasing_by
  have hlowers := feed.lowers .calm w
  rw [_h] at hlowers
  exact hlowers

/-- Polls a stream to its end, or until a number of chunks came. -/
def list (stream : Stream α) (limit : Option Nat) : Listing α :=
  listFrom stream.feed stream.taken limit stream.world

/-- All chunks of a stream. -/
def drain (stream : Stream α) : List (Chunk α) :=
  (stream.list none).chunks.map (·.1)

/-- All values of a stream, or its first error. -/
def collect (stream : Stream α) : Except Error (List α) :=
  stream.drain.mapM id

end Stream

/-- A function on single values that can also be applied to streams. -/
structure Handler (α : Type) where
  invoke : α → Except Error α

/-- Applies the function to every chunk of a stream. -/
def Handler.transform {α : Type} (handler : Handler α) (stream : Stream α) : Stream α :=
  stream.convert handler.invoke

end Dataflow
