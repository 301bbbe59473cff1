import Dataflow.Error
import Dataflow.Stream.Moment
import Dataflow.Stream.Rank

/-!
# Feeds

Streams are polled: a chunk is made when someone asks for it.  Several streams may share
what they are made from, so a stream is a way of polling a *world*, the state of
everything upstream, and every poll leaves another world.  A feed is such a stream
together with the reason why it ends: a delivered chunk lowers the rank of the world, and
a poll that delivers none does not raise it.

A chunk is a value or an error.  Errors travel like values until a converter meets one:
it hands the error on and then ends.
-/

namespace Dataflow

/-- One item of a stream. -/
abbrev Chunk (α : Type) := Except Error α

/-- Whether a chunk is an error. -/
def Chunk.isError {α : Type} : Chunk α → Bool
  | .ok _ => false
  | .error _ => true

/-- What a poll of a stream comes to. -/
inductive Answer (α : Type)
  /-- The next chunk. -/
  | chunk (chunk : Chunk α)
  /-- There are no more chunks. -/
  | ended
  /-- It is not known yet what comes next. -/
  | pending

namespace Answer

variable {α : Type}

/-- The chunk that was delivered, if there is one. -/
def toList : Answer α → List (Chunk α)
  | .chunk c => [c]
  | .ended => []
  | .pending => []

/-- What an answer does to a rank: a delivered chunk lowers it, and nothing raises it. -/
def Lowers (answer : Answer α) (after before : Rank) : Prop :=
  match answer with
  | .chunk _ => after < before
  | .ended => after ≤ before
  | .pending => after ≤ before

variable {answer : Answer α} {r s t : Rank}

theorem Lowers.le (h : answer.Lowers r s) : r ≤ s := by
  cases answer with
  | chunk _ => exact Rank.le_of_lt h
  | ended => exact h
  | pending => exact h

theorem Lowers.trans_le (h : answer.Lowers r s) (hle : s ≤ t) : answer.Lowers r t := by
  cases answer with
  | chunk _ => exact Rank.lt_of_lt_of_le h hle
  | ended => exact Rank.le_trans h hle
  | pending => exact Rank.le_trans h hle

theorem Lowers.atop (h : answer.Lowers r s) (held : List Nat) :
    answer.Lowers (.atop held r) (.atop held s) := by
  cases answer with
  | chunk _ => exact Rank.atop_lt_atop rfl h
  | ended => exact h.imp (congrArg (Rank.atop held)) (Rank.atop_lt_atop rfl)
  | pending => exact h.imp (congrArg (Rank.atop held)) (Rank.atop_lt_atop rfl)

end Answer

/-- The answers to one poll at each of some moments, and the world after them. -/
def polled {W α : Type} (poll : Moment → W → Answer α × W) :
    List Moment → W → List (Answer α) × W
  | [], w => ([], w)
  | m :: moments, w =>
    let first := poll m w
    let others := polled poll moments first.2
    (first.1 :: others.1, others.2)

/-- Worlds with a rank. -/
class Ranked (W : Type) where
  rank : W → Rank

/-- Parts that hold chunks back, with counts of what they hold.  The list of
counts has one length for all states of a part. -/
class Holding (S : Type) where
  held : S → List Nat
  length_held : ∀ a b : S, (held a).length = (held b).length

export Ranked (rank)
export Holding (held)

instance {S W : Type} [Holding S] [Ranked W] : Ranked (S × W) where
  rank p := .atop (held p.1) (rank p.2)

instance {S T : Type} [Holding S] [Holding T] : Holding (S × T) where
  held p := held p.1 ++ held p.2
  length_held a b := by
    simp [Holding.length_held a.1 b.1, Holding.length_held a.2 b.2]

/-- A stream that is polled in a world. -/
structure Feed (W : Type) [Ranked W] (α : Type) where
  /-- Asks for the next chunk. -/
  poll : Moment → W → Answer α × W
  /-- Chunks cannot be delivered for ever. -/
  lowers : ∀ m w, (poll m w).1.Lowers (rank (poll m w).2) (rank w)

/-! ## Tapes -/

/-- A given list of chunks, with a count of those taken off it. -/
structure Tape (α : Type) where
  left : List (Chunk α)
  taken : Nat := 0

namespace Tape

variable {α : Type}

instance : Ranked (Tape α) where
  rank tape := ⟨[tape.left.length]⟩

/-- Takes the next chunk, if it is there already. -/
def poll (m : Moment) (tape : Tape α) : Answer α × Tape α :=
  if m.arrived tape.taken then
    match tape.left with
    | [] => (.ended, tape)
    | c :: rest => (.chunk c, ⟨rest, tape.taken + 1⟩)
  else
    (.pending, tape)

/-- The chunks of a tape as a feed. -/
def feed : Feed (Tape α) α where
  poll := poll
  lowers m tape := by
    obtain ⟨left, taken⟩ := tape
    unfold poll
    split
    · cases left with
      | nil => exact Rank.le_refl _
      | cons c rest => exact .newest (Nat.lt_succ_self _)
    · exact Rank.le_refl _

end Tape

/-! ## Feeds in larger worlds -/

namespace Feed

variable {S T W α : Type} [Ranked W]

/-- The same feed in a world with one more part, which it leaves alone. -/
def lift [Holding S] (feed : Feed W α) : Feed (S × W) α where
  poll m p := ((feed.poll m p.2).1, (p.1, (feed.poll m p.2).2))
  lowers m p := (feed.lowers m p.2).atop (held p.1)

/-- The same feed with two parts of its world taken as one. -/
def regroup [Holding S] [Holding T] (feed : Feed (S × T × W) α) : Feed ((S × T) × W) α where
  poll m p :=
    let r := feed.poll m (p.1.1, p.1.2, p.2)
    (r.1, ((r.2.1, r.2.2.1), r.2.2.2))
  lowers m p := by
    have := feed.lowers m (p.1.1, p.1.2, p.2)
    simpa [rank, held, Rank.atop_atop] using this

end Feed

/-! ## Converters -/

/-- Whether a part still wants chunks from its source. -/
inductive Tap
  | opened
  | closed
deriving DecidableEq

instance : Holding Tap := ⟨fun _ => [], fun _ _ => rfl⟩

namespace Feed

variable {W α β : Type} [Ranked W]

/-- Asks for one chunk through a function. -/
def pollConverted (f : α → Except Error β) (feed : Feed W α) (m : Moment) :
    Tap × W → Answer β × Tap × W
  | (.closed, w) => (.ended, .closed, w)
  | (.opened, w) =>
    match feed.poll m w with
    | (.pending, w') => (.pending, .opened, w')
    | (.ended, w') => (.ended, .closed, w')
    | (.chunk chunk, w') =>
      match chunk.bind f with
      | .ok b => (.chunk (.ok b), .opened, w')
      | .error e => (.chunk (.error e), .closed, w')

/-- Applies a function to every chunk.  The first error, from upstream or from
the function, is the last chunk. -/
def convert (f : α → Except Error β) (feed : Feed W α) : Feed (Tap × W) β where
  poll := pollConverted f feed
  lowers m p := by
    obtain ⟨tap, w⟩ := p
    cases tap with
    | closed => exact Rank.le_refl _
    | opened =>
      have hlowers := feed.lowers m w
      rw [pollConverted]
      revert hlowers
      obtain ⟨answer, w'⟩ := feed.poll m w
      intro hlowers
      cases answer with
      | pending => exact hlowers
      | ended => exact hlowers
      | chunk chunk =>
        dsimp only
        cases chunk.bind f with
        | ok b => exact hlowers
        | error e => exact hlowers

end Feed

end Dataflow
