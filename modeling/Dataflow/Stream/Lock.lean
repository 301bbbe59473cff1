import Dataflow.Stream.FanOut

/-!
# The lock of the copies

The copies of a source run side by side, and the source is behind a lock.  A copy that
finds nothing waiting goes for the lock.  When it has the lock it looks again, because
another copy may have asked the source while this one waited, and only if there is still
nothing it asks the source.  It keeps the lock until the source has answered, so the
source is asked by one copy at a time; a copy that is dropped lets go of the lock.

Whatever a copy does happens in steps, and between two steps of one copy any others may
take theirs.  Who gets the lock when several copies wait for it is left open.
-/

namespace Dataflow

/-- The copy that has the lock. -/
structure Holder where
  index : Nat
  /-- Whether it has looked again and found nothing. -/
  looked : Bool := false
deriving DecidableEq

/-- The copies of one source with the source and its lock. -/
structure Readers (W α : Type) where
  fan : FanOut α
  world : W
  /-- The copies that wait for the lock. -/
  waiting : List Nat := []
  holder : Option Holder := none

namespace Readers

variable {W α : Type}

/-- Some copies of a source that was not asked yet. -/
def fresh (count : Nat) (w : W) : Readers W α := { fan := .fresh count, world := w }

/-- The copy asks the source and lets go of the lock when there is an answer. -/
def ask (source : W → Answer α × W) (index : Nat) (r : Readers W α) : Answer α × Readers W α :=
  if r.fan.flowing then
    match source r.world with
    | (.chunk c, w') => (.chunk c, { r with fan := r.fan.share index c, world := w', holder := none })
    | (.ended, w') => (.ended, { r with fan := r.fan.close index, world := w', holder := none })
    | (.pending, w') => (.pending, { r with world := w' })
  else
    (.ended, { r with fan := r.fan.close index, holder := none })

/-- The next step of a copy, with its answer if that is the last step of a poll.  A free
lock goes to a copy that waits for it when it is granted. -/
def advance (source : W → Answer α × W) (granted : Bool) (index : Nat) (r : Readers W α) :
    Option (Answer α) × Readers W α :=
  match r.fan.copies[index]? with
  | none => (some .ended, r)
  | some copy =>
    if copy.finished then
      (some .ended, r)
    else if r.holder = some ⟨index, true⟩ then
      let asked := r.ask source index
      (some asked.1, asked.2)
    else if r.holder = some ⟨index, false⟩ then
      match copy.pending with
      | c :: rest =>
        (some (.chunk c),
          { r with fan := r.fan.setCopy index (Copy.delivered c rest), holder := none })
      | [] => (none, { r with holder := some ⟨index, true⟩ })
    else if index ∈ r.waiting then
      if r.holder = none ∧ granted then
        (none, { r with waiting := r.waiting.filter (· ≠ index), holder := some ⟨index, false⟩ })
      else
        (some .pending, r)
    else
      match copy.pending with
      | c :: rest => (some (.chunk c), { r with fan := r.fan.setCopy index (Copy.delivered c rest) })
      | [] =>
        (none, { r with fan := r.fan.setCopy index copy.begun, waiting := index :: r.waiting })

/-- Drops a copy, which neither waits for the lock nor has it any more. -/
def drop (index : Nat) (r : Readers W α) : Readers W α :=
  { r with
    fan := r.fan.drop index
    waiting := r.waiting.filter (· ≠ index)
    holder := r.holder.filter (·.index ≠ index) }

/-- Steps of one copy in a row, until it has an answer. -/
def pollWithin (source : W → Answer α × W) (index : Nat) :
    Nat → Readers W α → Answer α × Readers W α
  | 0, r => (.pending, r)
  | steps + 1, r =>
    match r.advance source true index with
    | (some answer, r') => (answer, r')
    | (none, r') => pollWithin source index steps r'

/-- A poll of a copy that no other copy comes between.  A copy has an answer after four
steps: it looks, gets the lock, looks again, and asks. -/
def poll (source : W → Answer α × W) (index : Nat) (r : Readers W α) : Answer α × Readers W α :=
  pollWithin source index 4 r

end Readers

end Dataflow
