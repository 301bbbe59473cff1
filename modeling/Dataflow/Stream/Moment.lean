/-!
# Moments

A poll may find that something is not ready: the input has no chunk at hand, a node is
still at work, another copy is being served, or a merge looks at some of its lanes only.
None of this is in the hands of a network.  A moment says how all of it stands during
one poll, so a list of moments is one way in which the world outside can go on, and what
holds for all lists holds whatever the input, the nodes and the scheduling do.  Something
that gets ready in the middle of a poll is no case of its own: it is as if the poll had come
to nothing just before, and had been made again.
-/

namespace Dataflow

/-- How things stand outside of a network during one poll. -/
structure Moment where
  /-- Whether the input has an answer when so many chunks were taken off it. -/
  arrived : Nat → Bool := fun _ => true
  /-- Whether the node under a key is through with its work on the last of so many chunks. -/
  finished : String → Nat → Bool := fun _ _ => true
  /-- Whether a copy of the stream of a station is served.  One that is not has to wait. -/
  served : String → Nat → Bool := fun _ _ => true
  /-- The lanes that the merge of a station polls, given how many there are: each is the
  lane at a place counted from the front, and goes to the back when it was polled. -/
  picks : String → Nat → List Nat := fun _ count => .replicate count 0

namespace Moment

/-- Everything is ready, and merges take turns. -/
def calm : Moment := {}

/-- Nothing has to wait, and merges poll as many lanes as there are, in any order. -/
structure Prompt (m : Moment) : Prop where
  arrived : ∀ count, m.arrived count = true
  finished : ∀ key count, m.finished key count = true
  served : ∀ key index, m.served key index = true
  picks : ∀ key count, count ≤ (m.picks key count).length

theorem prompt_calm : calm.Prompt :=
  ⟨fun _ => rfl, fun _ _ => rfl, fun _ _ => rfl, fun _ _ => Nat.le_of_eq List.length_replicate.symm⟩

end Moment

end Dataflow
