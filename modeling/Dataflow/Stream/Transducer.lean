import Dataflow.Stream.Feed

/-!
# Transducers

A transducer answers each chunk it receives with any number of chunks, and the
end of its input with some more.  It may also stop asking for input.  What it
answers depends on everything it has received, so it is any causal function on
finite streams.  An answer that has to be worked for is held back until a moment in
which the work is done, and nothing is taken off the input meanwhile.

An answer lists runs of one chunk, so a chunk that is repeated very often costs
only as much as is delivered of it.
-/

namespace Dataflow

/-- One chunk several times in a row. -/
structure Run (β : Type) where
  chunk : Chunk β
  /-- How often the chunk comes after the first time. -/
  more : Nat := 0

/-- The number of chunks in some runs. -/
def Run.total {β : Type} : List (Run β) → Nat
  | [] => 0
  | run :: rest => run.more + 1 + total rest

/-- The answer to one chunk. -/
structure Reaction (β : Type) where
  /-- What is delivered. -/
  runs : List (Run β)
  /-- Whether more input is wanted. -/
  goesOn : Bool := true
  /-- Whether the answer has to be worked for. -/
  slow : Bool := false

/-- A causal function on finite streams. -/
structure Transducer (α β : Type) where
  /-- Whether any input is wanted at all. -/
  opens : Bool := true
  /-- The answer to a chunk, given the earlier ones, latest first. -/
  react : List (Chunk α) → Chunk α → Reaction β
  /-- What is delivered at the end of the input, given all of it, latest first. -/
  finish : List (Chunk α) → List (Chunk β) := fun _ => []

namespace Transducer

variable {α β : Type}

/-- Applies a function to every value and stops after the first error.  The function has
to be worked for; an error that comes in goes out at once. -/
def perChunk (f : α → Except Error β) : Transducer α β where
  react _ chunk :=
    match chunk.bind f with
    | .ok b => ⟨[⟨.ok b, 0⟩], true, !chunk.isError⟩
    | .error e => ⟨[⟨.error e, 0⟩], false, !chunk.isError⟩

/-- The first chunks; the input is not pulled for more. -/
def limit (count : Nat) : Transducer α α where
  opens := 0 < count
  react seen chunk := { runs := [⟨chunk, 0⟩], goesOn := seen.length + 1 < count }

/-- All but the first chunks. -/
def skip (count : Nat) : Transducer α α where
  react seen chunk := { runs := if seen.length < count then [] else [⟨chunk, 0⟩] }

/-- Every chunk a number of times. -/
def repeated (count : Nat) : Transducer α α where
  react _ chunk := { runs := if 0 < count then [⟨chunk, count - 1⟩] else [] }

/-- The last chunks, once the input has ended. -/
def tail (count : Nat) : Transducer α α where
  react _ _ := { runs := [] }
  finish seen := (seen.take count).reverse

end Transducer

/-- The state of a transducer at work. -/
structure Reacting (α β : Type) where
  /-- What was received, latest first. -/
  seen : List (Chunk α)
  /-- What was answered and not delivered yet. -/
  ready : List (Run β)
  /-- Whether more input is wanted. -/
  live : Bool
  /-- Whether the last answer was still being worked for. -/
  busy : Bool := false

instance {α β : Type} : Holding (Reacting α β) where
  held state := [Run.total state.ready, state.live.toNat]
  length_held _ _ := rfl

/-- The state in which a transducer begins. -/
def Transducer.begin {α β : Type} (t : Transducer α β) : Reacting α β := ⟨[], [], t.opens, false⟩

namespace Feed

variable {W α β : Type} [Ranked W]

/-- Delivers what is ready, or polls until something is.  While an answer is worked for,
nothing else is done. -/
def pollReacting (key : String) (t : Transducer α β) (feed : Feed W α) (m : Moment)
    (state : Reacting α β) (w : W) : Answer β × Reacting α β × W :=
  if state.busy && !m.finished key state.seen.length then
    (.pending, state, w)
  else
    match state.ready with
    | ⟨c, 0⟩ :: rest => (.chunk c, { state with ready := rest, busy := false }, w)
    | ⟨c, more + 1⟩ :: rest =>
      (.chunk c, { state with ready := ⟨c, more⟩ :: rest, busy := false }, w)
    | [] =>
      if state.live then
        match _h : feed.poll m w with
        | (.pending, w') => (.pending, { state with busy := false }, w')
        | (.ended, w') =>
          match t.finish state.seen with
          | [] => (.ended, { state with live := false, busy := false }, w')
          | c :: rest =>
            (.chunk c, { state with ready := rest.map (⟨·, 0⟩), live := false, busy := false }, w')
        | (.chunk chunk, w') =>
          let reaction := t.react state.seen chunk
          pollReacting key t feed m
            ⟨chunk :: state.seen, reaction.runs, reaction.goesOn, reaction.slow⟩ w'
      else
        (.ended, state, w)
termination_by rank w
decreasing_by
  have hlowers := feed.lowers m w
  rw [_h] at hlowers
  exact hlowers

theorem lowers_pollReacting (key : String) (t : Transducer α β) (feed : Feed W α) (m : Moment)
    (state : Reacting α β) (w : W) :
    (pollReacting key t feed m state w).1.Lowers (rank (pollReacting key t feed m state w).2)
      (rank (state, w)) := by
  fun_induction pollReacting key t feed m state w with
  | case1 => exact Rank.le_refl _
  | case2 state w _ c rest hready => exact Rank.atop_cons_lt (by simp [hready, Run.total])
  | case3 state w _ c more rest hready => exact Rank.atop_cons_lt (by simp [hready, Run.total])
  | case4 state w _ hready hlive w' hp =>
    have hlowers := feed.lowers m w
    rw [hp] at hlowers
    exact hlowers.atop [Run.total state.ready, state.live.toNat]
  | case5 state w _ hready hlive w' hp hfinish =>
    have hlowers := feed.lowers m w
    rw [hp] at hlowers
    refine Rank.le_of_lt ?_
    show Rank.atop [_, _] (rank w') < Rank.atop [_, _] (rank w)
    rcases hlowers.le with hw | hw
    · rw [hw]
      exact .older (.newest (by simp [hlive]))
    · exact Rank.atop_lt_atop rfl hw
  | case6 state w _ hready hlive w' hp c rest hfinish =>
    have hlowers := feed.lowers m w
    rw [hp] at hlowers
    show Rank.atop [_, _] (rank w') < Rank.atop [_, _] (rank w)
    rcases hlowers.le with hw | hw
    · rw [hw]
      exact .older (.newest (by simp [hlive]))
    · exact Rank.atop_lt_atop rfl hw
  | case7 state w _ hready hlive chunk w' hp reaction ih =>
    have hlowers := feed.lowers m w
    rw [hp] at hlowers
    exact ih.trans_le (Rank.le_of_lt (Rank.atop_lt_atop rfl hlowers))
  | case8 => exact Rank.le_refl _

/-- The stream that a transducer makes of a stream, at the node under a key. -/
def transduce (key : String) (t : Transducer α β) (feed : Feed W α) :
    Feed (Reacting α β × W) β where
  poll m p := pollReacting key t feed m p.1 p.2
  lowers m p := lowers_pollReacting key t feed m p.1 p.2

end Feed

end Dataflow
