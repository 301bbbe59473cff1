import Dataflow.Stream.Feed

/-!
# Fanning out

One source can be read by several copies.  The source is asked when a copy is polled that
has nothing waiting; the chunk goes to that copy and waits for every other copy whose
queue is open.  An error is the last chunk of the source.

The copies get at the source one at a time, so a copy may have to wait until others are
through.  Here that is a poll that is not served; `Dataflow.Stream.Lock` says how the copies
come by it, and that it amounts to this (`Readers.advance_eq_poll`).

A copy counts as started from its first poll on, whether it was served or not, and only a
started copy closes its queue when it ends or is dropped.  The queue of a copy that is
dropped without ever being polled stays open and goes on filling.
-/

namespace Dataflow

/-- One copy of a fanned-out stream. -/
structure Copy (α : Type) where
  /-- The chunks that wait for the copy, or nothing once the queue is closed. -/
  queue : Option (List (Chunk α)) := some []
  /-- Whether the copy has been polled. -/
  started : Bool := false
  /-- Whether the copy has delivered all it will, or was dropped. -/
  finished : Bool := false

namespace Copy

variable {α : Type}

/-- The chunks that wait for the copy. -/
def pending (copy : Copy α) : List (Chunk α) := copy.queue.getD []

/-- Lets a chunk wait, if the queue is open. -/
def offer (chunk : Chunk α) (copy : Copy α) : Copy α :=
  { copy with queue := copy.queue.map (· ++ [chunk]) }

/-- The copy after it was polled and has to wait. -/
def begun (copy : Copy α) : Copy α := { copy with started := true }

/-- The copy after its end. -/
def ended : Copy α := ⟨none, true, true⟩

/-- The copy after it delivered a chunk; an error is its last one. -/
def delivered (chunk : Chunk α) (rest : List (Chunk α)) : Copy α :=
  if chunk.isError then ended else ⟨some rest, true, false⟩

/-- The copy after it was dropped. -/
def dropped (copy : Copy α) : Copy α :=
  { copy with queue := if copy.started then none else copy.queue, finished := true }

theorem pending_delivered (chunk : Chunk α) (rest : List (Chunk α)) :
    (delivered chunk rest).pending.length ≤ rest.length := by
  unfold delivered
  split
  · exact Nat.zero_le _
  · exact Nat.le_refl _

end Copy

/-- The copies of one source. -/
structure FanOut (α : Type) where
  /-- Whether the source may still deliver. -/
  flowing : Bool := true
  copies : List (Copy α)

namespace FanOut

variable {W α : Type}

/-- Some copies of a source that was not asked yet. -/
def fresh (count : Nat) : FanOut α := { copies := .replicate count {} }

/-- The copies after one of them was replaced. -/
def setCopy (fan : FanOut α) (index : Nat) (copy : Copy α) : FanOut α :=
  { fan with copies := fan.copies.set index copy }

/-- Hands a chunk of the source to one copy and lets it wait for the others. -/
def share (fan : FanOut α) (index : Nat) (chunk : Chunk α) : FanOut α where
  flowing := !chunk.isError
  copies := (fan.copies.map (Copy.offer chunk)).set index (Copy.delivered chunk [])

/-- The copies after the source has ended for one of them. -/
def close (fan : FanOut α) (index : Nat) : FanOut α where
  flowing := false
  copies := fan.copies.set index Copy.ended

/-- Drops a copy. -/
def drop (fan : FanOut α) (index : Nat) : FanOut α :=
  match fan.copies[index]? with
  | none => fan
  | some copy => fan.setCopy index copy.dropped

/-- Polls a copy, given a way of asking the source, and whether the copy is served. -/
def poll (source : W → Answer α × W) (served : Bool) (index : Nat) (fan : FanOut α) (w : W) :
    Answer α × FanOut α × W :=
  match fan.copies[index]? with
  | none => (.ended, fan, w)
  | some copy =>
    if copy.finished then
      (.ended, fan, w)
    else if served then
      match copy.pending with
      | c :: rest => (.chunk c, fan.setCopy index (Copy.delivered c rest), w)
      | [] =>
        if fan.flowing then
          match source w with
          | (.chunk c, w') => (.chunk c, fan.share index c, w')
          | (.ended, w') => (.ended, fan.close index, w')
          | (.pending, w') => (.pending, fan.setCopy index copy.begun, w')
        else
          (.ended, fan.close index, w)
    else
      (.pending, fan.setCopy index copy.begun, w)

/-! ## What a poll can do -/

/-- What a poll of a copy can lead to. -/
inductive Polled (source : W → Answer α × W) (served : Bool) (index : Nat) (fan : FanOut α)
    (w : W) : Answer α × FanOut α × W → Prop
  /-- There is no such copy, or it is through. -/
  | quiet (h : ∀ copy, fan.copies[index]? = some copy → copy.finished = true) :
      Polled source served index fan w (.ended, fan, w)
  /-- The copy has to wait for others. -/
  | unserved {copy : Copy α} (hcopy : fan.copies[index]? = some copy)
      (hfinished : copy.finished = false) (hserved : served = false) :
      Polled source served index fan w (.pending, fan.setCopy index copy.begun, w)
  /-- A chunk waits for the copy. -/
  | waiting {copy : Copy α} {c : Chunk α} {rest : List (Chunk α)}
      (hcopy : fan.copies[index]? = some copy) (hfinished : copy.finished = false)
      (hserved : served = true) (hpending : copy.pending = c :: rest) :
      Polled source served index fan w
        (.chunk c, fan.setCopy index (Copy.delivered c rest), w)
  /-- The source delivers a chunk. -/
  | shared {copy : Copy α} {c : Chunk α} {w' : W}
      (hcopy : fan.copies[index]? = some copy) (hfinished : copy.finished = false)
      (hserved : served = true) (hpending : copy.pending = []) (hflowing : fan.flowing = true)
      (hsource : source w = (.chunk c, w')) :
      Polled source served index fan w (.chunk c, fan.share index c, w')
  /-- The source has no answer yet. -/
  | delayed {copy : Copy α} {w' : W}
      (hcopy : fan.copies[index]? = some copy) (hfinished : copy.finished = false)
      (hserved : served = true) (hpending : copy.pending = []) (hflowing : fan.flowing = true)
      (hsource : source w = (.pending, w')) :
      Polled source served index fan w (.pending, fan.setCopy index copy.begun, w')
  /-- The source ends. -/
  | ended {copy : Copy α} {w' : W}
      (hcopy : fan.copies[index]? = some copy) (hfinished : copy.finished = false)
      (hserved : served = true) (hpending : copy.pending = []) (hflowing : fan.flowing = true)
      (hsource : source w = (.ended, w')) :
      Polled source served index fan w (.ended, fan.close index, w')
  /-- The source had ended before. -/
  | exhausted {copy : Copy α}
      (hcopy : fan.copies[index]? = some copy) (hfinished : copy.finished = false)
      (hserved : served = true) (hpending : copy.pending = []) (hflowing : fan.flowing = false) :
      Polled source served index fan w (.ended, fan.close index, w)

theorem polled_poll (source : W → Answer α × W) (served : Bool) (index : Nat) (fan : FanOut α)
    (w : W) : Polled source served index fan w (poll source served index fan w) := by
  unfold poll
  split
  next hcopy => exact .quiet fun copy h => nomatch hcopy.symm.trans h
  next copy hcopy =>
    cases hfinished : copy.finished with
    | true =>
      refine .quiet fun other h => ?_
      obtain rfl : copy = other := Option.some.inj (hcopy.symm.trans h)
      exact hfinished
    | false =>
      cases hserved : served with
      | false => exact .unserved hcopy hfinished rfl
      | true =>
        rw [if_neg (by decide), if_pos rfl]
        split
        next c rest hpending => exact .waiting hcopy hfinished rfl hpending
        next hpending =>
          cases hflowing : fan.flowing with
          | false => exact .exhausted hcopy hfinished rfl hpending hflowing
          | true =>
            rw [if_pos rfl]
            split
            next c w' hsource => exact .shared hcopy hfinished rfl hpending hflowing hsource
            next w' hsource => exact .ended hcopy hfinished rfl hpending hflowing hsource
            next w' hsource => exact .delayed hcopy hfinished rfl hpending hflowing hsource

/-! ## Ranks -/

/-- The number of chunks that wait. -/
def waiting (copies : List (Copy α)) : Nat :=
  (copies.flatMap Copy.pending).length

theorem waiting_set {copies : List (Copy α)} {index : Nat} {copy : Copy α}
    (h : copies[index]? = some copy) (new : Copy α) :
    waiting (copies.set index new) + copy.pending.length =
      waiting copies + new.pending.length := by
  induction copies generalizing index with
  | nil => simp at h
  | cons head rest ih =>
    cases index with
    | zero =>
      obtain rfl : head = copy := by simpa using h
      simp only [waiting, List.set_cons_zero, List.flatMap_cons, List.length_append]
      omega
    | succ index =>
      have := @ih index (by simpa using h)
      simp only [waiting, List.set_cons_succ, List.flatMap_cons, List.length_append] at this ⊢
      omega

instance : Holding (FanOut α) where
  held fan := [waiting fan.copies]
  length_held _ _ := rfl

theorem lowers_poll [Ranked W] {source : W → Answer α × W}
    (hsource : ∀ w, (source w).1.Lowers (rank (source w).2) (rank w)) (served : Bool)
    (index : Nat) (fan : FanOut α) (w : W) :
    (poll source served index fan w).1.Lowers (rank (poll source served index fan w).2)
      (rank (fan, w)) := by
  -- a copy that has no more chunks waiting than before does not raise the rank
  have hset : ∀ {copy new : Copy α} {flowing : Bool} {w' : W},
      fan.copies[index]? = some copy → new.pending.length ≤ copy.pending.length →
        rank w' ≤ rank w → rank ((⟨flowing, fan.copies.set index new⟩ : FanOut α), w') ≤
          rank (fan, w) := by
    intro copy new flowing w' hcopy hle hw
    have hwaiting := waiting_set hcopy new
    rcases hw with hw | hw
    · rcases Nat.lt_or_eq_of_le (show waiting (fan.copies.set index new) ≤ waiting fan.copies by
        omega) with h | h
      · show Rank.atop [_] (rank w') ≤ _
        rw [hw]
        exact .inr (Rank.atop_cons_lt h)
      · show Rank.atop [_] (rank w') ≤ _
        rw [hw]
        exact .inl (congrArg (fun n => Rank.atop [n] (rank w)) h)
    · exact .inr (Rank.atop_lt_atop rfl hw)
  have hpolled := polled_poll source served index fan w
  have hw := hsource w
  generalize poll source served index fan w = r at hpolled ⊢
  cases hpolled with
  | quiet _ => exact Rank.le_refl _
  | unserved hcopy _ _ => exact hset hcopy (Nat.le_refl _) (Rank.le_refl _)
  | @waiting copy c rest hcopy _ _ hpending =>
    have hwaiting := waiting_set hcopy (Copy.delivered c rest)
    have hlen := Copy.pending_delivered c rest
    rw [hpending, List.length_cons] at hwaiting
    refine Rank.atop_cons_lt ?_
    show waiting (fan.copies.set index (Copy.delivered c rest)) < waiting fan.copies
    omega
  | shared _ _ _ _ _ hanswer =>
    rw [hanswer] at hw
    exact Rank.atop_lt_atop rfl hw
  | delayed hcopy _ _ _ _ hanswer =>
    rw [hanswer] at hw
    exact hset hcopy (Nat.le_refl _) hw
  | ended hcopy _ _ _ _ hanswer =>
    rw [hanswer] at hw
    exact hset hcopy (Nat.zero_le _) hw
  | exhausted hcopy _ _ _ _ => exact hset hcopy (Nat.zero_le _) (Rank.le_refl _)

end FanOut

namespace Feed

variable {W α : Type} [Ranked W]

/-- One of a number of copies of the stream of a station.  A single copy is the stream
itself. -/
def copy (feed : Feed W α) (key : String) (count index : Nat) : Feed (FanOut α × W) α :=
  if count = 1 then
    feed.lift
  else
    { poll := fun m p => FanOut.poll (feed.poll m) (m.served key index) index p.1 p.2
      lowers := fun m p => FanOut.lowers_poll (feed.lowers m) (m.served key index) index p.1 p.2 }

end Feed

end Dataflow
