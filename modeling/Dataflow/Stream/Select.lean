import Dataflow.Stream.Feed

/-!
# Merging feeds

Several lanes over one world are merged.  A poll of the merge polls some of the lanes,
one after the other, until one delivers; a lane that has ended is dropped.  Which lanes
are polled, and in which order, is not for the merge to say: the moment says it, so that
a merge is any interleaving of its lanes.  In a calm moment the lanes take turns.
-/

namespace Dataflow

/-- Parts that hold nothing back. -/
class HoldsNothing (S : Type) extends Holding S where
  held_eq_nil : ∀ s : S, held s = []

instance : HoldsNothing Tap where
  held_eq_nil _ := rfl

instance {S T : Type} [HoldsNothing S] [HoldsNothing T] : HoldsNothing (S × T) where
  held_eq_nil p := by
    show held p.1 ++ held p.2 = []
    rw [HoldsNothing.held_eq_nil p.1, HoldsNothing.held_eq_nil p.2]
    rfl

/-- The lanes of a merge that have not ended, each with its state. -/
structure Lanes (ι S : Type) where
  waiting : List (ι × S)

instance {ι S : Type} : HoldsNothing (Lanes ι S) where
  held _ := []
  length_held _ _ := rfl
  held_eq_nil _ := rfl

/-- Takes out the entry at a place, which is counted from the front and round again. -/
def takeAt {γ : Type} (place : Nat) (entries : List γ) : Option (γ × List γ) :=
  match entries.drop (place % entries.length) with
  | [] => none
  | entry :: after => some (entry, entries.take (place % entries.length) ++ after)

theorem takeAt_eq_some {γ : Type} {place : Nat} {entries rest : List γ} {entry : γ}
    (h : takeAt place entries = some (entry, rest)) :
    ∃ before after, entries = before ++ entry :: after ∧ rest = before ++ after := by
  unfold takeAt at h
  split at h
  · cases h
  next first after hdrop =>
    obtain ⟨rfl, rfl⟩ := Prod.mk.inj (Option.some.inj h)
    refine ⟨_, after, ?_, rfl⟩
    rw [← hdrop, List.take_append_drop]

theorem takeAt_eq_none {γ : Type} {place : Nat} {entries : List γ}
    (h : takeAt place entries = none) : entries = [] := by
  unfold takeAt at h
  split at h
  next hdrop =>
    rw [List.drop_eq_nil_iff] at hdrop
    cases entries with
    | nil => rfl
    | cons first rest =>
      exact absurd (Nat.mod_lt place (Nat.succ_pos rest.length)) (Nat.not_lt.2 hdrop)
  · cases h

namespace Feed

variable {W ι S α : Type} [Ranked W] [HoldsNothing S]

theorem rank_pair (s : S) (w : W) : rank (s, w) = rank w := by
  show Rank.atop (held s) (rank w) = rank w
  rw [HoldsNothing.held_eq_nil s]
  rfl

/-- Polls the lanes at some places until one delivers. -/
def pollLanes (lane : ι → Feed (S × W) α) (m : Moment) :
    List Nat → List (ι × S) → W → Answer α × List (ι × S) × W
  | [], lanes, w => (if lanes.isEmpty then .ended else .pending, lanes, w)
  | place :: places, lanes, w =>
    match takeAt place lanes with
    | none => (.ended, [], w)
    | some ((i, s), rest) =>
      match (lane i).poll m (s, w) with
      | (.chunk c, (s', w')) => (.chunk c, rest ++ [(i, s')], w')
      | (.pending, (s', w')) => pollLanes lane m places (rest ++ [(i, s')]) w'
      | (.ended, (_, w')) => pollLanes lane m places rest w'

theorem lowers_pollLanes (lane : ι → Feed (S × W) α) (m : Moment) (places : List Nat)
    (lanes : List (ι × S)) (w : W) :
    (pollLanes lane m places lanes w).1.Lowers (rank (pollLanes lane m places lanes w).2.2)
      (rank w) := by
  induction places generalizing lanes w with
  | nil =>
    rw [pollLanes]
    split <;> exact Rank.le_refl _
  | cons place places ih =>
    rw [pollLanes]
    split
    · exact Rank.le_refl _
    next i s rest _ =>
      have hlane := (lane i).lowers m (s, w)
      rw [rank_pair] at hlane
      revert hlane
      obtain ⟨answer, s', w'⟩ := (lane i).poll m (s, w)
      intro hlane
      rw [rank_pair] at hlane
      cases answer with
      | chunk c => exact hlane
      | pending => exact (ih (rest ++ [(i, s')]) w').trans_le hlane
      | ended => exact (ih rest w').trans_le hlane

/-- Merges the lanes of a station. -/
def select (key : String) (lane : ι → Feed (S × W) α) : Feed (Lanes ι S × W) α where
  poll m p :=
    let r := pollLanes lane m (m.picks key p.1.waiting.length) p.1.waiting p.2
    (r.1, (⟨r.2.1⟩, r.2.2))
  lowers m p := by
    rw [rank_pair, show rank p = rank p.2 from rank_pair p.1 p.2]
    exact lowers_pollLanes lane m _ p.1.waiting p.2

end Feed

end Dataflow
