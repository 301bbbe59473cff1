/-!
# Ranks

A network of streams has a rank, which bounds what it can still deliver: the
input that is left, and for every part built on top of it what that part holds
back.  Delivering a chunk lowers the rank, so no stream goes on for ever.

A rank lists its counts from the newest part to the oldest.  Older counts weigh
more, because a part can turn one chunk of an older part into many of its own.
-/

namespace Dataflow

/-- Counts of what is left to deliver, newest part first. -/
structure Rank where
  counts : List Nat

namespace Rank

/-- One list of counts is below another when the oldest count in which they
differ is smaller. -/
inductive CountsBelow : List Nat → List Nat → Prop
  | older {a b : Nat} {r s : List Nat} : CountsBelow r s → CountsBelow (a :: r) (b :: s)
  | newest {a b : Nat} {r : List Nat} : a < b → CountsBelow (a :: r) (b :: r)

theorem CountsBelow.trans {r s t : List Nat} (h : CountsBelow r s) (h' : CountsBelow s t) :
    CountsBelow r t := by
  induction h generalizing t with
  | older hrs ih =>
    cases h' with
    | older hst => exact .older (ih hst)
    | newest _ => exact .older hrs
  | newest hab =>
    cases h' with
    | older hst => exact .older hst
    | newest hbc => exact .newest (Nat.lt_trans hab hbc)

theorem CountsBelow.append (held : List Nat) :
    ∀ {held' r s : List Nat}, held.length = held'.length → CountsBelow r s →
      CountsBelow (held ++ r) (held' ++ s) := by
  induction held with
  | nil =>
    intro held' r s hlen h
    obtain rfl := List.length_eq_zero_iff.1 hlen.symm
    exact h
  | cons a held ih =>
    intro held' r s hlen h
    cases held' with
    | nil => simp at hlen
    | cons b held' => exact .older (ih (by simpa using hlen) h)

/-- A count above a list that cannot fall for ever cannot fall for ever. -/
theorem acc_cons {r : List Nat} (hr : Acc CountsBelow r) : ∀ a, Acc CountsBelow (a :: r) := by
  induction hr with
  | intro r _ ihr =>
    intro a
    induction a using Nat.strongRecOn with
    | ind a iha =>
      refine ⟨_, fun s hs => ?_⟩
      cases hs with
      | older h => exact ihr _ h _
      | newest h => exact iha _ h

/-- No list of counts falls for ever. -/
theorem wellFounded_countsBelow : WellFounded CountsBelow := by
  refine ⟨fun r => ?_⟩
  induction r with
  | nil => exact ⟨_, fun s hs => nomatch hs⟩
  | cons a r ih => exact acc_cons ih a

instance : WellFoundedRelation Rank where
  rel r s := CountsBelow r.counts s.counts
  wf := InvImage.wf Rank.counts wellFounded_countsBelow

/-- One rank is below another. -/
instance : LT Rank := ⟨fun r s => CountsBelow r.counts s.counts⟩

/-- One rank is below another or the same. -/
instance : LE Rank := ⟨fun r s => r = s ∨ r < s⟩

theorem lt_trans {r s t : Rank} (h : r < s) (h' : s < t) : r < t :=
  CountsBelow.trans h h'

theorem le_refl (r : Rank) : r ≤ r := .inl rfl

theorem le_of_lt {r s : Rank} (h : r < s) : r ≤ s := .inr h

theorem lt_of_lt_of_le {r s t : Rank} (h : r < s) (h' : s ≤ t) : r < t := by
  rcases h' with rfl | h'
  · exact h
  · exact lt_trans h h'

theorem le_trans {r s t : Rank} (h : r ≤ s) (h' : s ≤ t) : r ≤ t := by
  rcases h with rfl | h
  · exact h'
  · exact .inr (lt_of_lt_of_le h h')

/-- The rank of a part that holds some counts back, over what is older. -/
def atop (held : List Nat) (older : Rank) : Rank := ⟨held ++ older.counts⟩

theorem atop_atop (a b : List Nat) (r : Rank) : atop a (atop b r) = atop (a ++ b) r := by
  simp [atop]

theorem atop_lt_atop {held held' : List Nat} {r s : Rank} (hlen : held.length = held'.length)
    (h : r < s) : atop held r < atop held' s :=
  CountsBelow.append held hlen h

theorem atop_cons_lt {a b : Nat} {held : List Nat} {r : Rank} (h : a < b) :
    atop (a :: held) r < atop (b :: held) r :=
  CountsBelow.newest h

end Rank

end Dataflow
