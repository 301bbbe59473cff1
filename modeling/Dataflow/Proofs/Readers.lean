import Dataflow.Proofs.Sessions
import Mathlib.Data.Finset.Lattice.Fold
import Mathlib.Order.Lattice.Nat

/-!
# What readers get

Every reader of a fanned-out source gets the whole source, however many others read
or stop reading, and whichever of them gets the lock.  The source is asked for no more
than the fastest of them needs: a copy that had to wait for the lock finds what the copy
before it asked for.

What a copy leaves behind when it is dropped depends on whether it was ever polled.
Only a copy that was polled closes its queue.

* `Session.copies_receive_all`: what the copies that were not dropped deliver, and
  when the source is asked.
* `Session.queue_of_dropped`: what is left of a copy that was dropped.
-/

namespace Dataflow

variable {W α : Type}

/-! ## Copies that are through -/

namespace FanOut

variable {source : W → Answer α × W} {served : Bool} {index : Nat} {fan : FanOut α} {w : W}

/-- Nothing more comes from a copy. -/
def Through (index : Nat) (fan : FanOut α) : Prop :=
  ∀ copy, fan.copies[index]? = some copy → copy.finished = true

/-- What is through stays through when a copy is replaced. -/
theorem Through.set {moved : Nat} {new : Copy α} {flowing : Bool} (h : fan.Through index)
    (hnew : moved = index → new.finished = true) :
    (⟨flowing, fan.copies.set moved new⟩ : FanOut α).Through index := fun copy hcopy =>
  forall_copies_set (P := fun moved copy => moved = index → copy.finished = true) hnew
    (fun _ copy _ hcopy heq => h copy (heq ▸ hcopy)) index copy hcopy rfl

theorem Through.offer {flowing : Bool} (h : fan.Through index) (c : Chunk α) :
    (⟨flowing, fan.copies.map (Copy.offer c)⟩ : FanOut α).Through index := by
  intro copy hcopy
  rw [List.getElem?_map] at hcopy
  obtain ⟨old, hold, rfl⟩ := Option.map_eq_some_iff.1 hcopy
  exact h old hold

theorem Through.poll (h : fan.Through index) (source : W → Answer α × W) (served : Bool)
    (moved : Nat) (w : W) : (FanOut.poll source served moved fan w).2.1.Through index := by
  have hpolled := polled_poll source served moved fan w
  generalize FanOut.poll source served moved fan w = r at hpolled ⊢
  have hne : ∀ {copy : Copy α}, fan.copies[moved]? = some copy → copy.finished = false →
      moved ≠ index := by
    rintro copy hcopy hfinished rfl
    cases hfinished.symm.trans (h copy hcopy)
  cases hpolled with
  | quiet _ => exact h
  | unserved hcopy hfinished _ => exact h.set fun heq => absurd heq (hne hcopy hfinished)
  | waiting hcopy hfinished _ _ => exact h.set fun heq => absurd heq (hne hcopy hfinished)
  | @shared _ c _ hcopy hfinished _ _ _ _ =>
    have hoffered : (⟨true, fan.copies.map (Copy.offer c)⟩ : FanOut α).Through index := h.offer c
    exact hoffered.set fun heq => absurd heq (hne hcopy hfinished)
  | delayed hcopy hfinished _ _ _ _ => exact h.set fun heq => absurd heq (hne hcopy hfinished)
  | ended _ _ _ _ _ _ => exact h.set fun _ => rfl
  | exhausted _ _ _ _ _ => exact h.set fun _ => rfl

theorem Through.drop (h : fan.Through index) (moved : Nat) : (fan.drop moved).Through index := by
  unfold FanOut.drop
  split
  · exact h
  · exact h.set fun _ => rfl

/-- A copy that finds its end is through. -/
theorem through_of_ended (h : (poll source served index fan w).1 = .ended) :
    (poll source served index fan w).2.1.Through index := by
  have hpolled := polled_poll source served index fan w
  generalize poll source served index fan w = r at hpolled h ⊢
  have hended : (fan.close index).Through index := by
    intro copy hcopy
    rw [close, List.getElem?_set_self'] at hcopy
    obtain ⟨_, _, rfl⟩ := Option.map_eq_some_iff.1 hcopy
    rfl
  cases hpolled with
  | quiet hquiet => exact hquiet
  | unserved _ _ _ => cases h
  | waiting _ _ _ _ => cases h
  | shared _ _ _ _ _ _ => cases h
  | delayed _ _ _ _ _ _ => cases h
  | ended _ _ _ _ _ _ => exact hended
  | exhausted _ _ _ _ _ => exact hended

/-! ## Sources with a record -/

/-- Keeping a record changes nothing for the copies. -/
theorem poll_noted (source : Moment → W → Answer α × W) (m : Moment) (served : Bool)
    (index : Nat) (fan : FanOut α) (p : W × List (Answer α)) :
    poll (source m) served index fan p.1 =
      ((poll (noted source m) served index fan p).1, (poll (noted source m) served index fan p).2.1,
        (poll (noted source m) served index fan p).2.2.1) := by
  obtain ⟨w, answers⟩ := p
  unfold poll noted
  cases fan.copies[index]? with
  | none => rfl
  | some copy =>
    cases hfinished : copy.finished with
    | true => simp [hfinished]
    | false =>
      cases served with
      | false => simp [hfinished]
      | true =>
        cases hpending : copy.pending with
        | cons c rest => simp [hfinished, hpending]
        | nil =>
          cases fan.flowing with
          | false => simp [hfinished, hpending]
          | true =>
            simp only [hfinished, hpending]
            obtain ⟨answer, w'⟩ := source m w
            cases answer <;> rfl

namespace Recorded

variable {source : Moment → W → Answer α × W} {count : Nat} {w : W}
  {received : Nat → List (Chunk α)} {asked dropped : List Nat} {fan : FanOut α}
  {p : W × List (Answer α)} {index : Nat}
  (h : Recorded source count w received asked dropped fan p)

include h

theorem exists_copy (hindex : index < count) : ∃ copy, fan.copies[index]? = some copy :=
  ⟨_, List.getElem?_eq_getElem (h.length.symm ▸ hindex)⟩

theorem accounted {copy : Copy α} (hcopy : fan.copies[index]? = some copy)
    (hdropped : index ∉ dropped) : received index ++ copy.pending = pulled p.2 := by
  have hstage := h.stage index copy hcopy
  rw [decide_eq_false hdropped] at hstage
  exact hstage.accounted

/-- The copy that is furthest has received all that was pulled. -/
theorem sup_received :
    (Finset.range count).sup (fun index => (received index).length) = (pulled p.2).length := by
  refine Nat.le_antisymm (Finset.sup_le fun index hindex => ?_) ?_
  · obtain ⟨copy, hcopy⟩ := h.exists_copy (Finset.mem_range.1 hindex)
    exact (h.stage index copy hcopy).received_begins.length_le
  · obtain ⟨index, hindex, hlength⟩ := h.longest
    exact Nat.le_trans hlength
      (Finset.le_sup (f := fun index => (received index).length) (Finset.mem_range.2 hindex))

/-- An error that was received is the last chunk that was pulled. -/
theorem received_failed {copy : Copy α} (hcopy : fan.copies[index]? = some copy)
    (hdropped : index ∉ dropped) (hfailed : Failed (received index)) :
    copy.pending = [] ∧ fan.flowing = false := by
  have hbegin : received index <+: pulled p.2 := ⟨_, h.accounted hcopy hdropped⟩
  have heq := eq_of_prefix_of_failed hbegin h.history.cut_pulled hfailed
  refine ⟨?_, h.history.exhausted_iff.2 (.inr (heq ▸ hfailed))⟩
  simpa [heq] using h.accounted hcopy hdropped

/-- A copy that has received everything from a source without more was told so. -/
theorem isOver (hflowing : fan.flowing = false) (hreceived : received index = pulled p.2) :
    Failed (received index) ∨ received index = pulled p.2 ∧ .ended ∈ p.2 := by
  rcases h.history.exhausted_iff.1 hflowing with hended | hfailed
  · exact .inr ⟨hreceived, hended⟩
  · exact .inl (hreceived ▸ hfailed)

/-- A copy ends only after an error, or when it has received everything and the source
has no more. -/
theorem over_of_ended (m : Moment) (served : Bool) (hindex : index < count) (hdropped : index ∉ dropped)
    (hended : (FanOut.poll (noted source m) served index fan p).1 = .ended) :
    Failed (received index) ∨ received index = pulled p.2 ∧
      .ended ∈ (FanOut.poll (noted source m) served index fan p).2.2.2 := by
  have hpolled := polled_poll (noted source m) served index fan p
  generalize FanOut.poll (noted source m) served index fan p = r at hpolled hended ⊢
  cases hpolled with
  | quiet hquiet =>
    obtain ⟨copy, hcopy⟩ := h.exists_copy hindex
    have hstage := h.stage index copy hcopy
    rw [decide_eq_false hdropped] at hstage
    obtain ⟨_, hreceived, hflowing⟩ := hstage.of_finished (hquiet copy hcopy)
    exact h.isOver hflowing hreceived
  | unserved _ _ _ => cases hended
  | waiting _ _ _ _ => cases hended
  | shared _ _ _ _ _ _ => cases hended
  | delayed _ _ _ _ _ _ => cases hended
  | ended hcopy _ _ hpending _ hsource =>
    have hreceived := h.accounted hcopy hdropped
    rw [hpending, List.append_nil] at hreceived
    obtain ⟨hanswer, rfl⟩ := Prod.mk.inj hsource
    have hanswer : (source m p.1).1 = .ended := hanswer
    exact .inr ⟨hreceived, by simp [hanswer]⟩
  | exhausted hcopy _ _ hpending hflowing =>
    have hreceived := h.accounted hcopy hdropped
    rw [hpending, List.append_nil] at hreceived
    exact h.isOver hflowing hreceived

/-- A copy that is served ends there. -/
theorem ended_of_over (m : Moment) (hdropped : index ∉ dropped)
    (hover : Failed (received index) ∨ received index = pulled p.2 ∧
      .ended ∈ (FanOut.poll (noted source m) true index fan p).2.2.2) :
    (FanOut.poll (noted source m) true index fan p).1 = .ended := by
  have hpolled := polled_poll (noted source m) true index fan p
  generalize FanOut.poll (noted source m) true index fan p = r at hpolled hover ⊢
  -- a source that flows has not ended before
  have hflows : ∀ {answer p'}, fan.flowing = true → noted source m p = (answer, p') →
      answer ≠ .ended → .ended ∉ p'.2 := by
    intro answer p' hflowing hsource hanswer hmem
    obtain ⟨rfl, rfl⟩ := Prod.mk.inj hsource
    rcases List.mem_append.1 hmem with hmem | hmem
    · cases hflowing.symm.trans (h.history.exhausted_iff.2 (.inl hmem))
    · exact hanswer (List.mem_singleton.1 hmem).symm
  cases hpolled with
  | quiet _ => rfl
  | unserved _ _ hserved => cases hserved
  | waiting hcopy _ _ hpending =>
    rcases hover with hfailed | ⟨hreceived, _⟩
    · cases hpending.symm.trans (h.received_failed hcopy hdropped hfailed).1
    · have haccounted := h.accounted hcopy hdropped
      rw [hpending, hreceived] at haccounted
      cases List.append_right_eq_self.1 haccounted
  | shared hcopy _ _ _ hflowing hsource =>
    rcases hover with hfailed | ⟨_, hended⟩
    · cases hflowing.symm.trans (h.received_failed hcopy hdropped hfailed).2
    · exact absurd hended (hflows hflowing hsource nofun)
  | delayed hcopy _ _ _ hflowing hsource =>
    rcases hover with hfailed | ⟨_, hended⟩
    · cases hflowing.symm.trans (h.received_failed hcopy hdropped hfailed).2
    · exact absurd hended (hflows hflowing hsource nofun)
  | ended _ _ _ _ _ _ => rfl
  | exhausted _ _ _ _ _ => rfl

end Recorded

end FanOut

namespace Session

variable {source : Moment → W → Answer α × W} {count : Nat} {w : W} {s : Session W α}

/-! ## Steps and polls -/

/-- A poll of a copy that no other copy comes between. -/
def poll (source : Moment → W → Answer α × W) (s : Session W α) (index : Nat) (m : Moment) :
    Answer α × Readers (W × List (Answer α)) α :=
  s.readers.poll (noted source m) index

/-- The lock is free, or with a copy. -/
def Reaches (s : Session W α) (index : Nat) : Prop :=
  ∀ holder, s.readers.holder = some holder → holder.index = index

theorem Sound.poll_serves (h : Sound source count w s) (index : Nat) (m : Moment)
    (granted : Bool) :
    FanOut.poll (noted source m) (s.readers.serves index) index s.fan s.readers.world =
      ((s.answer source index m granted).getD .pending,
        (s.step source (.advance index m granted)).fan,
        (s.step source (.advance index m granted)).readers.world) :=
  Readers.advance_eq_poll h.locked (noted source m) granted index

theorem Sound.poll_served (h : Sound source count w s) {index : Nat} (hreaches : s.Reaches index)
    (m : Moment) :
    FanOut.poll (noted source m) true index s.fan s.readers.world =
      ((s.poll source index m).1, (s.poll source index m).2.fan,
        (s.poll source index m).2.world) :=
  Readers.poll_eq h.locked (noted source m) hreaches

/-- Steps and polls are polls of the copies of a feed. -/
theorem poll_copy (hcount : 2 ≤ count) [Ranked W] {feed : Feed W α}
    (hfeed : feed.poll = source) (s : Session W α) (key : String) (index : Nat) (m : Moment) :
    (feed.copy key count index).poll m (s.fan, s.world) =
      let r := FanOut.poll (noted source m) (m.served key index) index s.fan s.readers.world
      (r.1, r.2.1, r.2.2.1) := by
  rw [Feed.copy, if_neg (by omega), ← hfeed]
  exact FanOut.poll_noted feed.poll m _ index s.fan s.readers.world

theorem answer_of_through {index : Nat} (h : s.fan.Through index) (m : Moment) (granted : Bool) :
    s.answer source index m granted = some .ended := by
  have hadvanced := Readers.advanced_advance (noted source m) granted index s.readers
  unfold answer
  generalize s.readers.advance (noted source m) granted index = r at hadvanced ⊢
  have hnot : ∀ {copy : Copy α}, s.readers.fan.copies[index]? = some copy →
      ¬copy.finished = false := by
    intro copy hcopy hfinished
    cases hfinished.symm.trans (h copy hcopy)
  cases hadvanced with
  | quiet _ => rfl
  | asked hcopy hfinished _ => exact absurd hfinished (hnot hcopy)
  | found hcopy hfinished _ _ => exact absurd hfinished (hnot hcopy)
  | looked hcopy hfinished _ _ => exact absurd hfinished (hnot hcopy)
  | got hcopy hfinished _ _ => exact absurd hfinished (hnot hcopy)
  | waits hcopy hfinished _ _ _ => exact absurd hfinished (hnot hcopy)
  | taken hcopy hfinished _ _ _ => exact absurd hfinished (hnot hcopy)
  | went hcopy hfinished _ _ _ => exact absurd hfinished (hnot hcopy)

/-- What is through stays through. -/
theorem through_step (h : Sound source count w s) {index : Nat} (hthrough : s.fan.Through index)
    (move : Move) : (s.step source move).fan.Through index := by
  cases move with
  | drop moved => exact hthrough.drop moved
  | advance moved m granted =>
    have := hthrough.poll (noted source m) (s.readers.serves moved) moved s.readers.world
    rwa [h.poll_serves moved m granted] at this

/-- A copy that has found its end delivers nothing, whatever comes next. -/
theorem answer_after_end (h : Sound source count w s) {index : Nat} {m : Moment} {granted : Bool}
    (hended : s.answer source index m granted = some .ended) (moves : List Move) (m' : Moment)
    (granted' : Bool) :
    (moves.foldl (step source) (s.step source (.advance index m granted))).answer source index m'
      granted' = some .ended := by
  have hthrough : (s.step source (.advance index m granted)).fan.Through index := by
    have hpoll := h.poll_serves index m granted
    have hfirst := congrArg Prod.fst hpoll
    rw [hended] at hfirst
    have hthrough := FanOut.through_of_ended hfirst
    rwa [hpoll] at hthrough
  have hrun : ∀ s : Session W α, Sound source count w s → s.fan.Through index →
      (moves.foldl (step source) s).fan.Through index := by
    intro s hs hthrough
    induction moves generalizing s with
    | nil => exact hthrough
    | cons move moves ih => exact ih _ (hs.step move) (through_step hs hthrough move)
  exact answer_of_through (hrun _ (h.step _) hthrough) m' granted'

/-! ## The record -/

theorem mem_dropped_foldl (moves : List Move) (s : Session W α) (index : Nat) :
    index ∈ (moves.foldl (step source) s).dropped ↔ index ∈ s.dropped ∨ .drop index ∈ moves := by
  induction moves generalizing s with
  | nil => simp
  | cons move moves ih =>
    rw [List.foldl_cons, ih]
    cases move <;> simp [step, or_assoc, or_left_comm]

theorem mem_dropped_play {moves : List Move} {index : Nat} :
    index ∈ (play source count w moves).dropped ↔ .drop index ∈ moves := by
  simp [play, mem_dropped_foldl]

/-- Polling a copy after it was dropped is not recorded. -/
theorem mem_asked_foldl_of_dropped (moves : List Move) {s : Session W α} {index : Nat}
    (h : index ∈ s.dropped) :
    index ∈ (moves.foldl (step source) s).asked ↔ index ∈ s.asked := by
  induction moves generalizing s with
  | nil => rfl
  | cons move moves ih =>
    rw [List.foldl_cons, ih]
    · cases move with
      | drop _ => rfl
      | advance moved _ _ =>
        simp only [step]
        split
        next => rfl
        next hmoved =>
          have hne : index ≠ moved := fun heq => hmoved (heq ▸ h)
          simp [hne]
    · cases move <;> simp [step, h]

theorem mem_asked_foldl (moves : List Move) {s : Session W α} {index : Nat}
    (h : index ∉ s.dropped) (hmoves : .drop index ∉ moves) :
    index ∈ (moves.foldl (step source) s).asked ↔
      index ∈ s.asked ∨ moves.any (Move.reads index) = true := by
  induction moves generalizing s with
  | nil => simp
  | cons move moves ih =>
    obtain ⟨hmove, hmoves⟩ := not_or.1 (mt List.mem_cons.2 hmoves)
    rw [List.foldl_cons, ih _ hmoves]
    · cases move with
      | drop _ => simp [step, Move.reads]
      | advance moved _ _ =>
        by_cases hmoved : index = moved
        · subst hmoved
          simp [step, h, Move.reads]
        · have hmoved' : moved ≠ index := Ne.symm hmoved
          simp only [step]
          split <;> simp [hmoved, hmoved', Move.reads]
    · cases move with
      | advance _ _ _ => exact h
      | drop moved =>
        have hne : index ≠ moved := fun heq => hmove (by rw [heq])
        simp [step, hne, h]

/-- The source is asked only by a copy that has the lock and has looked again. -/
theorem asks_of_ne {move : Move} (h : (s.step source move).answers ≠ s.answers) :
    ∃ index m granted copy, move = .advance index m granted ∧
      s.readers.holder = some ⟨index, true⟩ ∧ s.fan.copies[index]? = some copy ∧
      copy.finished = false := by
  cases move with
  | drop _ => exact absurd rfl h
  | advance index m granted =>
    have hadvanced := Readers.advanced_advance (noted source m) granted index s.readers
    simp only [step, answers] at h
    generalize s.readers.advance (noted source m) granted index = r at hadvanced h
    cases hadvanced with
    | quiet _ => exact absurd rfl h
    | asked hcopy hfinished hholder =>
      exact ⟨index, m, granted, _, rfl, hholder, hcopy, hfinished⟩
    | found _ _ _ _ => exact absurd rfl h
    | looked _ _ _ _ => exact absurd rfl h
    | got _ _ _ _ => exact absurd rfl h
    | waits _ _ _ _ _ => exact absurd rfl h
    | taken _ _ _ _ _ => exact absurd rfl h
    | went _ _ _ _ _ => exact absurd rfl h

/-! ## What every session guarantees -/

/-- Copies deliver the whole source, in whatever order they are polled and dropped, and
wherever they are in their polls.  A copy that was not dropped has received or has waiting
exactly what was pulled, and it ends after the first error or at the end of the source.
The source is asked only by a copy that has the lock and has nothing waiting, so no more is
pulled than some copy has received; and it is not asked again once it has ended or
failed. -/
theorem copies_receive_all (source : Moment → W → Answer α × W) {count : Nat}
    (hcount : 2 ≤ count) (w : W) (moves : List Move) :
    let s := play source count w moves
    -- a step is a poll of a copy of a feed that may have to wait, and one that need not wait
    -- is what the steps of a poll amount to that no other copy comes between
    (∀ [Ranked W] (feed : Feed W α), feed.poll = source → ∀ (key : String) (index : Nat)
      (m : Moment),
      (∀ granted, m.served key index = s.readers.serves index →
        (feed.copy key count index).poll m (s.fan, s.world) =
          ((s.answer source index m granted).getD .pending,
            (s.step source (.advance index m granted)).fan,
            (s.step source (.advance index m granted)).world)) ∧
      (m.served key index = true → s.Reaches index →
        (feed.copy key count index).poll m (s.fan, s.world) =
          ((s.poll source index m).1, (s.poll source index m).2.fan,
            (s.poll source index m).2.world.1))) ∧
    -- the record is that of the source
    (∃ moments, (s.answers, s.world) = polled source moments w) ∧
    cut s.pulled = s.pulled ∧
    -- no copy misses, repeats or reorders a chunk, and each ends
    (∀ index < count, .drop index ∉ moves →
      (∃ copy, s.fan.copies[index]? = some copy ∧
        s.received index ++ copy.pending = s.pulled) ∧
      (∀ m granted, s.answer source index m granted = some .ended →
        (∃ e, .error e ∈ s.received index) ∨ s.received index = s.pulled ∧
          .ended ∈ (s.step source (.advance index m granted)).answers) ∧
      (∀ m, s.Reaches index → ((s.poll source index m).1 = .ended ↔
        (∃ e, .error e ∈ s.received index) ∨ s.received index = s.pulled ∧
          .ended ∈ (s.poll source index m).2.world.2))) ∧
    (∀ index m granted, s.answer source index m granted = some .ended →
      ∀ (later : List Move) (m' : Moment) (granted' : Bool),
        (later.foldl (step source) (s.step source (.advance index m granted))).answer source index
          m' granted' = some .ended) ∧
    -- the lock is with a copy that was not dropped, or free
    (∀ holder, s.readers.holder = some holder →
      holder.index < count ∧ .drop holder.index ∉ moves) ∧
    -- the source is asked for no more than it has to be
    (∀ move, (s.step source move).answers ≠ s.answers →
      ∃ index m granted copy, move = .advance index m granted ∧ .drop index ∉ moves ∧
        s.readers.holder = some ⟨index, true⟩ ∧ s.fan.copies[index]? = some copy ∧
        copy.pending = []) ∧
    (Finset.range count).sup (fun index => (s.received index).length) = s.pulled.length ∧
    ∀ answer ∈ s.answers.dropLast, answer = .pending ∨ ∃ a, answer = .chunk (.ok a) := by
  intro s
  have hsound : Sound source count w s :=
    sound_play source (Nat.lt_of_lt_of_le Nat.zero_lt_two hcount) w moves
  refine ⟨fun feed hfeed key index m => ⟨fun granted hserved => ?_, fun hserved hreaches => ?_⟩,
    hsound.recorded.trace, hsound.recorded.history.cut_pulled, fun index hindex hdrop => ?_,
    fun index m granted hended later m' granted' => answer_after_end hsound hended later m' granted',
    fun holder hholder => ?_, fun move hasks => ?_, hsound.recorded.sup_received,
    fun answer hanswer => ?_⟩
  · rw [poll_copy hcount hfeed, hserved, hsound.poll_serves index m granted]
    rfl
  · rw [poll_copy hcount hfeed, hserved, hsound.poll_served hreaches m]
  · have hdropped : index ∉ s.dropped := mt mem_dropped_play.1 hdrop
    obtain ⟨copy, hcopy⟩ := hsound.recorded.exists_copy hindex
    refine ⟨⟨copy, hcopy, hsound.recorded.accounted hcopy hdropped⟩, fun m granted hended => ?_,
      fun m hreaches => ?_⟩
    · have hpoll := hsound.poll_serves index m granted
      have hover := hsound.recorded.over_of_ended m (s.readers.serves index) hindex hdropped
      rw [hpoll, hended] at hover
      exact (hover rfl).imp_left failed_iff.1
    · have hpoll := hsound.poll_served hreaches m
      have hover := hsound.recorded.over_of_ended m true hindex hdropped
      have hend := hsound.recorded.ended_of_over m hdropped
      rw [hpoll] at hover hend
      exact ⟨fun hended => (hover hended).imp_left failed_iff.1,
        fun hended => hend (hended.imp_left failed_iff.2)⟩
  · obtain ⟨copy, hcopy, _, hfinished⟩ := (hsound.locked.holder holder hholder).1
    have hlt := (List.getElem?_eq_some_iff.1 hcopy).1
    exact ⟨hsound.recorded.length ▸ hlt,
      mt mem_dropped_play.2 (hsound.recorded.unfinished hcopy hfinished).1⟩
  · obtain ⟨index, m, granted, copy, rfl, hholder, hcopy, hfinished⟩ := asks_of_ne hasks
    have hdropped := (hsound.recorded.unfinished hcopy hfinished).1
    have hpending := (Readers.queued_eq hcopy).symm.trans (hsound.locked.looked index hholder)
    exact ⟨index, m, granted, copy, rfl, mt mem_dropped_play.2 hdropped, hholder, hcopy, hpending⟩
  · have hlast := hsound.recorded.history.dropLast answer hanswer
    match answer, hlast with
    | .pending, _ => exact .inl rfl
    | .chunk (.ok a), _ => exact .inr ⟨a, rfl⟩

/-- Moves of three copies.  The first and the second go for the lock, and the first gets it,
asks, and keeps it until the source has an answer.  The second finds that chunk when it has
the lock.  It is dropped then, and the first asks once more. -/
def contended : List Move :=
  [.advance 0 .calm true, .advance 1 .calm true, .advance 0 .calm true, .advance 0 .calm true,
    .advance 0 { arrived := fun _ => false } true, .advance 1 .calm true, .advance 0 .calm true,
    .advance 1 .calm true, .advance 1 .calm true, .drop 1, .advance 0 .calm true,
    .advance 0 .calm true, .advance 0 .calm true, .advance 0 .calm true]

/-- The chunk that two copies went for is pulled once and delivered to both, and the third
copy finds both values. -/
theorem third_copy_receives_all :
    let s := play Tape.poll 3 ⟨[.ok 1, .ok 2], 0⟩ contended
    s.answers = [.pending, .chunk (.ok 1), .chunk (.ok 2)] ∧
      s.received 0 = [.ok 1, .ok 2] ∧ s.received 1 = [.ok 1] ∧
      ∃ copy, s.fan.copies[2]? = some copy ∧ copy.pending = [.ok 1, .ok 2] := by
  obtain ⟨_, _, _, hcopies, _⟩ := copies_receive_all (α := Nat) Tape.poll
    (by decide : 2 ≤ 3) ⟨[.ok 1, .ok 2], 0⟩ contended
  obtain ⟨⟨copy, hcopy, hpending⟩, _⟩ := hcopies 2 (by decide) (by simp [contended])
  exact ⟨rfl, rfl, rfl, copy, hcopy, hpending⟩

/-! ## Dropped copies -/

/-- The queue of a copy that was dropped is closed when the copy had been polled
before, and nothing waits in it from then on.  A copy that was dropped without ever
being polled keeps its queue, and everything that is pulled from the source waits
there. -/
theorem queue_of_dropped (source : Moment → W → Answer α × W) {count : Nat} (hcount : 2 ≤ count)
    (w : W) {index : Nat} (hindex : index < count) {before : List Move}
    (hbefore : .drop index ∉ before) (after : List Move) :
    let s := play source count w (before ++ .drop index :: after)
    ∃ copy, s.fan.copies[index]? = some copy ∧
      copy.queue = if before.any (Move.reads index) then none else some s.pulled := by
  intro s
  have hrecorded : s.fan.Recorded source count w s.received s.asked s.dropped s.readers.world :=
    (sound_play source (Nat.lt_of_lt_of_le Nat.zero_lt_two hcount) w _).recorded
  have hdropped : index ∈ s.dropped := mem_dropped_play.2 (by simp)
  have hasked : index ∈ s.asked ↔ before.any (Move.reads index) = true := by
    have hsplit : s = after.foldl (step source)
        ((play source count w before).step source (.drop index)) :=
      play_append source count w before (.drop index :: after)
    rw [hsplit, mem_asked_foldl_of_dropped after List.mem_cons_self]
    exact (mem_asked_foldl before List.not_mem_nil hbefore).trans (by simp)
  obtain ⟨copy, hcopy⟩ := hrecorded.exists_copy hindex
  have hstage := hrecorded.stage index copy hcopy
  rw [decide_eq_true hdropped] at hstage
  refine ⟨copy, hcopy, hstage.queue_eq.trans ?_⟩
  simp only [decide_eq_true_eq, hasked]
  rfl

/-- A copy that was on its way to the lock when it was dropped has been polled. -/
theorem queue_of_read_dropped :
    let s := play Tape.poll 2 ⟨[.ok 1, .ok 2], 0⟩
      [.advance 1 .calm true, .drop 1, .advance 0 .calm true, .advance 0 .calm true,
        .advance 0 .calm true, .advance 0 .calm true]
    s.pulled = [.ok 1] ∧ ∃ copy, s.fan.copies[1]? = some copy ∧ copy.queue = none :=
  ⟨rfl, queue_of_dropped (α := Nat) Tape.poll (by decide : 2 ≤ 2) ⟨[.ok 1, .ok 2], 0⟩
    (by decide : 1 < 2) (by simp : Move.drop 1 ∉ [.advance 1 .calm true])
    (.replicate 4 (.advance 0 .calm true))⟩

/-- Not every dropped copy is rid of its queue: two copies, the second dropped before
it was ever polled, and the chunks that are pulled after that wait for it. -/
theorem queue_of_unread_dropped :
    let s := play Tape.poll 2 ⟨[.ok 1, .ok 2], 0⟩
      (.drop 1 :: .replicate 8 (.advance 0 .calm true))
    1 ∈ s.dropped ∧ s.fan.copies[1]? = some ⟨some [.ok 1, .ok 2], false, true⟩ :=
  ⟨List.mem_cons_self, rfl⟩

end Session

end Dataflow
