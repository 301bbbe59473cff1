import Dataflow.Proofs.Interleaving
import Dataflow.Proofs.Locking
import Mathlib.Logic.Function.Basic

/-!
# Sessions of copies

A session is what the readers of a fanned-out source do: they take the steps of their
copies and drop copies, in any order.  So a session can be stopped anywhere, with some
copies on their way to the lock, one that has it, and a source that has not answered yet.
The record of a session keeps what the source answered, what every copy has received and
which copies were dropped, so that all of this can be compared with the queues.

* `History`: what a source can have answered.
* `Copy.Stage`: what a copy can look like, given what was pulled and received.
* `FanOut.Recorded`: the invariant of the queues, which every poll keeps
  (`FanOut.Recorded.poll`).
* `Session.Sound`: the invariant of a session, which every move keeps
  (`Session.sound_play`).
-/

namespace Dataflow

variable {W α : Type}

/-! ## The answers of a source -/

/-- Whether nothing follows an answer: it is an error, or the end. -/
def Answer.isLast : Answer α → Bool
  | .chunk c => c.isError
  | .ended => true
  | .pending => false

/-- The chunks among some answers. -/
def pulled (answers : List (Answer α)) : List (Chunk α) := answers.flatMap Answer.toList

theorem pulled_concat (answers : List (Answer α)) (answer : Answer α) :
    pulled (answers ++ [answer]) = pulled answers ++ answer.toList := by
  simp [pulled]

theorem polled_concat (poll : Moment → W → Answer α × W) (moments : List Moment) (m : Moment)
    (w : W) :
    polled poll (moments ++ [m]) w =
      ((polled poll moments w).1 ++ [(poll m (polled poll moments w).2).1],
        (poll m (polled poll moments w).2).2) := by
  induction moments generalizing w with
  | nil => rfl
  | cons _ _ ih => simp [polled, ih]

/-- What a source can have answered, and whether it may still deliver. -/
inductive History : List (Answer α) → Bool → Prop
  /-- So far nothing was the last answer. -/
  | flowing {answers : List (Answer α)} (h : ∀ answer ∈ answers, answer.isLast = false) :
      History answers true
  /-- The last answer was an error or the end. -/
  | exhausted {answers : List (Answer α)} (h : ∀ answer ∈ answers, answer.isLast = false)
      {last : Answer α} (hlast : last.isLast = true) : History (answers ++ [last]) false

namespace History

variable {answers : List (Answer α)} {flowing : Bool}

/-- Answers that others follow deliver no error. -/
theorem not_failed (h : ∀ answer ∈ answers, answer.isLast = false) : ¬Failed (pulled answers) := by
  rintro ⟨c, hc, herror⟩
  obtain ⟨answer, hanswer, hc⟩ := List.mem_flatMap.1 hc
  have hlast := h answer hanswer
  cases answer with
  | chunk _ =>
    cases List.mem_singleton.1 hc
    exact Bool.noConfusion (hlast.symm.trans herror)
  | ended => cases hlast
  | pending => cases hc

/-- A source that flows may answer anything next. -/
theorem ask (h : History answers true) (answer : Answer α) :
    History (answers ++ [answer]) (!answer.isLast) := by
  cases h with
  | flowing h =>
    cases hlast : answer.isLast with
    | true => exact .exhausted h hlast
    | false =>
      refine .flowing fun other hother => ?_
      rcases List.mem_append.1 hother with hother | hother
      · exact h other hother
      · rwa [List.mem_singleton.1 hother]

theorem dropLast (h : History answers flowing) :
    ∀ answer ∈ answers.dropLast, answer.isLast = false := by
  cases h with
  | flowing h => exact fun answer hanswer => h answer ((List.dropLast_sublist _).mem hanswer)
  | exhausted h _ => rwa [List.dropLast_concat]

/-- A source is exhausted when it has ended or failed. -/
theorem exhausted_iff (h : History answers flowing) :
    flowing = false ↔ .ended ∈ answers ∨ Failed (pulled answers) := by
  cases h with
  | flowing h =>
    refine iff_of_false nofun fun hover => ?_
    rcases hover with hended | hfailed
    · cases h _ hended
    · exact not_failed h hfailed
  | @exhausted answers _ last hlast =>
    refine iff_of_true rfl ?_
    cases last with
    | chunk c =>
      right
      rw [pulled_concat]
      exact failed_concat.2 (.inr hlast)
    | ended => exact .inl (by simp)
    | pending => cases hlast

/-- What was pulled ends with its first error. -/
theorem cut_pulled (h : History answers flowing) : cut (pulled answers) = pulled answers := by
  cases h with
  | flowing h => exact cut_eq_self (not_failed h)
  | @exhausted answers h last _ =>
    rw [pulled_concat, cut_append_of_not_failed (not_failed h)]
    cases last with
    | chunk c => cases c <;> rfl
    | ended => rfl
    | pending => rfl

/-- Nothing follows an error of the source. -/
theorem last_of_error (h : History answers flowing) {before rest : List (Chunk α)} {c : Chunk α}
    (hsplit : pulled answers = before ++ c :: rest) (hc : c.isError = true) :
    rest = [] ∧ flowing = false := by
  have hfailed : Failed (before ++ [c]) := failed_concat.2 (.inr hc)
  have hbegin : before ++ [c] <+: pulled answers := ⟨rest, by simp [hsplit]⟩
  have heq := eq_of_prefix_of_failed hbegin h.cut_pulled hfailed
  refine ⟨?_, h.exhausted_iff.2 (.inr (heq ▸ hfailed))⟩
  simpa [← heq] using hsplit

end History

/-! ## The stages of a copy -/

namespace Copy

/-- The stages of a copy, given what was pulled from the source, what the copy has
received, whether the source may still deliver, whether the copy was pulled while
it could be, and whether it was dropped. -/
inductive Stage (pulled received : List (Chunk α)) (flowing asked dropped : Bool) : Copy α → Prop
  /-- The copy was never pulled, and all that was pulled waits for it. -/
  | fresh (h : received = []) (hasked : asked = false) :
      Stage pulled received flowing asked dropped ⟨some pulled, false, dropped⟩
  /-- The copy is being read. -/
  | live {queue : List (Chunk α)} (h : received ++ queue = pulled) (hasked : asked = true)
      (hdropped : dropped = false) :
      Stage pulled received flowing asked dropped ⟨some queue, true, false⟩
  /-- The copy has delivered everything. -/
  | ended (h : received = pulled) (hflowing : flowing = false) (hasked : asked = true)
      (hdropped : dropped = false) :
      Stage pulled received flowing asked dropped Copy.ended
  /-- The copy was dropped after it was pulled. -/
  | gone (h : received <+: pulled) (hasked : asked = true) (hdropped : dropped = true) :
      Stage pulled received flowing asked dropped Copy.ended

namespace Stage

variable {pulled received : List (Chunk α)} {flowing asked dropped : Bool} {copy : Copy α}

/-- What a copy received comes first, and what waits for it comes next. -/
theorem accounted (h : Stage pulled received flowing asked false copy) :
    received ++ copy.pending = pulled := by
  cases h with
  | fresh h _ => simp [h, pending]
  | live h _ _ => exact h
  | ended h _ _ _ => simp [h, pending, Copy.ended]
  | gone _ _ hdropped => cases hdropped

/-- No copy receives anything but the beginning of what was pulled. -/
theorem received_begins (h : Stage pulled received flowing asked dropped copy) :
    received <+: pulled := by
  cases h with
  | fresh h _ => simp [h]
  | live h _ _ => exact ⟨_, h⟩
  | ended h _ _ _ => exact h ▸ List.prefix_rfl
  | gone h _ _ => exact h

/-- A copy that still delivers was not dropped, and all is accounted for. -/
theorem of_unfinished (h : Stage pulled received flowing asked dropped copy)
    (hfinished : copy.finished = false) :
    dropped = false ∧ received ++ copy.pending = pulled := by
  have hdropped : dropped = false := by
    cases h with
    | fresh _ _ => exact hfinished
    | live _ _ hdropped => exact hdropped
    | ended _ _ _ _ => cases hfinished
    | gone _ _ _ => cases hfinished
  subst hdropped
  exact ⟨rfl, h.accounted⟩

/-- A copy that has come to its end was pulled and has received everything. -/
theorem of_finished (h : Stage pulled received flowing asked false copy)
    (hfinished : copy.finished = true) :
    asked = true ∧ received = pulled ∧ flowing = false := by
  cases h with
  | fresh _ _ => cases hfinished
  | live _ _ _ => cases hfinished
  | ended h hflowing hasked _ => exact ⟨hasked, h, hflowing⟩
  | gone _ _ hdropped => cases hdropped

/-- The queue of a copy that was dropped is closed if the copy was ever pulled. -/
theorem queue_eq (h : Stage pulled received flowing asked true copy) :
    copy.queue = if asked then none else some pulled := by
  cases h with
  | fresh _ hasked => rw [hasked]; rfl
  | live _ _ hdropped => cases hdropped
  | ended _ _ _ hdropped => cases hdropped
  | gone _ hasked _ => rw [hasked]; rfl

/-- The copy is polled and has to wait. -/
theorem begun (h : Stage pulled received flowing asked false copy)
    (hfinished : copy.finished = false) :
    Stage pulled received flowing true false copy.begun := by
  cases h with
  | fresh h _ => exact .live (by rw [h, List.nil_append]) rfl rfl
  | live h _ _ => exact .live h rfl rfl
  | ended _ _ _ _ => cases hfinished
  | gone _ _ _ => cases hfinished

/-- The source ends. -/
theorem exhaust (h : Stage pulled received flowing asked dropped copy) :
    Stage pulled received false asked dropped copy := by
  cases h with
  | fresh h hasked => exact .fresh h hasked
  | live h hasked hdropped => exact .live h hasked hdropped
  | ended h _ hasked hdropped => exact .ended h rfl hasked hdropped
  | gone h hasked hdropped => exact .gone h hasked hdropped

/-- The source delivers a chunk to another copy. -/
theorem offer (h : Stage pulled received true asked dropped copy) (c : Chunk α) :
    Stage (pulled ++ [c]) received (!c.isError) asked dropped (copy.offer c) := by
  cases h with
  | fresh h hasked => exact .fresh h hasked
  | live h hasked hdropped => exact .live (by rw [← List.append_assoc, h]) hasked hdropped
  | ended _ hflowing _ _ => cases hflowing
  | gone h hasked hdropped => exact .gone (h.trans (List.prefix_append _ _)) hasked hdropped

/-- The copy delivers a chunk. -/
theorem delivered {c : Chunk α} {rest : List (Chunk α)} (h : received ++ c :: rest = pulled)
    (hlast : c.isError = true → rest = [] ∧ flowing = false) :
    Stage pulled (received ++ [c]) flowing true false (Copy.delivered c rest) := by
  unfold Copy.delivered
  split
  next hc =>
    obtain ⟨rfl, hflowing⟩ := hlast hc
    exact .ended h hflowing rfl rfl
  next => exact .live (by simpa using h) rfl rfl

/-- The copy is dropped. -/
theorem drop (h : Stage pulled received flowing asked dropped copy) :
    Stage pulled received flowing asked true copy.dropped := by
  cases h with
  | fresh h hasked => exact .fresh h hasked
  | live h hasked _ => exact .gone ⟨_, h⟩ hasked rfl
  | ended h _ hasked _ => exact .gone (h ▸ List.prefix_rfl) hasked rfl
  | gone h hasked _ => exact .gone h hasked rfl

end Stage

end Copy

/-! ## The queues -/

/-- A source that keeps a record of its answers. -/
def noted (source : Moment → W → Answer α × W) (m : Moment) (p : W × List (Answer α)) :
    Answer α × W × List (Answer α) :=
  ((source m p.1).1, (source m p.1).2, p.2 ++ [(source m p.1).1])

namespace FanOut

/-- The queues of the copies, against what the source answered, what the copies have
received, and which of them were polled before they were dropped, or were dropped. -/
structure Recorded (source : Moment → W → Answer α × W) (count : Nat) (w : W)
    (received : Nat → List (Chunk α)) (asked dropped : List Nat) (fan : FanOut α)
    (p : W × List (Answer α)) : Prop where
  length : fan.copies.length = count
  history : History p.2 fan.flowing
  trace : ∃ moments, (p.2, p.1) = polled source moments w
  stage : ∀ (index : Nat) (copy : Copy α), fan.copies[index]? = some copy →
    copy.Stage (pulled p.2) (received index) fan.flowing (decide (index ∈ asked))
      (decide (index ∈ dropped))
  /-- Some copy has received everything that was pulled. -/
  longest : ∃ index < count, (pulled p.2).length ≤ (received index).length

variable {source : Moment → W → Answer α × W} {count : Nat} {w : W}
  {received : Nat → List (Chunk α)} {asked dropped : List Nat} {fan : FanOut α}
  {p : W × List (Answer α)} {m : Moment} {index : Nat} {copy : Copy α}

theorem recorded_fresh (source : Moment → W → Answer α × W) (hcount : 0 < count) (w : W) :
    Recorded source count w (fun _ => []) [] [] (fresh count) (w, []) where
  length := List.length_replicate
  history := .flowing nofun
  trace := ⟨[], rfl⟩
  stage index copy hcopy := by
    obtain rfl : copy = {} := List.eq_of_mem_replicate (List.mem_of_getElem? hcopy)
    exact .fresh rfl rfl
  longest := ⟨0, hcount, Nat.le_refl _⟩

/-- What holds of all copies holds of them after one was replaced. -/
theorem forall_copies_set {copies : List (Copy α)} {P : Nat → Copy α → Prop} {new : Copy α}
    (hnew : P index new)
    (hothers : ∀ other copy, other ≠ index → copies[other]? = some copy → P other copy) :
    ∀ other copy, (copies.set index new)[other]? = some copy → P other copy := by
  intro other copy hcopy
  by_cases hother : other = index
  · subst hother
    rw [List.getElem?_set_self'] at hcopy
    obtain ⟨_, _, rfl⟩ := Option.map_eq_some_iff.1 hcopy
    exact hnew
  · rw [List.getElem?_set_ne (Ne.symm hother)] at hcopy
    exact hothers other copy hother hcopy

/-- A copy is replaced after it was polled. -/
theorem stage_set {answers : List (Answer α)} {flowing : Bool} {copies : List (Copy α)}
    {new : Copy α} {got : List (Chunk α)} (hdropped : index ∉ dropped)
    (hnew : new.Stage (pulled answers) got flowing true false)
    (hothers : ∀ other copy, other ≠ index → copies[other]? = some copy →
      copy.Stage (pulled answers) (received other) flowing (decide (other ∈ asked))
        (decide (other ∈ dropped))) :
    ∀ (other : Nat) (copy : Copy α), (copies.set index new)[other]? = some copy →
      copy.Stage (pulled answers) (Function.update received index got other) flowing
        (decide (other ∈ index :: asked)) (decide (other ∈ dropped)) := by
  refine forall_copies_set ?_ fun other copy hother hcopy => ?_
  · rwa [Function.update_self, decide_eq_true List.mem_cons_self, decide_eq_false hdropped]
  · have hasked : decide (other ∈ index :: asked) = decide (other ∈ asked) := by simp [hother]
    rw [Function.update_of_ne hother, hasked]
    exact hothers other copy hother hcopy

namespace Recorded

variable (h : Recorded source count w received asked dropped fan p)

include h

theorem unfinished (hcopy : fan.copies[index]? = some copy) (hfinished : copy.finished = false) :
    index ∉ dropped ∧ received index ++ copy.pending = pulled p.2 := by
  obtain ⟨hdropped, hsplit⟩ := (h.stage index copy hcopy).of_unfinished hfinished
  exact ⟨of_decide_eq_false hdropped, hsplit⟩

/-- The copy that is furthest keeps its place when another one goes on. -/
theorem longest_update (items : List (Chunk α)) :
    ∃ other < count, (pulled p.2).length ≤
      (Function.update received index (received index ++ items) other).length := by
  obtain ⟨other, hother, hlength⟩ := h.longest
  refine ⟨other, hother, Nat.le_trans hlength ?_⟩
  by_cases heq : other = index
  · subst heq
    simp
  · simp [heq]

/-- A copy goes on, and the source is not asked. -/
theorem settle {new : Copy α} (items : List (Chunk α)) (hdropped : index ∉ dropped)
    (hnew : new.Stage (pulled p.2) (received index ++ items) fan.flowing true false) :
    Recorded source count w (Function.update received index (received index ++ items))
      (index :: asked) dropped (fan.setCopy index new) p where
  length := (List.length_set ..).trans h.length
  history := h.history
  trace := h.trace
  stage := stage_set hdropped hnew fun other copy _ => h.stage other copy
  longest := h.longest_update items

/-- The record of a source that is asked once more. -/
theorem trace_ask (m : Moment) :
    ∃ moments, ((noted source m p).2.2, (noted source m p).2.1) = polled source moments w := by
  obtain ⟨moments, htrace⟩ := h.trace
  refine ⟨moments ++ [m], ?_⟩
  rw [polled_concat, ← htrace]
  rfl

/-- The source delivers a chunk to the copy that asked. -/
theorem share {c : Chunk α} {p' : W × List (Answer α)} (hcopy : fan.copies[index]? = some copy)
    (hfinished : copy.finished = false) (hpending : copy.pending = [])
    (hflowing : fan.flowing = true) (hsource : noted source m p = (.chunk c, p')) :
    Recorded source count w (Function.update received index (received index ++ [c]))
      (index :: asked) dropped (fan.share index c) p' := by
  obtain ⟨hdropped, hreceived⟩ := h.unfinished hcopy hfinished
  rw [hpending, List.append_nil] at hreceived
  have htrace := h.trace_ask m
  obtain ⟨hanswer, rfl⟩ := Prod.mk.inj hsource
  have hpulled : pulled (p.2 ++ [(source m p.1).1]) = pulled p.2 ++ [c] := by
    rw [pulled_concat, show (source m p.1).1 = .chunk c from hanswer]
    rfl
  have hhistory := (hflowing ▸ h.history).ask (source m p.1).1
  rw [show (source m p.1).1.isLast = c.isError from congrArg Answer.isLast hanswer] at hhistory
  have hlt := (List.getElem?_eq_some_iff.1 hcopy).1
  refine ⟨by simpa [FanOut.share] using h.length, hhistory, htrace, ?_, index, h.length ▸ hlt, ?_⟩
  · refine stage_set hdropped (.delivered ?_ fun hc => ⟨rfl, by simp [FanOut.share, hc]⟩) ?_
    · rw [hpulled, hreceived]
    · intro other copy' _ hcopy'
      rw [List.getElem?_map] at hcopy'
      obtain ⟨old, hold, rfl⟩ := Option.map_eq_some_iff.1 hcopy'
      rw [hpulled]
      exact (hflowing ▸ h.stage other old hold).offer c
  · exact Nat.le_of_eq (by simp [hpulled, hreceived])

/-- The source has no chunk for the copy that asked: it has ended, or has not answered
yet. -/
theorem ask {new : Copy α} {answer : Answer α} {p' : W × List (Answer α)}
    (hsource : noted source m p = (answer, p')) (hanswer : answer.toList = [])
    (hflowing : fan.flowing = true) (hdropped : index ∉ dropped)
    (hnew : new.Stage (pulled p.2) (received index) (!answer.isLast) true false) :
    Recorded source count w received (index :: asked) dropped
      ⟨!answer.isLast, fan.copies.set index new⟩ p' := by
  have htrace := h.trace_ask m
  obtain ⟨rfl, rfl⟩ := Prod.mk.inj hsource
  have hpulled : pulled (p.2 ++ [(source m p.1).1]) = pulled p.2 := by
    rw [pulled_concat, show (source m p.1).1.toList = [] from hanswer, List.append_nil]
  have hothers : ∀ (other : Nat) (copy : Copy α), other ≠ index →
      fan.copies[other]? = some copy →
        copy.Stage (pulled p.2) (received other) (!(source m p.1).1.isLast)
          (decide (other ∈ asked)) (decide (other ∈ dropped)) := by
    intro other copy _ hcopy
    have hstage := h.stage other copy hcopy
    cases hlast : (source m p.1).1.isLast with
    | true => exact hstage.exhaust
    | false => rwa [hflowing] at hstage
  rw [← hpulled] at hnew hothers
  refine ⟨(List.length_set ..).trans h.length, (hflowing ▸ h.history).ask _, htrace, ?_, ?_⟩
  · simpa using stage_set hdropped hnew hothers
  · exact hpulled.symm ▸ h.longest

/-- A copy that has nothing to deliver is marked as polled. -/
theorem mark (hquiet : ∀ copy, fan.copies[index]? = some copy → copy.finished = true) :
    Recorded source count w received (if index ∈ dropped then asked else index :: asked) dropped
      fan p := by
  refine ⟨h.length, h.history, h.trace, fun other copy hcopy => ?_, h.longest⟩
  have hstage := h.stage other copy hcopy
  suffices hasked : decide (other ∈ if index ∈ dropped then asked else index :: asked) =
      decide (other ∈ asked) by rwa [hasked]
  by_cases hdropped : index ∈ dropped
  · rw [if_pos hdropped]
  · rw [if_neg hdropped]
    by_cases hother : other = index
    · subst hother
      rw [decide_eq_false hdropped] at hstage
      rw [decide_eq_true List.mem_cons_self, (hstage.of_finished (hquiet copy hcopy)).1]
    · simp [hother]

/-- A poll of a copy keeps the invariant. -/
theorem poll (m : Moment) (served : Bool) (index : Nat) :
    let r := FanOut.poll (noted source m) served index fan p
    Recorded source count w (Function.update received index (received index ++ r.1.toList))
      (if index ∈ dropped then asked else index :: asked) dropped r.2.1 r.2.2 := by
  have hpolled := polled_poll (noted source m) served index fan p
  generalize FanOut.poll (noted source m) served index fan p = r at hpolled ⊢
  have hbegun : ∀ {copy : Copy α}, fan.copies[index]? = some copy → copy.finished = false →
      copy.begun.Stage (pulled p.2) (received index) fan.flowing true false := by
    intro copy hcopy hfinished
    obtain ⟨hdropped, hsplit⟩ := h.unfinished hcopy hfinished
    have hstage := h.stage index copy hcopy
    rw [decide_eq_false hdropped] at hstage
    exact hstage.begun hfinished
  cases hpolled with
  | quiet hquiet => simpa [Answer.toList] using h.mark hquiet
  | unserved hcopy hfinished _ =>
    have hdropped := (h.unfinished hcopy hfinished).1
    rw [if_neg hdropped]
    exact h.settle [] hdropped (by simpa using hbegun hcopy hfinished)
  | @waiting copy c rest hcopy hfinished _ hpending =>
    obtain ⟨hdropped, hsplit⟩ := h.unfinished hcopy hfinished
    rw [hpending] at hsplit
    rw [if_neg hdropped]
    exact h.settle [c] hdropped (.delivered hsplit (h.history.last_of_error hsplit.symm))
  | shared hcopy hfinished _ hpending hflowing hsource =>
    rw [if_neg (h.unfinished hcopy hfinished).1]
    exact h.share hcopy hfinished hpending hflowing hsource
  | delayed hcopy hfinished _ _ hflowing hsource =>
    have hdropped := (h.unfinished hcopy hfinished).1
    have hask := h.ask hsource rfl hflowing hdropped (hflowing ▸ hbegun hcopy hfinished)
    rw [if_neg hdropped]
    simpa [Answer.toList, Answer.isLast, setCopy, hflowing] using hask
  | ended hcopy hfinished _ hpending hflowing hsource =>
    obtain ⟨hdropped, hsplit⟩ := h.unfinished hcopy hfinished
    rw [hpending, List.append_nil] at hsplit
    have hask := h.ask hsource rfl hflowing hdropped (.ended hsplit rfl rfl rfl)
    rw [if_neg hdropped]
    simpa [Answer.toList, Answer.isLast, close] using hask
  | exhausted hcopy hfinished _ hpending hflowing =>
    obtain ⟨hdropped, hsplit⟩ := h.unfinished hcopy hfinished
    rw [hpending] at hsplit
    have hsettle := h.settle [] hdropped (.ended hsplit hflowing rfl rfl)
    rw [if_neg hdropped]
    simpa [Answer.toList, setCopy, close, hflowing] using hsettle

/-- A drop of a copy keeps the invariant. -/
theorem drop (index : Nat) :
    Recorded source count w received asked (index :: dropped) (fan.drop index) p := by
  have hothers : ∀ (other : Nat) (copy : Copy α), other ≠ index →
      fan.copies[other]? = some copy →
        copy.Stage (pulled p.2) (received other) fan.flowing (decide (other ∈ asked))
          (decide (other ∈ index :: dropped)) := by
    intro other copy hother hcopy
    have hmem : decide (other ∈ index :: dropped) = decide (other ∈ dropped) := by simp [hother]
    rw [hmem]
    exact h.stage other copy hcopy
  unfold FanOut.drop
  split
  next hnone =>
    refine ⟨h.length, h.history, h.trace, fun other copy hcopy => ?_, h.longest⟩
    exact hothers other copy (fun heq => nomatch (heq ▸ hcopy).symm.trans hnone) hcopy
  next copy hcopy =>
    refine ⟨(List.length_set ..).trans h.length, h.history, h.trace, ?_, h.longest⟩
    refine forall_copies_set ?_ hothers
    rw [decide_eq_true List.mem_cons_self]
    exact (h.stage index copy hcopy).drop

end Recorded

end FanOut

/-! ## Moves -/

/-- What a reader of a copy can do. -/
inductive Move
  /-- Takes the next step of the copy.  Whether a free lock goes to it is up to the others. -/
  | advance (index : Nat) (m : Moment) (granted : Bool)
  | drop (index : Nat)

/-- Whether a move is a step of a copy. -/
def Move.reads (index : Nat) : Move → Bool
  | .advance moved _ _ => moved = index
  | .drop _ => false

/-- The copies of a source while they are read, with the record of what happened. -/
structure Session (W α : Type) where
  /-- The copies and their source, which keeps a record of its answers. -/
  readers : Readers (W × List (Answer α)) α
  /-- What each copy has delivered. -/
  received : Nat → List (Chunk α) := fun _ => []
  /-- The copies that were polled before they were dropped. -/
  asked : List Nat := []
  /-- The copies that were dropped. -/
  dropped : List Nat := []

namespace Session

variable {source : Moment → W → Answer α × W} {count : Nat} {w : W} {s : Session W α}

/-- What the copies share. -/
def fan (s : Session W α) : FanOut α := s.readers.fan

def world (s : Session W α) : W := s.readers.world.1

/-- What the source answered each time it was asked. -/
def answers (s : Session W α) : List (Answer α) := s.readers.world.2

/-- The chunks that the source delivered. -/
def pulled (s : Session W α) : List (Chunk α) := Dataflow.pulled s.answers

/-- The answer of a copy at its next step, if that is the last step of a poll. -/
def answer (source : Moment → W → Answer α × W) (s : Session W α) (index : Nat) (m : Moment)
    (granted : Bool) : Option (Answer α) :=
  (s.readers.advance (noted source m) granted index).1

/-- The session after a move. -/
def step (source : Moment → W → Answer α × W) (s : Session W α) : Move → Session W α
  | .advance index m granted =>
    let r := s.readers.advance (noted source m) granted index
    { readers := r.2
      received :=
        Function.update s.received index (s.received index ++ (r.1.getD .pending).toList)
      asked := if index ∈ s.dropped then s.asked else index :: s.asked
      dropped := s.dropped }
  | .drop index => { s with readers := s.readers.drop index, dropped := index :: s.dropped }

/-- A session with some moves. -/
def play (source : Moment → W → Answer α × W) (count : Nat) (w : W) (moves : List Move) :
    Session W α :=
  moves.foldl (step source) { readers := .fresh count (w, []) }

theorem play_append (source : Moment → W → Answer α × W) (count : Nat) (w : W)
    (before after : List Move) :
    play source count w (before ++ after) =
      after.foldl (step source) (play source count w before) := List.foldl_append

/-- What holds after any moves. -/
structure Sound (source : Moment → W → Answer α × W) (count : Nat) (w : W)
    (s : Session W α) : Prop where
  locked : s.readers.Locked
  recorded : s.fan.Recorded source count w s.received s.asked s.dropped s.readers.world

/-- Every move keeps the invariant. -/
theorem Sound.step (h : Sound source count w s) (move : Move) :
    Sound source count w (s.step source move) := by
  cases move with
  | advance index m granted =>
    refine ⟨h.locked.advance (noted source m) granted index, ?_⟩
    have hpoll := h.recorded.poll m (s.readers.serves index) index
    rw [fan, Readers.advance_eq_poll h.locked (noted source m) granted index] at hpoll
    exact hpoll
  | drop index => exact ⟨h.locked.drop index, h.recorded.drop index⟩

/-- The invariant holds after any moves. -/
theorem sound_play (source : Moment → W → Answer α × W) (hcount : 0 < count) (w : W)
    (moves : List Move) : Sound source count w (play source count w moves) := by
  have hrun : ∀ s, Sound source count w s →
      Sound source count w (moves.foldl (Session.step source) s) := by
    intro s hs
    induction moves generalizing s with
    | nil => exact hs
    | cons move moves ih => exact ih _ (hs.step move)
  exact hrun _ ⟨Readers.locked_fresh count _, FanOut.recorded_fresh source hcount w⟩

end Session

end Dataflow
