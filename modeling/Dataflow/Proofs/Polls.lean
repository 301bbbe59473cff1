import Dataflow.Proofs.Deliveries
import Mathlib.Data.List.Induction

/-!
# Streams that are polled

What it means for a stream that its feed is described: however it is polled, what was
received begins something whole, and it is whole once the stream has ended.  How the
moments are like decides when chunks come, and nothing else.

* `Stream.Gives`: what comes out of a stream.
* `Stream.Gives.ended_of_prompt`: a stream comes to its end.
* `Stream.Paces`: how far a stream reads ahead.
-/

namespace Dataflow

variable {W α β : Type} {soFar : List (Chunk α) → W → Prop} {whole : List (Chunk α) → Prop}
  [Ranked W] {feed : Feed W α} {taken : W → Nat} {total : Nat}

/-! ## Feeds at their end -/

/-- A feed that has ended stays at its end. -/
def Feed.Fused (feed : Feed W α) : Prop :=
  ∀ m w, (feed.poll m w).1 = .ended → ∀ later,
    feed.poll later (feed.poll m w).2 = (.ended, (feed.poll m w).2)

/-- A converter takes nothing off its source after an error. -/
theorem Feed.convert_of_failed {f : α → Except Error β} {feed : Feed W α} {m : Moment}
    {given : List (Chunk α)} {got : List (Chunk β)} {p : Tap × W}
    (h : p.1.Through f whole given got) (hfailed : Failed got) :
    (feed.convert f).poll m p = (.ended, p) := by
  obtain ⟨tap, w⟩ := p
  cases tap with
  | closed => rfl
  | opened => exact absurd hfailed (h.opened rfl)

theorem Feed.fused_convert (f : α → Except Error β) (feed : Feed W α) :
    (feed.convert f).Fused := by
  rintro m ⟨tap, w⟩ hended later
  change (pollConverted f feed m (tap, w)).1 = _ at hended
  show pollConverted f feed later (pollConverted f feed m (tap, w)).2 =
    (.ended, (pollConverted f feed m (tap, w)).2)
  cases tap with
  | closed => rfl
  | opened =>
    rw [pollConverted] at hended ⊢
    revert hended
    obtain ⟨answer, w'⟩ := feed.poll m w
    intro hended
    cases answer with
    | pending => exact nomatch hended
    | ended => rfl
    | chunk chunk =>
      dsimp only at hended
      cases hchunk : chunk.bind f <;> rw [hchunk] at hended <;> exact nomatch hended

omit [Ranked W] in
theorem polled_of_ended {poll : Moment → W → Answer α × W} {w : W}
    (h : ∀ m, poll m w = (.ended, w)) (moments : List Moment) :
    polled poll moments w = (moments.map fun _ => .ended, w) := by
  induction moments with
  | nil => rfl
  | cons m moments ih => simp [polled, h, ih]

namespace Stream

/-- The stream has no answer yet. -/
def Waits (stream : Stream α) (m : Moment) : Prop :=
  (stream.feed.poll m stream.world).1 = .pending

/-- However a stream is polled, what comes out begins something whole, and is whole when
the stream has ended.  The stream does not wait when nothing else does, and it ends when
it is drained. -/
structure Gives (stream : Stream α) (whole : List (Chunk α) → Prop) : Prop where
  begins : ∀ moments, ∃ full, whole full ∧ stream.received moments <+: full
  ended : ∀ moments, .ended ∈ stream.answers moments → whole (stream.received moments)
  prompt : ∀ moments m, m.Prompt → ¬(stream.after moments).Waits m
  drained : whole stream.drain ∧ (stream.list none).ended = true

theorem Gives.imp {stream : Stream α} {whole whole' : List (Chunk α) → Prop}
    (h : stream.Gives whole) (hwhole : ∀ full, whole full → whole' full) :
    stream.Gives whole' where
  begins moments := (h.begins moments).imp fun full hfull => ⟨hwhole full hfull.1, hfull.2⟩
  ended moments hmem := hwhole _ (h.ended moments hmem)
  prompt := h.prompt
  drained := ⟨hwhole _ h.drained.1, h.drained.2⟩

theorem received_cons (m : Moment) (moments : List Moment) (stream : Stream α) :
    stream.received (m :: moments) =
      (stream.feed.poll m stream.world).1.toList ++ (stream.after [m]).received moments := rfl

/-- A stream that does not wait in prompt moments delivers a chunk in each of them, or
ends. -/
theorem length_le_received (stream : Stream α) {prompt moments : List Moment}
    (hsub : prompt.Sublist moments) (hprompt : ∀ m ∈ prompt, m.Prompt)
    (hwaits : ∀ moments m, m.Prompt → ¬(stream.after moments).Waits m)
    (hended : .ended ∉ stream.answers moments) :
    prompt.length ≤ (stream.received moments).length := by
  induction hsub generalizing stream with
  | slnil => exact Nat.zero_le _
  | cons m _ ih =>
    rw [received_cons, List.length_append]
    have := ih (stream.after [m]) hprompt (fun moments => hwaits (m :: moments))
      fun hmem => hended (List.mem_cons_of_mem _ hmem)
    omega
  | cons_cons m _ ih =>
    obtain ⟨hm, hprompt⟩ := List.forall_mem_cons.1 hprompt
    rw [received_cons, List.length_append, List.length_cons]
    have hlater := ih (stream.after [m]) hprompt (fun moments => hwaits (m :: moments))
      fun hmem => hended (List.mem_cons_of_mem _ hmem)
    have hnow : (stream.feed.poll m stream.world).1 ≠ .ended := fun heq =>
      hended (heq ▸ List.mem_cons_self)
    have hwaits : (stream.feed.poll m stream.world).1 ≠ .pending := hwaits [] m hm
    cases hanswer : (stream.feed.poll m stream.world).1 with
    | chunk c => simp only [Answer.toList, List.length_singleton]; omega
    | ended => exact absurd hanswer hnow
    | pending => exact absurd hanswer hwaits

/-- A stream has ended after more prompt moments than it has chunks, whatever came
between them. -/
theorem Gives.ended_of_prompt {stream : Stream α} {whole : List (Chunk α) → Prop}
    (h : stream.Gives whole) {bound : Nat} (hbound : ∀ full, whole full → full.length ≤ bound)
    {prompt moments : List Moment} (hsub : prompt.Sublist moments)
    (hprompt : ∀ m ∈ prompt, m.Prompt) (hlength : bound < prompt.length) :
    .ended ∈ stream.answers moments := by
  by_contra hended
  obtain ⟨full, hfull, hbegin⟩ := h.begins moments
  have := length_le_received stream hsub hprompt h.prompt hended
  have := hbegin.length_le
  have := hbound full hfull
  omega

/-- A drained feed has delivered everything. -/
theorem whole_listFrom (h : Delivers feed taken total soFar whole) {got : List (Chunk α)} {w : W}
    (hw : soFar got w) :
    whole (got ++ (listFrom feed taken none w).chunks.map (·.1)) ∧
      (listFrom feed taken none w).ended = true := by
  generalize hlimit : none = limit
  fun_induction listFrom feed taken limit w generalizing got with
  | case1 w => exact nomatch hlimit
  | case2 limit w _ w' hp =>
    have hpoll := h.poll (m := .calm) hw
    rw [hp] at hpoll
    exact absurd Moment.prompt_calm hpoll.1
  | case3 limit w _ w' hp =>
    have hpoll := h.poll (m := .calm) hw
    rw [hp] at hpoll
    exact ⟨by simpa using hpoll.1, rfl⟩
  | case4 limit w _ c w' hp rest =>
    rename_i ih
    have hpoll := h.poll (m := .calm) hw
    rw [hp] at hpoll
    subst hlimit
    simpa [rest] using ih hpoll rfl

/-- The relation between what was delivered and the world holds after all polls. -/
theorem soFar_received (stream : Stream α) {soFar : List (Chunk α) → stream.World → Prop}
    (h : Delivers stream.feed stream.taken total soFar whole) (hworld : soFar [] stream.world)
    (moments : List Moment) : soFar (stream.received moments) (stream.after moments).world := by
  have hpolled : ∀ moments got w, soFar got w →
      soFar (got ++ (polled stream.feed.poll moments w).1.flatMap Answer.toList)
        (polled stream.feed.poll moments w).2 := by
    intro moments
    induction moments with
    | nil => simp [polled]
    | cons m moments ih =>
      intro got w hw
      rw [polled, List.flatMap_cons, ← List.append_assoc]
      exact ih _ _ (h.poll hw).soFar_append
  exact hpolled moments [] stream.world hworld

/-- What a feed delivers is what a stream gives. -/
theorem gives_of_delivers (stream : Stream α) {soFar : List (Chunk α) → stream.World → Prop}
    (h : Delivers stream.feed stream.taken total soFar whole) (hfused : stream.feed.Fused)
    (hworld : soFar [] stream.world) : stream.Gives whole := by
  have hafter := soFar_received stream h hworld
  have hended : ∀ moments got w, soFar got w → .ended ∈ (polled stream.feed.poll moments w).1 →
      whole (got ++ (polled stream.feed.poll moments w).1.flatMap Answer.toList) := by
    intro moments
    induction moments with
    | nil => simp [polled]
    | cons m moments ih =>
      intro got w hw hmem
      rw [polled, List.mem_cons] at hmem
      rw [polled, List.flatMap_cons, ← List.append_assoc]
      by_cases hnow : (stream.feed.poll m w).1 = .ended
      · have hover := polled_of_ended (hfused m w hnow) moments
        have hnothing : (moments.map fun _ => (.ended : Answer α)).flatMap Answer.toList = [] := by
          simp [List.flatMap_eq_nil_iff, Answer.toList]
        rw [hover, hnothing, hnow]
        simpa [Answer.toList] using (h.poll (m := m) hw).whole_of_ended hnow
      · exact ih _ _ (h.poll hw).soFar_append (hmem.resolve_left (Ne.symm hnow))
  exact {
    begins := fun moments => h.begins (hafter moments)
    ended := fun moments => hended moments [] stream.world hworld
    prompt := fun moments m hprompt hwaits => (h.poll (hafter moments)).not_prompt hwaits hprompt
    drained := whole_listFrom h hworld }

/-! ## Reading ahead -/

theorem after_concat (moments : List Moment) (m : Moment) (stream : Stream α) :
    stream.after (moments ++ [m]) = (stream.after moments).after [m] := by
  have hpolled : ∀ moments w, (polled stream.feed.poll (moments ++ [m]) w).2 =
      (stream.feed.poll m (polled stream.feed.poll moments w).2).2 := by
    intro moments
    induction moments with
    | nil => exact fun w => rfl
    | cons _ _ ih => exact fun w => ih _
  exact congrArg (fun world => { stream with world }) (hpolled moments stream.world)

theorem answers_concat (moments : List Moment) (m : Moment) (stream : Stream α) :
    stream.answers (moments ++ [m]) =
      stream.answers moments ++ [(stream.feed.poll m (stream.after moments).world).1] := by
  have hpolled : ∀ moments w, (polled stream.feed.poll (moments ++ [m]) w).1 =
      (polled stream.feed.poll moments w).1 ++
        [(stream.feed.poll m (polled stream.feed.poll moments w).2).1] := by
    intro moments
    induction moments with
    | nil => exact fun w => rfl
    | cons first _ ih => exact fun w => congrArg ((stream.feed.poll first w).1 :: ·) (ih _)
  exact hpolled moments stream.world

theorem received_concat (moments : List Moment) (m : Moment) (stream : Stream α) :
    stream.received (moments ++ [m]) =
      stream.received moments ++ (stream.feed.poll m (stream.after moments).world).1.toList := by
  simp [received, answers_concat]

/-- A poll that has an answer delivers a chunk or ends the stream. -/
theorem ended_of_not_waits {stream : Stream α} {moments : List Moment} {m : Moment}
    (hwaits : ¬(stream.after moments).Waits m)
    (hsame : stream.received (moments ++ [m]) = stream.received moments) :
    .ended ∈ stream.answers (moments ++ [m]) := by
  rw [received_concat, List.append_right_eq_self] at hsame
  rw [answers_concat]
  change ¬(stream.feed.poll m (stream.after moments).world).1 = .pending at hwaits
  cases hanswer : (stream.feed.poll m (stream.after moments).world).1 with
  | chunk c => simp [hanswer, Answer.toList] at hsame
  | ended => simp
  | pending => exact absurd hanswer hwaits

/-- What a stream has taken off an input with a number of chunks: with what was taken for
the next chunk there is one more than were received, and no more than were received when
the last poll delivered a chunk, after an error, or when no node was at work since there
were no more. -/
structure Paces (stream : Stream α) (total : Nat) : Prop where
  total : ∀ moments, (stream.after moments).pulled ≤ total
  ahead : ∀ moments, (stream.after moments).pulled ≤ (stream.received moments).length + 1
  delivered : ∀ moments m, stream.received (moments ++ [m]) ≠ stream.received moments →
    (stream.after (moments ++ [m])).pulled ≤ (stream.received (moments ++ [m])).length
  failed : ∀ moments, Failed (stream.received moments) →
    (stream.after moments).pulled ≤ (stream.received moments).length
  finished : ∀ moments later,
    (stream.after moments).pulled ≤ (stream.received moments).length →
      (∀ m ∈ later, m.AllFinished) →
        (stream.after (moments ++ later)).pulled ≤ (stream.received (moments ++ later)).length

theorem length_received_le (stream : Stream α) (moments : List Moment) (m : Moment) :
    (stream.received moments).length ≤ (stream.received (moments ++ [m])).length := by
  simp [received_concat]

/-- A poll delivers one chunk at most. -/
theorem length_received_of_ne {stream : Stream α} {moments : List Moment} {m : Moment}
    (hne : stream.received (moments ++ [m]) ≠ stream.received moments) :
    (stream.received (moments ++ [m])).length = (stream.received moments).length + 1 := by
  rw [received_concat] at hne ⊢
  cases hanswer : (stream.feed.poll m (stream.after moments).world).1 with
  | chunk c => simp [Answer.toList]
  | ended => simp [hanswer, Answer.toList] at hne
  | pending => simp [hanswer, Answer.toList] at hne

section Pacing

variable {stream : Stream α} {soFar : List (Chunk α) → stream.World → Prop}
  (h : Delivers stream.feed stream.taken total soFar whole) (hworld : soFar [] stream.world)
include h hworld

/-- A poll that takes something off the input takes it for the next chunk. -/
theorem pulled_concat_of_ne {moments : List Moment} {m : Moment}
    (hne : (stream.after (moments ++ [m])).pulled ≠ (stream.after moments).pulled) :
    (stream.after (moments ++ [m])).pulled ≤ (stream.received moments).length + 1 ∧
      (stream.after (moments ++ [m])).pulled ≤ total ∧
        (m.AllFinished → stream.received (moments ++ [m]) ≠ stream.received moments) := by
  rw [after_concat] at hne ⊢
  obtain ⟨hahead, htotal, hfinished⟩ := h.paced (soFar_received stream h hworld moments) hne
  refine ⟨hahead, htotal, fun hm hsame => hfinished hm ?_⟩
  rw [received_concat] at hsame
  exact List.append_right_eq_self.1 hsame

theorem pulled_le_total (hzero : stream.pulled = 0) (moments : List Moment) :
    (stream.after moments).pulled ≤ total := by
  induction moments using List.reverseRecOn with
  | nil => exact Nat.le_trans (Nat.le_of_eq hzero) (Nat.zero_le _)
  | append_singleton moments m ih =>
    by_cases hsame : (stream.after (moments ++ [m])).pulled = (stream.after moments).pulled
    · exact hsame ▸ ih
    · exact (pulled_concat_of_ne h hworld hsame).2.1

theorem pulled_le_succ (hzero : stream.pulled = 0) (moments : List Moment) :
    (stream.after moments).pulled ≤ (stream.received moments).length + 1 := by
  induction moments using List.reverseRecOn with
  | nil => exact Nat.le_trans (Nat.le_of_eq hzero) (Nat.zero_le _)
  | append_singleton moments m ih =>
    have hlength := length_received_le stream moments m
    by_cases hsame : (stream.after (moments ++ [m])).pulled = (stream.after moments).pulled
    · omega
    · have := (pulled_concat_of_ne h hworld hsame).1
      omega

/-- What was read ahead is made up for by the next chunk. -/
theorem pulled_le_of_delivered (hzero : stream.pulled = 0) {moments : List Moment} {m : Moment}
    (hne : stream.received (moments ++ [m]) ≠ stream.received moments) :
    (stream.after (moments ++ [m])).pulled ≤ (stream.received (moments ++ [m])).length := by
  rw [length_received_of_ne hne]
  by_cases hsame : (stream.after (moments ++ [m])).pulled = (stream.after moments).pulled
  · rw [hsame]
    exact pulled_le_succ h hworld hzero moments
  · exact (pulled_concat_of_ne h hworld hsame).1

/-- A stream reads ahead as its feed does. -/
theorem paces_of_delivers (hzero : stream.pulled = 0)
    (hstays : ∀ {m got w}, soFar got w → Failed got → stream.feed.poll m w = (.ended, w)) :
    stream.Paces total where
  total := pulled_le_total h hworld hzero
  ahead := pulled_le_succ h hworld hzero
  delivered _ _ := pulled_le_of_delivered h hworld hzero
  failed moments := by
    induction moments using List.reverseRecOn with
    | nil => exact fun _ => Nat.le_trans (Nat.le_of_eq hzero) (Nat.zero_le _)
    | append_singleton moments m ih =>
      intro hfailed
      by_cases hbefore : Failed (stream.received moments)
      · have hstay := hstays (m := m) (soFar_received stream h hworld moments) hbefore
        have hsame : (stream.after (moments ++ [m])).pulled = (stream.after moments).pulled := by
          rw [after_concat]
          exact congrArg (fun r => stream.taken r.2) hstay
        exact Nat.le_trans (Nat.le_of_eq hsame)
          (Nat.le_trans (ih hbefore) (length_received_le stream moments m))
      · exact pulled_le_of_delivered h hworld hzero fun hsame => hbefore (hsame ▸ hfailed)
  finished moments later hbefore := by
    induction later using List.reverseRecOn with
    | nil => simpa using hbefore
    | append_singleton later m ih =>
      intro hlater
      have hbefore := ih fun m hm => hlater m (List.mem_append_left _ hm)
      rw [← List.append_assoc]
      by_cases hsame : (stream.after (moments ++ later ++ [m])).pulled =
          (stream.after (moments ++ later)).pulled
      · exact Nat.le_trans (Nat.le_of_eq hsame)
          (Nat.le_trans hbefore (length_received_le stream _ m))
      · exact pulled_le_of_delivered h hworld hzero
          ((pulled_concat_of_ne h hworld hsame).2.2 (hlater m (by simp)))

end Pacing

end Stream

end Dataflow
