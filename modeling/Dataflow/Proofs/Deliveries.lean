import Dataflow.Proofs.Interleaving
import Dataflow.Stream

/-!
# What feeds deliver

A feed is described by a relation between the chunks that it has delivered and the world
that it has come to, and by what all that it delivers is like.  `Delivers` says that
polls keep the relation whatever the moments are like, that a feed which has ended has
delivered everything, and that it waits for nothing in a prompt moment.  It also says how
far a poll reads ahead: it takes something off the input only for the next chunk.  Every
way of making feeds from feeds makes descriptions from descriptions, so what a network
delivers is read off how it is put together.

* `Goes`, `Paced`: what one poll delivers, and what it takes off the input.
* `Merges`, `Reacting.Behind`: what the polls of a merge and of a node keep.
* `Delivers.convert`, `Merges.delivers_select`, `Delivers.transduce`: the ways of making feeds.
-/

namespace Dataflow

/-- Every node is through with its work. -/
def Moment.AllFinished (m : Moment) : Prop := ∀ key count, m.finished key count = true

/-- What may have come of a poll after some chunks were delivered. -/
def Goes {W α : Type} (soFar : List (Chunk α) → W → Prop) (whole : List (Chunk α) → Prop)
    (m : Moment) (got : List (Chunk α)) : Answer α × W → Prop
  | (.chunk c, w) => soFar (got ++ [c]) w
  | (.ended, w) => whole got ∧ soFar got w
  | (.pending, w) => ¬m.Prompt ∧ soFar got w

/-- What a poll may have taken off an input with a number of chunks, after some chunks
were delivered: with what is taken for the next chunk there is one more.  Something is
taken without a chunk to show for it only while a node is at work. -/
def Paced {W α : Type} (taken : W → Nat) (total : Nat) (m : Moment) (delivered : Nat) (w : W)
    (r : Answer α × W) : Prop :=
  taken r.2 ≠ taken w →
    taken r.2 ≤ delivered + 1 ∧ taken r.2 ≤ total ∧ (m.AllFinished → r.1.toList ≠ [])

/-- The chunks that a feed has delivered are related to its world, begin something
whole, and are whole when the feed ends. -/
structure Delivers {W α : Type} [Ranked W] (feed : Feed W α) (taken : W → Nat) (total : Nat)
    (soFar : List (Chunk α) → W → Prop) (whole : List (Chunk α) → Prop) : Prop where
  poll : ∀ {m got w}, soFar got w → Goes soFar whole m got (feed.poll m w)
  paced : ∀ {m got w}, soFar got w → Paced taken total m got.length w (feed.poll m w)
  begins : ∀ {got w}, soFar got w → ∃ full, whole full ∧ got <+: full

variable {W α β : Type} {soFar : List (Chunk α) → W → Prop} {whole : List (Chunk α) → Prop}

theorem Goes.imp {V : Type} {soFar' : List (Chunk α) → V → Prop} {whole' : List (Chunk α) → Prop}
    {m : Moment} {got : List (Chunk α)} {answer : Answer α} {w : W} {v : V}
    (h : Goes soFar whole m got (answer, w)) (hsoFar : ∀ got, soFar got w → soFar' got v)
    (hwhole : whole got → whole' got) : Goes soFar' whole' m got (answer, v) := by
  cases answer with
  | chunk c => exact hsoFar _ h
  | ended => exact ⟨hwhole h.1, hsoFar _ h.2⟩
  | pending => exact ⟨h.1, hsoFar _ h.2⟩

namespace Goes

variable {m : Moment} {got : List (Chunk α)} {r : Answer α × W}

theorem soFar_append (h : Goes soFar whole m got r) : soFar (got ++ r.1.toList) r.2 := by
  obtain ⟨answer, w⟩ := r
  cases answer with
  | chunk c => exact h
  | ended => simpa [Answer.toList] using h.2
  | pending => simpa [Answer.toList] using h.2

theorem whole_of_ended (h : Goes soFar whole m got r) (hended : r.1 = .ended) : whole got := by
  obtain ⟨answer, w⟩ := r
  obtain rfl : answer = .ended := hended
  exact h.1

theorem not_prompt (h : Goes soFar whole m got r) (hpending : r.1 = .pending) : ¬m.Prompt := by
  obtain ⟨answer, w⟩ := r
  obtain rfl : answer = .pending := hpending
  exact h.1

end Goes

namespace Paced

variable {taken : W → Nat} {total : Nat} {m : Moment} {n : Nat} {w w' : W} {answer : Answer α}

theorem of_eq {r : Answer α × W} (h : taken r.2 = taken w) : Paced taken total m n w r :=
  fun hne => absurd h hne

/-- A poll that is made of polls of which all but the last deliver nothing. -/
theorem trans {r : Answer β × W} (hfirst : Paced taken total m n w (answer, w'))
    (hnothing : answer.toList = []) (hthen : Paced taken total m n w' r) :
    Paced taken total m n w r := by
  intro hne
  by_cases hsame : taken r.2 = taken w'
  · obtain ⟨hahead, htotal, hdelivers⟩ := hfirst (hsame ▸ hne)
    exact ⟨hsame ▸ hahead, hsame ▸ htotal, fun hfinished => absurd hnothing (hdelivers hfinished)⟩
  · exact hthen hsame

/-- The same poll seen from a larger world. -/
theorem map {V : Type} {taken' : V → Nat} {n' : Nat} {v : V} {r : Answer α × W}
    {r' : Answer β × V} (h : Paced taken total m n w r) (hn : n ≤ n') (hv : taken' v = taken w)
    (hr : taken' r'.2 = taken r.2) (hanswer : r.1.toList ≠ [] → r'.1.toList ≠ []) :
    Paced taken' total m n' v r' := by
  intro hne
  rw [hv, hr] at hne
  obtain ⟨hahead, htotal, hdelivers⟩ := h hne
  exact ⟨by omega, by omega, fun hfinished => hanswer (hdelivers hfinished)⟩

end Paced

variable [Ranked W] {feed : Feed W α} {taken : W → Nat} {total : Nat}

theorem Delivers.congr {soFar' : List (Chunk α) → W → Prop} {whole' : List (Chunk α) → Prop}
    (h : Delivers feed taken total soFar whole) (hsoFar : ∀ got w, soFar got w ↔ soFar' got w)
    (hwhole : ∀ chunks, whole chunks → whole' chunks) :
    Delivers feed taken total soFar' whole' where
  poll hw := (h.poll ((hsoFar _ _).2 hw)).imp (fun got => (hsoFar got _).1) (hwhole _)
  paced hw := h.paced ((hsoFar _ _).2 hw)
  begins hw := (h.begins ((hsoFar _ _).2 hw)).imp fun full hfull =>
    ⟨hwhole full hfull.1, hfull.2⟩

theorem Tape.delivers_feed (chunks : List (Chunk α)) :
    Delivers (Tape.feed (α := α)) Tape.taken chunks.length
      (fun got tape => got ++ tape.left = chunks ∧ tape.taken = got.length) (· = chunks) where
  poll := by
    rintro m got ⟨left, taken⟩ ⟨rfl, rfl⟩
    show Goes _ _ m got (Tape.poll m ⟨left, got.length⟩)
    rw [Tape.poll]
    split
    · cases left with
      | nil => exact ⟨(List.append_nil got).symm, rfl, rfl⟩
      | cons c rest => exact ⟨List.append_assoc got [c] rest, by simp⟩
    next harrived => exact ⟨fun hprompt => harrived (hprompt.arrived _), rfl, rfl⟩
  paced := by
    rintro m got ⟨left, taken⟩ ⟨rfl, rfl⟩
    show Paced _ _ m got.length _ (Tape.poll m ⟨left, got.length⟩)
    rw [Tape.poll]
    split
    · cases left with
      | nil => exact .of_eq rfl
      | cons c rest => exact fun _ => ⟨Nat.le_refl _, by simp, fun _ => List.cons_ne_nil _ _⟩
    · exact .of_eq rfl
  begins hw := ⟨chunks, rfl, ⟨_, hw.1⟩⟩

theorem Delivers.regroup {S T : Type} [Holding S] [Holding T] {feed : Feed (S × T × W) α}
    {soFar : List (Chunk α) → S × T × W → Prop}
    (h : Delivers feed (fun p => taken p.2.2) total soFar whole) :
    Delivers feed.regroup (fun p => taken p.2) total
      (fun got p => soFar got (p.1.1, p.1.2, p.2)) whole where
  poll hp := (h.poll hp).imp (fun _ => id) id
  paced hp := (h.paced hp).map (Nat.le_refl _) rfl rfl id
  begins hp := h.begins hp

/-! ## Converters -/

/-- What a function makes of something whole. -/
def MadeBy (f : α → Except Error β) (whole : List (Chunk α) → Prop) (chunks : List (Chunk β)) :
    Prop :=
  ∃ given, whole given ∧ chunks = upTo f given

/-- The first error that a function makes is the end of all that it makes. -/
theorem madeBy_of_failed {f : α → Except Error β} {given : List (Chunk α)}
    (hbegins : ∃ full, whole full ∧ given <+: full) (hfailed : Failed (upTo f given)) :
    MadeBy f whole (upTo f given) := by
  obtain ⟨full, hfull, hbegin⟩ := hbegins
  exact ⟨full, hfull, eq_of_prefix_of_failed (prefix_upTo hbegin f) (cut_upTo f full) hfailed⟩

theorem begins_madeBy {f : α → Except Error β} {given : List (Chunk α)}
    (hbegins : ∃ full, whole full ∧ given <+: full) :
    ∃ full, MadeBy f whole full ∧ upTo f given <+: full := by
  obtain ⟨full, hfull, hbegin⟩ := hbegins
  exact ⟨_, ⟨full, hfull, rfl⟩, prefix_upTo hbegin f⟩

/-- What came through a tap with a function on it, of the chunks that were given. -/
structure Tap.Through (f : α → Except Error β) (whole : List (Chunk α) → Prop) (tap : Tap)
    (given : List (Chunk α)) (got : List (Chunk β)) : Prop where
  got_eq : got = upTo f given
  opened : tap = .opened → ¬Failed got
  closed : tap = .closed → MadeBy f whole got

theorem Tap.through_opened (f : α → Except Error β) (whole : List (Chunk α) → Prop) :
    Tap.Through f whole .opened [] [] :=
  ⟨rfl, fun _ => not_failed_nil, nofun⟩

theorem Delivers.convert (h : Delivers feed taken total soFar whole) (f : α → Except Error β) :
    Delivers (feed.convert f) (fun p => taken p.2) total
      (fun got p => ∃ given, soFar given p.2 ∧ p.1.Through f whole given got) (MadeBy f whole) where
  poll := by
    rintro m got ⟨tap, w⟩ ⟨given, hgiven, hthrough⟩
    show Goes _ _ m got (Feed.pollConverted f feed m (tap, w))
    cases tap with
    | closed => exact ⟨hthrough.closed rfl, given, hgiven, hthrough⟩
    | opened =>
      obtain ⟨rfl, hopened, _⟩ := hthrough
      have hpoll := h.poll (m := m) hgiven
      rw [Feed.pollConverted]
      revert hpoll
      obtain ⟨answer, w'⟩ := feed.poll m w
      intro hpoll
      cases answer with
      | pending => exact ⟨hpoll.1, given, hpoll.2, rfl, hopened, nofun⟩
      | ended =>
        have hmade : MadeBy f whole (upTo f given) := ⟨given, hpoll.1, rfl⟩
        exact ⟨hmade, given, hpoll.2, rfl, nofun, fun _ => hmade⟩
      | chunk chunk =>
        have hgot := upTo_concat (hopened rfl) chunk
        dsimp only
        cases hchunk : chunk.bind f with
        | ok b =>
          rw [hchunk] at hgot
          refine ⟨given ++ [chunk], hpoll, hgot.symm, fun _ => ?_, nofun⟩
          simp [failed_concat, hopened, Chunk.isError]
        | error e =>
          rw [hchunk] at hgot
          refine ⟨given ++ [chunk], hpoll, hgot.symm, nofun, fun _ => ?_⟩
          rw [← hgot]
          exact madeBy_of_failed (h.begins hpoll) (by simp [hgot, failed_concat, Chunk.isError])
  paced := by
    rintro m got ⟨tap, w⟩ ⟨given, hgiven, hthrough⟩
    show Paced _ _ m _ _ (Feed.pollConverted f feed m (tap, w))
    cases tap with
    | closed => exact .of_eq rfl
    | opened =>
      obtain ⟨rfl, hopened, _⟩ := hthrough
      have hpaced := h.paced (m := m) hgiven
      have hlength := Nat.le_of_eq (length_upTo (hopened rfl)).symm
      rw [Feed.pollConverted]
      revert hpaced
      obtain ⟨answer, w'⟩ := feed.poll m w
      intro hpaced
      cases answer with
      | pending => exact hpaced.map hlength rfl rfl (absurd rfl)
      | ended => exact hpaced.map hlength rfl rfl (absurd rfl)
      | chunk chunk =>
        dsimp only
        cases chunk.bind f <;> exact hpaced.map hlength rfl rfl fun _ => List.cons_ne_nil _ _
  begins := by
    rintro got p ⟨given, hgiven, rfl, _, _⟩
    exact begins_madeBy (h.begins hgiven)

/-! ## Merges -/

/-- What may have come of a poll of a lane, for a relation between the lanes that wait,
what was merged so far, and the world. -/
def LaneGoes {ι S : Type} (merging : List (ι × S) → List (Chunk α) → W → Prop) (m : Moment)
    (i : ι) (rest : List (ι × S)) (merged : List (Chunk α)) : Answer α × S × W → Prop
  | (.chunk c, s, w) => merging ((i, s) :: rest) (merged ++ [c]) w
  | (.ended, _, w) => merging rest merged w
  | (.pending, s, w) => ¬m.Prompt ∧ merging ((i, s) :: rest) merged w

/-- A relation between the lanes that wait, what was merged and the world, which polls of
lanes keep. -/
structure Merges {ι S : Type} [HoldsNothing S] (lane : ι → Feed (S × W) α) (taken : W → Nat) (total : Nat)
    (merging : List (ι × S) → List (Chunk α) → W → Prop) (whole : List (Chunk α) → Prop) :
    Prop where
  perm : ∀ {lanes lanes' merged w}, lanes.Perm lanes' → merging lanes merged w →
    merging lanes' merged w
  poll : ∀ {m i s rest merged w}, merging ((i, s) :: rest) merged w →
    LaneGoes merging m i rest merged ((lane i).poll m (s, w))
  paced : ∀ {m i s rest merged w}, merging ((i, s) :: rest) merged w →
    Paced (fun p => taken p.2) total m merged.length (s, w) ((lane i).poll m (s, w))
  whole_of_nil : ∀ {merged w}, merging [] merged w → whole merged
  begins : ∀ {lanes merged w}, merging lanes merged w → ∃ full, whole full ∧ merged <+: full

namespace Merges

variable {ι S : Type} [HoldsNothing S] {lane : ι → Feed (S × W) α}
  {merging : List (ι × S) → List (Chunk α) → W → Prop} {m : Moment} {merged : List (Chunk α)}

/-- A lane that has to wait goes to the back, so in a prompt moment every place counts. -/
theorem goes_pollLanes (h : Merges lane taken total merging whole) {places : List Nat}
    {lanes : List (ι × S)} {w : W} (hlanes : merging lanes merged w)
    (hlength : m.Prompt → lanes.length ≤ places.length) :
    Goes (fun merged p => merging p.1 merged p.2) whole m merged
      (Feed.pollLanes lane m places lanes w) := by
  induction places generalizing lanes w with
  | nil =>
    rw [Feed.pollLanes]
    cases lanes with
    | nil => exact ⟨h.whole_of_nil hlanes, hlanes⟩
    | cons entry rest => exact ⟨fun hprompt => absurd (hlength hprompt) (by simp), hlanes⟩
  | cons place places ih =>
    rw [Feed.pollLanes]
    split
    next htake =>
      obtain rfl := takeAt_eq_none htake
      exact ⟨h.whole_of_nil hlanes, hlanes⟩
    next i s rest htake =>
      obtain ⟨before, after, rfl, rfl⟩ := takeAt_eq_some htake
      have hfirst := h.poll (m := m) (h.perm List.perm_middle hlanes)
      revert hfirst
      obtain ⟨answer, s', w'⟩ := (lane i).poll m (s, w)
      intro hfirst
      have hback := List.perm_append_singleton (i, s') (before ++ after)
      cases answer with
      | chunk c => exact h.perm hback.symm hfirst
      | ended =>
        refine ih hfirst fun hprompt => ?_
        have := hlength hprompt
        simp at this ⊢
        omega
      | pending => exact ih (h.perm hback.symm hfirst.2) fun hprompt => absurd hprompt hfirst.1

theorem paced_pollLanes (h : Merges lane taken total merging whole) {places : List Nat}
    {lanes : List (ι × S)} {w : W} (hlanes : merging lanes merged w) :
    Paced (fun p : List (ι × S) × W => taken p.2) total m merged.length (lanes, w)
      (Feed.pollLanes lane m places lanes w) := by
  induction places generalizing lanes w with
  | nil => exact .of_eq rfl
  | cons place places ih =>
    rw [Feed.pollLanes]
    split
    · exact .of_eq rfl
    next i s rest htake =>
      obtain ⟨before, after, rfl, rfl⟩ := takeAt_eq_some htake
      have hfront := h.perm List.perm_middle hlanes
      have hfirst := h.poll (m := m) hfront
      have hpaced := h.paced (m := m) hfront
      revert hfirst hpaced
      obtain ⟨answer, s', w'⟩ := (lane i).poll m (s, w)
      intro hfirst hpaced
      have hback := List.perm_append_singleton (i, s') (before ++ after)
      -- the poll of the one lane, seen from all of them
      have hmapped (lanes : List (ι × S)) :
          Paced (fun p : List (ι × S) × W => taken p.2) total m merged.length
            (before ++ (i, s) :: after, w) (answer, lanes, w') :=
        hpaced.map (Nat.le_refl _) rfl rfl id
      cases answer with
      | chunk c => exact hmapped _
      | ended => exact (hmapped _).trans rfl (ih hfirst)
      | pending => exact (hmapped _).trans rfl (ih (h.perm hback.symm hfirst.2))

/-- A merge delivers what its lanes do, whichever of them are polled. -/
theorem delivers_select (h : Merges lane taken total merging whole)
    (key : String) :
    Delivers (Feed.select key lane) (fun p => taken p.2) total
      (fun merged p => merging p.1.waiting merged p.2) whole where
  poll := by
    rintro m merged ⟨⟨waiting⟩, w⟩ hwaiting
    exact (h.goes_pollLanes hwaiting fun hprompt => hprompt.picks key waiting.length).imp
      (fun _ => id) id
  paced := by
    rintro m merged ⟨⟨waiting⟩, w⟩ hwaiting
    exact (h.paced_pollLanes hwaiting).map (Nat.le_refl _) rfl rfl id
  begins := h.begins

end Merges

/-! ## Transducers -/

/-- What a node that works chunk by chunk has delivered, of what its function makes of the
chunks that it was given: what it holds ready is still missing. -/
structure Reacting.Behind (f : α → Except Error β) (whole : List (Chunk α) → Prop)
    (state : Reacting α β) (given : List (Chunk α)) (got held : List (Chunk β)) : Prop where
  made : got ++ held = upTo f given
  ready : state.ready = held.map (⟨·, 0⟩)
  live : state.live = true → ¬Failed (upTo f given)
  stopped : state.live = false → MadeBy f whole (upTo f given)

namespace Reacting.Behind

variable {f : α → Except Error β} {state : Reacting α β} {given : List (Chunk α)}
  {got held : List (Chunk β)}

theorem begin (f : α → Except Error β) (whole : List (Chunk α) → Prop) :
    (Transducer.perChunk f).begin.Behind f whole [] [] [] :=
  ⟨rfl, rfl, fun _ => not_failed_nil, by simp [Transducer.begin, Transducer.perChunk]⟩

/-- Nothing is missing when nothing is ready. -/
theorem held_eq_nil (h : state.Behind f whole given got held) (hready : state.ready = []) :
    held = [] :=
  List.map_eq_nil_iff.1 (h.ready.symm.trans hready)

theorem got_eq (h : state.Behind f whole given got held) (hready : state.ready = []) :
    got = upTo f given := by
  simpa [h.held_eq_nil hready] using h.made

/-- A node that wants more has delivered as many chunks as it was given. -/
theorem length_given (h : state.Behind f whole given got held) (hready : state.ready = [])
    (hlive : state.live = true) : given.length ≤ got.length :=
  Nat.le_of_eq (h.got_eq hready ▸ length_upTo (h.live hlive)).symm

/-- No chunk is held ready more than once. -/
theorem more_eq_zero (h : state.Behind f whole given got held) {run : Run β}
    {rest : List (Run β)} (hready : state.ready = run :: rest) : run.more = 0 := by
  obtain ⟨_, _, _, rfl, _⟩ := List.map_eq_cons_iff.1 (h.ready.symm.trans hready)
  rfl

theorem deliver (h : state.Behind f whole given got held) {c : Chunk β} {rest : List (Run β)}
    (hready : state.ready = ⟨c, 0⟩ :: rest) :
    ∃ held, { state with ready := rest, busy := false }.Behind f whole given (got ++ [c]) held := by
  obtain ⟨_, held, rfl, hc, rfl⟩ := List.map_eq_cons_iff.1 (h.ready.symm.trans hready)
  obtain ⟨rfl, -⟩ := Run.mk.inj hc
  exact ⟨held, by simpa using h.made, rfl, h.live, h.stopped⟩

/-- What the next chunk is answered with is missing then. -/
theorem take (h : state.Behind f whole given got held) (hready : state.ready = [])
    (hlive : state.live = true) {chunk : Chunk α}
    (hbegins : ∃ full, whole full ∧ given ++ [chunk] <+: full) :
    let reaction := (Transducer.perChunk f).react state.seen chunk
    Reacting.Behind f whole ⟨chunk :: state.seen, reaction.runs, reaction.goesOn, reaction.slow⟩
      (given ++ [chunk]) got [chunk.bind f] := by
  have hopened := h.live hlive
  have hnext := upTo_concat hopened chunk
  have hmade : got ++ [chunk.bind f] = upTo f (given ++ [chunk]) := by
    rw [hnext, h.got_eq hready]
  dsimp only [Transducer.perChunk]
  cases hchunk : chunk.bind f with
  | ok b =>
    refine ⟨hchunk ▸ hmade, rfl, fun _ => ?_, by simp⟩
    simp [hnext, hchunk, failed_concat, hopened, Chunk.isError]
  | error e =>
    refine ⟨hchunk ▸ hmade, rfl, by simp, fun _ => madeBy_of_failed hbegins ?_⟩
    simp [hnext, hchunk, failed_concat, Chunk.isError]

end Reacting.Behind

theorem Delivers.goes_pollReacting (h : Delivers feed taken total soFar whole) {key : String}
    {f : α → Except Error β} {m : Moment} {state : Reacting α β} {got : List (Chunk β)} {w : W}
    (hstate : ∃ given held, soFar given w ∧ state.Behind f whole given got held) :
    Goes (fun got p => ∃ given held, soFar given p.2 ∧ p.1.Behind f whole given got held)
      (MadeBy f whole) m got (Feed.pollReacting key (.perChunk f) feed m state w) := by
  fun_induction Feed.pollReacting key (.perChunk f) feed m state w with
  | case1 state w hbusy => exact ⟨fun hprompt => by simp [hprompt.finished] at hbusy, hstate⟩
  | case2 state w _ c rest hready =>
    obtain ⟨given, held, hgiven, hbehind⟩ := hstate
    obtain ⟨held, hbehind⟩ := hbehind.deliver hready
    exact ⟨given, held, hgiven, hbehind⟩
  | case3 state w _ c more rest hready =>
    obtain ⟨given, held, hgiven, hbehind⟩ := hstate
    cases hbehind.more_eq_zero hready
  | case4 state w _ hready hlive w' hp =>
    obtain ⟨given, held, hgiven, hbehind⟩ := hstate
    have hpoll := h.poll (m := m) hgiven
    rw [hp] at hpoll
    exact ⟨hpoll.1, given, held, hpoll.2, hbehind.made, hbehind.ready, hbehind.live,
      hbehind.stopped⟩
  | case5 state w _ hready hlive w' hp hfinish =>
    obtain ⟨given, held, hgiven, hbehind⟩ := hstate
    have hpoll := h.poll (m := m) hgiven
    rw [hp] at hpoll
    have hmade : MadeBy f whole (upTo f given) := ⟨given, hpoll.1, rfl⟩
    exact ⟨hbehind.got_eq hready ▸ hmade, given, held, hpoll.2, hbehind.made, hbehind.ready,
      by simp, fun _ => hmade⟩
  | case6 state w _ hready hlive w' hp c rest hfinish => simp [Transducer.perChunk] at hfinish
  | case7 state w _ hready hlive chunk w' hp reaction ih =>
    obtain ⟨given, held, hgiven, hbehind⟩ := hstate
    have hpoll := h.poll (m := m) hgiven
    rw [hp] at hpoll
    exact ih ⟨_, _, hpoll, hbehind.take hready hlive (h.begins hpoll)⟩
  | case8 state w _ hready hlive =>
    obtain ⟨given, held, hgiven, hbehind⟩ := hstate
    have hmade := hbehind.stopped (by simpa using hlive)
    exact ⟨hbehind.got_eq hready ▸ hmade, given, held, hgiven, hbehind⟩

theorem Delivers.paced_pollReacting (h : Delivers feed taken total soFar whole) {key : String}
    {f : α → Except Error β} {m : Moment} {state : Reacting α β} {given : List (Chunk α)}
    {got held : List (Chunk β)} {w : W} (hgiven : soFar given w)
    (hbehind : state.Behind f whole given got held) :
    Paced (fun p : Reacting α β × W => taken p.2) total m got.length (state, w)
      (Feed.pollReacting key (.perChunk f) feed m state w) := by
  have hpaced := h.paced (m := m) hgiven
  rw [Feed.pollReacting]
  split
  · exact .of_eq rfl
  split
  · exact .of_eq rfl
  · exact .of_eq rfl
  next hready =>
  split
  next hlive =>
    have hlength := hbehind.length_given hready hlive
    split
    next w' hp =>
      rw [hp] at hpaced
      exact hpaced.map hlength rfl rfl (absurd rfl)
    next w' hp =>
      rw [hp] at hpaced
      exact hpaced.map hlength rfl rfl (absurd rfl)
    next chunk w' hp =>
      rw [hp] at hpaced
      -- what was taken is delivered at once, or the node is at work on it
      obtain ⟨goesOn, slow, hreaction⟩ : ∃ goesOn slow,
          (Transducer.perChunk f).react state.seen chunk =
            ⟨[⟨chunk.bind f, 0⟩], goesOn, slow⟩ := by
        dsimp only [Transducer.perChunk]
        cases chunk.bind f <;> exact ⟨_, _, rfl⟩
      dsimp only
      rw [hreaction, Feed.pollReacting]
      split
      next hbusy =>
        intro hne
        obtain ⟨hahead, hmore, _⟩ := hpaced hne
        refine ⟨Nat.le_trans hahead (Nat.succ_le_succ hlength), hmore, fun hfinished => ?_⟩
        simp [hfinished key] at hbusy
      · exact hpaced.map hlength rfl rfl fun _ => List.cons_ne_nil _ _
  · exact .of_eq rfl

/-- A node that works chunk by chunk delivers what its function makes.  Of what it has
made at most one chunk is not delivered yet. -/
theorem Delivers.transduce (h : Delivers feed taken total soFar whole) (key : String)
    (f : α → Except Error β) :
    Delivers (feed.transduce key (.perChunk f)) (fun p => taken p.2) total
      (fun got p => ∃ given held, soFar given p.2 ∧ p.1.Behind f whole given got held)
      (MadeBy f whole) where
  poll := by
    rintro m got ⟨state, w⟩ hstate
    exact h.goes_pollReacting hstate
  paced := by
    rintro m got ⟨state, w⟩ ⟨given, held, hgiven, hbehind⟩
    exact h.paced_pollReacting hgiven hbehind
  begins := by
    rintro got p ⟨given, held, hgiven, hbehind⟩
    obtain ⟨full, hfull, hbegin⟩ := begins_madeBy (f := f) (h.begins hgiven)
    exact ⟨full, hfull, (hbehind.made ▸ List.prefix_append got held).trans hbegin⟩

end Dataflow
