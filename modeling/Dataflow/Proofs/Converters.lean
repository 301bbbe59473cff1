import Dataflow.Circuit.Transform
import Dataflow.Proofs.Outcome
import Dataflow.Proofs.Sessions
import Mathlib.Data.List.Induction

/-!
# Working chunk by chunk

A converter answers each poll with what its function makes of the answer of its source,
until there is an error or no next chunk, and then leaves the source alone.  Everything
in a circuit that works on single values does this to streams: wires, handlers,
assemblers, and nodes that do not say otherwise, as long as they need not be waited for.
A node that is still at work on a chunk leaves its source alone until it is through.

`Feed.Works` is what one poll does, and `Feed.Applies` what any number of polls does.
Polls are counted in the source's own worlds, so that two feeds over one source can be
compared after every poll.

* `Feed.Works.applies`: from one poll to any number of them.
* `Feed.Works.convert`: a converter on a feed that works chunk by chunk.
* `Feed.Applies.unique`: feeds that apply one function are polled and poll alike.
* `Feed.convert_convert`: two converters are one with the composed function.
* `Feed.keepsUp_transduce`: nodes that may have to be waited for.
-/

namespace Dataflow

/-! ## Answers -/

/-- What a function makes of an answer. -/
def Answer.through {α β : Type} (f : α → Except Error β) : Answer α → Answer β
  | .chunk c => .chunk (c.bind f)
  | .ended => .ended
  | .pending => .pending

/-- Answers up to the last one there is. -/
def toEnd {β : Type} : List (Answer β) → List (Answer β)
  | [] => []
  | answer :: rest => if answer.isLast then [answer] else answer :: toEnd rest

/-- One function after another on one chunk. -/
theorem Chunk.bind_bind {α β γ : Type} (f : α → Except Error β) (g : β → Except Error γ)
    (chunk : Chunk α) : chunk.bind (fun a => (f a).bind g) = (chunk.bind f).bind g := by
  cases chunk <;> rfl

theorem Answer.through_through {α β γ : Type} (f : α → Except Error β) (g : β → Except Error γ)
    (answer : Answer α) :
    answer.through (fun a => (f a).bind g) = (answer.through f).through g := by
  cases answer with
  | chunk c => exact congrArg Answer.chunk (c.bind_bind f g)
  | ended => rfl
  | pending => rfl

/-- A function makes nothing that could be followed of a last answer. -/
theorem Answer.isLast_through {α β : Type} {f : α → Except Error β} {answer : Answer α}
    (h : answer.isLast = true) : (answer.through f).isLast = true := by
  cases answer with
  | chunk c =>
    cases c with
    | ok a => cases h
    | error e => rfl
  | ended => rfl
  | pending => cases h

/-- A function makes one chunk of each. -/
theorem Answer.length_toList_through {α β : Type} (f : α → Except Error β) (answer : Answer α) :
    (answer.through f).toList.length = answer.toList.length := by
  cases answer <;> rfl

namespace Feed

variable {V V' W α β γ : Type} [Ranked V] [Ranked V'] [Ranked W]

/-! ## One poll -/

/-- A poll has applied a function to the answer of another feed. -/
structure Worked (f : α → Except Error β) (below : V → W) (isOpen isClosed : V → Prop)
    (asked : Answer α × W) (r : Answer β × V) : Prop where
  answer : r.1 = asked.1.through f
  below : below r.2 = asked.2
  closed : r.1.isLast = true → isClosed r.2
  opened : r.1.isLast = false → isOpen r.2

/-- While the feed is open, a poll in one of some moments polls another feed and applies a
function to its answer.  The last answer closes the feed, and a closed feed leaves the
other one alone. -/
structure Works (out : Feed V β) (f : α → Except Error β) (feed : Feed W α) (below : V → W)
    (among : Moment → Prop) (isOpen isClosed : V → Prop) : Prop where
  asks : ∀ m v, among m → isOpen v →
    Worked f below isOpen isClosed (feed.poll m (below v)) (out.poll m v)
  silent : ∀ m v, among m → isClosed v →
    (out.poll m v).1 = .ended ∧ below (out.poll m v).2 = below v ∧ isClosed (out.poll m v).2

theorem works_convert (f : α → Except Error β) (feed : Feed W α) :
    (feed.convert f).Works f feed (·.2) (fun _ => True) (·.1 = .opened) (·.1 = .closed) where
  asks := by
    rintro m ⟨_, w⟩ _ rfl
    show Worked f _ _ _ (feed.poll m w) (pollConverted f feed m (.opened, w))
    rw [pollConverted]
    obtain ⟨answer, w'⟩ := feed.poll m w
    cases answer with
    | chunk c =>
      dsimp only
      cases hmade : c.bind f with
      | ok b => exact ⟨congrArg Answer.chunk hmade.symm, rfl, nofun, fun _ => rfl⟩
      | error e => exact ⟨congrArg Answer.chunk hmade.symm, rfl, fun _ => rfl, nofun⟩
    | ended => exact ⟨rfl, rfl, fun _ => rfl, nofun⟩
    | pending => exact ⟨rfl, rfl, nofun, fun _ => rfl⟩
  silent := by
    rintro m ⟨_, w⟩ _ rfl
    exact ⟨rfl, rfl, rfl⟩

/-- A node that is through with each chunk at once has nothing ready between two polls. -/
theorem works_transduce (key : String) (f : α → Except Error β) (feed : Feed W α) :
    (feed.transduce key (.perChunk f)).Works f feed (·.2) (fun m => ∀ count, m.finished key count = true)
      (fun v => v.1.ready = [] ∧ v.1.live = true) (fun v => v.1.ready = [] ∧ v.1.live = false) where
  asks := by
    rintro m ⟨⟨seen, _, _, busy⟩, w⟩ hfinished ⟨rfl, rfl⟩
    show Worked f _ _ _ (feed.poll m w)
      (pollReacting key (.perChunk f) feed m ⟨seen, [], true, busy⟩ w)
    rw [pollReacting, if_neg (by simp [hfinished])]
    dsimp only
    rw [if_pos rfl]
    split
    next w' hpoll => exact ⟨by rw [hpoll]; rfl, by rw [hpoll], by simp [Answer.isLast], by simp⟩
    next w' hpoll =>
      exact ⟨by rw [hpoll]; rfl, by rw [hpoll]; rfl, fun _ => ⟨rfl, rfl⟩, by simp [Answer.isLast, Transducer.perChunk]⟩
    next c w' hpoll =>
      dsimp only [Transducer.perChunk]
      cases hmade : c.bind f with
      | ok b =>
        dsimp only
        rw [pollReacting, if_neg (by simp [hfinished])]
        exact ⟨by rw [hpoll, ← hmade]; rfl, by rw [hpoll], by simp [Answer.isLast, Chunk.isError], by simp⟩
      | error e =>
        dsimp only
        rw [pollReacting, if_neg (by simp [hfinished])]
        exact ⟨by rw [hpoll, ← hmade]; rfl, by rw [hpoll], by simp, by simp [Answer.isLast, Chunk.isError]⟩
  silent := by
    rintro m ⟨⟨seen, _, _, busy⟩, w⟩ hfinished ⟨rfl, rfl⟩
    have hpoll : pollReacting key (.perChunk f) feed m ⟨seen, [], false, busy⟩ w =
        (.ended, ⟨seen, [], false, busy⟩, w) := by
      rw [pollReacting]
      simp [hfinished]
    show (pollReacting key (.perChunk f) feed m ⟨seen, [], false, busy⟩ w).1 = _ ∧
      (pollReacting key (.perChunk f) feed m ⟨seen, [], false, busy⟩ w).2.2 = _ ∧ _ = [] ∧ _
    rw [hpoll]
    exact ⟨rfl, rfl, congrArg (·.2.1.ready) hpoll, congrArg (·.2.1.live) hpoll⟩

variable {out : Feed V β} {f : α → Except Error β} {feed : Feed W α} {below : V → W}
  {among : Moment → Prop} {isOpen isClosed : V → Prop}

/-- A converter on top applies its own function to what comes out.  It is closed by an
error of either function, and what it stands on is then not asked again. -/
theorem Works.convert (h : out.Works f feed below among isOpen isClosed)
    (g : β → Except Error γ) :
    (out.convert g).Works (fun a => (f a).bind g) feed (fun v => below v.2) among
      (fun v => v.1 = .opened ∧ isOpen v.2) (·.1 = .closed) where
  asks := by
    rintro m ⟨_, v⟩ hm ⟨rfl, hopen⟩
    have hbelow := h.asks m v hm hopen
    have htop := (works_convert g out).asks m (.opened, v) trivial rfl
    refine ⟨?_, (congrArg below htop.below).trans hbelow.below, htop.closed,
      fun hlast => ⟨htop.opened hlast, ?_⟩⟩
    · rw [htop.answer, hbelow.answer, Answer.through_through]
    · rw [htop.below]
      refine hbelow.opened (Bool.eq_false_iff.2 fun heq => ?_)
      rw [htop.answer, Answer.isLast_through heq] at hlast
      cases hlast
  silent := by
    rintro m ⟨_, v⟩ _ rfl
    exact ⟨rfl, rfl, rfl⟩

/-- Taking two parts of a world as one changes nothing. -/
theorem Works.regroup {S T : Type} [Holding S] [Holding T] {out : Feed (S × T × W) β}
    {isOpen isClosed : S × T × W → Prop}
    (h : out.Works f feed (fun v => v.2.2) among isOpen isClosed) :
    out.regroup.Works f feed (·.2) among (fun v => isOpen (v.1.1, v.1.2, v.2))
      (fun v => isClosed (v.1.1, v.1.2, v.2)) where
  asks m v hm hopen :=
    have hasks := h.asks m (v.1.1, v.1.2, v.2) hm hopen
    ⟨hasks.answer, hasks.below, hasks.closed, hasks.opened⟩
  silent m v := h.silent m (v.1.1, v.1.2, v.2)

/-! ## Any number of polls -/

/-- What a function makes of the answers of a feed, up to the first error or the end. -/
def applied (feed : Feed W α) (f : α → Except Error β) (moments : List Moment) (w : W) :
    List (Answer β) :=
  toEnd ((polled feed.poll moments w).1.map (Answer.through f))

/-- The chunks among the answers of a feed. -/
def chunksAt (feed : Feed W α) (moments : List Moment) (w : W) : List (Chunk α) :=
  pulled (polled feed.poll moments w).1

/-- However often the feed is polled in some of the moments, it answers with what a
function makes of the answers of another feed up to the first error, and with nothing
behind that.  The other feed has been polled once for each of these answers, so that it
has delivered one chunk for each that came out. -/
structure Applies (out : Feed V β) (f : α → Except Error β) (feed : Feed W α) (below : V → W)
    (among : Moment → Prop) (start : V) : Prop where
  answers : ∀ moments, (∀ m ∈ moments, among m) →
    (polled out.poll moments start).1 = feed.applied f moments (below start) ++
      .replicate (moments.length - (feed.applied f moments (below start)).length) .ended
  polls : ∀ moments, (∀ m ∈ moments, among m) → below (polled out.poll moments start).2 =
    (polled feed.poll (moments.take (feed.applied f moments (below start)).length)
      (below start)).2
  paced : ∀ moments, (∀ m ∈ moments, among m) → (out.chunksAt moments start).length =
    (feed.chunksAt (moments.take (feed.applied f moments (below start)).length)
      (below start)).length

/-- A closed feed answers nothing and polls nothing. -/
theorem Works.polled_closed (h : out.Works f feed below among isOpen isClosed) {v : V}
    (hv : isClosed v) {moments : List Moment} (hmoments : ∀ m ∈ moments, among m) :
    (polled out.poll moments v).1 = .replicate moments.length .ended ∧
      below (polled out.poll moments v).2 = below v := by
  induction moments generalizing v with
  | nil => exact ⟨rfl, rfl⟩
  | cons m moments ih =>
    obtain ⟨hm, hmoments⟩ := List.forall_mem_cons.1 hmoments
    obtain ⟨hanswer, hbelow, hclosed⟩ := h.silent m v hm hv
    obtain ⟨hanswers, hrest⟩ := ih hclosed hmoments
    refine ⟨?_, hrest.trans hbelow⟩
    rw [polled, hanswers, hanswer]
    rfl

theorem chunksAt_cons (feed : Feed W α) (m : Moment) (moments : List Moment) (w : W) :
    feed.chunksAt (m :: moments) w =
      (feed.poll m w).1.toList ++ feed.chunksAt moments (feed.poll m w).2 := rfl

/-- What an open feed answers to some polls, and how often it polls the other one. -/
theorem Works.polled_open (h : out.Works f feed below among isOpen isClosed) {v : V}
    (hv : isOpen v) {moments : List Moment} (hmoments : ∀ m ∈ moments, among m) :
    (polled out.poll moments v).1 = feed.applied f moments (below v) ++
        .replicate (moments.length - (feed.applied f moments (below v)).length) .ended ∧
      below (polled out.poll moments v).2 =
        (polled feed.poll (moments.take (feed.applied f moments (below v)).length) (below v)).2 ∧
      (out.chunksAt moments v).length =
        (feed.chunksAt (moments.take (feed.applied f moments (below v)).length)
          (below v)).length := by
  induction moments generalizing v with
  | nil => exact ⟨rfl, rfl, rfl⟩
  | cons m moments ih =>
    obtain ⟨hm, hmoments⟩ := List.forall_mem_cons.1 hmoments
    obtain ⟨hanswer, hbelow, hclosed, hopened⟩ := h.asks m v hm hv
    have happlied : feed.applied f (m :: moments) (below v) =
        if (out.poll m v).1.isLast then [(out.poll m v).1]
        else (out.poll m v).1 :: feed.applied f moments (below (out.poll m v).2) := by
      rw [applied, polled, List.map_cons, toEnd, ← hanswer, hbelow]
      rfl
    have hone : (out.poll m v).1.toList.length = (feed.poll m (below v)).1.toList.length := by
      rw [hanswer, Answer.length_toList_through]
    cases hlast : (out.poll m v).1.isLast with
    | true =>
      rw [hlast, if_pos rfl] at happlied
      obtain ⟨hanswers, hrest⟩ := h.polled_closed (hclosed hlast) hmoments
      have hnothing : out.chunksAt moments (out.poll m v).2 = [] := by
        rw [chunksAt, hanswers, pulled, List.flatMap_eq_nil_iff]
        intro answer hmem
        rw [List.eq_of_mem_replicate hmem]
        rfl
      rw [happlied, chunksAt_cons, hnothing, List.append_nil, hone, polled, hanswers]
      exact ⟨rfl, hrest.trans hbelow, by simp [chunksAt, polled, pulled]⟩
    | false =>
      rw [hlast, if_neg (by decide)] at happlied
      obtain ⟨hanswers, hrest, hcount⟩ := ih (hopened hlast) hmoments
      rw [hbelow] at happlied hanswers hrest hcount
      rw [happlied]
      refine ⟨by simp [polled, hanswers], hrest, ?_⟩
      show ((out.poll m v).1.toList ++ out.chunksAt moments (out.poll m v).2).length =
        ((feed.poll m (below v)).1.toList ++ feed.chunksAt _ (feed.poll m (below v)).2).length
      rw [List.length_append, List.length_append, hone, hcount]

/-- A feed that works chunk by chunk applies its function to all chunks. -/
theorem Works.applies (h : out.Works f feed below among isOpen isClosed) (start : V)
    (hstart : isOpen start) : out.Applies f feed below among start where
  answers _ hmoments := (h.polled_open hstart hmoments).1
  polls _ hmoments := (h.polled_open hstart hmoments).2.1
  paced _ hmoments := (h.polled_open hstart hmoments).2.2

/-- Feeds that apply one function to one feed are polled alike and poll alike. -/
theorem Applies.unique {out' : Feed V' β} {below' : V' → W} {start : V} {start' : V'}
    (h : out.Applies f feed below among start) (h' : out'.Applies f feed below' among start')
    (hbelow : below start = below' start') {moments : List Moment}
    (hmoments : ∀ m ∈ moments, among m) :
    (polled out.poll moments start).1 = (polled out'.poll moments start').1 ∧
      below (polled out.poll moments start).2 = below' (polled out'.poll moments start').2 := by
  rw [h.answers _ hmoments, h'.answers _ hmoments, h.polls _ hmoments, h'.polls _ hmoments, hbelow]
  exact ⟨rfl, rfl⟩

/-! ## What works chunk by chunk -/

/-- Two converters are one with the composed function: they are polled alike, and they
poll their source alike. -/
theorem convert_convert (f : α → Except Error β) (g : β → Except Error γ) (feed : Feed W α) (w : W)
    (moments : List Moment) :
    let stacked := polled ((feed.convert f).convert g).poll moments (.opened, .opened, w)
    let composed := polled (feed.convert fun a => (f a).bind g).poll moments (.opened, w)
    stacked.1 = composed.1 ∧ stacked.2.2.2 = composed.2.2 :=
  (((works_convert f feed).convert g).applies (.opened, .opened, w) ⟨rfl, rfl⟩).unique
    ((works_convert _ feed).applies (.opened, w) rfl) rfl fun _ _ => trivial

/-! ## Nodes at work -/

/-- Whenever a feed was polled at some moments, it has polled another one at some of them
and has delivered what a function makes of the chunks that came, except one at most that
it is still at work on.  There is nothing behind an error, and the feed has ended only when
all is delivered and there was an error or the other feed has ended. -/
def KeepsUp (out : Feed V β) (f : α → Except Error β) (feed : Feed W α) (below : V → W)
    (start : V) : Prop :=
  ∀ moments, ∃ asked, asked.Sublist moments ∧
    below (polled out.poll moments start).2 = (polled feed.poll asked (below start)).2 ∧
    let made := (feed.chunksAt asked (below start)).map (·.bind f)
    let got := out.chunksAt moments start
    cut made = made ∧ (∃ held, held.length ≤ 1 ∧ got ++ held = made) ∧
      (.ended ∈ (polled out.poll moments start).1 →
        got = made ∧ (Failed got ∨ .ended ∈ (polled feed.poll asked (below start)).1))

end Feed

/-- The state of a node that works chunk by chunk, given what it was told and what it has
answered. -/
structure Reacting.Tracks {α β : Type} (f : α → Except Error β) (asked : List (Answer α))
    (answers : List (Answer β)) (state : Reacting α β) : Prop where
  held : ∃ held, held.length ≤ 1 ∧ state.ready = held.map (⟨·, 0⟩) ∧
    pulled answers ++ held = (pulled asked).map (·.bind f)
  live : state.live = true → ¬Failed ((pulled asked).map (·.bind f))
  closed : state.live = false → Failed ((pulled asked).map (·.bind f)) ∨ .ended ∈ asked
  cut_eq : cut ((pulled asked).map (·.bind f)) = (pulled asked).map (·.bind f)
  ended : .ended ∈ answers → state.ready = [] ∧ state.live = false

namespace Reacting.Tracks

variable {W α β : Type} [Ranked W] {f : α → Except Error β} {asked : List (Answer α)}
  {answers : List (Answer β)} {state : Reacting α β}

/-- The node is given a chunk when it has delivered everything. -/
theorem take (h : Tracks f asked answers state) (hready : state.ready = [])
    (hlive : state.live = true) (c : Chunk α) (seen : List (Chunk α)) (busy : Bool) :
    Tracks f (asked ++ [.chunk c]) answers
      ⟨seen, [⟨c.bind f, 0⟩], !Chunk.isError (c.bind f), busy⟩ := by
  obtain ⟨held, _, hheld, hgot⟩ := h.held
  rw [hready] at hheld
  obtain rfl := List.map_eq_nil_iff.1 hheld.symm
  rw [List.append_nil] at hgot
  have hmade : (pulled (asked ++ [.chunk c])).map (·.bind f) =
      (pulled asked).map (·.bind f) ++ [c.bind f] := by
    simp [pulled_concat, Answer.toList]
  have hnot := h.live hlive
  refine ⟨⟨[c.bind f], Nat.le_refl 1, rfl, by rw [hmade, hgot]⟩, fun hopen => ?_, fun hover => ?_, ?_,
    fun hended => ?_⟩
  · rw [hmade, failed_concat]
    simp at hopen
    simp [hnot, hopen]
  · left
    rw [hmade, failed_concat]
    simp at hover
    exact .inr hover
  · rw [hmade, cut_append_of_not_failed hnot]
    cases c.bind f <;> rfl
  · cases hlive.symm.trans (h.ended hended).2

/-- The node delivers what it has made. -/
theorem deliver (h : Tracks f asked answers state) {c : Chunk β} {rest : List (Run β)}
    (hready : state.ready = ⟨c, 0⟩ :: rest) (busy : Bool) :
    Tracks f asked (answers ++ [.chunk c]) { state with ready := rest, busy := busy } := by
  obtain ⟨held, hone, hheld, hgot⟩ := h.held
  rw [hready] at hheld
  obtain ⟨_, others, rfl, hc, rfl⟩ := List.map_eq_cons_iff.1 hheld.symm
  obtain ⟨rfl, -⟩ := Run.mk.inj hc
  obtain rfl : others = [] := by simpa using hone
  refine ⟨⟨[], Nat.zero_le 1, rfl, ?_⟩, h.live, h.closed, h.cut_eq, fun hended => ?_⟩
  · simpa [pulled_concat, Answer.toList] using hgot
  · have := h.ended (by simpa using hended)
    cases hready.symm.trans this.1

/-- The node has to wait, or has nothing to say any more. -/
theorem wait (h : Tracks f asked answers state) (answer : Answer β) (hanswer : answer.toList = [])
    (hended : answer = .ended → state.ready = [] ∧ state.live = false) :
    Tracks f asked (answers ++ [answer]) state := by
  refine ⟨?_, h.live, h.closed, h.cut_eq, fun hmem => ?_⟩
  · simpa [pulled_concat, hanswer] using h.held
  · rcases List.mem_append.1 hmem with hmem | hmem
    · exact h.ended hmem
    · exact hended (List.mem_singleton.1 hmem).symm

/-- The node asks for a chunk and gets none. -/
theorem ask (h : Tracks f asked answers state) (told : Answer α) (htold : told.toList = [])
    (live : Bool) (hlive : state.live = true) (hover : live = false → told = .ended)
    (busy : Bool) : Tracks f (asked ++ [told]) answers { state with live := live, busy := busy } := by
  have hmade : pulled (asked ++ [told]) = pulled asked := by simp [pulled_concat, htold]
  refine ⟨hmade ▸ h.held, fun _ => hmade ▸ h.live hlive, fun hfalse => .inr ?_, hmade ▸ h.cut_eq,
    fun hended => ?_⟩
  · simp [hover hfalse]
  · cases hlive.symm.trans (h.ended hended).2

/-- A poll of the node polls its source once or not at all. -/
theorem poll (h : Tracks f asked answers state) (key : String) (feed : Feed W α) (m : Moment)
    (w : W) :
    let r := Feed.pollReacting key (.perChunk f) feed m state w
    (r.2.2 = w ∧ Tracks f asked (answers ++ [r.1]) r.2.1) ∨
      (r.2.2 = (feed.poll m w).2 ∧
        Tracks f (asked ++ [(feed.poll m w).1]) (answers ++ [r.1]) r.2.1) := by
  intro r
  obtain ⟨held, _, hheld, _⟩ := h.held
  simp only [r]
  rw [Feed.pollReacting]
  split
  · exact .inl ⟨rfl, h.wait .pending rfl (by simp)⟩
  split
  next c rest hready => exact .inl ⟨rfl, h.deliver hready false⟩
  next c more rest hready =>
    rw [hready] at hheld
    obtain ⟨_, _, _, hc, _⟩ := List.map_eq_cons_iff.1 hheld.symm
    simp at hc
  next hready =>
    cases hlive : state.live with
    | false =>
      rw [if_neg (by decide)]
      exact .inl ⟨rfl, h.wait .ended rfl fun _ => ⟨hready, hlive⟩⟩
    | true =>
      rw [if_pos rfl]
      right
      split
      next w' hpoll =>
        rw [hpoll]
        have hask := (h.ask .pending rfl true hlive (by simp) false).wait .pending rfl (by simp)
        exact ⟨rfl, hlive ▸ hask⟩
      next w' hpoll =>
        rw [hpoll]
        have hask := h.ask .ended rfl false hlive (fun _ => rfl) false
        exact ⟨rfl, hask.wait .ended rfl fun _ => ⟨hready, rfl⟩⟩
      next c w' hpoll =>
        rw [hpoll]
        have htake := h.take hready hlive c (c :: state.seen)
        obtain ⟨slow, hreaction⟩ : ∃ slow, (Transducer.perChunk f).react state.seen c =
            ⟨[⟨c.bind f, 0⟩], !Chunk.isError (c.bind f), slow⟩ := by
          dsimp only [Transducer.perChunk]
          cases c.bind f <;> exact ⟨_, rfl⟩
        dsimp only
        rw [hreaction, Feed.pollReacting]
        split
        · exact ⟨rfl, (htake slow).wait .pending rfl (by simp)⟩
        · exact ⟨rfl, (htake slow).deliver rfl false⟩

end Reacting.Tracks

namespace Feed

variable {W α β : Type} [Ranked W]

/-- A node that works chunk by chunk keeps up with its source, however long it has to be
waited for. -/
theorem keepsUp_transduce (key : String) (f : α → Except Error β) (feed : Feed W α) (w : W) :
    (feed.transduce key (.perChunk f)).KeepsUp f feed (·.2) ((Transducer.perChunk f).begin, w) := by
  intro moments
  have htracks : ∃ asked, asked.Sublist moments ∧
      (polled (feed.transduce key (.perChunk f)).poll moments
        ((Transducer.perChunk f).begin, w)).2.2 = (polled feed.poll asked w).2 ∧
      Reacting.Tracks f (polled feed.poll asked w).1
        (polled (feed.transduce key (.perChunk f)).poll moments
          ((Transducer.perChunk f).begin, w)).1
        (polled (feed.transduce key (.perChunk f)).poll moments
          ((Transducer.perChunk f).begin, w)).2.1 := by
    induction moments using List.reverseRecOn with
    | nil =>
      exact ⟨[], .slnil, rfl, ⟨[], Nat.zero_le 1, rfl, rfl⟩, fun _ => not_failed_nil, nofun, rfl,
        nofun⟩
    | append_singleton moments m ih =>
      obtain ⟨asked, hsub, hworld, htracks⟩ := ih
      rw [polled_concat]
      rcases htracks.poll key feed m (polled feed.poll asked w).2 with ⟨hsame, hnext⟩ | ⟨hasked, hnext⟩
      · refine ⟨asked, hsub.trans (List.sublist_append_left _ _), ?_, ?_⟩
        · rw [← hworld] at hsame ⊢
          exact hsame
        · rw [← hworld] at hnext
          exact hnext
      · refine ⟨asked ++ [m], hsub.append (List.Sublist.refl _), ?_, ?_⟩
        · rw [polled_concat, ← hworld]
          rw [← hworld] at hasked
          exact hasked
        · rw [polled_concat]
          dsimp only
          rw [← hworld] at hnext ⊢
          exact hnext
  obtain ⟨asked, hsub, hworld, htracks⟩ := htracks
  obtain ⟨held, hone, hheld, hgot⟩ := htracks.held
  refine ⟨asked, hsub, hworld, htracks.cut_eq, ⟨held, hone, hgot⟩, fun hended => ?_⟩
  obtain ⟨hready, hlive⟩ := htracks.ended hended
  rw [hready] at hheld
  obtain rfl := List.map_eq_nil_iff.1 hheld.symm
  rw [List.append_nil] at hgot
  exact ⟨hgot, (htracks.closed hlive).imp_left fun hfailed => by rwa [← hgot] at hfailed⟩

end Feed

section

variable {W : Type} [Ranked W]

theorem Wire.applies_feed (wire : Wire) (outputs : Feed W Value) (w : W) :
    (wire.feed outputs).Applies wire.apply outputs (·.2) (fun _ => True)
      ((.opened, .opened), w) := by
  have hworks := (Feed.works_convert (Mapping.extract wire.mappings) outputs).convert wire.guarded
  exact hworks.regroup.applies _ ⟨rfl, rfl⟩

/-- A wire without guards does what its mappings do. -/
theorem Wire.feed_of_unguarded {wire : Wire} (hplan : wire.plan = none) (outputs : Feed W Value)
    (w : W) (moments : List Moment) :
    let fields := polled (wire.feed outputs).poll moments ((.opened, .opened), w)
    let extracted :=
      polled (outputs.convert (Mapping.extract wire.mappings)).poll moments (.opened, w)
    fields.1 = extracted.1 ∧ fields.2.2 = extracted.2.2 := by
  have happly : wire.apply = Mapping.extract wire.mappings := by
    funext output
    have hguarded : wire.guarded = .ok := by
      funext fields
      rw [Wire.guarded, hplan]
    rw [Wire.apply, hguarded]
    cases Mapping.extract wire.mappings output <;> rfl
  have hfields := wire.applies_feed outputs w
  rw [happly] at hfields
  exact hfields.unique ((Feed.works_convert _ outputs).applies (.opened, w) rfl) rfl
    fun _ _ => trivial

/-- Whatever works on single values works on streams chunk by chunk: converters, two
converters as one, wires with guards and without, handlers, assemblers, and nodes that do
not say otherwise.  Each answers with what its function makes of the chunks, up to the
first error, and polls its source once for each of them.  A node does so while it is
through with each chunk at once; if it has to be waited for, it is never more than the
chunk that it is at work on behind its source. -/
theorem chunkwise (w : W) :
    (∀ (α β : Type) (feed : Feed W α) (f : α → Except Error β),
      (feed.convert f).Applies f feed (·.2) (fun _ => True) (.opened, w)) ∧
    (∀ (α β γ : Type) (feed : Feed W α) (f : α → Except Error β) (g : β → Except Error γ)
      (moments : List Moment),
      let stacked := polled ((feed.convert f).convert g).poll moments (.opened, .opened, w)
      let composed := polled (feed.convert fun a => (f a).bind g).poll moments (.opened, w)
      stacked.1 = composed.1 ∧ stacked.2.2.2 = composed.2.2) ∧
    (∀ (wire : Wire) (outputs : Feed W Value),
      (wire.feed outputs).Applies wire.apply outputs (·.2) (fun _ => True)
        ((.opened, .opened), w)) ∧
    (∀ (source target : String) (mappings : List Mapping) (outputs : Feed W Value)
      (moments : List Moment),
      let unguarded : Wire := ⟨source, target, mappings, none⟩
      let fields := polled (unguarded.feed outputs).poll moments ((.opened, .opened), w)
      let extracted := polled (outputs.convert (Mapping.extract mappings)).poll moments (.opened, w)
      fields.1 = extracted.1 ∧ fields.2.2 = extracted.2.2) ∧
    (∀ (α : Type) (handler : Handler α) (stream : Stream α),
      (handler.transform stream).feed.Applies handler.invoke stream.feed (·.2) (fun _ => True)
        (handler.transform stream).world) ∧
    (∀ (assembler : Assembler) (contributions : Feed W Fields),
      (contributions.convert assembler.assembleOne).Applies
        (fun fields => assembler.assemble (gather [fields])) contributions (·.2) (fun _ => True)
        (.opened, w)) ∧
    ∀ (input output : Ty) (run : Value → Except Error Value) (key : String) (inputs : Feed W Value),
      let node : Node := { input, output, run }
      (inputs.transduce key node.transducer).Applies node.run inputs (·.2)
          (fun m => ∀ count, m.finished key count = true) (node.transducer.begin, w) ∧
        (inputs.transduce key node.transducer).KeepsUp node.run inputs (·.2)
          (node.transducer.begin, w) := by
  refine ⟨fun _ _ feed f => (Feed.works_convert f feed).applies _ rfl,
    fun _ _ _ feed f g => Feed.convert_convert f g feed w, fun wire outputs =>
    wire.applies_feed outputs w, fun _ _ _ outputs moments =>
    Wire.feed_of_unguarded rfl outputs w moments, ?_, ?_, ?_⟩
  · intro α handler stream
    exact (Feed.works_convert handler.invoke stream.feed).applies _ rfl
  · intro assembler contributions
    exact (Feed.works_convert assembler.assembleOne contributions).applies _ rfl
  · intro input output run key inputs
    exact ⟨(Feed.works_transduce key run inputs).applies _ ⟨rfl, rfl⟩,
      Feed.keepsUp_transduce key run inputs w⟩

end

end Dataflow
