import Dataflow.Proofs.Gathering
import Dataflow.Proofs.Networks
import Dataflow.Proofs.Runs

/-!
# Failing runs

Where the errors of a run come from.  A circuit adds only errors about access, guards
and its own working to those that its nodes return; in a stream there are also the
errors that were given with the input.  Errors travel through merges, copies and
transducers, so every part of a network is shown to keep to permitted ones.

* `Circuit.outcome_invoke_of_inputs`: errors of a run on a value.
* `Transducer.Keeps`: a transducer that makes no other errors than it takes.
* `Graph.Compiled.within_transform`: errors of a run on a stream.
-/

namespace Dataflow

/-! ## Runs on a value -/

namespace Circuit

variable {circuit : Circuit} {permitted : Error → Prop}

/-- Stations fail as their inputs may fail or as the node fails that was called last. -/
theorem outcome_note_of_inputs {stations : List Station}
    (hinput : ∀ station ∈ stations, ∀ outputs,
      Outcome permitted (fun _ => True) (circuit.stationInput outputs station))
    (outputs : Table Value) :
    Outcome (fun e => permitted e ∨ FailedLast (circuit.note stations outputs).1 e)
      (fun _ => True) (circuit.note stations outputs).2 := by
  induction stations generalizing outputs with
  | nil => trivial
  | cons station rest ih =>
    obtain ⟨hstation, hrest⟩ := List.forall_mem_cons.1 hinput
    have hstep : Outcome (fun e => permitted e ∨ FailedLast (circuit.noteStation outputs station).1 e)
        (fun _ => True) (circuit.noteStation outputs station).2 := by
      have hinput := hstation outputs
      unfold noteStation
      cases hrole : station.role with
      | start => rw [runStation, hrole]; trivial
      | finish =>
        rw [runStation, hrole]
        exact (hinput.imp (fun _ => .inl) fun _ => id).bind fun _ _ _ => trivial
      | work node =>
        dsimp only
        cases hvalue : circuit.stationInput outputs station with
        | error e =>
          rw [hvalue] at hinput
          exact .inl hinput
        | ok input =>
          dsimp only
          cases hrun : node.run input with
          | ok output => trivial
          | error e => exact .inr ⟨_, rfl, hrun⟩
    rw [note]
    revert hstep
    obtain ⟨calls, result⟩ := circuit.noteStation outputs station
    intro hstep
    cases result with
    | error e => exact hstep
    | ok outputs' =>
      refine (ih hrest outputs').imp (fun e he => he.imp_right ?_) fun _ => id
      rintro ⟨call, hlast, herror⟩
      exact ⟨call, by rw [List.getLast?_append, hlast]; rfl, herror⟩

/-- A run fails at the guard of its input, as the inputs of its stations may fail, or as
the node fails that it called last. -/
theorem outcome_invoke_of_inputs
    (hguard : ∀ value, Outcome permitted (fun _ => True) (circuit.inputGuard.check value))
    (hinput : ∀ station ∈ circuit.stations, ∀ outputs,
      Outcome permitted (fun _ => True) (circuit.stationInput outputs station))
    (hend : permitted (.internal .endNotReached)) (value : Value) :
    Outcome (fun e => permitted e ∨ FailedLast (circuit.calls value) e) (fun _ => True)
      (circuit.invoke value) := by
  have hguard := hguard value
  unfold calls invoke
  cases hcheck : circuit.inputGuard.check value with
  | error e =>
    rw [hcheck] at hguard
    exact .inl hguard
  | ok input =>
    have hrun := outcome_note_of_inputs hinput (Table.empty.insert startKey input)
    rw [note_snd] at hrun
    refine Outcome.bind (x := circuit.runStations input) hrun fun outputs _ _ => ?_
    cases outputs.find? endKey with
    | none => exact .inl hend
    | some output => trivial

end Circuit

/-! ## Chunks and transducers -/

/-- The chunk is a value or a permitted error. -/
def Chunk.Within {α : Type} (permitted : Error → Prop) (chunk : Chunk α) : Prop :=
  Outcome permitted (fun _ => True) chunk

namespace Transducer

variable {α β : Type}

/-- As long as it has received permitted errors alone, the transducer makes no others. -/
structure Keeps (t : Transducer α β) (permitted : Error → Prop) : Prop where
  react : ∀ seen chunk, (∀ c ∈ chunk :: seen, Chunk.Within permitted c) →
    ∀ run ∈ (t.react seen chunk).runs, Chunk.Within permitted run.chunk
  finish : ∀ seen, (∀ c ∈ seen, Chunk.Within permitted c) →
    ∀ c ∈ t.finish seen, Chunk.Within permitted c

/-- Working chunk by chunk keeps to the errors of the function. -/
theorem keeps_perChunk {permitted : Error → Prop} {f : α → Except Error β}
    (hf : ∀ a, Outcome permitted (fun _ => True) (f a)) : (perChunk f).Keeps permitted where
  react seen chunk hchunks run hrun := by
    have hresult : Outcome permitted (fun _ => True) (chunk.bind f) :=
      Outcome.bind (hchunks chunk List.mem_cons_self) fun a _ _ => hf a
    unfold perChunk at hrun
    dsimp only at hrun
    cases hmade : chunk.bind f with
    | ok b =>
      rw [hmade] at hrun
      rw [List.mem_singleton.1 hrun]
      trivial
    | error e =>
      rw [hmade] at hrun hresult
      rw [List.mem_singleton.1 hrun]
      exact hresult
  finish _ _ _ hc := nomatch hc

end Transducer

/-- What a transducer has received and what it has still to deliver is permitted. -/
structure Reacting.Within {α β : Type} (permitted : Error → Prop) (state : Reacting α β) :
    Prop where
  seen : ∀ c ∈ state.seen, Chunk.Within permitted c
  ready : ∀ run ∈ state.ready, Chunk.Within permitted run.chunk

/-- The answer is no error, or a permitted one. -/
def Answer.Within {α : Type} (permitted : Error → Prop) : Answer α → Prop
  | .chunk c => Chunk.Within permitted c
  | .ended => True
  | .pending => True

/-! ## Feeds -/

/-- While the world is in good order, a poll leaves it in good order, and an error that
it delivers is permitted. -/
def Feed.Permits {W α : Type} [Ranked W] (feed : Feed W α) (good : W → Prop)
    (permitted : Error → Prop) : Prop :=
  ∀ m w, good w → good (feed.poll m w).2 ∧ (feed.poll m w).1.Within permitted

variable {W α β : Type} [Ranked W] {feed : Feed W α} {good : W → Prop}
  {permitted : Error → Prop}

theorem Tape.permits_feed : (Tape.feed (α := α)).Permits
    (fun tape => ∀ chunk ∈ tape.left, Chunk.Within permitted chunk) permitted := by
  rintro m ⟨left, taken⟩ hleft
  show _ ∧ (poll m ⟨left, taken⟩).1.Within permitted
  simp only [feed, poll]
  split
  · cases left with
    | nil => exact ⟨hleft, trivial⟩
    | cons chunk rest =>
      obtain ⟨hchunk, hrest⟩ := List.forall_mem_cons.1 hleft
      exact ⟨hrest, hchunk⟩
  · exact ⟨hleft, trivial⟩

namespace FanOut

/-- What waits for a copy is permitted. -/
def Within (permitted : Error → Prop) (fan : FanOut α) : Prop :=
  ∀ copy ∈ fan.copies, ∀ chunk ∈ copy.pending, Chunk.Within permitted chunk

theorem within_fresh (count : Nat) : (fresh count : FanOut α).Within permitted := by
  intro copy hcopy chunk hchunk
  rw [List.eq_of_mem_replicate hcopy] at hchunk
  exact nomatch hchunk

theorem Within.set {fan : FanOut α} (h : fan.Within permitted) (flowing : Bool) (index : Nat)
    {new : Copy α} (hnew : ∀ chunk ∈ new.pending, Chunk.Within permitted chunk) :
    (⟨flowing, fan.copies.set index new⟩ : FanOut α).Within permitted := by
  intro copy hcopy
  rcases List.mem_or_eq_of_mem_set hcopy with hold | rfl
  · exact h copy hold
  · exact hnew

theorem within_delivered {chunk : Chunk α} {rest : List (Chunk α)}
    (h : ∀ c ∈ rest, Chunk.Within permitted c) :
    ∀ c ∈ (Copy.delivered chunk rest).pending, Chunk.Within permitted c := by
  unfold Copy.delivered
  split
  · exact nofun
  · exact h

theorem Within.offer {fan : FanOut α} (h : fan.Within permitted) {chunk : Chunk α}
    (hchunk : Chunk.Within permitted chunk) (flowing : Bool) :
    (⟨flowing, fan.copies.map (Copy.offer chunk)⟩ : FanOut α).Within permitted := by
  intro copy hcopy c hc
  obtain ⟨old, hold, rfl⟩ := List.mem_map.1 hcopy
  cases hqueue : old.queue with
  | none => simp [Copy.offer, Copy.pending, hqueue] at hc
  | some waiting =>
    have hc : c ∈ waiting ++ [chunk] := by
      simpa [Copy.offer, Copy.pending, hqueue] using hc
    rcases List.mem_append.1 hc with hc | hc
    · exact h old hold c (by simpa [Copy.pending, hqueue] using hc)
    · rwa [List.mem_singleton.1 hc]

end FanOut

namespace Feed.Permits

theorem regroup {S T : Type} [Holding S] [Holding T] {feed : Feed (S × T × W) α}
    (h : feed.Permits (fun p => good p.2.2) permitted) :
    feed.regroup.Permits (fun p => good p.2) permitted :=
  fun m p hp => h m (p.1.1, p.1.2, p.2) hp

theorem convert (h : feed.Permits good permitted) {f : α → Except Error β}
    (hf : ∀ a, Outcome permitted (fun _ => True) (f a)) :
    (feed.convert f).Permits (fun p => good p.2) permitted := by
  rintro m ⟨tap, w⟩ hw
  show good (pollConverted f feed m (tap, w)).2.2 ∧
    (pollConverted f feed m (tap, w)).1.Within permitted
  cases tap with
  | closed => exact ⟨hw, trivial⟩
  | opened =>
    have hpoll := h m w hw
    rw [pollConverted]
    revert hpoll
    obtain ⟨answer, w'⟩ := feed.poll m w
    rintro ⟨hgood, hanswer⟩
    cases answer with
    | pending => exact ⟨hgood, trivial⟩
    | ended => exact ⟨hgood, trivial⟩
    | chunk chunk =>
      have hresult : Outcome permitted (fun _ => True) (chunk.bind f) :=
        Outcome.bind hanswer fun a _ _ => hf a
      dsimp only
      cases hmade : chunk.bind f with
      | ok b => exact ⟨hgood, trivial⟩
      | error e =>
        rw [hmade] at hresult
        exact ⟨hgood, hresult⟩

theorem pollLanes {ι S : Type} [HoldsNothing S] {lane : ι → Feed (S × W) α} (m : Moment)
    (places : List Nat) {lanes : List (ι × S)}
    (h : ∀ entry ∈ lanes, (lane entry.1).Permits (fun p => good p.2) permitted)
    {w : W} (hw : good w) :
    good (Feed.pollLanes lane m places lanes w).2.2 ∧
      (Feed.pollLanes lane m places lanes w).1.Within permitted := by
  induction places generalizing lanes w with
  | nil =>
    rw [Feed.pollLanes]
    refine ⟨hw, ?_⟩
    split <;> trivial
  | cons place places ih =>
    rw [Feed.pollLanes]
    split
    · exact ⟨hw, trivial⟩
    next i s rest htake =>
      obtain ⟨before, after, rfl, rfl⟩ := takeAt_eq_some htake
      have hrest : ∀ entry ∈ before ++ after,
          (lane entry.1).Permits (fun p => good p.2) permitted :=
        fun entry hentry => h entry (by simp at hentry ⊢; tauto)
      have hlane : (lane i).Permits (fun p => good p.2) permitted := h (i, s) (by simp)
      have hpoll := hlane m (s, w) hw
      revert hpoll
      obtain ⟨answer, s', w'⟩ := (lane i).poll m (s, w)
      rintro ⟨hw', hanswer⟩
      cases answer with
      | chunk c => exact ⟨hw', hanswer⟩
      | ended => exact ih hrest hw'
      | pending =>
        refine ih (fun entry hentry => ?_) hw'
        rcases List.mem_append.1 hentry with hentry | hentry
        · exact hrest entry hentry
        · rwa [List.mem_singleton.1 hentry]

theorem select {ι S : Type} [HoldsNothing S] (key : String) (lane : ι → Feed (S × W) α) :
    (Feed.select key lane).Permits
      (fun p => (∀ entry ∈ p.1.waiting, (lane entry.1).Permits (fun q => good q.2) permitted) ∧
        good p.2) permitted := by
  rintro m ⟨⟨waiting⟩, w⟩ ⟨hlanes, hw⟩
  obtain ⟨hgood, hanswer⟩ := pollLanes m (m.picks key waiting.length) hlanes hw
  refine ⟨⟨fun entry hentry => ?_, hgood⟩, hanswer⟩
  obtain ⟨old, hold, heq⟩ := mem_of_mem_pollLanes entry hentry
  exact heq ▸ hlanes old hold

theorem transduce (h : feed.Permits good permitted) (key : String) {t : Transducer α β}
    (ht : t.Keeps permitted) :
    (feed.transduce key t).Permits (fun p => p.1.Within permitted ∧ good p.2) permitted := by
  rintro m ⟨state, w⟩ ⟨hstate, hw⟩
  show ((pollReacting key t feed m state w).2.1.Within permitted ∧
      good (pollReacting key t feed m state w).2.2) ∧
    (pollReacting key t feed m state w).1.Within permitted
  fun_induction pollReacting key t feed m state w with
  | case1 => exact ⟨⟨hstate, hw⟩, trivial⟩
  | case2 state w _ c rest hready =>
    have hrun := hstate.ready
    rw [hready] at hrun
    obtain ⟨hc, hrest⟩ := List.forall_mem_cons.1 hrun
    exact ⟨⟨⟨hstate.seen, hrest⟩, hw⟩, hc⟩
  | case3 state w _ c more rest hready =>
    have hrun := hstate.ready
    rw [hready] at hrun
    obtain ⟨hc, hrest⟩ := List.forall_mem_cons.1 hrun
    exact ⟨⟨⟨hstate.seen, List.forall_mem_cons.2 ⟨hc, hrest⟩⟩, hw⟩, hc⟩
  | case4 state w _ hready hlive w' hp =>
    have hgood := (h m w hw).1
    rw [hp] at hgood
    exact ⟨⟨⟨hstate.seen, hstate.ready⟩, hgood⟩, trivial⟩
  | case5 state w _ hready hlive w' hp hfinish =>
    have hgood := (h m w hw).1
    rw [hp] at hgood
    exact ⟨⟨⟨hstate.seen, hstate.ready⟩, hgood⟩, trivial⟩
  | case6 state w _ hready hlive w' hp c rest hfinish =>
    have hgood := (h m w hw).1
    rw [hp] at hgood
    have hlast := ht.finish state.seen hstate.seen
    rw [hfinish] at hlast
    obtain ⟨hc, hrest⟩ := List.forall_mem_cons.1 hlast
    refine ⟨⟨⟨hstate.seen, fun run hrun => ?_⟩, hgood⟩, hc⟩
    obtain ⟨chunk, hmem, rfl⟩ := List.mem_map.1 hrun
    exact hrest chunk hmem
  | case7 state w _ hready hlive chunk w' hp reaction ih =>
    obtain ⟨hgood, hchunk⟩ := h m w hw
    rw [hp] at hgood hchunk
    have hseen : ∀ c ∈ chunk :: state.seen, Chunk.Within permitted c :=
      List.forall_mem_cons.2 ⟨hchunk, hstate.seen⟩
    exact ih ⟨hseen, ht.react state.seen chunk hseen⟩ hgood
  | case8 => exact ⟨⟨hstate, hw⟩, trivial⟩

/-- A copy delivers what was delivered or waits. -/
theorem copy (h : feed.Permits good permitted) (key : String) (count index : Nat) :
    (feed.copy key count index).Permits (fun p => p.1.Within permitted ∧ good p.2) permitted := by
  rintro m ⟨fan, w⟩ ⟨hfan, hw⟩
  obtain ⟨hgood, hanswer⟩ := h m w hw
  unfold Feed.copy
  split
  · exact ⟨⟨hfan, hgood⟩, hanswer⟩
  have hpolled := FanOut.polled_poll (feed.poll m) (m.served key index) index fan w
  show ((FanOut.poll (feed.poll m) (m.served key index) index fan w).2.1.Within permitted ∧
      good (FanOut.poll (feed.poll m) (m.served key index) index fan w).2.2) ∧
    (FanOut.poll (feed.poll m) (m.served key index) index fan w).1.Within permitted
  generalize FanOut.poll (feed.poll m) (m.served key index) index fan w = r at hpolled ⊢
  have hpending : ∀ {copy : Copy α}, fan.copies[index]? = some copy →
      ∀ chunk ∈ copy.pending, Chunk.Within permitted chunk :=
    fun hcopy => hfan _ (List.mem_of_getElem? hcopy)
  cases hpolled with
  | quiet _ => exact ⟨⟨hfan, hw⟩, trivial⟩
  | unserved hcopy _ _ =>
    have hold := hpending hcopy
    exact ⟨⟨hfan.set fan.flowing index hold, hw⟩, trivial⟩
  | waiting hcopy _ _ hqueue =>
    have hwaiting := hpending hcopy
    rw [hqueue] at hwaiting
    obtain ⟨hc, hrest⟩ := List.forall_mem_cons.1 hwaiting
    exact ⟨⟨hfan.set fan.flowing index (FanOut.within_delivered hrest), hw⟩, hc⟩
  | @shared _ c _ _ _ _ _ _ hsource =>
    rw [hsource] at hgood hanswer
    exact ⟨⟨(hfan.offer hanswer (!c.isError)).set (!c.isError) index
      (FanOut.within_delivered nofun), hgood⟩, hanswer⟩
  | delayed hcopy _ _ _ _ hsource =>
    rw [hsource] at hgood
    have hold := hpending hcopy
    exact ⟨⟨hfan.set fan.flowing index hold, hgood⟩, trivial⟩
  | ended _ _ _ _ _ hsource =>
    rw [hsource] at hgood
    exact ⟨⟨hfan.set false index nofun, hgood⟩, trivial⟩
  | exhausted _ _ _ _ _ => exact ⟨⟨hfan.set false index nofun, hw⟩, trivial⟩

end Feed.Permits

/-! ## Networks -/

/-- What can go wrong when values are read, guarded and put together is permitted. -/
def RunsPermitted (permitted : Error → Prop) : Prop :=
  ∀ e : Error, e.kind = .access ∨ e.kind = .runtimeType ∨ e.kind = .internal → permitted e

theorem Wire.permits_feed (wire : Wire) {outputs : Feed W Value}
    (h : outputs.Permits good permitted) (hruns : RunsPermitted permitted) :
    (wire.feed outputs).Permits (fun p => good p.2) permitted :=
  ((h.convert fun output => (outcome_extract wire.mappings output).imp
      (fun e he => hruns e (.inl he)) fun _ => id).convert fun fields =>
    (wire.outcome_guarded fields).imp (fun e he => hruns e (.inr (.inl he))) fun _ => id).regroup

namespace Network

/-- The streams of the network deliver permitted errors. -/
def Permits (permitted : Error → Prop) (network : Network) : Prop :=
  ∃ good : network.World → Prop, good network.world ∧
    ∀ p ∈ network.pending, p.2.Permits good permitted

variable {network : Network} {good : network.World → Prop}

theorem permits_ofInput (circuit : Circuit) {chunks : List (Chunk Value)}
    (hchunks : ∀ chunk ∈ chunks, Chunk.Within permitted chunk) (hruns : RunsPermitted permitted) :
    (ofInput circuit chunks).Permits permitted := by
  have hguarded : (Tape.feed.convert circuit.inputGuard.check).Permits
      (fun p => ∀ chunk ∈ p.2.left, Chunk.Within permitted chunk) permitted :=
    Tape.permits_feed.convert fun value => (circuit.inputGuard.outcome_check value).imp
      (fun e he => hruns e (.inr (.inl he))) fun _ => id
  refine ⟨fun w => w.1.Within permitted ∧ ∀ chunk ∈ w.2.2.left, Chunk.Within permitted chunk,
    ⟨FanOut.within_fresh _, hchunks⟩, fun p hp => ?_⟩
  obtain ⟨index, _, hcopy⟩ := mem_distribute.1 hp
  rw [hcopy]
  exact hguarded.copy _ _ index

/-- The lanes of a station deliver permitted errors when the streams of its wires do. -/
theorem permits_of_lanes (h : ∀ p ∈ network.pending, p.2.Permits good permitted)
    (hruns : RunsPermitted permitted) {wires : List Wire}
    {lanes : Lanes (LaneFeed network.World) (Tap × Tap)}
    (hlanes : network.lanes wires = .ok lanes) :
    ∀ entry ∈ lanes.waiting, entry.1.Permits (fun q => good q.2) permitted := by
  intro entry hentry
  obtain ⟨wire, _, p, hp, heq⟩ := exists_feed_of_lanes hlanes entry hentry
  rw [heq]
  exact wire.permits_feed (h p hp) hruns

/-- Contributions that come one by one are never merged. -/
theorem permits_inputs (station : Station) (good : network.World → Prop)
    (hruns : RunsPermitted permitted) :
    (inputs (W := network.World) station).Permits
      (fun p => (∀ entry ∈ p.2.1.waiting, entry.1.Permits (fun q => good q.2) permitted) ∧
        good p.2.2) permitted :=
  (Feed.Permits.select station.key id).convert fun fields =>
    (station.assembler.outcome_of_single (single_gather_singleton fields)).imp
      (fun e he => hruns e (.inr (.inr he))) fun _ => id

/-- A station whose transducer keeps to permitted errors joins the network. -/
theorem Permits.attach (h : network.Permits permitted) (hruns : RunsPermitted permitted)
    {circuit : Circuit} {station : Station} {node : Node} (hnode : node.transducer.Keeps permitted)
    {wires : List Wire} {lanes : Lanes (LaneFeed network.World) (Tap × Tap)}
    (hlanes : network.lanes wires = .ok lanes) :
    (network.attach circuit station node lanes).Permits permitted := by
  obtain ⟨good, hgood, hpending⟩ := h
  refine ⟨fun p => p.1.Within permitted ∧ p.2.1.Within permitted ∧
    (∀ entry ∈ p.2.2.2.1.waiting, entry.1.Permits (fun q => good q.2) permitted) ∧ good p.2.2.2.2,
    ⟨FanOut.within_fresh _, ⟨nofun, nofun⟩, permits_of_lanes hpending hruns hlanes, hgood⟩,
    fun p hp => ?_⟩
  rcases List.mem_append.1 hp with hp | hp
  · obtain ⟨q, hq, rfl⟩ := List.mem_map.1 hp
    rintro m w ⟨hfan, hreacting, hlanes, hw⟩
    obtain ⟨hw', hanswer⟩ := hpending q (List.mem_filter.1 hq).1 m w.2.2.2.2 hw
    exact ⟨⟨hfan, hreacting, hlanes, hw'⟩, hanswer⟩
  · obtain ⟨index, _, hcopy⟩ := mem_distribute.1 hp
    rw [hcopy]
    exact ((permits_inputs station good hruns).transduce _ hnode).copy _ _ index

end Network

/-! ## Runs on a stream -/

/-- What is drained from a stream, or comes out at any moments, is what its feed
permits. -/
theorem Stream.within_drain (stream : Stream α) {good : stream.World → Prop}
    (h : stream.feed.Permits good permitted) (hgood : good stream.world) :
    (∀ chunk ∈ stream.drain, Chunk.Within permitted chunk) ∧
      ∀ moments, ∀ chunk ∈ stream.received moments, Chunk.Within permitted chunk := by
  have hlist : ∀ limit w, good w → ∀ entry ∈ (listFrom stream.feed stream.taken limit w).chunks,
      Chunk.Within permitted entry.1 := by
    intro limit w hw
    fun_induction listFrom stream.feed stream.taken limit w with
    | case1 => exact fun _ hentry => nomatch hentry
    | case2 => exact fun _ hentry => nomatch hentry
    | case3 => exact fun _ hentry => nomatch hentry
    | case4 limit w hlimit chunk w' hp rest =>
      rename_i ih
      obtain ⟨hgood, hchunk⟩ := h .calm w hw
      rw [hp] at hgood hchunk
      exact List.forall_mem_cons.2 ⟨hchunk, ih hgood⟩
  have hpolled : ∀ moments w, good w → ∀ answer ∈ (polled stream.feed.poll moments w).1,
      answer.Within permitted := by
    intro moments
    induction moments with
    | nil => exact fun _ _ _ hanswer => nomatch hanswer
    | cons m moments ih =>
      intro w hw
      obtain ⟨hgood, hfirst⟩ := h m w hw
      exact List.forall_mem_cons.2 ⟨hfirst, ih _ hgood⟩
  refine ⟨fun chunk hchunk => ?_, fun moments chunk hchunk => ?_⟩
  · obtain ⟨entry, hentry, rfl⟩ := List.mem_map.1 hchunk
    exact hlist none stream.world hgood entry hentry
  · obtain ⟨answer, hanswer, hchunk⟩ := List.mem_flatMap.1 hchunk
    have hwithin := hpolled moments stream.world hgood answer hanswer
    cases answer with
    | chunk c => rwa [List.mem_singleton.1 hchunk]
    | ended => exact nomatch hchunk
    | pending => exact nomatch hchunk

namespace Graph

variable {graph : Graph} {options : CompileOptions} {circuit : Circuit}

/-- A stream that leaves a circuit has no other errors than those that were given with
the input, that the nodes make and that come up while values are read, guarded and put
together. -/
theorem Compiled.within_transform (h : graph.Compiled options circuit)
    (hruns : RunsPermitted permitted)
    (hnodes : ∀ entry ∈ graph.nodes, entry.2.transducer.Keeps permitted)
    {chunks : List (Chunk Value)} (hchunks : ∀ chunk ∈ chunks, Chunk.Within permitted chunk) :
    ∃ stream, circuit.transform chunks = .ok stream ∧
      (∀ chunk ∈ stream.drain, Chunk.Within permitted chunk) ∧
      ∀ moments, ∀ chunk ∈ stream.received moments, Chunk.Within permitted chunk := by
  refine h.exists_stream_of_kept (Network.Permits permitted) _
    (Network.permits_ofInput circuit hchunks hruns) ?_ ?_
  · intro network station node lanes hnode hpermits hlanes
    exact hpermits.attach hruns (hnodes _ hnode) hlanes
  · rintro network station lanes ⟨good, hgood, hpending⟩ hlanes
    exact (network.result station lanes).within_drain (Network.permits_inputs station good hruns)
      ⟨Network.permits_of_lanes hpending hruns hlanes, hgood⟩

end Graph

end Dataflow
