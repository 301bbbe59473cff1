import Dataflow.Proofs.Copies
import Dataflow.Proofs.Networks
import Dataflow.Proofs.Polls

/-!
# Carried streams

A network carries a stream for every wire that waits.  All of them are polled in one
world, so they are described together: `Describes` says that a poll of one stream adds to
what it has delivered, and nothing to what the others have.  A station takes the streams
of its wires, and what it makes of them is carried on by the wires that leave it.

What a stream delivers is not determined, because merges may poll their lanes in any
order.  `carried` says for each station what all that it sends out may be.

* `delivers_inputs`: the inputs that a station makes.
* `Network.carries_ofInput`, `Network.carries_attach`: what a network carries at first,
  and with one more station.
-/

namespace Dataflow

/-- The chunks that were delivered for everything that a wire can connect. -/
abbrev Streams := String × String → List (Chunk Value)

/-- A relation between what was delivered for the wires that wait and the world, which
polls keep.  For each wire the stream is one that its source may send out. -/
structure Describes {W : Type} [Ranked W] (pending : List (Wire × Feed W Value))
    (taken : W → Nat) (total : Nat) (carried : String → List (Chunk Value) → Prop)
    (soFar : Streams → W → Prop) : Prop where
  poll : ∀ p ∈ pending, ∀ {m streams w}, soFar streams w →
    Goes (fun got w => soFar (Function.update streams p.1.ends got) w) (carried p.1.source) m
      (streams p.1.ends) (p.2.poll m w)
  paced : ∀ p ∈ pending, ∀ {m streams w}, soFar streams w →
    Paced taken total m (streams p.1.ends).length w (p.2.poll m w)
  begins : ∀ p ∈ pending, ∀ {streams w}, soFar streams w →
    ∃ full, carried p.1.source full ∧ streams p.1.ends <+: full

/-- Nothing was taken off the input yet, and for each wire that waits the network delivers
a stream that its source may send out. -/
def Network.Carries (network : Network) (total : Nat)
    (carried : String → List (Chunk Value) → Prop) : Prop :=
  network.taken network.world = 0 ∧
    ∃ soFar, Describes network.pending network.taken total carried soFar ∧
      soFar (fun _ => []) network.world

variable {W : Type} [Ranked W] {pending : List (Wire × Feed W Value)} {taken : W → Nat}
  {total : Nat} {carried : String → List (Chunk Value) → Prop} {soFar : Streams → W → Prop}

theorem Describes.append {pending' : List (Wire × Feed W Value)}
    (h : Describes pending taken total carried soFar)
    (h' : Describes pending' taken total carried soFar) :
    Describes (pending ++ pending') taken total carried soFar where
  poll p hp _ _ _ hw := (List.mem_append.1 hp).elim (h.poll p · hw) (h'.poll p · hw)
  paced p hp _ _ _ hw := (List.mem_append.1 hp).elim (h.paced p · hw) (h'.paced p · hw)
  begins p hp _ _ hw := (List.mem_append.1 hp).elim (h.begins p · hw) (h'.begins p · hw)

/-- One stream by itself, while the others stay what they are. -/
theorem Describes.delivers (h : Describes pending taken total carried soFar) {p : Wire × Feed W Value}
    (hp : p ∈ pending) (streams : Streams) :
    Delivers p.2 taken total (fun got w => soFar (Function.update streams p.1.ends got) w)
      (carried p.1.source) where
  poll hw := by
    simpa only [Function.update_self, Function.update_idem] using h.poll p hp hw
  paced hw := by
    simpa only [Function.update_self] using h.paced p hp hw
  begins hw := by
    simpa only [Function.update_self] using h.begins p hp hw

/-! ## Lanes -/

/-- A lane of a station: the stream of a wire, and how far its taps are open. -/
structure Lane (W : Type) [Ranked W] where
  wire : Wire
  outputs : Feed W Value
  taps : Tap × Tap

/-- A lane as it waits in a merge. -/
def Lane.entry (lane : Lane W) : Network.LaneFeed W × (Tap × Tap) :=
  (lane.wire.feed lane.outputs, lane.taps)

namespace Wire

/-- What came through the taps of a lane, of the chunks that were given. -/
def Through (wire : Wire) (whole : List (Chunk Value) → Prop) (taps : Tap × Tap)
    (given : List (Chunk Value)) (got : List (Chunk Fields)) : Prop :=
  ∃ middle, taps.2.Through (Mapping.extract wire.mappings) whole given middle ∧
    taps.1.Through wire.guarded (MadeBy (Mapping.extract wire.mappings) whole) middle got

theorem Through.got_eq {wire : Wire} {whole : List (Chunk Value) → Prop} {taps : Tap × Tap}
    {given : List (Chunk Value)} {got : List (Chunk Fields)}
    (h : wire.Through whole taps given got) : got = upTo wire.apply given := by
  obtain ⟨middle, hmiddle, hgot⟩ := h
  rw [hgot.got_eq, hmiddle.got_eq]
  exact upTo_upTo _ _ given

theorem through_opened (wire : Wire) (whole : List (Chunk Value) → Prop) :
    wire.Through whole (.opened, .opened) [] [] :=
  ⟨[], Tap.through_opened _ _, Tap.through_opened _ _⟩

theorem madeBy_apply {wire : Wire} {whole : List (Chunk Value) → Prop} {got : List (Chunk Fields)}
    (h : MadeBy wire.guarded (MadeBy (Mapping.extract wire.mappings) whole) got) :
    MadeBy wire.apply whole got := by
  obtain ⟨_, ⟨given, hgiven, rfl⟩, rfl⟩ := h
  exact ⟨given, hgiven, upTo_upTo _ _ given⟩

theorem delivers_feed (wire : Wire) {outputs : Feed W Value}
    {soFar : List (Chunk Value) → W → Prop} {whole : List (Chunk Value) → Prop}
    (h : Delivers outputs taken total soFar whole) :
    Delivers (wire.feed outputs) (fun p => taken p.2) total
      (fun got p => ∃ given, soFar given p.2 ∧ wire.Through whole p.1 given got)
      (MadeBy wire.apply whole) := by
  refine ((h.convert (Mapping.extract wire.mappings)).convert wire.guarded).regroup.congr
    (fun got p => ⟨?_, ?_⟩) fun _ => madeBy_apply
  · rintro ⟨middle, ⟨given, hgiven, hmiddle⟩, hgot⟩
    exact ⟨given, hgiven, middle, hmiddle, hgot⟩
  · rintro ⟨given, hgiven, middle, hmiddle, hgot⟩
    exact ⟨middle, ⟨given, hgiven, hmiddle⟩, hgot⟩

end Wire

/-- What the merged lanes of some wires may be when each carries a stream that its source
may send out. -/
def Merged (carried : String → List (Chunk Value) → Prop) (wires : List Wire)
    (merged : List (Chunk Fields)) : Prop :=
  ∃ streams : Wire → List (Chunk Value), (∀ wire ∈ wires, carried wire.source (streams wire)) ∧
    Interleaves (wires.map fun wire => upTo wire.apply (streams wire)) merged

/-- Lanes that wait and wires whose lanes have ended, and an interleaving of what came
through all of them. -/
structure LanesAt (pending : List (Wire × Feed W Value))
    (carried : String → List (Chunk Value) → Prop) (wires : List Wire) (streams : Streams)
    (lanes : List (Lane W)) (spent : List Wire) (merged : List (Chunk Fields)) : Prop where
  perm : (lanes.map (·.wire) ++ spent).Perm wires
  waits : ∀ lane ∈ lanes, (∃ p ∈ pending, p.1.ends = lane.wire.ends ∧ p.2 = lane.outputs) ∧
    lane.wire.Through (carried lane.wire.source) lane.taps (streams lane.wire.ends)
      (upTo lane.wire.apply (streams lane.wire.ends))
  ended : ∀ wire ∈ spent, MadeBy wire.apply (carried wire.source) (upTo wire.apply (streams wire.ends))
  interleaves : Interleaves ((lanes.map (·.wire) ++ spent).map fun wire =>
    upTo wire.apply (streams wire.ends)) merged

namespace LanesAt

variable {wires : List Wire} {streams : Streams} {lane : Lane W} {lanes others : List (Lane W)}
  {spent : List Wire} {merged merged' : List (Chunk Fields)} {given : List (Chunk Value)}

theorem reorder (h : LanesAt pending carried wires streams lanes spent merged)
    (hperm : lanes.Perm others) : LanesAt pending carried wires streams others spent merged where
  perm := ((hperm.map _).append_right spent).symm.trans h.perm
  waits other hother := h.waits other (hperm.mem_iff.2 hother)
  ended := h.ended
  interleaves := h.interleaves.perm (((hperm.map _).append_right spent).map _)

/-- No two lanes have the same ends, so what one of them delivers changes nothing for the
others. -/
theorem update_others (h : LanesAt pending carried wires streams (lane :: others) spent merged)
    (hends : (wires.map Wire.ends).Nodup) (given : List (Chunk Value)) {wire : Wire}
    (hwire : wire ∈ others.map (·.wire) ++ spent) :
    Function.update streams lane.wire.ends given wire.ends = streams wire.ends := by
  have hnodup := ((h.perm.map Wire.ends).nodup_iff).2 hends
  rw [List.map_cons, List.cons_append, List.map_cons, List.nodup_cons] at hnodup
  refine Function.update_of_ne (fun heq => hnodup.1 ?_) _ _
  rw [← heq]
  exact List.mem_map_of_mem hwire

theorem map_update (h : LanesAt pending carried wires streams (lane :: others) spent merged)
    (hends : (wires.map Wire.ends).Nodup) (given : List (Chunk Value)) :
    (others.map (·.wire) ++ spent).map (fun wire =>
        upTo wire.apply (Function.update streams lane.wire.ends given wire.ends)) =
      (others.map (·.wire) ++ spent).map fun wire => upTo wire.apply (streams wire.ends) :=
  List.map_congr_left fun _ hwire => by rw [h.update_others hends given hwire]

/-- The lane in front was polled and goes on. -/
theorem update (h : LanesAt pending carried wires streams (lane :: others) spent merged)
    (hends : (wires.map Wire.ends).Nodup) {taps : Tap × Tap}
    (hthrough : lane.wire.Through (carried lane.wire.source) taps given
      (upTo lane.wire.apply given))
    (hmerged : Interleaves (upTo lane.wire.apply given :: (others.map (·.wire) ++ spent).map
      fun wire => upTo wire.apply (streams wire.ends)) merged') :
    LanesAt pending carried wires (Function.update streams lane.wire.ends given)
      ({ lane with taps } :: others) spent merged' where
  perm := h.perm
  waits := by
    refine List.forall_mem_cons.2 ⟨⟨(h.waits lane List.mem_cons_self).1, ?_⟩, fun other hother => ?_⟩
    · rwa [Function.update_self]
    · rw [h.update_others hends given (List.mem_append_left _ (List.mem_map_of_mem hother))]
      exact h.waits other (List.mem_cons_of_mem _ hother)
  ended wire hwire := by
    rw [h.update_others hends given (List.mem_append_right _ hwire)]
    exact h.ended wire hwire
  interleaves := by
    rw [List.map_cons, List.cons_append, List.map_cons, h.map_update hends given,
      Function.update_self]
    exact hmerged

/-- The lane in front has ended. -/
theorem finish (h : LanesAt pending carried wires streams (lane :: others) spent merged)
    (hmade : MadeBy lane.wire.apply (carried lane.wire.source)
      (upTo lane.wire.apply (streams lane.wire.ends))) :
    LanesAt pending carried wires streams others (lane.wire :: spent) merged where
  perm := List.perm_middle.trans h.perm
  waits other hother := h.waits other (List.mem_cons_of_mem _ hother)
  ended := List.forall_mem_cons.2 ⟨hmade, h.ended⟩
  interleaves := h.interleaves.perm (List.perm_middle.symm.map _)

/-- Only the streams of these wires matter. -/
theorem congr {streams' : Streams} (h : LanesAt pending carried wires streams lanes spent merged)
    (hsame : ∀ wire ∈ wires, streams' wire.ends = streams wire.ends) :
    LanesAt pending carried wires streams' lanes spent merged where
  perm := h.perm
  waits lane hlane := by
    rw [hsame lane.wire (h.perm.mem_iff.1 (List.mem_append_left _ (List.mem_map_of_mem hlane)))]
    exact h.waits lane hlane
  ended wire hwire := by
    rw [hsame wire (h.perm.mem_iff.1 (List.mem_append_right _ hwire))]
    exact h.ended wire hwire
  interleaves := by
    rw [List.map_congr_left fun wire hwire => by rw [hsame wire (h.perm.mem_iff.1 hwire)]]
    exact h.interleaves

end LanesAt

/-- What was merged of the lanes of a station, while what the streams of the wires into
other stations have delivered is as given. -/
def Merging (pending : List (Wire × Feed W Value)) (carried : String → List (Chunk Value) → Prop)
    (soFar : Streams → W → Prop) (key : String) (wires : List Wire) (base : Streams)
    (waiting : List (Network.LaneFeed W × (Tap × Tap))) (merged : List (Chunk Fields)) (w : W) :
    Prop :=
  ∃ streams lanes spent, soFar streams w ∧
    (∀ p ∈ pending, p.1.target ≠ key → streams p.1.ends = base p.1.ends) ∧
    waiting.Perm (lanes.map Lane.entry) ∧
    LanesAt pending carried wires streams lanes spent merged

section Merging

variable {key : String} {wires : List Wire} {base : Streams}
  {waiting : List (Network.LaneFeed W × (Tap × Tap))} {merged : List (Chunk Fields)} {w : W}

theorem Merging.done (h : Merging pending carried soFar key wires base [] merged w) :
    Merged carried wires merged := by
  obtain ⟨streams, lanes, spent, _, _, hwaiting, hlanes⟩ := h
  obtain rfl := List.map_eq_nil_iff.1 hwaiting.nil_eq.symm
  have hmade : ∀ wire ∈ wires, MadeBy wire.apply (carried wire.source)
      (upTo wire.apply (streams wire.ends)) := fun wire hwire =>
    hlanes.ended wire (hlanes.perm.mem_iff.2 hwire)
  choose! given hgiven hmade using hmade
  refine ⟨given, hgiven, ?_⟩
  rw [← List.map_congr_left hmade]
  exact hlanes.interleaves.perm (hlanes.perm.map _)

theorem Merging.begins (h : Describes pending taken total carried soFar)
    (hmerging : Merging pending carried soFar key wires base waiting merged w) :
    ∃ full, Merged carried wires full ∧ merged <+: full := by
  obtain ⟨streams, lanes, spent, hstreams, _, _, hlanes⟩ := hmerging
  have hlists : ∀ wire ∈ wires, ∃ given, carried wire.source given ∧
      upTo wire.apply (streams wire.ends) <+: upTo wire.apply given := by
    intro wire hwire
    rcases List.mem_append.1 (hlanes.perm.mem_iff.2 hwire) with hwaits | hover
    · obtain ⟨lane, hlane, rfl⟩ := List.mem_map.1 hwaits
      obtain ⟨p, hp, hends, _⟩ := (hlanes.waits lane hlane).1
      have hsource : p.1.source = lane.wire.source := congrArg Prod.fst hends
      obtain ⟨given, hgiven, hbegin⟩ := h.begins p hp hstreams
      rw [hsource] at hgiven
      exact ⟨given, hgiven, prefix_upTo (hends ▸ hbegin) _⟩
    · obtain ⟨given, hgiven, heq⟩ := hlanes.ended wire hover
      exact ⟨given, hgiven, heq ▸ List.prefix_rfl⟩
  choose! given hgiven hbegin using hlists
  have hext : List.Forall₂ (· <+: ·) (wires.map fun wire => upTo wire.apply (streams wire.ends))
      (wires.map fun wire => upTo wire.apply (given wire)) := by
    rw [List.forall₂_map_left_iff, List.forall₂_map_right_iff, List.forall₂_same]
    exact hbegin
  obtain ⟨full, hfull, hmerged⟩ :=
    (hlanes.interleaves.perm (hlanes.perm.map _)).exists_extension hext
  exact ⟨full, ⟨given, hgiven, hmerged⟩, hfull⟩

/-- The lane in front, with what its stream has delivered. -/
theorem Merging.front (h : Describes pending taken total carried soFar) {feed : Network.LaneFeed W}
    {taps : Tap × Tap} {rest : List (Network.LaneFeed W × (Tap × Tap))}
    (hmerging : Merging pending carried soFar key wires base ((feed, taps) :: rest) merged w) :
    ∃ streams lane others spent, soFar streams w ∧
      (∀ p ∈ pending, p.1.target ≠ key → streams p.1.ends = base p.1.ends) ∧
      (feed, taps) = lane.entry ∧ rest.Perm (others.map Lane.entry) ∧
      LanesAt pending carried wires streams (lane :: others) spent merged ∧
      Delivers feed (fun p => taken p.2) total
        (fun got p => ∃ given, soFar (Function.update streams lane.wire.ends given) p.2 ∧
          lane.wire.Through (carried lane.wire.source) p.1 given got)
        (MadeBy lane.wire.apply (carried lane.wire.source)) ∧
      ∃ given, soFar (Function.update streams lane.wire.ends given) w ∧
        lane.wire.Through (carried lane.wire.source) taps given
          (upTo lane.wire.apply (streams lane.wire.ends)) := by
  obtain ⟨streams, lanes, spent, hstreams, hbase, hwaiting, hlanes⟩ := hmerging
  obtain ⟨lane, hlane, hentry⟩ := List.mem_map.1 (hwaiting.mem_iff.1 List.mem_cons_self)
  obtain ⟨before, after, rfl⟩ := List.append_of_mem hlane
  have hfront := hlanes.reorder List.perm_middle
  obtain ⟨rfl, rfl⟩ := Prod.mk.inj hentry
  obtain ⟨⟨p, hp, hpends, hfeed⟩, hthrough⟩ := hfront.waits lane List.mem_cons_self
  have hsource : p.1.source = lane.wire.source := congrArg Prod.fst hpends
  have hdelivers := lane.wire.delivers_feed (hfeed ▸ h.delivers hp streams)
  rw [hpends, hsource] at hdelivers
  exact ⟨streams, lane, before ++ after, spent, hstreams, hbase, rfl,
    (hwaiting.trans (List.perm_middle.map Lane.entry)).cons_inv, hfront, hdelivers,
    streams lane.wire.ends, by rwa [Function.update_eq_self], hthrough⟩

/-- A poll of the lane in front adds to what was merged. -/
theorem goes_lane (h : Describes pending taken total carried soFar)
    (hends : (wires.map Wire.ends).Nodup) (htarget : ∀ wire ∈ wires, wire.target = key)
    {m : Moment} {feed : Network.LaneFeed W} {taps : Tap × Tap}
    {rest : List (Network.LaneFeed W × (Tap × Tap))}
    (hmerging : Merging pending carried soFar key wires base ((feed, taps) :: rest) merged w) :
    LaneGoes (Merging pending carried soFar key wires base) m feed rest merged
      (feed.poll m (taps, w)) := by
  obtain ⟨streams, lane, others, spent, _, hbase, hentry, hrest, hfront, hdelivers, hgiven⟩ :=
    hmerging.front h
  obtain ⟨rfl, rfl⟩ := Prod.mk.inj hentry
  have hpoll := hdelivers.poll (m := m) (w := (lane.taps, w)) hgiven
  have hlanewire : lane.wire ∈ wires := hfront.perm.mem_iff.1 (by simp)
  -- what the streams of other stations have delivered stays the same
  have hothers : ∀ given, ∀ q ∈ pending, q.1.target ≠ key →
      Function.update streams lane.wire.ends given q.1.ends = base q.1.ends := by
    intro given q hq hne
    rw [Function.update_of_ne, hbase q hq hne]
    intro heq
    exact hne ((congrArg Prod.snd heq).trans (htarget _ hlanewire))
  have hmerged := hfront.interleaves
  rw [List.map_cons, List.cons_append, List.map_cons] at hmerged
  revert hpoll
  obtain ⟨answer, taps', w'⟩ := (lane.wire.feed lane.outputs).poll m (lane.taps, w)
  intro hpoll
  cases answer with
  | chunk c =>
    obtain ⟨given, hgiven, hthrough⟩ := hpoll
    refine ⟨_, { lane with taps := taps' } :: others, spent, hgiven, hothers given,
      hrest.cons _, hfront.update hends (hthrough.got_eq ▸ hthrough) ?_⟩
    rw [← hthrough.got_eq]
    exact hmerged.cons_concat c
  | ended =>
    obtain ⟨hmade, given, hgiven, hthrough⟩ := hpoll
    have hgot := hthrough.got_eq
    refine ⟨_, others, lane.wire :: spent, hgiven, hothers given, hrest, ?_⟩
    have hthrough : lane.wire.Through (carried lane.wire.source) taps' given
        (upTo lane.wire.apply given) := hgot ▸ hthrough
    refine (hfront.update hends hthrough (hgot ▸ hmerged)).finish ?_
    rw [Function.update_self, ← hgot]
    exact hmade
  | pending =>
    obtain ⟨hprompt, given, hgiven, hthrough⟩ := hpoll
    have hgot := hthrough.got_eq
    exact ⟨hprompt, _, { lane with taps := taps' } :: others, spent, hgiven,
      hothers given, hrest.cons _, hfront.update hends (hgot ▸ hthrough) (hgot ▸ hmerged)⟩

/-- What came through one lane is no more than what was merged. -/
theorem paced_lane (h : Describes pending taken total carried soFar) {m : Moment}
    {feed : Network.LaneFeed W} {taps : Tap × Tap}
    {rest : List (Network.LaneFeed W × (Tap × Tap))}
    (hmerging : Merging pending carried soFar key wires base ((feed, taps) :: rest) merged w) :
    Paced (fun p => taken p.2) total m merged.length (taps, w) (feed.poll m (taps, w)) := by
  obtain ⟨streams, lane, others, spent, _, _, _, _, hfront, hdelivers, hgiven⟩ := hmerging.front h
  have hlength : (upTo lane.wire.apply (streams lane.wire.ends)).length ≤ merged.length := by
    rw [hfront.interleaves.perm_flatten.length_eq]
    simp
  exact (hdelivers.paced (w := (taps, w)) hgiven).map hlength rfl rfl id

theorem merges_lanes (h : Describes pending taken total carried soFar)
    (hends : (wires.map Wire.ends).Nodup) (htarget : ∀ wire ∈ wires, wire.target = key) :
    Merges id taken total (Merging pending carried soFar key wires base)
      (Merged carried wires) where
  perm hperm := by
    rintro ⟨streams, lanes, spent, hstreams, hbase, hwaiting, hlanes⟩
    exact ⟨streams, lanes, spent, hstreams, hbase, hperm.symm.trans hwaiting, hlanes⟩
  poll := goes_lane h hends htarget
  paced := paced_lane h
  whole_of_nil := Merging.done
  begins := Merging.begins h

/-- A poll of the stream of a wire into another station leaves what was merged. -/
theorem Merging.poll_other (h : Describes pending taken total carried soFar)
    (hmerging : Merging pending carried soFar key wires base waiting merged w)
    (htarget : ∀ wire ∈ wires, wire.target = key) {q : Wire × Feed W Value} (hq : q ∈ pending)
    (hne : q.1.target ≠ key) (m : Moment) :
    Goes (fun got w => Merging pending carried soFar key wires
        (Function.update base q.1.ends got) waiting merged w) (carried q.1.source) m
      (base q.1.ends) (q.2.poll m w) := by
  obtain ⟨streams, lanes, spent, hstreams, hbase, hwaiting, hlanes⟩ := hmerging
  have hpoll := h.poll q hq (m := m) hstreams
  rw [hbase q hq hne] at hpoll
  refine hpoll.imp (fun got hgot => ⟨_, lanes, spent, hgot, fun p hp hpne => ?_, hwaiting, ?_⟩) id
  · by_cases heq : p.1.ends = q.1.ends
    · rw [heq, Function.update_self, Function.update_self]
    · rw [Function.update_of_ne heq, Function.update_of_ne heq, hbase p hp hpne]
  · have hsame : ∀ wire ∈ wires,
        Function.update streams q.1.ends got wire.ends = streams wire.ends := fun wire hwire =>
      Function.update_of_ne (fun heq => hne ((congrArg Prod.snd heq).symm.trans
        (htarget wire hwire))) _ _
    exact hlanes.congr hsame

/-- Only the streams of wires into other stations matter. -/
theorem Merging.rebase {base' : Streams}
    (h : Merging pending carried soFar key wires base waiting merged w)
    (hbase : ∀ q ∈ pending, q.1.target ≠ key → base q.1.ends = base' q.1.ends) :
    Merging pending carried soFar key wires base' waiting merged w := by
  obtain ⟨streams, lanes, spent, hstreams, hsame, hrest⟩ := h
  exact ⟨streams, lanes, spent, hstreams,
    fun q hq hne => (hsame q hq hne).trans (hbase q hq hne), hrest⟩

/-- The lanes of a station that has just taken its streams. -/
theorem merging_opened {feeds : List (Network.LaneFeed W)}
    (hfeeds : List.Forall₂ (fun (wire : Wire) feed => ∃ p ∈ pending,
      p.1.ends = wire.ends ∧ feed = wire.feed p.2) wires feeds)
    (hw : soFar (fun _ => []) w) :
    Merging pending carried soFar key wires (fun _ => [])
      (feeds.map fun feed => (feed, (.opened, .opened))) [] w := by
  have hlanes : ∃ lanes : List (Lane W), lanes.map (·.wire) = wires ∧
      feeds.map (fun feed => (feed, (Tap.opened, Tap.opened))) = lanes.map Lane.entry ∧
      ∀ lane ∈ lanes, lane.taps = (.opened, .opened) ∧
        ∃ p ∈ pending, p.1.ends = lane.wire.ends ∧ p.2 = lane.outputs := by
    induction hfeeds with
    | nil => exact ⟨[], rfl, rfl, nofun⟩
    | @cons wire _ _ _ hfirst _ ih =>
      obtain ⟨p, hp, hpends, rfl⟩ := hfirst
      obtain ⟨lanes, rfl, hentries, hlanes⟩ := ih
      refine ⟨⟨wire, p.2, .opened, .opened⟩ :: lanes, rfl, ?_, ?_⟩
      · rw [List.map_cons, List.map_cons, hentries]
        rfl
      · exact List.forall_mem_cons.2 ⟨⟨rfl, p, hp, hpends, rfl⟩, hlanes⟩
  obtain ⟨lanes, rfl, hentries, hlanes⟩ := hlanes
  refine ⟨_, lanes, [], hw, fun _ _ _ => rfl, .of_eq hentries, ?_⟩
  exact {
    perm := .of_eq (List.append_nil _)
    waits := fun lane hlane => by
      obtain ⟨htaps, hp⟩ := hlanes lane hlane
      exact ⟨hp, htaps ▸ lane.wire.through_opened _⟩
    ended := nofun
    interleaves := .nil fun list hlist => by
      obtain ⟨wire, _, rfl⟩ := List.mem_map.1 hlist
      rfl }

end Merging

/-! ## Inputs and outputs -/

/-- The inputs that a station has made, while what the streams of the wires into other
stations have delivered is as given. -/
def InputsSoFar (pending : List (Wire × Feed W Value))
    (carried : String → List (Chunk Value) → Prop) (soFar : Streams → W → Prop)
    (station : Station) (wires : List Wire) (base : Streams) (got : List (Chunk Value))
    (p : Network.InputWorld W) : Prop :=
  ∃ merged,
    Merging pending carried soFar station.key wires base p.2.1.waiting merged p.2.2 ∧
      p.1.Through station.assembler.assembleOne (Merged carried wires) merged got

/-- The outputs that a station that works chunk by chunk has made. -/
def OutputsSoFar (pending : List (Wire × Feed W Value))
    (carried : String → List (Chunk Value) → Prop) (soFar : Streams → W → Prop)
    (station : Station) (run : Value → Except Error Value) (wires : List Wire) (base : Streams)
    (got : List (Chunk Value)) (p : Reacting Value Value × Network.InputWorld W) : Prop :=
  ∃ given held, InputsSoFar pending carried soFar station wires base given p.2 ∧
    p.1.Behind run (MadeBy station.assembler.assembleOne (Merged carried wires)) given got held

section Inputs

variable {station : Station} {wires : List Wire} {base : Streams} {got : List (Chunk Value)}

theorem delivers_inputs (h : Describes pending taken total carried soFar)
    (hends : (wires.map Wire.ends).Nodup) (htarget : ∀ wire ∈ wires, wire.target = station.key)
    (base : Streams) :
    Delivers (Network.inputs (W := W) station) (fun p => taken p.2.2) total
      (InputsSoFar pending carried soFar station wires base)
      (MadeBy station.assembler.assembleOne (Merged carried wires)) :=
  ((merges_lanes h hends htarget).delivers_select station.key).convert
      station.assembler.assembleOne

theorem inputsSoFar_opened {feeds : List (Network.LaneFeed W)}
    (hfeeds : List.Forall₂ (fun (wire : Wire) feed => ∃ p ∈ pending,
      p.1.ends = wire.ends ∧ feed = wire.feed p.2) wires feeds) {w : W}
    (hw : soFar (fun _ => []) w) :
    InputsSoFar pending carried soFar station wires (fun _ => []) []
      (.opened, ⟨feeds.map fun feed => (feed, (.opened, .opened))⟩, w) :=
  ⟨[], merging_opened hfeeds hw, Tap.through_opened _ _⟩

end Inputs

/-- The streams of some wires are copies of one source. -/
def Distributed (source : Streams → List (Chunk Value) → W → Prop)
    (whole : List (Chunk Value) → Prop) (wires : List Wire) (streams : Streams)
    (p : FanOut Value × W) : Prop :=
  ∃ received, Shares (source streams) whole wires.length received p ∧
    ∀ index wire, wires[index]? = some wire → streams wire.ends = received index

theorem describes_distribute {key : String} {outputs : Feed W Value}
    {source : Streams → List (Chunk Value) → W → Prop} {wires : List Wire}
    (hsource : ∀ streams, Delivers outputs taken total (source streams) (carried key))
    (hcut : ∀ full, carried key full → cut full = full)
    (hfrom : ∀ wire ∈ wires, wire.source = key)
    (hown : ∀ wire ∈ wires, ∀ streams chunks got w, source streams got w →
      source (Function.update streams wire.ends chunks) got w)
    (hends : (wires.map Wire.ends).Nodup) :
    Describes (Network.distribute key outputs wires) (fun p => taken p.2) total carried
      (Distributed source (carried key) wires) where
  poll := by
    rintro p hp m streams q ⟨received, hshares, hreceived⟩
    obtain ⟨index, hindex, hcopy⟩ := Network.mem_distribute.1 hp
    obtain ⟨hlt, _⟩ := List.getElem?_eq_some_iff.1 hindex
    have hwire := List.mem_of_getElem? hindex
    rw [hcopy, hreceived index p.1 hindex, hfrom p.1 hwire]
    refine (goes_copy (hsource streams) hcut hlt hshares key m).imp (fun got hgot => ?_) id
    obtain ⟨given, hgiven, hfan⟩ := hgot
    refine ⟨_, ⟨given, hown p.1 hwire _ _ _ _ hgiven, hfan⟩, fun other wire hother => ?_⟩
    by_cases heq : other = index
    · subst heq
      obtain rfl := Option.some.inj (hindex.symm.trans hother)
      rw [Function.update_self, Function.update_self]
    · rw [Function.update_of_ne heq, Function.update_of_ne, hreceived other wire hother]
      intro hsame
      have hlt' : other < (wires.map Wire.ends).length := by
        rw [List.length_map]
        exact (List.getElem?_eq_some_iff.1 hother).1
      refine heq ((List.getElem?_inj hlt' hends).1 ?_)
      rw [List.getElem?_map, List.getElem?_map, hother, hindex]
      exact congrArg some hsame
  paced := by
    rintro p hp m streams q ⟨received, hshares, hreceived⟩
    obtain ⟨index, hindex, hcopy⟩ := Network.mem_distribute.1 hp
    obtain ⟨hlt, _⟩ := List.getElem?_eq_some_iff.1 hindex
    rw [hcopy, hreceived index p.1 hindex]
    exact paced_copy (hsource streams) hlt hshares key m
  begins := by
    rintro p hp streams q ⟨received, hshares, hreceived⟩
    obtain ⟨index, hindex, _⟩ := Network.mem_distribute.1 hp
    obtain ⟨hlt, _⟩ := List.getElem?_eq_some_iff.1 hindex
    rw [hreceived index p.1 hindex, hfrom p.1 (List.mem_of_getElem? hindex)]
    exact Shares.begins (hsource streams) hlt hshares

omit [Ranked W] in
/-- Copies of a source that was not polled yet. -/
theorem distributed_fresh {source : Streams → List (Chunk Value) → W → Prop}
    {whole : List (Chunk Value) → Prop} {w : W} (h : source (fun _ => []) [] w)
    (wires : List Wire) :
    Distributed source whole wires (fun _ => []) (.fresh wires.length, w) :=
  ⟨_, shares_fresh h wires.length, fun _ _ _ => rfl⟩

/-- What a station on top leaves of the streams of the wires into other stations. -/
theorem describes_kept (h : Describes pending taken total carried soFar) {station : Station}
    {wires outgoing : List Wire} (htarget : ∀ wire ∈ wires, wire.target = station.key)
    (hapart : ∀ p ∈ pending, ∀ wire ∈ outgoing, p.1.ends ≠ wire.ends)
    (run : Value → Except Error Value) (whole : List (Chunk Value) → Prop) :
    Describes
      ((pending.filter (·.1.target ≠ station.key)).map fun p => (p.1, p.2.lift.lift.lift.lift))
      (fun p : FanOut Value × Reacting Value Value × Network.InputWorld W => taken p.2.2.2.2) total
      carried (Distributed (OutputsSoFar pending carried soFar station run wires) whole outgoing) where
  poll := by
    intro p hp
    obtain ⟨q, hq, rfl⟩ := List.mem_map.1 hp
    obtain ⟨hq, hne⟩ := List.mem_filter.1 hq
    rintro m base ⟨fan, reacting, tap, lanes, w⟩ ⟨received, ⟨given, hgiven, hfan⟩, hreceived⟩
    obtain ⟨inputs, held, ⟨merged, hmerging, hthrough⟩, hbehind⟩ := hgiven
    refine (hmerging.poll_other h htarget hq (of_decide_eq_true hne) m).imp
      (fun got hgot => ?_) id
    refine ⟨received, ⟨given, ⟨inputs, held, ⟨merged, hgot, hthrough⟩, hbehind⟩, hfan⟩,
      fun index wire hindex => ?_⟩
    exact (Function.update_of_ne (hapart q hq wire (List.mem_of_getElem? hindex)).symm _ _).trans
      (hreceived index wire hindex)
  paced := by
    intro p hp
    obtain ⟨q, hq, rfl⟩ := List.mem_map.1 hp
    obtain ⟨hq, hne⟩ := List.mem_filter.1 hq
    rintro m base ⟨fan, reacting, tap, lanes, w⟩ ⟨received, ⟨given, hgiven, hfan⟩, hreceived⟩
    obtain ⟨_, _, ⟨_, ⟨streams, _, _, hstreams, hbase, _⟩, _⟩, _⟩ := hgiven
    have hpaced := h.paced q hq (m := m) hstreams
    rw [hbase q hq (of_decide_eq_true hne)] at hpaced
    exact hpaced.map (Nat.le_refl _) rfl rfl id
  begins := by
    intro p hp
    obtain ⟨q, hq, rfl⟩ := List.mem_map.1 hp
    obtain ⟨hq, hne⟩ := List.mem_filter.1 hq
    rintro base ⟨fan, reacting, tap, lanes, w⟩ ⟨received, ⟨given, hgiven, hfan⟩, hreceived⟩
    obtain ⟨_, _, ⟨_, ⟨streams, _, _, hstreams, hbase, _⟩, _⟩, _⟩ := hgiven
    have hbegins := h.begins q hq hstreams
    rwa [hbase q hq (of_decide_eq_true hne)] at hbegins

/-! ## Networks -/

namespace Network

/-- What a circuit carries at first: its guarded input, on every wire that leaves the
start. -/
theorem carries_ofInput {circuit : Circuit} (hends : (circuit.wires.map Wire.ends).Nodup)
    {chunks : List (Chunk Value)}
    (hcut : ∀ full, carried startKey full → cut full = full)
    (hstart : carried startKey (upTo circuit.inputGuard.check chunks)) :
    (ofInput circuit chunks).Carries chunks.length carried := by
  have hout : ((circuit.outgoing startKey).map Wire.ends).Nodup :=
    hends.sublist (List.filter_sublist.map _)
  have hmade : ∀ full, MadeBy circuit.inputGuard.check (· = chunks) full → carried startKey full := by
    rintro _ ⟨_, rfl, rfl⟩
    exact hstart
  have hinput := ((Tape.delivers_feed chunks).convert circuit.inputGuard.check).congr
    (fun _ _ => Iff.rfl) hmade
  refine ⟨rfl, _, describes_distribute (fun _ => hinput) hcut
    (fun wire hwire => of_decide_eq_true (List.mem_filter.1 hwire).2) (fun _ _ _ _ _ _ h => h) hout,
    distributed_fresh ⟨[], ⟨rfl, rfl⟩, Tap.through_opened _ _⟩ _⟩

/-- What a network carries with one more station: the wires that leave the station carry
its outputs, and all others what they did. -/
theorem carries_attach {network : Network} (h : network.Carries total carried)
    {circuit : Circuit} (hends : (circuit.wires.map Wire.ends).Nodup) {station : Station}
    {node : Node} (hdefault : node.transducer = .perChunk node.run)
    (hsources : ∀ p ∈ network.pending, p.1.source ≠ station.key) {wires : List Wire}
    (hwires : (wires.map Wire.ends).Nodup) (htarget : ∀ wire ∈ wires, wire.target = station.key)
    {feeds : List (LaneFeed network.World)}
    (hfeeds : List.Forall₂ (fun (wire : Wire) feed => ∃ p ∈ network.pending,
      p.1.ends = wire.ends ∧ feed = wire.feed p.2) wires feeds)
    (hcut : ∀ full, carried station.key full → cut full = full)
    (hmade : ∀ full, MadeBy node.run (MadeBy station.assembler.assembleOne (Merged carried wires)) full →
      carried station.key full) :
    (network.attach circuit station node
      ⟨feeds.map fun feed => (feed, (.opened, .opened))⟩).Carries total carried := by
  obtain ⟨hzero, soFar, hsoFar, hworld⟩ := h
  have hout : ((circuit.outgoing station.key).map Wire.ends).Nodup :=
    hends.sublist (List.filter_sublist.map _)
  have hfrom : ∀ wire ∈ circuit.outgoing station.key, wire.source = station.key :=
    fun wire hwire => of_decide_eq_true (List.mem_filter.1 hwire).2
  have hapart : ∀ p ∈ network.pending, ∀ wire ∈ circuit.outgoing station.key,
      p.1.ends ≠ wire.ends := fun p hp wire hwire heq =>
    hsources p hp ((congrArg Prod.fst heq).trans (hfrom wire hwire))
  have hsource : ∀ base, Delivers
      ((inputs (W := network.World) station).transduce station.key node.transducer)
      (fun p => network.taken p.2.2.2) total
      (OutputsSoFar network.pending carried soFar station node.run wires base)
      (carried station.key) := by
    rw [hdefault]
    exact fun base => ((delivers_inputs hsoFar hwires htarget base).transduce station.key
      node.run).congr (fun _ _ => Iff.rfl) hmade
  have hdistributed := describes_distribute hsource hcut hfrom (by
    rintro wire hwire base chunks got q ⟨given, held, ⟨merged, hmerging, hthrough⟩, hbehind⟩
    refine ⟨given, held, ⟨merged, hmerging.rebase fun p hp _ => ?_, hthrough⟩, hbehind⟩
    rw [Function.update_of_ne (hapart p hp wire hwire)]) hout
  exact ⟨hzero, _, (describes_kept hsoFar htarget hapart _ _).append hdistributed,
    distributed_fresh ⟨[], [], inputsSoFar_opened hfeeds hworld,
      hdefault ▸ Reacting.Behind.begin _ _⟩ (circuit.outgoing station.key)⟩

/-- The stream that leaves a circuit is what the end makes of its streams. -/
theorem gives_result {network : Network} (h : network.Carries total carried)
    {station : Station} {wires : List Wire} (hwires : (wires.map Wire.ends).Nodup)
    (htarget : ∀ wire ∈ wires, wire.target = station.key)
    {feeds : List (LaneFeed network.World)}
    (hfeeds : List.Forall₂ (fun (wire : Wire) feed => ∃ p ∈ network.pending,
      p.1.ends = wire.ends ∧ feed = wire.feed p.2) wires feeds) :
    let stream := network.result station ⟨feeds.map fun feed => (feed, (.opened, .opened))⟩
    stream.Gives (MadeBy station.assembler.assembleOne (Merged carried wires)) ∧
      stream.Paces total ∧ stream.pulled = 0 := by
  obtain ⟨hzero, soFar, hsoFar, hworld⟩ := h
  intro stream
  have hdelivers : Delivers stream.feed stream.taken total
      (InputsSoFar network.pending carried soFar station wires fun _ => [])
      (MadeBy station.assembler.assembleOne (Merged carried wires)) :=
    delivers_inputs hsoFar hwires htarget fun _ => []
  have hopened : InputsSoFar network.pending carried soFar station wires (fun _ => []) []
      stream.world := inputsSoFar_opened hfeeds hworld
  refine ⟨Stream.gives_of_delivers stream hdelivers (Feed.fused_convert _ _) hopened,
    Stream.paces_of_delivers hdelivers hopened hzero ?_, hzero⟩
  rintro m got p ⟨merged, _, hthrough⟩ hfailed
  exact Feed.convert_of_failed hthrough hfailed

end Network

end Dataflow
