import Dataflow.Circuit.Transform
import Dataflow.Proofs.Stations

/-!
# Networks

How a network grows, station by station, and why it always comes to an end.  A
station takes the streams of its wires and gives one to each wire that leaves
it, so a wire has a stream from the time its source was put on top until its
target is.

* `Network.complete_of_invariant`: what every attached station keeps holds of the
  stream that comes out.
* `Graph.Compiled.transform_eq_ok`: a compiled graph turns every stream into a
  stream.
-/

namespace Dataflow

/-! ## Lanes -/

/-- The lanes that are left after a poll of a merge are old ones. -/
theorem Feed.mem_of_mem_pollLanes {W ι S α : Type} [Ranked W] [HoldsNothing S]
    {lane : ι → Feed (S × W) α} {m : Moment} {places : List Nat} {lanes : List (ι × S)} {w : W} :
    ∀ entry ∈ (Feed.pollLanes lane m places lanes w).2.1, ∃ old ∈ lanes, old.1 = entry.1 := by
  induction places generalizing lanes w with
  | nil => exact fun entry hentry => ⟨entry, hentry, rfl⟩
  | cons place places ih =>
    rw [Feed.pollLanes]
    split
    · simp
    next i s rest htake =>
      obtain ⟨before, after, rfl, rfl⟩ := takeAt_eq_some htake
      have hrest : ∀ {entry : ι × S}, (∃ old ∈ before ++ after, old.1 = entry.1) →
          ∃ old ∈ before ++ (i, s) :: after, old.1 = entry.1 := by
        rintro entry ⟨old, hold, heq⟩
        exact ⟨old, by simp at hold ⊢; tauto, heq⟩
      have hback : ∀ {entry : ι × S} {s' : S},
          (∃ old ∈ before ++ after ++ [(i, s')], old.1 = entry.1) →
            ∃ old ∈ before ++ (i, s) :: after, old.1 = entry.1 := by
        rintro entry s' ⟨old, hold, heq⟩
        rcases List.mem_append.1 hold with hold | hold
        · exact hrest ⟨old, hold, heq⟩
        · exact ⟨(i, s), by simp, by rw [← heq, List.mem_singleton.1 hold]⟩
      split
      · exact fun entry hentry => hback ⟨entry, hentry, rfl⟩
      · exact fun entry hentry => hback (ih entry hentry)
      · exact fun entry hentry => hrest (ih entry hentry)

/-! ## Growing -/

namespace Network

variable {circuit : Circuit} {network : Network}

/-- The network with some stations on top of it, none of which is the end. -/
def built (circuit : Circuit) : List Station → Network → Except Error Network
  | [], network => .ok network
  | station :: rest, network =>
    match station.role with
    | .start => built circuit rest network
    | .finish => .error (.internal .endNotReached)
    | .work node =>
      match network.lanes (circuit.feeding station.key) with
      | .error e => .error e
      | .ok lanes => built circuit rest (network.attach circuit station node lanes)

/-- Stations that were put on top are behind a stream. -/
theorem complete_append {before : List Station} {network' : Network}
    (h : built circuit before network = .ok network') (after : List Station) :
    complete circuit (before ++ after) network = complete circuit after network' := by
  induction before generalizing network with
  | nil =>
    obtain rfl := Except.ok.inj h
    rfl
  | cons station before ih =>
    rw [built] at h
    rw [List.cons_append, complete]
    cases hrole : station.role with
    | start => exact ih (by simpa only [hrole] using h)
    | finish => simp only [hrole, reduceCtorEq] at h
    | work node =>
      simp only [hrole] at h ⊢
      cases hlanes : network.lanes (circuit.feeding station.key) with
      | error e => simp only [hlanes, reduceCtorEq] at h
      | ok lanes => exact ih (by simpa only [hlanes] using h)

section Invariant

variable (invariant : List Station → Network → Prop)
  (hstart : ∀ before station after network, circuit.stations = before ++ station :: after →
    station.role = .start → invariant before network → invariant (before ++ [station]) network)
  (hattach : ∀ before station after network node,
    circuit.stations = before ++ station :: after → station.role = .work node →
      invariant before network →
        ∃ lanes, network.lanes (circuit.feeding station.key) = .ok lanes ∧
          invariant (before ++ [station]) (network.attach circuit station node lanes))

include hstart hattach

/-- What holds of the first network, and of each with one more station when it holds of
the one before, holds of all. -/
theorem exists_built {before middle after : List Station}
    (hsplit : circuit.stations = before ++ middle ++ after)
    (hfinish : ∀ station ∈ middle, station.role ≠ .finish) (hnetwork : invariant before network) :
    ∃ network', built circuit middle network = .ok network' ∧
      invariant (before ++ middle) network' := by
  -- the station in front of the rest moves to the back of those put on top
  induction middle generalizing before network with
  | nil => exact ⟨network, rfl, by rwa [List.append_nil]⟩
  | cons station middle ih =>
    obtain ⟨hrole, hfinish⟩ := List.forall_mem_cons.1 hfinish
    have hthis : circuit.stations = before ++ station :: (middle ++ after) := by simpa using hsplit
    have hnext : circuit.stations = before ++ [station] ++ middle ++ after := by
      simpa using hsplit
    have heq : before ++ station :: middle = before ++ [station] ++ middle := by simp
    rw [built, heq]
    cases hstation : station.role with
    | start => exact ih hnext hfinish (hstart before station _ network hthis hstation hnetwork)
    | finish => exact absurd hstation hrole
    | work node =>
      obtain ⟨lanes, hlanes, hattached⟩ :=
        hattach before station _ network node hthis hstation hnetwork
      dsimp only
      rw [hlanes]
      exact ih hnext hfinish hattached

/-- The end makes a stream of the last network. -/
theorem complete_of_invariant (result : Stream Value → Prop) {before after : List Station}
    {last : Station} (hsplit : circuit.stations = before ++ last :: after)
    (hbefore : ∀ station ∈ before, station.role ≠ .finish) (hlast : last.role = .finish)
    (hresult : ∀ network, invariant before network →
      ∃ lanes, network.lanes (circuit.feeding last.key) = .ok lanes ∧
        result (network.result last lanes)) (hnetwork : invariant [] network) :
    ∃ stream, complete circuit circuit.stations network = .ok stream ∧ result stream := by
  have hnil : circuit.stations = [] ++ before ++ last :: after := hsplit
  obtain ⟨network', hbuilt, hnetwork'⟩ :=
    exists_built invariant hstart hattach hnil hbefore hnetwork
  obtain ⟨lanes, hlanes, hdone⟩ := hresult network' hnetwork'
  refine ⟨network'.result last lanes, ?_, hdone⟩
  rw [hsplit, complete_append hbuilt, complete]
  simp only [hlast, hlanes]

end Invariant

/-! ## Supplied wires -/

/-- There is a stream for the wire. -/
def Waits (network : Network) (wire : Wire) : Prop :=
  ∃ p ∈ network.pending, p.1.ends = wire.ends

theorem Waits.find {wire : Wire} (h : network.Waits wire) :
    ∃ p ∈ network.pending, p.1.ends = wire.ends ∧ network.find wire = .ok p.2 := by
  unfold Network.find
  split
  next p hfind =>
    refine ⟨p, List.mem_of_find?_eq_some hfind, ?_, rfl⟩
    simpa [Wire.ends] using List.find?_some hfind
  next hnone =>
    obtain ⟨p, hp, hends⟩ := h
    rw [Wire.ends, Wire.ends, Prod.mk.injEq] at hends
    exact absurd (List.find?_eq_none.1 hnone p hp) (by simp [hends])

/-- A station gets a lane for each of its wires when all of them have a stream. -/
theorem lanes_eq_ok {wires : List Wire} (h : ∀ wire ∈ wires, network.Waits wire) :
    ∃ feeds, List.Forall₂ (fun (wire : Wire) feed => ∃ p ∈ network.pending,
        p.1.ends = wire.ends ∧ feed = wire.feed p.2) wires feeds ∧
      network.lanes wires = .ok ⟨feeds.map fun feed => (feed, (.opened, .opened))⟩ := by
  have hfeeds : ∃ feeds, List.Forall₂ (fun (wire : Wire) feed => ∃ p ∈ network.pending,
      p.1.ends = wire.ends ∧ feed = wire.feed p.2) wires feeds ∧
      wires.mapM (fun wire => do
        let outputs ← network.find wire
        return wire.feed outputs) = .ok feeds := by
    induction wires with
    | nil => exact ⟨[], .nil, rfl⟩
    | cons wire rest ih =>
      obtain ⟨hwire, hrest⟩ := List.forall_mem_cons.1 h
      obtain ⟨p, hp, hends, hfind⟩ := hwire.find
      obtain ⟨feeds, hall, hfeeds⟩ := ih hrest
      refine ⟨wire.feed p.2 :: feeds, .cons ⟨p, hp, hends, rfl⟩ hall, ?_⟩
      rw [List.mapM_cons, hfind, hfeeds]
      rfl
  obtain ⟨feeds, hall, hfeeds⟩ := hfeeds
  exact ⟨feeds, hall, by rw [lanes, hfeeds]; rfl⟩

/-- A lane is the stream of a wire that waits for the station. -/
theorem exists_feed_of_lanes {wires : List Wire} {lanes : Lanes (LaneFeed network.World) (Tap × Tap)}
    (hlanes : network.lanes wires = .ok lanes) :
    ∀ entry ∈ lanes.waiting, ∃ wire ∈ wires, ∃ p ∈ network.pending, entry.1 = wire.feed p.2 := by
  obtain ⟨feeds, hfeeds, hlanes⟩ := bind_eq_ok hlanes
  obtain rfl := Except.ok.inj hlanes
  intro entry hentry
  obtain ⟨feed, hfeed, rfl⟩ := List.mem_map.1 hentry
  obtain ⟨wire, hmem, hwire⟩ := exists_left_of_forall₂ (forall₂_of_mapM_eq_ok hfeeds) hfeed
  obtain ⟨outputs, hfind, hwire⟩ := bind_eq_ok hwire
  obtain rfl := Except.ok.inj hwire
  unfold Network.find at hfind
  split at hfind
  next p hp =>
    obtain rfl := Except.ok.inj hfind
    exact ⟨wire, hmem, p, List.mem_of_find?_eq_some hp, rfl⟩
  · exact nomatch hfind

theorem mem_distribute {W : Type} [Ranked W] {key : String} {outputs : Feed W Value}
    {wires : List Wire} {p : Wire × Feed (FanOut Value × W) Value} :
    p ∈ distribute key outputs wires ↔
      ∃ index, wires[index]? = some p.1 ∧ p.2 = outputs.copy key wires.length index := by
  unfold distribute
  rw [List.mem_iff_getElem?]
  refine exists_congr fun index => ?_
  rw [List.getElem?_mapIdx, Option.map_eq_some_iff]
  constructor
  · rintro ⟨wire, hwire, rfl⟩
    exact ⟨hwire, rfl⟩
  · rintro ⟨hwire, hfeed⟩
    exact ⟨p.1, hwire, Prod.ext rfl hfeed.symm⟩

/-- The copies of a station's stream are for the wires that leave it. -/
theorem source_of_mem_distribute {W : Type} [Ranked W] {outputs : Feed W Value} {key : String}
    {p : Wire × Feed (FanOut Value × W) Value}
    (hp : p ∈ distribute key outputs (circuit.outgoing key)) : p.1.source = key := by
  obtain ⟨index, hindex, _⟩ := mem_distribute.1 hp
  exact of_decide_eq_true (List.mem_filter.1 (List.mem_of_getElem? hindex)).2

/-- Every wire of a station gets a copy of its stream. -/
theorem exists_mem_distribute {W : Type} [Ranked W] (key : String) (outputs : Feed W Value)
    {wires : List Wire} {wire : Wire} (h : wire ∈ wires) :
    ∃ p ∈ distribute key outputs wires, p.1 = wire := by
  obtain ⟨index, hindex⟩ := List.mem_iff_getElem?.1 h
  exact ⟨(wire, outputs.copy key wires.length index), mem_distribute.2 ⟨index, hindex, rfl⟩, rfl⟩

/-- Every wire has a stream that leaves the start or a station put on top, and
enters one that was not. -/
def Supplied (circuit : Circuit) (before : List Station) (network : Network) : Prop :=
  ∀ wire ∈ circuit.wires, wire.source = startKey ∨ wire.source ∈ before.map (·.key) →
    wire.target ∉ before.map (·.key) → network.Waits wire

theorem supplied_ofInput (circuit : Circuit) (chunks : List (Chunk Value)) :
    Supplied circuit [] (ofInput circuit chunks) := by
  intro wire hwire hsource _
  have hmem : wire ∈ circuit.outgoing startKey :=
    List.mem_filter.2 ⟨hwire, decide_eq_true (hsource.resolve_right nofun)⟩
  obtain ⟨p, hp, rfl⟩ := exists_mem_distribute startKey
    (Tape.feed.convert circuit.inputGuard.check) hmem
  exact ⟨p, hp, rfl⟩

theorem Supplied.attach {before : List Station} {station : Station} {node : Node}
    (h : Supplied circuit before network)
    (lanes : Lanes (LaneFeed network.World) (Tap × Tap)) :
    Supplied circuit (before ++ [station]) (network.attach circuit station node lanes) := by
  intro wire hwire hsource htarget
  obtain ⟨htarget, htarget'⟩ := not_or.1 (mt mem_keys_concat.2 htarget)
  by_cases hown : wire.source = station.key
  · obtain ⟨p, hp, rfl⟩ := exists_mem_distribute station.key
      ((inputs (W := network.World) station).transduce station.key node.transducer)
      (List.mem_filter.2 ⟨hwire, decide_eq_true hown⟩ : wire ∈ circuit.outgoing station.key)
    exact ⟨p, List.mem_append_right _ hp, rfl⟩
  · have hsource' : wire.source = startKey ∨ wire.source ∈ before.map (·.key) :=
      hsource.imp_right fun hmem => (mem_keys_concat.1 hmem).resolve_right hown
    obtain ⟨p, hp, hends⟩ := h wire hwire hsource' htarget
    refine ⟨(p.1, p.2.lift.lift.lift.lift), List.mem_append_left _ ?_, hends⟩
    refine List.mem_map.2 ⟨p, List.mem_filter.2 ⟨hp, ?_⟩, rfl⟩
    have hp' : p.1.target = wire.target := congrArg Prod.snd hends
    simpa [hp'] using htarget'

end Network

/-! ## Streams of compiled graphs -/

namespace Graph.Compiled

variable {graph : Graph} {options : CompileOptions} {circuit : Circuit}
  (h : graph.Compiled options circuit)
include h

/-- The wires that feed a station have streams when all stations before it were
put on top. -/
theorem waits_of_supplied {before after : List Station} {station : Station} {network : Network}
    (hsplit : circuit.stations = before ++ station :: after)
    (hnetwork : Network.Supplied circuit before network) :
    ∀ wire ∈ circuit.feeding station.key, network.Waits wire := by
  intro wire hwire
  have hincoming := Circuit.mem_incoming_of_mem_feeding hwire
  obtain ⟨hmem, htarget⟩ := Circuit.mem_incoming.1 hincoming
  refine hnetwork wire hmem (.inr (h.source_mem_before hsplit hincoming)) ?_
  rw [htarget]
  exact h.key_not_mem_before hsplit

/-- The start has its streams from the beginning. -/
theorem supplied_start {before after : List Station} {station : Station} {network : Network}
    (hsplit : circuit.stations = before ++ station :: after) (hrole : station.role = .start)
    (hnetwork : Network.Supplied circuit before network) :
    Network.Supplied circuit (before ++ [station]) network := by
  intro wire hwire hsource htarget
  have hstation : station ∈ circuit.stations := by simp [hsplit]
  have hstart := eq_startKey_of_role ((h.role_eq hstation).symm.trans hrole)
  refine hnetwork wire hwire (hsource.elim .inl fun hmem => ?_)
    fun hmem => htarget (mem_keys_concat.2 (.inl hmem))
  exact (mem_keys_concat.1 hmem).symm.imp_left fun hlast => hlast.trans hstart

/-- What holds of the first network, and of each with one more station when it holds of
the one before, says what the stream is like that comes out. -/
theorem exists_stream_of_kept (kept : Network → Prop) (result : Stream Value → Prop)
    {chunks : List (Chunk Value)} (hstart : kept (.ofInput circuit chunks))
    (hattach : ∀ network station node lanes, (station.key, node) ∈ graph.nodes → kept network →
      network.lanes (circuit.feeding station.key) = .ok lanes →
        kept (network.attach circuit station node lanes))
    (hresult : ∀ network station lanes, kept network →
      network.lanes (circuit.feeding station.key) = .ok lanes →
        result (network.result station lanes)) :
    ∃ stream, circuit.transform chunks = .ok stream ∧ result stream := by
  have hlanes : ∀ {before station after network},
      circuit.stations = before ++ station :: after → Network.Supplied circuit before network →
        ∃ lanes, network.lanes (circuit.feeding station.key) = .ok lanes := by
    intro before station after network hsplit hsupplied
    obtain ⟨_, _, hlanes⟩ := Network.lanes_eq_ok (h.waits_of_supplied hsplit hsupplied)
    exact ⟨_, hlanes⟩
  obtain ⟨middle, hstations, _⟩ := h.stations_split
  have hsplit : circuit.stations =
      (graph.station options startKey :: middle) ++ [graph.station options endKey] := hstations
  refine Network.complete_of_invariant
    (fun before network => Network.Supplied circuit before network ∧ kept network) ?_ ?_ result
    hsplit (h.role_ne_finish hsplit) h.wellFormed.role_endKey ?_
    ⟨Network.supplied_ofInput circuit chunks, hstart⟩
  · rintro before station after network hsplit hrole ⟨hsupplied, hkept⟩
    exact ⟨h.supplied_start hsplit hrole hsupplied, hkept⟩
  · rintro before station after network node hsplit hrole ⟨hsupplied, hkept⟩
    obtain ⟨lanes, hok⟩ := hlanes hsplit hsupplied
    have hgraph := (h.role_eq (by simp [hsplit])).symm.trans hrole
    have hnode := mem_nodes_of_node? (node?_of_role hgraph)
    exact ⟨lanes, hok, hsupplied.attach lanes, hattach network station node lanes hnode hkept hok⟩
  · rintro network ⟨hsupplied, hkept⟩
    obtain ⟨lanes, hok⟩ := hlanes hsplit hsupplied
    exact ⟨lanes, hok, hresult network _ lanes hkept hok⟩

/-- A compiled graph turns every stream into a stream. -/
theorem transform_eq_ok (chunks : List (Chunk Value)) :
    ∃ stream, circuit.transform chunks = .ok stream := by
  obtain ⟨stream, hstream, _⟩ := h.exists_stream_of_kept (fun _ => True) (fun _ => True) trivial
    (fun _ _ _ _ _ _ _ => trivial) fun _ _ _ _ _ => trivial
  exact ⟨stream, hstream⟩

end Graph.Compiled

end Dataflow
