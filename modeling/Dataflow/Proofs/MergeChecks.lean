import Dataflow.Merge.Stock
import Dataflow.Node.Stock
import Dataflow.Proofs.Registries

/-!
# Merging is settled by the check of a graph

The check of a node counts the mappings into each part of its input, and it looks for a
policy where there is more than one.  When the graph runs, values are gathered by the
part they are for.  The two agree: as many values wait for a part as the edges that
contribute have mappings to it, and where several wait there is a policy for the type
that is looked up.  So the merging itself never lacks a value or a policy; only what a
policy reports comes out of it.

* `Gathered.Accounted`: the gathered values are those that were counted.
* `Graph.Compiled.accounted`: whatever wires into a station contribute is accounted for.
* `Wire.apply_of_feed`: the same fields come through the feed of a wire.
* `Assembler.outcome_of_accounted`: what can go wrong with values accounted for.
* `Graph.merging_settled`: runs on values and on streams.
-/

namespace Dataflow

/-! ## Gathered values and mappings -/

/-- As many values wait for a part of the input as the edges have mappings to it, and
where several wait the type that is looked up has a policy. -/
structure Gathered.Accounted (gathered : Gathered) (assembler : Assembler) (edges : List Edge) :
    Prop where
  length : ∀ target,
    ((gathered.find? target).getD []).length = (edges.flatMap Edge.targets).count target
  ne_nil : ∀ target values, gathered.find? target = some values → values ≠ []
  policy : ∀ target values, gathered.find? target = some values → 1 < values.length →
    ∃ type, assembler.target.part target = .ok type ∧
      (assembler.merges.policy? type).isSome = true

/-- Some of the entries on the right belong to some of those on the left. -/
theorem exists_sublist_of_forall₂ {α β : Type} {R : α → β → Prop} {as : List α} {bs bs' : List β}
    (h : List.Forall₂ R as bs) (hsub : bs'.Sublist bs) :
    ∃ as', as'.Sublist as ∧ List.Forall₂ R as' bs' := by
  induction hsub generalizing as with
  | slnil => exact ⟨[], List.nil_sublist as, .nil⟩
  | cons b _ ih =>
    cases h with
    | cons _ hrest =>
      obtain ⟨as', has', hrel⟩ := ih hrest
      exact ⟨as', has'.cons _, hrel⟩
  | cons_cons b _ ih =>
    cases h with
    | cons hb hrest =>
      obtain ⟨as', has', hrel⟩ := ih hrest
      exact ⟨_ :: as', has'.cons_cons _, .cons hb hrel⟩

theorem Wire.targets_of_wireOf {graph : Graph} {edge : Edge} {wire : Wire}
    (h : graph.WireOf edge wire) : wire.targets = edge.targets := by
  rw [targets, Edge.targets, h.mappings]

namespace Circuit

variable {circuit : Circuit}

theorem feeding_sublist (circuit : Circuit) (key : String) :
    (circuit.feeding key).Sublist (circuit.incoming key) := by
  unfold feeding
  dsimp only
  split
  · exact List.Sublist.refl _
  · cases hfirst : circuit.order.findSome? fun k => (circuit.incoming key).find? (·.source = k) with
    | none => exact List.nil_sublist _
    | some wire =>
      obtain ⟨k, _, hfind⟩ := List.exists_of_findSome?_eq_some hfirst
      exact List.singleton_sublist.2 (List.mem_of_find?_eq_some hfind)

/-- One wire at most feeds a station that takes one predecessor alone. -/
theorem length_feeding_le (h : circuit.options.trigger = .anyPredecessor) (key : String) :
    (circuit.feeding key).length ≤ 1 := by
  unfold feeding
  rw [h]
  dsimp only
  cases circuit.order.findSome? fun k => (circuit.incoming key).find? (·.source = k) <;> simp

end Circuit

namespace Graph

variable {graph : Graph} {options : CompileOptions} {circuit : Circuit}

/-- What wires into a station contributed is accounted for by the edges that they were
made of. -/
def Accounts (graph : Graph) (station : Station) (wires : List Wire) (gathered : Gathered) :
    Prop :=
  ∃ edges, edges.Sublist (graph.incoming station.key) ∧ List.Forall₂ graph.WireOf edges wires ∧
    gathered.Accounted station.assembler edges

/-- The check of a node found a policy for each part that several mappings fill. -/
theorem policy_of_unmergeable?_eq_none {merges : MergeRegistry} {key target : String} {type : Ty}
    (h : graph.unmergeable? merges key = none) (hcount : 1 < (graph.filledTargets key).count target)
    (htype : (graph.inputType key).part target = .ok type) :
    (merges.policy? type).isSome = true := by
  have hmem : target ∈ graph.filledTargets key :=
    List.count_pos_iff.1 (Nat.zero_lt_of_lt hcount)
  have hnone := List.findSome?_eq_none_iff.1 h target hmem
  rw [if_neg (Nat.not_le.2 hcount), htype] at hnone
  dsimp only at hnone
  by_contra hpolicy
  rw [if_neg hpolicy] at hnone
  cases hnone

namespace Compiled

variable (h : graph.Compiled options circuit)
  (hnodup : ∀ edge ∈ graph.edges, edge.targets.Nodup)
include h

theorem feeding_startKey : circuit.feeding startKey = [] :=
  List.sublist_nil.1 (h.incoming_startKey ▸ circuit.feeding_sublist startKey)

/-- The part that a mapping into a station fills has a declared type. -/
theorem exists_part_of_mem {key target : String} {edge : Edge} (hedge : edge ∈ graph.incoming key)
    (htarget : target ∈ edge.targets) : ∃ type, (graph.inputType key).part target = .ok type := by
  obtain ⟨hmem, hkey⟩ := List.mem_filter.1 hedge
  obtain ⟨wire, hwire, hof⟩ := h.exists_wire hmem
  obtain ⟨mapping, hmapping, rfl⟩ := List.mem_map.1 htarget
  rw [← hof.mappings] at hmapping
  obtain ⟨_, type, _, htype, _⟩ := (h.planned hwire).resolved mapping hmapping
  rw [hof.target, of_decide_eq_true hkey] at htype
  exact ⟨type, htype⟩

include hnodup

/-- Whatever some of the wires that feed a station contribute is accounted for. -/
theorem accounted {station : Station} (hstation : station ∈ circuit.stations)
    {wires : List Wire} (hwires : wires.Sublist (circuit.feeding station.key))
    {contributions : List Fields} (hcontributions : Contribute wires contributions) :
    graph.Accounts station wires (gather contributions) := by
  obtain ⟨edges, hedges, hof⟩ := exists_sublist_of_forall₂
    (forall₂_incoming h.wires (fun _ _ hof => hof.target) station.key)
    (hwires.trans (circuit.feeding_sublist station.key))
  have htargets : wires.map Wire.targets = edges.map Edge.targets :=
    (map_eq_map_of_forall₂ hof fun _ _ hof => (Wire.targets_of_wireOf hof).symm).symm
  have hmem : ∀ edge ∈ edges, edge ∈ graph.edges := fun edge hedge =>
    (List.mem_filter.1 (hedges.subset hedge)).1
  have hwiresNodup : ∀ wire ∈ wires, wire.targets.Nodup := by
    intro wire hwire
    obtain ⟨edge, hedge, hof⟩ := exists_left_of_forall₂ hof hwire
    rw [Wire.targets_of_wireOf hof]
    exact hnodup edge (hmem edge hedge)
  have hlength : ∀ target, (((gather contributions).find? target).getD []).length =
      (edges.flatMap Edge.targets).count target := by
    intro target
    rw [List.flatMap_def, ← htargets, ← List.flatMap_def,
      ← length_gathered hcontributions hwiresNodup, find?_gather]
    split
    next hempty => rw [hempty]; rfl
    · rfl
  refine ⟨edges, hedges, hof, hlength, fun target values hfind => (mem_of_find?_gather hfind).1, ?_⟩
  intro target values hfind hseveral
  have hcount := hlength target
  rw [hfind] at hcount
  replace hcount : 1 < (edges.flatMap Edge.targets).count target := hcount ▸ hseveral
  obtain ⟨edge, hedge, htarget⟩ :=
    List.mem_flatMap.1 (List.count_pos_iff.1 (Nat.zero_lt_of_lt hcount))
  obtain ⟨type, htype⟩ := h.exists_part_of_mem (hedges.subset hedge) htarget
  rw [h.station_eq hstation]
  refine ⟨type, htype, ?_⟩
  cases htrigger : options.trigger with
  | anyPredecessor =>
    have htrigger' : circuit.options.trigger = .anyPredecessor := by rw [h.options_eq, htrigger]
    have hone : edges.length ≤ 1 :=
      hof.length_eq ▸ hwires.length_le.trans (Circuit.length_feeding_le htrigger' station.key)
    -- one edge alone has one mapping to each part
    have hle : (edges.flatMap Edge.targets).count target ≤ 1 := by
      match edges, hone, hmem with
      | [], _, _ => simp
      | [edge], _, hmem =>
        rw [List.flatMap_singleton]
        exact List.nodup_iff_count_le_one.1 (hnodup edge (hmem edge List.mem_cons_self)) target
    omega
  | allPredecessors =>
    have hstart : station.key ≠ startKey := by
      intro hstart
      rw [hstart, h.feeding_startKey, List.sublist_nil] at hwires
      rw [hwires] at hof
      cases hof
      cases hedge
    have hchecked := (h.checked station.key (h.key_mem hstation) hstart).mergeable htrigger
    exact policy_of_unmergeable?_eq_none hchecked
      (hcount.trans_le ((hedges.flatMap Edge.targets).count_le target)) htype

end Compiled

end Graph

/-! ## What streams contribute -/

namespace Feed

variable {W α β : Type} [Ranked W]

/-- A value that is delivered in a good world has a property, and the world stays good. -/
def Yields (feed : Feed W α) (good : W → Prop) (holds : α → Prop) : Prop :=
  ∀ m w, good w → good (feed.poll m w).2 ∧ ∀ a, (feed.poll m w).1 = .chunk (.ok a) → holds a

/-- A converted value was made of a value. -/
theorem exists_of_convert {f : α → Except Error β} {feed : Feed W α} {m : Moment} {p : Tap × W}
    {b : β} (h : ((feed.convert f).poll m p).1 = .chunk (.ok b)) :
    ∃ a, (feed.poll m p.2).1 = .chunk (.ok a) ∧ f a = .ok b := by
  obtain ⟨tap, w⟩ := p
  change (pollConverted f feed m (tap, w)).1 = .chunk (.ok b) at h
  cases tap with
  | closed => cases h
  | opened =>
    rw [pollConverted] at h
    revert h
    obtain ⟨answer, w'⟩ := feed.poll m w
    intro h
    cases answer with
    | pending => cases h
    | ended => cases h
    | chunk chunk =>
      cases chunk with
      | error e => cases h
      | ok a =>
        refine ⟨a, rfl, ?_⟩
        dsimp only [Except.bind] at h
        cases hf : f a with
        | error e =>
          rw [hf] at h
          cases h
        | ok b' =>
          rw [hf] at h
          cases h
          rfl

/-- What lanes deliver was delivered by one of them. -/
theorem exists_of_pollLanes {ι S : Type} [HoldsNothing S] {lane : ι → Feed (S × W) α} {m : Moment}
    {places : List Nat} {lanes : List (ι × S)} {w : W} {chunk : Chunk α}
    (h : (pollLanes lane m places lanes w).1 = .chunk chunk) :
    ∃ entry ∈ lanes, ∃ p, ((lane entry.1).poll m p).1 = .chunk chunk := by
  induction places generalizing lanes w with
  | nil =>
    rw [pollLanes] at h
    cases hempty : lanes.isEmpty <;> simp [hempty] at h
  | cons place places ih =>
    rw [pollLanes] at h
    split at h
    · cases h
    next i s rest htake =>
      obtain ⟨before, after, rfl, rfl⟩ := takeAt_eq_some htake
      have hrest : (∃ entry ∈ before ++ after, ∃ p, ((lane entry.1).poll m p).1 = .chunk chunk) →
          ∃ entry ∈ before ++ (i, s) :: after, ∃ p, ((lane entry.1).poll m p).1 = .chunk chunk := by
        rintro ⟨entry, hentry, hpoll⟩
        exact ⟨entry, by simp at hentry ⊢; tauto, hpoll⟩
      cases hpoll : (lane i).poll m (s, w) with
      | mk answer p =>
        have hthis : answer = .chunk chunk →
            ∃ entry ∈ before ++ (i, s) :: after, ∃ p, ((lane entry.1).poll m p).1 = .chunk chunk :=
          fun heq => ⟨(i, s), by simp, (s, w), by rw [hpoll]; exact heq⟩
        rw [hpoll] at h
        cases answer with
        | chunk c => exact hthis h
        | ended => exact hrest (ih h)
        | pending =>
          obtain ⟨entry, hentry, q, hchunk⟩ := ih h
          rcases List.mem_append.1 hentry with hentry | hentry
          · exact hrest ⟨entry, hentry, q, hchunk⟩
          · rw [List.mem_singleton.1 hentry] at hchunk
            exact ⟨(i, s), by simp, q, hchunk⟩

end Feed

/-- The fields that come through the feed of a wire are what the wire makes of an
output. -/
theorem Wire.apply_of_feed {W : Type} [Ranked W] {wire : Wire} {outputs : Feed W Value}
    {m : Moment} {p : (Tap × Tap) × W} {fields : Fields}
    (h : ((wire.feed outputs).poll m p).1 = .chunk (.ok fields)) :
    ∃ output, wire.apply output = .ok fields := by
  obtain ⟨extracted, hextracted, hguarded⟩ := Feed.exists_of_convert h
  obtain ⟨output, _, hextract⟩ := Feed.exists_of_convert hextracted
  exact ⟨output, by rw [Wire.apply, hextract]; exact hguarded⟩

/-! ## What merging reports -/

/-- The error is what a policy of the registry reported of several values. -/
def MergeRegistry.Reported (registry : MergeRegistry) (e : Error) : Prop :=
  ∃ field type values policy e', 1 < values.length ∧ registry.policy? type = some policy ∧
    policy type values = .error e' ∧ e = .merge field type.text values.length e'.reported

/-- Values that have a policy where they are several fail to merge as the policy does. -/
theorem MergeRegistry.outcome_merge_of_policy {registry : MergeRegistry} {field : String}
    {type : Ty} {values : List Value} (hne : values ≠ [])
    (hpolicy : 1 < values.length → (registry.policy? type).isSome = true) :
    Outcome registry.Reported (fun _ => True) (registry.merge field type values) := by
  match values, hne, hpolicy with
  | [value], _, _ => trivial
  | first :: second :: rest, _, hpolicy =>
    have hseveral : 1 < (first :: second :: rest).length := by simp
    obtain ⟨policy, hfound⟩ := Option.isSome_iff_exists.1 (hpolicy hseveral)
    rw [merge_several hseveral hfound]
    cases hmade : policy type (first :: second :: rest) with
    | ok merged => trivial
    | error e => exact ⟨field, type, _, policy, e, hseveral, hfound, hmade, rfl⟩

/-- Values that are accounted for make an input, or a policy reports an error. -/
theorem Assembler.outcome_of_accounted (assembler : Assembler) {gathered : Gathered}
    {edges : List Edge} (h : gathered.Accounted assembler edges) :
    Outcome (fun e => e.kind = .merge → assembler.merges.Reported e) (fun _ => True)
      (assembler.assemble gathered) := by
  refine assembler.outcome_assemble_of_merges (fun e hinternal hmerge => ?_)
    fun field type values hfind htype => ?_
  · rw [hinternal] at hmerge
    cases hmerge
  · refine (MergeRegistry.outcome_merge_of_policy (h.ne_nil field values hfind)
      fun hseveral => ?_).imp (fun _ hreported _ => hreported) fun _ => id
    obtain ⟨type', htype', hpolicy⟩ := h.policy field values hfind hseveral
    rw [htype] at htype'
    exact Except.ok.inj htype' ▸ hpolicy

/-- The error says that there is nothing to merge or no policy to merge it by. -/
def Error.Lacking (e : Error) : Prop :=
  ∃ field type count reason, e = .merge field type count reason ∧
    (reason = "no value to merge" ∨ reason = "no merge policy for this type")

theorem runsPermitted_not_lacking : RunsPermitted (¬ ·.Lacking) := by
  rintro _ hkind ⟨field, type, count, reason, rfl, _⟩
  rcases hkind with h | h | h <;> cases h

/-! ## Runs -/

namespace Graph

variable {graph : Graph} {options : CompileOptions} {circuit : Circuit}

namespace Compiled

variable (h : graph.Compiled options circuit)
  (hnodup : ∀ edge ∈ graph.edges, edge.targets.Nodup)
include h hnodup

/-- The lanes of a station deliver what is accounted for, one wire at a time. -/
theorem yields_accounted {station : Station} (hstation : station ∈ circuit.stations)
    {network : Network} {lanes : Lanes (Network.LaneFeed network.World) (Tap × Tap)}
    (hlanes : network.lanes (circuit.feeding station.key) = .ok lanes) :
    ∃ good : Lanes (Network.LaneFeed network.World) (Tap × Tap) × network.World → Prop,
      (∀ world, good (lanes, world)) ∧
      (Feed.select station.key id).Yields good fun fields =>
        ∃ wire ∈ circuit.feeding station.key, graph.Accounts station [wire] (gather [fields]) := by
  refine ⟨fun p => ∀ entry ∈ p.1.waiting, ∃ wire ∈ circuit.feeding station.key,
    ∃ outputs : Feed network.World Value, entry.1 = wire.feed outputs, fun world entry hentry => ?_,
    fun m w hw => ⟨fun entry hentry => ?_, fun fields hfields => ?_⟩⟩
  · obtain ⟨wire, hwire, p, _, hfeed⟩ := Network.exists_feed_of_lanes hlanes entry hentry
    exact ⟨wire, hwire, p.2, hfeed⟩
  · obtain ⟨old, hold, heq⟩ := Feed.mem_of_mem_pollLanes entry hentry
    exact heq ▸ hw old hold
  · obtain ⟨entry, hentry, p, hpoll⟩ := Feed.exists_of_pollLanes hfields
    obtain ⟨wire, hwire, outputs, hfeed⟩ := hw entry hentry
    rw [id, hfeed] at hpoll
    exact ⟨wire, hwire, h.accounted hnodup hstation (List.singleton_sublist.2 hwire)
      (.cons (Wire.apply_of_feed hpoll) .nil)⟩

/-- A run makes the merge errors that a policy reports or the node that was called
last. -/
theorem reported_of_invoke {value : Value} {e : Error} (he : circuit.invoke value = .error e)
    (hkind : e.kind = .merge) :
    Circuit.FailedLast (circuit.calls value) e ∨ options.merges.Reported e := by
  have hruns : RunsPermitted fun e => e.kind = .merge → options.merges.Reported e := by
    intro e he hmerge
    rw [hmerge] at he
    rcases he with he | he | he <;> cases he
  have hrun := circuit.outcome_invoke_of_assemble hruns
    (fun station hstation contributions hcontributions => ?_) value
  · rw [he] at hrun
    exact hrun.symm.imp_right fun hreported => hreported hkind
  · obtain ⟨edges, _, _, haccounted⟩ :=
      h.accounted hnodup hstation (List.Sublist.refl _) hcontributions
    have hmerges : station.assembler.merges = options.merges := by rw [h.station_eq hstation]; rfl
    exact hmerges ▸ station.assembler.outcome_of_accounted haccounted

end Compiled

/-- Merging is settled when a graph compiles.  Whenever a run puts the input of a station
together, as many values wait for each part of it as the contributing edges have mappings
to it, and where several wait there is a policy for the type that is looked up; a stream
brings the contributions of single edges.  So a merge error of a run is what a policy
reported or what a node returned, and a stream lacks values and policies only in errors
of its nodes and of its input. -/
theorem merging_settled {input output : Ty} {declarations : List Declaration}
    (hgraph : declared input output declarations = graph)
    (h : graph.compile options = .ok circuit) :
    (∀ station ∈ circuit.stations,
      (∀ outputs contributions,
        (circuit.feeding station.key).mapM (Circuit.contribution outputs) = .ok contributions →
          graph.Accounts station (circuit.feeding station.key) (gather contributions)) ∧
      ∀ (network : Network) (lanes : Lanes (Network.LaneFeed network.World) (Tap × Tap)),
        network.lanes (circuit.feeding station.key) = .ok lanes →
          ∃ good : Lanes (Network.LaneFeed network.World) (Tap × Tap) × network.World → Prop,
            (∀ world, good (lanes, world)) ∧
            (Feed.select station.key id).Yields good fun fields =>
              ∃ wire ∈ circuit.feeding station.key,
                graph.Accounts station [wire] (gather [fields])) ∧
    (∀ value e, circuit.invoke value = .error e → e.kind = .merge →
      Circuit.FailedLast (circuit.calls value) e ∨ options.merges.Reported e) ∧
    ((∀ entry ∈ graph.nodes, entry.2.transducer.Keeps (¬ ·.Lacking)) →
      ∀ chunks : List (Chunk Value), (∀ chunk ∈ chunks, Chunk.Within (¬ ·.Lacking) chunk) →
        ∃ stream, circuit.transform chunks = .ok stream ∧
          (∀ chunk ∈ stream.drain, Chunk.Within (¬ ·.Lacking) chunk) ∧
          ∀ moments, ∀ chunk ∈ stream.received moments, Chunk.Within (¬ ·.Lacking) chunk) := by
  have hcompiled := compiled_of_compile (hgraph ▸ wellFormed_declared input output declarations) h
  have hnodup : ∀ edge ∈ graph.edges, edge.targets.Nodup :=
    hgraph ▸ nodup_targets_declared input output declarations
  refine ⟨fun station hstation => ⟨fun outputs contributions hcontributions => ?_,
    fun network lanes => hcompiled.yields_accounted hnodup hstation⟩,
    fun value e => hcompiled.reported_of_invoke hnodup,
    fun hnodes chunks => hcompiled.within_transform runsPermitted_not_lacking hnodes⟩
  exact hcompiled.accounted hnodup hstation (List.Sublist.refl _)
    (Circuit.contribute_of_mapM hcontributions)

/-! ## A policy that says it lacks something -/

/-- Joins two numbers. -/
def meeting : Graph :=
  declared .int .int
    [.node "left" (.pass .int), .node "right" (.pass .int),
      .edge startKey "left", .edge startKey "right", .edge "left" endKey, .edge "right" endKey]

theorem node_of_mem_meeting {entry : String × Node} (h : entry ∈ meeting.nodes) :
    entry.2 = .pass .int := by
  have hmem := mem_declarations_of_mem_nodes h
  simp only [List.mem_cons, Declaration.node.injEq, reduceCtorEq, List.not_mem_nil,
    or_false] at hmem
  rcases hmem with ⟨_, hnode⟩ | ⟨_, hnode⟩ <;> exact hnode

/-- Numbers are not merged, for a reason that merging itself would give. -/
def declining : CompileOptions :=
  { merges := MergeRegistry.standard.registerKind .int (.refuse "no value to merge") }

theorem exists_compile_meeting :
    ∃ circuit, meeting.compile declining = .ok circuit ∧
      circuit.invoke (.int 1) = .error (.merge "" "Int" 2 "no value to merge") := by
  have hfound : (meeting.compile declining).map (·.invoke (.int 1)) =
      .ok (.error (.merge "" "Int" 2 "no value to merge")) := by cbv
  exact map_eq_ok hfound

/-- A run on one ends with an error about a lack of values, though there are two. -/
theorem meeting_lacking :
    ∃ circuit, meeting.compile declining = .ok circuit ∧
      ∃ e, circuit.invoke (.int 1) = .error e ∧ e.Lacking := by
  obtain ⟨circuit, h, hinvoke⟩ := exists_compile_meeting
  exact ⟨circuit, h, _, hinvoke, "", "Int", 2, _, rfl, .inl rfl⟩

/-- The error is what the policy reported, because no node fails. -/
theorem meeting_settled :
    ∃ circuit, meeting.compile declining = .ok circuit ∧
      (Circuit.FailedLast (circuit.calls (.int 1)) (.merge "" "Int" 2 "no value to merge") ∨
        declining.merges.Reported (.merge "" "Int" 2 "no value to merge")) ∧
      (∀ station ∈ circuit.stations, ∀ outputs contributions,
        (circuit.feeding station.key).mapM (Circuit.contribution outputs) = .ok contributions →
          meeting.Accounts station (circuit.feeding station.key) (gather contributions)) ∧
      ∃ stream, circuit.transform [.ok (.int 1)] = .ok stream ∧
        (∀ chunk ∈ stream.drain, Chunk.Within (¬ ·.Lacking) chunk) ∧
        ∀ moments, ∀ chunk ∈ stream.received moments, Chunk.Within (¬ ·.Lacking) chunk := by
  obtain ⟨circuit, h, hinvoke⟩ := exists_compile_meeting
  obtain ⟨haccounted, hruns, hstreams⟩ := merging_settled (rfl : _ = meeting) h
  have hnodes : ∀ entry ∈ meeting.nodes, entry.2.transducer.Keeps (¬ ·.Lacking) := by
    intro entry hentry
    rw [node_of_mem_meeting hentry]
    exact Transducer.keeps_perChunk fun _ => trivial
  exact ⟨circuit, h, hruns _ _ hinvoke rfl, fun station hstation => (haccounted station hstation).1,
    hstreams hnodes [.ok (.int 1)] fun chunk hchunk => by
      rw [List.mem_singleton.1 hchunk]
      trivial⟩

end Graph

end Dataflow
