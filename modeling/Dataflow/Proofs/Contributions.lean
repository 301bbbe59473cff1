import Dataflow.Proofs.Lenses
import Dataflow.Proofs.MergeChecks

/-!
# No contribution is lost

What the edges into a node read arrives in its input.  On the way the values of an edge
go through a table that keeps one value for each target, the tables of the edges are
gathered by target, and the merged values are written one after the other into one zero
value.  No edge fills a target twice, so its table keeps all it has read, in one place
for each target; and a write changes no other part, so the order of writing is of no
account.

* `Circuit.reads_of_contribution`: what an edge contributes to a target.
* `Circuit.reads_of_contributions`: what the edges into a node contribute to it.
* `Assembler.holds_of_writes`: what is read back from an input after the write loop.
* `Graph.input_complete`: the input of a node, target by target.
-/

namespace Dataflow

/-- The values that some mappings read from some outputs, in the order of the
mappings. -/
def Reads (outputs : Table Value) (mappings : List Mapping) (values : List Value) : Prop :=
  List.Forall₂ (fun mapping value => ∃ output, outputs.find? mapping.node = some output ∧
    output.take mapping.source = .ok value) mappings values

/-- The mappings to one target. -/
def Mapping.into (mappings : List Mapping) (target : String) : List Mapping :=
  mappings.filter (·.target = target)

/-! ## Contributions of an edge -/

/-- Of mappings to different targets one at most fills a target. -/
theorem Mapping.into_eq_singleton {mappings : List Mapping} {mapping : Mapping}
    (hnodup : (mappings.map (·.target)).Nodup) (hmapping : mapping ∈ mappings) :
    into mappings mapping.target = [mapping] := by
  have hone : (into mappings mapping.target).Nodup := (List.Nodup.of_map _ hnodup).filter _
  refine List.perm_singleton.1 ((List.perm_ext_iff_of_nodup hone (List.nodup_singleton _)).2
    fun other => ?_)
  rw [List.mem_singleton, into, List.mem_filter, decide_eq_true_iff]
  constructor
  · rintro ⟨hother, htarget⟩
    exact List.inj_on_of_nodup_map hnodup hother hmapping htarget
  · rintro rfl
    exact ⟨hmapping, rfl⟩

namespace Circuit

/-- What a wire contributes to a target is what its one mapping to the target reads, if
it has one. -/
theorem reads_of_contribution {outputs : Table Value} {wire : Wire} {fields : Fields}
    (hnodup : wire.targets.Nodup) (hnode : ∀ mapping ∈ wire.mappings, mapping.node = wire.source)
    (h : contribution outputs wire = .ok fields) (target : String) :
    Reads outputs (Mapping.into wire.mappings target) (fields.find? target).toList := by
  obtain ⟨output, houtput, happly⟩ := contribution_eq_ok h
  cases hfind : fields.find? target with
  | none =>
    have hnone : Mapping.into wire.mappings target = [] := by
      refine List.filter_eq_nil_iff.2 fun mapping hmapping htarget => ?_
      have hsome := (wire.isSome_find?_iff happly target).2
        (List.mem_map.2 ⟨mapping, hmapping, of_decide_eq_true htarget⟩)
      rw [hfind] at hsome
      exact Bool.false_ne_true hsome
    rw [hnone]
    exact .nil
  | some value =>
    obtain ⟨mapping, harriving, htake⟩ :=
      (Mapping.find?_of_extract (Wire.extract_of_apply happly) target value).1 hfind
    obtain ⟨hmapping, rfl⟩ := Mapping.mem_of_arriving? harriving
    rw [Mapping.into_eq_singleton hnodup hmapping]
    exact .cons ⟨output, by rw [hnode mapping hmapping, houtput], htake⟩ .nil

end Circuit

/-! ## Contributions of all edges -/

theorem Mapping.into_append (mappings others : List Mapping) (target : String) :
    into (mappings ++ others) target = into mappings target ++ into others target :=
  List.filter_append _ _

namespace Circuit

/-- The values contributed to a target are those that the mappings to it read, in the
order of the wires. -/
theorem reads_of_contributions {outputs : Table Value} {wires : List Wire}
    {contributions : List Fields} (hnodup : ∀ wire ∈ wires, wire.targets.Nodup)
    (hnode : ∀ wire ∈ wires, ∀ mapping ∈ wire.mappings, mapping.node = wire.source)
    (h : List.Forall₂ (fun wire fields => contribution outputs wire = .ok fields) wires
      contributions) (target : String) :
    Reads outputs (Mapping.into (wires.flatMap (·.mappings)) target)
      (contributions.filterMap (·.find? target)) := by
  induction h with
  | nil => exact .nil
  | @cons wire fields wires contributions hfields _ ih =>
    obtain ⟨hwire, hwires⟩ := List.forall_mem_cons.1 hnodup
    obtain ⟨hsource, hsources⟩ := List.forall_mem_cons.1 hnode
    have hsplit : (fields :: contributions).filterMap (·.find? target) =
        (fields.find? target).toList ++ contributions.filterMap (·.find? target) := by
      rw [List.filterMap_cons]
      cases fields.find? target <;> rfl
    rw [List.flatMap_cons, Mapping.into_append, hsplit]
    exact List.rel_append (reads_of_contribution hwire hsource hfields target) (ih hwires hsources)

end Circuit

/-- The values that are gathered for a target are those that were contributed to it. -/
theorem gather_cases {outputs : Table Value} {mappings : List Mapping}
    {contributions : List Fields} {target : String}
    (h : Reads outputs (Mapping.into mappings target)
      (contributions.filterMap (·.find? target))) :
    (Mapping.into mappings target = [] ∧ (gather contributions).find? target = none) ∨
      Mapping.into mappings target ≠ [] ∧ ∃ values,
        (gather contributions).find? target = some values ∧
          Reads outputs (Mapping.into mappings target) values := by
  rw [find?_gather]
  by_cases hnone : contributions.filterMap (·.find? target) = []
  · rw [hnone] at h
    rw [if_pos hnone]
    exact .inl ⟨List.forall₂_nil_right_iff.1 h, rfl⟩
  · rw [if_neg hnone]
    refine .inr ⟨fun heq => hnone ?_, _, rfl, h⟩
    rw [heq] at h
    exact List.forall₂_nil_left_iff.1 h

/-! ## The write loop -/

namespace Assembler

variable {assembler : Assembler} {input stored made : Value}

/-- The part of the input under a name is what some values merge to. -/
def Holds (assembler : Assembler) (made : Value) (name : String) (values : List Value) : Prop :=
  ∃ type merged, assembler.target.part name = .ok type ∧
    assembler.merges.merge name type values = .ok merged ∧ made.take name = .ok merged

/-- Storing a part writes what its values merge to, and nothing else. -/
theorem holds_of_store {field : String} {values : List Value} (hinput : input.Formed)
    (hfield : field ≠ "") (h : assembler.store input field values = .ok stored) :
    assembler.Holds stored field values ∧ stored.Formed ∧
      ∀ other, other ≠ "" → other ≠ field → stored.take other = input.take other := by
  obtain ⟨type, htype, h⟩ := bind_eq_ok h
  obtain ⟨merged, hmerged, h⟩ := bind_eq_ok h
  have hassign := mapError_eq_ok h
  refine ⟨⟨type, merged, mapError_eq_ok htype, hmerged, ?_⟩, ?_, fun other hother hne => ?_⟩
  · exact Value.take_assign_self hinput hfield hassign
  · exact Value.formed_assign hinput hfield hassign
  · exact Value.take_assign_of_ne hfield hassign hother hne

/-- After the writes of some entries with different names each part that was written
holds what was written to it, and the other parts are what they were. -/
theorem holds_of_writes {entries : List (String × List Value)} (hinput : input.Formed)
    (hascending : Ordered.Ascending entries) (hnames : ∀ entry ∈ entries, entry.1 ≠ "")
    (h : entries.foldlM (fun input entry => assembler.store input entry.1 entry.2) input =
      .ok made) :
    (∀ entry ∈ entries, assembler.Holds made entry.1 entry.2) ∧
      ∀ other, other ≠ "" → (∀ entry ∈ entries, entry.1 ≠ other) →
        made.take other = input.take other := by
  induction entries generalizing input with
  | nil =>
    obtain rfl := Except.ok.inj h
    exact ⟨nofun, fun _ _ _ => rfl⟩
  | cons entry rest ih =>
    rw [List.foldlM_cons] at h
    obtain ⟨stored, hstored, h⟩ := bind_eq_ok h
    obtain ⟨hname, hnames⟩ := List.forall_mem_cons.1 hnames
    obtain ⟨⟨type, merged, htype, hmerged, htake⟩, hformed, hframe⟩ :=
      holds_of_store hinput hname hstored
    obtain ⟨hrest, hothers⟩ := ih hformed (List.pairwise_cons.1 hascending).2 hnames h
    refine ⟨List.forall_mem_cons.2 ⟨⟨type, merged, htype, hmerged, ?_⟩, hrest⟩, ?_⟩
    · -- the later entries have other names, so they leave this part alone
      rw [← htake]
      exact hothers entry.1 hname fun later hlater =>
        Ordered.ne_of_mem_of_ascending hascending hlater
    · intro other hother hne
      obtain ⟨hfirst, hlater⟩ := List.forall_mem_cons.1 hne
      rw [hothers other hother hlater, hframe other hother (Ne.symm hfirst)]

/-- An input that is assembled of parts holds what was gathered for each of them, and is
zero elsewhere. -/
theorem holds_of_assemble {gathered : Gathered} (hparts : gathered.find? "" = none)
    (h : assembler.assemble gathered = .ok made) :
    (∀ name values, gathered.find? name = some values → assembler.Holds made name values) ∧
      ∀ name, name ≠ "" → gathered.find? name = none →
        made.take name = assembler.target.zero.take name := by
  rw [assemble_of_none hparts] at h
  have hnames : ∀ entry ∈ gathered.entries, entry.1 ≠ "" := fun entry hentry =>
    Gathered.ne_empty hparts (Table.mem_entries_iff.1 hentry)
  obtain ⟨hwritten, hframe⟩ :=
    holds_of_writes (Ty.formed_zero assembler.target) gathered.ascending hnames h
  refine ⟨fun name values hfind => ?_, fun name hname hfind => ?_⟩
  · exact hwritten (name, values) (Table.mem_entries_iff.2 hfind)
  · refine hframe name hname fun entry hentry heq => ?_
    rw [← heq, Table.mem_entries_iff.1 hentry] at hfind
    exact nomatch hfind

end Assembler

/-! ## The input of a node -/

/-- Mappings to parts of an input fill it: each part holds what its mappings read, merged
if there are several, and the other parts are zero. -/
structure FilledInParts (assembler : Assembler) (outputs : Table Value) (mappings : List Mapping)
    (made : Value) : Prop where
  named : ∀ mapping ∈ mappings, mapping.target ≠ ""
  fed : ∀ mapping ∈ mappings, ∃ values,
    Reads outputs (Mapping.into mappings mapping.target) values ∧
      assembler.Holds made mapping.target values
  alone : ∀ mapping ∈ mappings, Mapping.into mappings mapping.target = [mapping] →
    ∃ output value, outputs.find? mapping.node = some output ∧
      output.take mapping.source = .ok value ∧ made.take mapping.target = .ok value
  rest : ∀ name, name ≠ "" → (∀ mapping ∈ mappings, mapping.target ≠ name) →
    made.take name = assembler.target.zero.take name

/-- Mappings to the whole input fill it: it is what they read, merged if there are
several. -/
structure FilledAsWhole (assembler : Assembler) (outputs : Table Value) (mappings : List Mapping)
    (made : Value) : Prop where
  whole : ∀ mapping ∈ mappings, mapping.target = ""
  fed : ∃ values, Reads outputs mappings values ∧
    assembler.merges.merge "" assembler.target values = .ok made

namespace Assembler

variable {assembler : Assembler} {outputs : Table Value} {mappings : List Mapping}
  {contributions : List Fields} {made : Value}

theorem filledInParts_of_assemble (hnamed : ∀ mapping ∈ mappings, mapping.target ≠ "")
    (hreads : ∀ target, Reads outputs (Mapping.into mappings target)
      (contributions.filterMap (·.find? target)))
    (h : assembler.assemble (gather contributions) = .ok made) :
    FilledInParts assembler outputs mappings made := by
  have hinto : ∀ {target : String}, (∀ mapping ∈ mappings, mapping.target ≠ target) →
      Mapping.into mappings target = [] := fun hne =>
    List.filter_eq_nil_iff.2 fun mapping hmapping htarget =>
      hne mapping hmapping (of_decide_eq_true htarget)
  have hnone : ∀ {target : String}, (∀ mapping ∈ mappings, mapping.target ≠ target) →
      (gather contributions).find? target = none := fun hne =>
    ((gather_cases (hreads _)).resolve_right fun hsome => hsome.1 (hinto hne)).2
  obtain ⟨hheld, hzero⟩ := holds_of_assemble (hnone hnamed) h
  have hfed : ∀ mapping ∈ mappings, ∃ values,
      Reads outputs (Mapping.into mappings mapping.target) values ∧
        assembler.Holds made mapping.target values := by
    intro mapping hmapping
    rcases gather_cases (hreads mapping.target) with ⟨hempty, -⟩ | ⟨-, values, hfind, hvalues⟩
    · exact absurd (decide_eq_true rfl) (List.filter_eq_nil_iff.1 hempty mapping hmapping)
    · exact ⟨values, hvalues, hheld _ _ hfind⟩
  refine ⟨hnamed, hfed, fun mapping hmapping hone => ?_, fun name hname hne => ?_⟩
  · obtain ⟨values, hvalues, type, merged, -, hmerged, htake⟩ := hfed mapping hmapping
    rw [hone] at hvalues
    cases hvalues with
    | cons hvalue hnil =>
      obtain ⟨output, houtput, hvalue⟩ := hvalue
      cases hnil
      exact ⟨output, _, houtput, hvalue, htake.trans (congrArg _ (Except.ok.inj hmerged).symm)⟩
  · exact hzero name hname (hnone hne)

theorem filledAsWhole_of_assemble (hne : mappings ≠ [])
    (hwhole : ∀ mapping ∈ mappings, mapping.target = "")
    (hreads : ∀ target, Reads outputs (Mapping.into mappings target)
      (contributions.filterMap (·.find? target)))
    (h : assembler.assemble (gather contributions) = .ok made) :
    FilledAsWhole assembler outputs mappings made := by
  have hinto : Mapping.into mappings "" = mappings :=
    List.filter_eq_self.2 fun mapping hmapping => decide_eq_true (hwhole mapping hmapping)
  have honly : ∀ fields ∈ contributions, ∀ target value, fields.find? target = some value →
      target = "" := by
    intro fields hfields target value hvalue
    obtain ⟨mapping, hmapping, -⟩ := exists_left_of_forall₂ (hreads target)
      (List.mem_filterMap.2 ⟨fields, hfields, hvalue⟩)
    obtain ⟨hmapping, htarget⟩ := List.mem_filter.1 hmapping
    rw [← of_decide_eq_true htarget]
    exact hwhole mapping hmapping
  rcases gather_cases (hreads "") with ⟨hempty, -⟩ | ⟨-, values, hfind, hvalues⟩
  · exact absurd (hinto.symm.trans hempty) hne
  · rw [assemble_of_whole honly hfind] at h
    exact ⟨hwhole, values, hinto ▸ hvalues, h⟩

end Assembler

namespace Graph

variable {graph : Graph} {options : CompileOptions} {circuit : Circuit}

namespace Compiled

variable (h : graph.Compiled options circuit)
include h

/-- The mappings into a node fill parts of its input, or all of them fill the whole. -/
theorem mappingsInto_cases {key : String} (hkey : key ∈ graph.keys) :
    (∀ mapping ∈ graph.mappingsInto key, mapping.target ≠ "") ∨
      graph.mappingsInto key ≠ [] ∧ ∀ mapping ∈ graph.mappingsInto key, mapping.target = "" := by
  by_cases hempty : graph.mappingsInto key = []
  · rw [hempty]
    exact .inl nofun
  have hstart : key ≠ startKey := by
    rintro rfl
    rw [← h.mappings_incoming, h.incoming_startKey] at hempty
    exact hempty rfl
  have huniform := (h.checked key hkey hstart).uniform
  rw [filledTargets_eq, List.forall_mem_map, List.forall_mem_map] at huniform
  exact huniform.symm.imp_right fun hwhole => ⟨hempty, hwhole⟩

/-- What contributes to a node is what its mappings read. -/
theorem reads_of_contributions (hnodup : ∀ edge ∈ graph.edges, edge.targets.Nodup)
    (hnode : ∀ edge ∈ graph.edges, ∀ mapping ∈ edge.effectiveMappings, mapping.node = edge.source)
    {outputs : Table Value} {key : String} {contributions : List Fields}
    (hcontributions : (circuit.incoming key).mapM (Circuit.contribution outputs) =
      .ok contributions) (target : String) :
    Reads outputs (Mapping.into (graph.mappingsInto key) target)
      (contributions.filterMap (·.find? target)) := by
  rw [← h.mappings_incoming]
  refine Circuit.reads_of_contributions (fun wire hwire => ?_) (fun wire hwire => ?_)
    (forall₂_of_mapM_eq_ok hcontributions) target
  all_goals obtain ⟨edge, hedge, hof⟩ := h.exists_edge_of_incoming hwire
  · rw [Wire.targets_of_wireOf hof]
    exact hnodup edge (List.mem_filter.1 hedge).1
  · rw [hof.mappings, hof.source]
    exact hnode edge (List.mem_filter.1 hedge).1

end Compiled

/-- No contribution is lost on the way into a node.  Whatever the outputs so far are, an
input that is assembled from them holds at each target what the mappings to the target
read, merged in order of declaration, and is zero in all its other parts; or it is as a
whole what the mappings read, merged in the same order. -/
theorem input_complete {input output : Ty} {declarations : List Declaration}
    (hgraph : declared input output declarations = graph)
    (htrigger : options.trigger = .allPredecessors) (h : graph.compile options = .ok circuit)
    {station : Station} (hstation : station ∈ circuit.stations) {outputs : Table Value}
    {made : Value} (hmade : circuit.stationInput outputs station = .ok made) :
    let assembler : Assembler := ⟨graph.inputType station.key, options.merges⟩
    FilledInParts assembler outputs (graph.mappingsInto station.key) made ∨
      FilledAsWhole assembler outputs (graph.mappingsInto station.key) made := by
  intro assembler
  have hcompiled := compiled_of_compile (hgraph ▸ wellFormed_declared input output declarations) h
  obtain ⟨contributions, hcontributions, hassemble⟩ := bind_eq_ok hmade
  rw [hcompiled.feeding_eq htrigger] at hcontributions
  have hreads := hcompiled.reads_of_contributions
    (hgraph ▸ nodup_targets_declared input output declarations)
    (hgraph ▸ node_of_mem_declared input output declarations) hcontributions
  have hassembler : station.assembler = assembler := by rw [hcompiled.station_eq hstation]; rfl
  rw [hassembler] at hassemble
  rcases hcompiled.mappingsInto_cases (hcompiled.key_mem hstation) with hnamed | ⟨hne, hwhole⟩
  · exact .inl (Assembler.filledInParts_of_assemble hnamed hreads hassemble)
  · exact .inr (Assembler.filledAsWhole_of_assemble hne hwhole hreads hassemble)

/-! ## A bill of two numbers -/

/-- A total, a count and a note. -/
def bill : RecordType :=
  (((RecordOf.named "Bill").field "total" .int).field "count" .int).field "note" .string

/-- Two numbers meet in the total of a bill, and one of them is its count as well. -/
def billing : Graph :=
  declared .int (.record bill)
    [.node "left" (.pass .int), .node "right" (.pass .int), .node "bill" (.pass (.record bill)),
      .edge startKey "left", .edge startKey "right",
      .mapped "left" "bill" [⟨"left", "", "total"⟩],
      .mapped "right" "bill" [⟨"right", "", "count"⟩, ⟨"right", "", "total"⟩],
      .edge "bill" endKey]

/-- Of several numbers the first one is taken. -/
def firstNumber : CompileOptions :=
  { merges := MergeRegistry.standard.registerKind .int .first }

/-- The total is the number of the edge that was declared first, the count is the number
of the other, and the note is empty. -/
theorem input_complete_billing :
    let outputs : Table Value := (Table.empty.insert "left" (.int 3)).insert "right" (.int 5)
    let mappings : List Mapping :=
      [⟨"left", "", "total"⟩, ⟨"right", "", "count"⟩, ⟨"right", "", "total"⟩]
    ∃ circuit made, billing.compile firstNumber = .ok circuit ∧
      circuit.stationInput outputs (billing.station firstNumber "bill") = .ok made ∧
      FilledInParts ⟨.record bill, firstNumber.merges⟩ outputs mappings made ∧
      made = .record bill [.int 3, .int 5, .string ""] := by
  intro outputs mappings
  have hfound : (billing.compile firstNumber).map (fun circuit =>
      circuit.stationInput outputs (billing.station firstNumber "bill")) =
        .ok (.ok (.record bill [.int 3, .int 5, .string ""])) := by cbv
  have hparts : (billing.keys, billing.inputType "bill", billing.mappingsInto "bill") =
      ([startKey, endKey, "left", "right", "bill"], .record bill, mappings) := by cbv
  obtain ⟨hkeys, htype, hmappings⟩ : _ ∧ _ ∧ _ := by simpa only [Prod.mk.injEq] using hparts
  obtain ⟨circuit, h, hmade⟩ := map_eq_ok hfound
  have hstation := (compiled_of_compile (wellFormed_declared _ _ _) h).station_mem
    (show "bill" ∈ billing.keys by simp [hkeys])
  refine ⟨circuit, _, h, hmade, ?_, rfl⟩
  have hfilled := input_complete (rfl : _ = billing) rfl h hstation hmade
  change FilledInParts ⟨billing.inputType "bill", _⟩ _ (billing.mappingsInto "bill") _ ∨
    FilledAsWhole ⟨billing.inputType "bill", _⟩ _ (billing.mappingsInto "bill") _ at hfilled
  rw [htype, hmappings] at hfilled
  exact hfilled.resolve_right fun hwhole => absurd (hwhole.whole _ List.mem_cons_self) (by decide)

end Graph

end Dataflow
