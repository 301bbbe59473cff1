import Dataflow.Proofs.Rearranging
import Dataflow.Proofs.Registries

/-!
# Workflows in another order

The nodes of a workflow can be added in any order, and the mappings of an intake can be
given in any order.  Which nodes feed each other stays the same, so the structure has the
same defects, and each edge has a counterpart with its mappings rearranged, which makes
a wire with the same guards.  Structure comes before types when a workflow is compiled,
so the kind of the error stays the same as well, even though another defect may be met
first.  A station gathers the same from its wires, since there is one value for each
target.

* `Workflow.Reordered`: the same workflow declared in another order.
* `Workflow.Reordered.kind_eq`: the kind of the error.
* `Workflow.Reordered.invoke_eq_ok`: the result of a run.
* `Workflow.compile_order_irrelevant`: both at once.
-/

namespace Dataflow

/-! ## Stations that gather the same -/

namespace Circuit

variable {circuit other : Circuit}

/-- Two circuits find the same results. -/
def SameResults (circuit other : Circuit) : Prop :=
  ∀ value result, circuit.invoke value = .ok result ↔ other.invoke value = .ok result

/-- A rearranged wire contributes the same to a run. -/
theorem contribution_of_rearranged {wire wire' : Wire} (h : wire.Rearranged wire')
    (hnodup : wire.targets.Nodup) {outputs : Table Value} {fields : Fields}
    (hfields : contribution outputs wire = .ok fields) :
    contribution outputs wire' = .ok fields := by
  unfold contribution at hfields ⊢
  rw [h.source]
  split at hfields
  · exact nomatch hfields
  · exact h.apply hnodup hfields

/-- With nothing to merge, a station makes the same in another circuit when its wires
have counterparts there that contribute the same, and there are no other wires. -/
theorem makes_eq_ok_of_contributions (hunmerged : circuit.Unmerged) (hunmerged' : other.Unmerged)
    {station : Station} (hstation : station ∈ circuit.stations)
    (hstation' : station ∈ other.stations) {outputs : Table Value} {output : Value}
    (hwires : ∀ wire ∈ circuit.feeding station.key, ∃ wire' ∈ other.feeding station.key,
      ∀ fields, contribution outputs wire = .ok fields → contribution outputs wire' = .ok fields)
    (hwires' : ∀ wire' ∈ other.feeding station.key, ∃ wire ∈ circuit.feeding station.key,
      ∀ fields, contribution outputs wire = .ok fields → contribution outputs wire' = .ok fields)
    (hmakes : circuit.makes outputs station = .ok output) :
    other.makes outputs station = .ok output := by
  refine makes_eq_ok_of_gather (fun contributions hcontributions => ?_) hmakes
  have hall := forall₂_of_mapM_eq_ok hcontributions
  -- what the counterpart of a wire contributes is there as well
  have hcounterpart : ∀ wire' ∈ other.feeding station.key, ∃ fields ∈ contributions,
      contribution outputs wire' = .ok fields := by
    intro wire' hwire'
    obtain ⟨wire, hwire, hsame⟩ := hwires' wire' hwire'
    obtain ⟨fields, hmem, hfields⟩ := exists_right_of_forall₂ hall hwire
    exact ⟨fields, hmem, hsame fields hfields⟩
  obtain ⟨others, hothers⟩ : ∃ others,
      (other.feeding station.key).mapM (contribution outputs) = .ok others :=
    exists_mapM_eq_ok fun wire' hwire' =>
      let ⟨fields, _, hfields⟩ := hcounterpart wire' hwire'
      ⟨fields, hfields⟩
  have hall' := forall₂_of_mapM_eq_ok hothers
  refine ⟨others, hothers, gather_eq_of_single
    (hunmerged station hstation _ (.refl _) _ (contribute_of_mapM hcontributions))
    (hunmerged' station hstation' _ (.refl _) _ (contribute_of_mapM hothers)) fun fields => ?_⟩
  constructor
  · intro hmem
    obtain ⟨wire', hwire', hfields⟩ := exists_left_of_forall₂ hall' hmem
    obtain ⟨fields', hmem', hfields'⟩ := hcounterpart wire' hwire'
    rw [hfields] at hfields'
    exact Except.ok.inj hfields' ▸ hmem'
  · intro hmem
    obtain ⟨wire, hwire, hfields⟩ := exists_left_of_forall₂ hall hmem
    obtain ⟨wire', hwire', hsame⟩ := hwires wire hwire
    obtain ⟨fields', hmem', hfields'⟩ := exists_right_of_forall₂ hall' hwire'
    rw [hsame fields hfields] at hfields'
    exact Except.ok.inj hfields' ▸ hmem'

end Circuit

namespace Workflow

variable {workflow other : Workflow} {options : CompileOptions} {circuit circuit' : Circuit}

/-! ## Rejected workflows -/

/-- Compiling rejects the structure of a workflow when it is for another trigger or when
an intake is not clear. -/
theorem exists_structural (h : ¬(options.trigger = .allPredecessors ∧
    ∀ intake ∈ workflow.intakes, intake.Clear)) :
    ∃ fault, workflow.compile options = .error (.structural fault) := by
  by_cases htrigger : options.trigger = .allPredecessors
  · have hchecks : Outcome (fun e => ∃ fault, e = .structural fault) (fun _ => True)
        (workflow.intakes.forM Intake.check) := by
      refine outcome_forM fun intake _ => ?_
      unfold Intake.check
      cases intake.fault? with
      | none => trivial
      | some fault => exact ⟨fault, rfl⟩
    rw [compile, if_neg (not_not.2 htrigger)]
    cases hall : workflow.intakes.forM Intake.check with
    | ok _ => exact absurd ⟨htrigger, clear_of_checks hall⟩ h
    | error e =>
      rw [hall] at hchecks
      obtain ⟨fault, rfl⟩ := hchecks
      exact ⟨fault, rfl⟩
  · exact ⟨_, by rw [compile, if_pos htrigger]; rfl⟩

/-- What is reported of a workflow whose intakes are clear. -/
theorem reported_of_clear (h : workflow.WellFormed)
    (hclear : ∀ intake ∈ workflow.intakes, intake.Clear)
    (htrigger : options.trigger = .allPredecessors) :
    Outcome workflow.Reported (fun _ => ∀ e, ¬workflow.Defect e) (workflow.compile options) :=
  reported_of_compile h (fun intake hintake => Intake.check_of_clear (hclear intake hintake))
    htrigger

theorem Defect.kind {e : Error} (h : workflow.Defect e) :
    e.kind = .structural ∨ e.kind = .staticType := by
  cases h with
  | mistyped => exact .inr rfl
  | _ => exact .inl rfl

theorem nodup_targets (hclear : ∀ intake ∈ workflow.intakes, intake.Clear) {edge : Edge}
    (hedge : edge ∈ workflow.edges) : edge.targets.Nodup := by
  obtain ⟨intake, hintake, hmem⟩ := List.mem_flatMap.1 hedge
  exact (hclear intake hintake).nodup_targets hmem

theorem nodup_targets_of_wire (h : workflow.WellFormed)
    (hcompile : workflow.compile options = .ok circuit) {wire : Wire}
    (hwire : wire ∈ circuit.wires) : wire.targets.Nodup := by
  obtain ⟨_, hclear, _, _⟩ := drawing_of_compile h hcompile
  obtain ⟨edge, hedge, hof⟩ := (compiled_of_compile h hcompile).1.exists_edge hwire
  rw [Wire.targets, hof.mappings]
  exact nodup_targets hclear hedge

/-! ## Another order -/

/-- The workflow declared in another order: its nodes are added in another order, and
the mappings of each intake are given in another order. -/
structure Reordered (workflow other : Workflow) : Prop where
  input_eq : other.graph.input = workflow.graph.input
  output_eq : other.graph.output = workflow.graph.output
  nodes : other.graph.nodes.Perm workflow.graph.nodes
  intakes : ∀ intake ∈ workflow.intakes, ∃ intake' ∈ other.intakes,
    intake'.key = intake.key ∧ intake'.inputs.Perm intake.inputs

namespace Reordered

theorem perm_keys (h : workflow.Reordered other) :
    other.graph.keys.Perm workflow.graph.keys :=
  ((h.nodes.map _).cons _).cons _

/-- What feeds a node feeds it in the other workflow. -/
theorem feeds (h : workflow.Reordered other) {source target : String}
    (hfeeds : workflow.Feeds source target) : other.Feeds source target := by
  obtain ⟨intake, hintake, rfl, mapping, hmapping, rfl⟩ := hfeeds
  obtain ⟨intake', hintake', hkey, hinputs⟩ := h.intakes intake hintake
  exact ⟨intake', hintake', hkey, mapping, hinputs.mem_iff.2 hmapping, rfl⟩

/-- An edge has a counterpart in the other workflow. -/
theorem exists_edge (h : workflow.Reordered other) {edge : Edge} (hedge : edge ∈ workflow.edges) :
    ∃ edge' ∈ other.edges, edge.Rearranged edge' := by
  obtain ⟨intake, hintake, hmem⟩ := List.mem_flatMap.1 hedge
  obtain ⟨intake', hintake', hkey, hinputs⟩ := h.intakes intake hintake
  obtain ⟨edge', hmem', hedge'⟩ := Intake.exists_rearranged hkey hinputs hmem
  exact ⟨edge', List.mem_flatMap.2 ⟨intake', hintake', hmem'⟩, hedge'⟩

section

variable (hworkflow : workflow.WellFormed) (hother : other.WellFormed)
  (h : workflow.Reordered other)
include hworkflow hother h

theorem symm : other.Reordered workflow := by
  refine ⟨h.input_eq.symm, h.output_eq.symm, h.nodes.symm, fun intake' hintake' => ?_⟩
  have hkey : intake'.key ∈ workflow.intakes.map (·.key) := by
    rw [hworkflow.mem_keys_intakes, ← h.perm_keys.mem_iff, ← hother.mem_keys_intakes]
    exact List.mem_map_of_mem hintake'
  obtain ⟨intake, hintake, hkey⟩ := List.mem_map.1 hkey
  obtain ⟨found, hfound, hkey', hinputs⟩ := h.intakes intake hintake
  -- there is no other intake with the key
  obtain rfl := List.inj_on_of_nodup_map hother.keys_nodup hfound hintake' (hkey'.trans hkey)
  exact ⟨intake, hintake, hkey, hinputs.symm⟩

theorem clear (hclear : ∀ intake ∈ workflow.intakes, intake.Clear) :
    ∀ intake ∈ other.intakes, intake.Clear := by
  intro intake' hintake'
  obtain ⟨intake, hintake, _, hinputs⟩ := (h.symm hworkflow hother).intakes intake' hintake'
  exact (hclear intake hintake).of_perm hinputs.symm

/-- The nodes are those of a graph that was declared in another order. -/
theorem redeclared : workflow.graph.Redeclared other.graph where
  input_eq := h.input_eq
  output_eq := h.output_eq
  nodes := h.nodes
  edges := by rw [hworkflow.edges, hother.edges]
  filling key target := by
    rw [Graph.incoming, Graph.incoming, hworkflow.edges, hother.edges]

theorem wire_eq (edge : Edge) : other.drawing.wire edge = workflow.drawing.wire edge :=
  Graph.wire_of_redeclared hworkflow.graph hother.graph (h.redeclared hworkflow hother) edge

theorem station_eq (key : String) :
    other.drawing.station options key = workflow.drawing.station options key :=
  Graph.station_of_redeclared hworkflow.graph hother.graph (h.redeclared hworkflow hother) key

/-! ## Defects -/

/-- A defect of the structure is one of the other workflow. -/
theorem defect_structural {fault : GraphFault} (hdefect : workflow.Defect (.structural fault)) :
    other.Defect (.structural fault) := by
  cases hdefect with
  | sourceMissing hfeeds hmissing =>
    exact .sourceMissing (h.feeds hfeeds) (mt h.perm_keys.mem_iff.1 hmissing)
  | sourceEnd hfeeds => exact .sourceEnd (h.feeds hfeeds)
  | cycle hcycle => exact .cycle (Relation.TransGen.mono (fun _ _ => h.feeds) _ _ hcycle)
  | unheard hkey hnone =>
    exact .unheard ((h.nodes.map _).mem_iff.2 hkey) fun target hfeeds =>
      hnone target ((h.symm hworkflow hother).feeds hfeeds)

/-- When the types rule out an edge, they rule out an edge of the other workflow. -/
theorem exists_mistyped (hclear : ∀ intake ∈ workflow.intakes, intake.Clear)
    {mapping reason : String} (hdefect : workflow.Defect (.staticType mapping reason)) :
    ∃ mapping' reason', other.Defect (.staticType mapping' reason') := by
  cases hdefect with
  | @mistyped edge _ _ hedge hwire =>
    have hclear' := h.clear hworkflow hother hclear
    obtain ⟨edge', hedge', hrearranged⟩ := h.exists_edge hedge
    cases hwire' : other.drawing.wire edge' with
    | ok wire' =>
      rw [h.wire_eq hworkflow hother] at hwire'
      obtain ⟨wire, hok, _⟩ := Graph.exists_wire_of_rearranged hrearranged.symm
        (nodup_targets hclear' hedge') hwire'
      rw [hwire] at hok
      exact nomatch hok
    | error e =>
      have hkind := kind_of_wire_error hclear' hedge' hwire'
      cases e with
      | staticType mapping' reason' => exact ⟨mapping', reason', .mistyped hedge' hwire'⟩
      | _ => exact nomatch hkind

/-- When something is wrong with a workflow, something is wrong with the other one. -/
theorem exists_defect (hclear : ∀ intake ∈ workflow.intakes, intake.Clear) {e : Error}
    (hdefect : workflow.Defect e) : ∃ e', other.Defect e' := by
  cases e with
  | structural fault => exact ⟨_, h.defect_structural hworkflow hother hdefect⟩
  | staticType mapping reason =>
    obtain ⟨mapping', reason', hdefect'⟩ := h.exists_mistyped hworkflow hother hclear hdefect
    exact ⟨_, hdefect'⟩
  | _ => cases hdefect

/-- A defect of the structure makes the other workflow report one too, not always the
same one. -/
theorem kind_of_structural {fault : GraphFault} (hdefect : workflow.Defect (.structural fault))
    {e : Error} (hreported : other.Reported e) : e.kind = .structural :=
  hreported.defect.kind.resolve_right fun hkind =>
    hreported.first hkind fault (h.defect_structural hworkflow hother hdefect)

/-- Compiling reports defects of the same kind. -/
theorem kind_eq {e e' : Error} (hreported : workflow.Reported e) (hreported' : other.Reported e') :
    e.kind = e'.kind := by
  rcases hreported.defect.kind with hkind | hkind
  · cases e with
    | structural fault =>
      exact (h.kind_of_structural hworkflow hother hreported.defect hreported').symm
    | _ => cases hkind
  · refine hkind.trans (hreported'.defect.kind.resolve_left fun hkind' => ?_).symm
    cases e' with
    | structural fault =>
      have hother' := h.symm hworkflow hother
      rw [hother'.kind_of_structural hother hworkflow hreported'.defect hreported] at hkind
      cases hkind
    | _ => cases hkind'

/-! ## Runs -/

/-- A wire has a counterpart in the other circuit. -/
theorem exists_wire (hcompile : workflow.compile options = .ok circuit)
    (hcompile' : other.compile options = .ok circuit') {wire : Wire} (hwire : wire ∈ circuit.wires) :
    ∃ wire' ∈ circuit'.wires, wire.Rearranged wire' := by
  obtain ⟨_, hclear, _, hdrawing⟩ := drawing_of_compile hworkflow hcompile
  obtain ⟨_, _, _, hdrawing'⟩ := drawing_of_compile hother hcompile'
  obtain ⟨edge, hedge, hmade⟩ := exists_left_of_forall₂ (Graph.wires_of_compile hdrawing) hwire
  obtain ⟨edge', hedge', hrearranged⟩ := h.exists_edge hedge
  obtain ⟨wire', hmade', hwires⟩ :=
    Graph.exists_wire_of_rearranged hrearranged (nodup_targets hclear hedge) hmade
  obtain ⟨found, hfound, hmade''⟩ :=
    exists_right_of_forall₂ (Graph.wires_of_compile hdrawing') hedge'
  rw [h.wire_eq hworkflow hother, hmade'] at hmade''
  exact ⟨found, hfound, Except.ok.inj hmade'' ▸ hwires⟩

/-- A run of the other circuit finds the same result. -/
theorem invoke_eq_ok (hcompile : workflow.compile options = .ok circuit)
    (hcompile' : other.compile options = .ok circuit') {value result : Value}
    (hinvoke : circuit.invoke value = .ok result) : circuit'.invoke value = .ok result := by
  obtain ⟨htrigger, _, _, _⟩ := drawing_of_compile hworkflow hcompile
  obtain ⟨hcompiled, hunmerged⟩ := compiled_of_compile hworkflow hcompile
  obtain ⟨hcompiled', hunmerged'⟩ := compiled_of_compile hother hcompile'
  have hstations : circuit.stations.Perm circuit'.stations :=
    hcompiled.perm_stations hcompiled' h.perm_keys (h.station_eq hworkflow hother)
  refine Circuit.invoke_eq_ok_of_makes (hcompiled.sequential hcompiled.schedule)
    (hcompiled'.sequential hcompiled'.schedule) ?_ hstations ?_ hinvoke
  · rw [Circuit.inputGuard, Circuit.inputGuard, hcompiled.input_eq, hcompiled'.input_eq]
    exact congrArg (Guard.mk _ _) h.input_eq.symm
  intro station hstation _ outputs output hmakes
  refine Circuit.makes_eq_ok_of_contributions hunmerged hunmerged' hstation
    (hstations.mem_iff.1 hstation) (fun wire hwire => ?_) (fun wire' hwire' => ?_) hmakes
  · rw [hcompiled.feeding_eq htrigger, Circuit.mem_incoming] at hwire
    obtain ⟨wire', hwire', hrearranged⟩ :=
      h.exists_wire hworkflow hother hcompile hcompile' hwire.1
    refine ⟨wire', ?_, fun fields => Circuit.contribution_of_rearranged hrearranged
      (nodup_targets_of_wire hworkflow hcompile hwire.1)⟩
    rw [hcompiled'.feeding_eq htrigger, Circuit.mem_incoming]
    exact ⟨hwire', hrearranged.target.trans hwire.2⟩
  · rw [hcompiled'.feeding_eq htrigger, Circuit.mem_incoming] at hwire'
    obtain ⟨wire, hwire, hrearranged⟩ := (h.symm hworkflow hother).exists_wire hother hworkflow
      hcompile' hcompile hwire'.1
    refine ⟨wire, ?_, fun fields => Circuit.contribution_of_rearranged hrearranged.symm
      (nodup_targets_of_wire hworkflow hcompile hwire)⟩
    rw [hcompiled.feeding_eq htrigger, Circuit.mem_incoming]
    exact ⟨hwire, hrearranged.target.trans hwire'.2⟩

end

end Reordered

/-- Clear workflows are compiled alike. -/
theorem Reordered.alike_of_clear (hworkflow : workflow.WellFormed) (hother : other.WellFormed)
    (h : workflow.Reordered other) (htrigger : options.trigger = .allPredecessors)
    (hclear : ∀ intake ∈ workflow.intakes, intake.Clear) :
    Alike Circuit.SameResults ((workflow.compile options).mapError Error.kind)
      ((other.compile options).mapError Error.kind) := by
  have hsymm := h.symm hworkflow hother
  have hclear' := h.clear hworkflow hother hclear
  have hreported := reported_of_clear hworkflow hclear htrigger
  have hreported' := reported_of_clear hother hclear' htrigger
  cases hcompile : workflow.compile options with
  | ok circuit =>
    rw [hcompile] at hreported
    cases hcompile' : other.compile options with
    | ok circuit' =>
      exact fun value result => ⟨h.invoke_eq_ok hworkflow hother hcompile hcompile',
        hsymm.invoke_eq_ok hother hworkflow hcompile' hcompile⟩
    | error e' =>
      rw [hcompile'] at hreported'
      obtain ⟨e, hdefect⟩ := hsymm.exists_defect hother hworkflow hclear' hreported'.defect
      exact absurd hdefect (hreported e)
  | error e =>
    rw [hcompile] at hreported
    cases hcompile' : other.compile options with
    | ok circuit' =>
      rw [hcompile'] at hreported'
      obtain ⟨e', hdefect⟩ := h.exists_defect hworkflow hother hclear hreported.defect
      exact absurd hdefect (hreported' e')
    | error e' =>
      rw [hcompile'] at hreported'
      exact h.kind_eq hworkflow hother hreported hreported'

/-! ## Every order -/

/-- The order in which a workflow is declared is irrelevant.  When its nodes are added in
another order and the mappings of its intakes are given in another order, compiling still
fails with an error of the same kind, about the structure or about the types, or it still
succeeds, and then runs find the same results. -/
theorem compile_order_irrelevant {input output : Ty} {requests requests' : List Request}
    (hworkflow : declared input output requests = workflow)
    (hother : declared input output requests' = other) (h : workflow.Reordered other)
    (options : CompileOptions) :
    Alike Circuit.SameResults ((workflow.compile options).mapError Error.kind)
        ((other.compile options).mapError Error.kind) ∧
      ∀ e, workflow.compile options = .error e → e.kind = .structural ∨ e.kind = .staticType := by
  have hwellFormed : workflow.WellFormed := hworkflow ▸ wellFormed_declared input output requests
  have hwellFormed' : other.WellFormed := hother ▸ wellFormed_declared input output requests'
  by_cases hclear : options.trigger = .allPredecessors ∧
      ∀ intake ∈ workflow.intakes, intake.Clear
  · obtain ⟨htrigger, hclear⟩ := hclear
    refine ⟨h.alike_of_clear hwellFormed hwellFormed' htrigger hclear, fun e he => ?_⟩
    have hreported := reported_of_clear hwellFormed hclear htrigger
    rw [he] at hreported
    exact hreported.defect.kind
  · have hclear' : ¬(options.trigger = .allPredecessors ∧
        ∀ intake ∈ other.intakes, intake.Clear) :=
      mt (And.imp_right ((h.symm hwellFormed hwellFormed').clear hwellFormed' hwellFormed)) hclear
    obtain ⟨fault, hcompile⟩ := exists_structural hclear
    obtain ⟨fault', hcompile'⟩ := exists_structural hclear'
    rw [hcompile, hcompile']
    refine ⟨Eq.refl ErrorKind.structural, fun e he => ?_⟩
    rw [← Except.error.inj he]
    exact .inl rfl

/-- Two nodes read the name in a map, and a map with both of their lists goes to the
end. -/
def listing : Workflow :=
  declared (.map .string .any) (.map .string .any)
    [.node "label" Graph.labelNode, .input "label" [⟨startKey, "name", "text"⟩],
      .node "single" (.single .string (.list .string) .string),
      .input "single" [⟨startKey, "name", ""⟩],
      .finish [⟨"label", "", "first"⟩, ⟨"single", "", "second"⟩]]

/-- The same nodes and mappings, from the last to the first. -/
def listingReversed : Workflow :=
  declared (.map .string .any) (.map .string .any)
    [.finish [⟨"single", "", "second"⟩, ⟨"label", "", "first"⟩],
      .node "single" (.single .string (.list .string) .string),
      .input "single" [⟨startKey, "name", ""⟩],
      .node "label" Graph.labelNode, .input "label" [⟨startKey, "name", "text"⟩]]

theorem reordered_listing : listing.Reordered listingReversed := by
  have hintakes : listing.intakes = [⟨"label", [⟨startKey, "name", "text"⟩]⟩,
      ⟨"single", [⟨startKey, "name", ""⟩]⟩,
      ⟨endKey, [⟨"label", "", "first"⟩, ⟨"single", "", "second"⟩]⟩] := by cbv
  have hintakes' : listingReversed.intakes = [⟨"single", [⟨startKey, "name", ""⟩]⟩,
      ⟨"label", [⟨startKey, "name", "text"⟩]⟩,
      ⟨endKey, [⟨"single", "", "second"⟩, ⟨"label", "", "first"⟩]⟩] := by cbv
  refine ⟨rfl, rfl, ?_, ?_⟩
  · exact .swap _ _ []
  · rw [hintakes, hintakes']
    decide

theorem listing_order_irrelevant :
    listing.Reordered listingReversed ∧
      ∃ circuit circuit', listing.compile {} = .ok circuit ∧
        listingReversed.compile {} = .ok circuit' ∧ circuit.SameResults circuit' := by
  have hok : (listing.compile {}).map (fun _ => ()) = .ok () := by cbv
  have hok' : (listingReversed.compile {}).map (fun _ => ()) = .ok () := by cbv
  obtain ⟨circuit, hcompile, _⟩ := map_eq_ok hok
  obtain ⟨circuit', hcompile', _⟩ := map_eq_ok hok'
  have halike : Alike Circuit.SameResults ((listing.compile {}).mapError Error.kind)
      ((listingReversed.compile {}).mapError Error.kind) :=
    (compile_order_irrelevant rfl rfl reordered_listing {}).1
  rw [hcompile, hcompile'] at halike
  exact ⟨reordered_listing, circuit, circuit', hcompile, hcompile', halike⟩

end Workflow

end Dataflow
