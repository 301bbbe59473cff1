import Dataflow.Proofs.Cycles
import Dataflow.Proofs.Drawing
import Dataflow.Proofs.LegalMappings
import Dataflow.Proofs.Schedules

/-!
# Legal workflows

The checks of a workflow cover most of those of the graph that is drawn for it.  A
clear intake fills no part of an input twice and no whole input together with parts, so
there is nothing to merge and nothing that excludes each other.  What is left is listed
by `Workflow.Defect`.

* `Workflow.Defect`: what can still be wrong with a workflow whose intakes are clear.
* `Workflow.reported_of_compile`: which of its defects compiling reports.
* `Workflow.compile_legal`: a workflow compiles exactly when it has none of that.
-/

namespace Dataflow

/-! ## Drawn edges -/

namespace Intake

variable {intake : Intake}

/-- A mapping of a clear intake that fills the whole input makes an edge by itself, so
an edge that reads the whole output and fills the whole input is plain. -/
theorem Clear.not_whole (h : intake.Clear) {edge : Edge} (hedge : edge ∈ intake.edges)
    (hplain : edge.isPlain = false) :
    ¬(edge.mappings.any Mapping.readsWhole = true ∧
      edge.mappings.any Mapping.fillsWhole = true) := by
  obtain ⟨group, hgroup, rfl⟩ := mem_edges.1 hedge
  have hgroups := (grouped_groups intake).1
  unfold edgeOf at hplain ⊢
  split at hplain
  · exact nomatch hplain
  next hnot =>
    rw [if_neg hnot]
    rintro ⟨hreads, hfills⟩
    refine hnot ?_
    have hreads : group.2.any Mapping.readsWhole = true := by
      simpa [Edge.mapped, List.any_map, Function.comp_def, Mapping.readsWhole] using hreads
    have hfills : group.2.any Mapping.fillsWhole = true := by
      simpa [Edge.mapped, List.any_map, Function.comp_def, Mapping.fillsWhole] using hfills
    obtain ⟨mapping, hmapping, htarget⟩ := List.any_eq_true.1 hfills
    have hinputs : mapping ∈ intake.inputs := by
      rw [hgroups.exact group hgroup] at hmapping
      exact (List.mem_filter.1 hmapping).1
    have halone := h.whole_alone mapping hinputs (of_decide_eq_true htarget)
    rw [halone] at hgroups
    have hsingle : group.2 = [mapping] := hgroups.eq_singleton hgroup
    rw [hsingle] at hreads ⊢
    simpa [Mapping.isWhole, htarget] using hreads

end Intake

/-- The faults of edges and nodes that clear intakes exclude. -/
def GraphFault.isCovered : GraphFault → Bool
  | .edgeWithoutMappings .. | .targetRepeated .. | .edgeExists .. | .entersStart => true
  | .endWithoutPredecessor | .withoutPredecessor .. | .wholeAndFields .. | .unmergeable .. => true
  | .noMappings | .wholeToWhole .. => true
  | _ => false

namespace Workflow

variable {workflow : Workflow} {options : CompileOptions}

/-! ## Defects -/

/-- What can be wrong with a workflow whose intakes are clear, with the error that says
so. -/
inductive Defect (workflow : Workflow) : Error → Prop
  /-- A mapping names a source that is no node. -/
  | sourceMissing {source target : String} (hfeeds : workflow.Feeds source target)
      (hmissing : source ∉ workflow.graph.keys) : Defect workflow (.structural (.nodeMissing source))
  /-- A mapping names the end as its source. -/
  | sourceEnd {target : String} (hfeeds : workflow.Feeds endKey target) :
      Defect workflow (.structural .leavesEnd)
  /-- Nodes feed each other in a circle. -/
  | cycle {key : String} (hcycle : Relation.TransGen workflow.Feeds key key) :
      Defect workflow (.structural (.cycle key))
  /-- No mapping names the node. -/
  | unheard {key : String} (hkey : key ∈ workflow.graph.nodes.map (·.1))
      (hnone : ∀ target, ¬workflow.Feeds key target) :
      Defect workflow (.structural (.withoutSuccessor key))
  /-- The types rule an edge out. -/
  | mistyped {edge : Edge} {mapping reason : String} (hedge : edge ∈ workflow.edges)
      (hwire : workflow.drawing.wire edge = .error (.staticType mapping reason)) :
      Defect workflow (.staticType mapping reason)

theorem Defect.not_covered {fault : GraphFault} (h : workflow.Defect (.structural fault)) :
    fault.isCovered = false := by
  cases h <;> rfl

section Clear

variable (h : workflow.WellFormed) (hclear : ∀ intake ∈ workflow.intakes, intake.Clear)
include h hclear

/-- The edges of a node fill different parts of its input, and nothing else when they
fill the whole input. -/
theorem filledTargets_drawing {key : String} (hkey : key ∈ workflow.graph.keys)
    (hstart : key ≠ startKey) :
    (workflow.drawing.filledTargets key).Nodup ∧ workflow.drawing.incoming key ≠ [] ∧
      ("" ∈ workflow.drawing.filledTargets key →
        ∀ target ∈ workflow.drawing.filledTargets key, target = "") := by
  obtain ⟨intake, hintake, rfl⟩ := List.mem_map.1 (h.mem_keys_intakes.2 ⟨hkey, hstart⟩)
  have hperm := perm_filledTargets h hintake
  have hintakeClear := hclear intake hintake
  refine ⟨hperm.nodup_iff.2 hintakeClear.targets_nodup, ?_, fun hwhole target htarget => ?_⟩
  · obtain ⟨mapping, hmapping⟩ := List.exists_mem_of_ne_nil _ hintakeClear.inputs_ne
    obtain ⟨edge, hedge, _⟩ := (intake.mem_sources_edges mapping.node).2 ⟨mapping, hmapping, rfl⟩
    rw [incoming_drawing h hintake]
    exact List.ne_nil_of_mem hedge
  · obtain ⟨mapping, hmapping, hempty⟩ := List.mem_map.1 (hperm.mem_iff.1 hwhole)
    have halone := hintakeClear.whole_alone mapping hmapping hempty
    rw [hperm.mem_iff, halone] at htarget
    exact (List.mem_singleton.1 htarget).trans hempty

/-- Nothing has to be merged, whatever could be. -/
theorem unmergeable?_drawing (merges : MergeRegistry) {key : String}
    (hkey : key ∈ workflow.graph.keys) (hstart : key ≠ startKey) :
    workflow.drawing.unmergeable? merges key = none := by
  have hnodup := (filledTargets_drawing h hclear hkey hstart).1
  unfold Graph.unmergeable?
  rw [List.findSome?_eq_none_iff]
  intro target _
  rw [if_pos (List.nodup_iff_count_le_one.1 hnodup target)]

/-- The only fault of a node is that nothing leaves it. -/
theorem nodeFault?_drawing (htrigger : options.trigger = .allPredecessors) {key : String}
    (hkey : key ∈ workflow.graph.keys) {fault : GraphFault}
    (hfault : workflow.drawing.nodeFault? options key = some fault) :
    fault = .withoutSuccessor key ∧ key ∈ workflow.graph.nodes.map (·.1) ∧
      workflow.drawing.outgoing key = [] := by
  unfold Graph.nodeFault? at hfault
  dsimp only at hfault
  split at hfault
  · exact nomatch hfault
  next hstart =>
    obtain ⟨_, hincoming, hwhole⟩ := filledTargets_drawing h hclear hkey hstart
    have hempty : (workflow.drawing.incoming key).isEmpty = false :=
      Bool.eq_false_iff.2 fun heq => hincoming (List.isEmpty_iff.1 heq)
    rw [hempty, Bool.and_false, if_neg Bool.false_ne_true, if_neg Bool.false_ne_true] at hfault
    split at hfault
    next hout =>
      obtain ⟨hend, hout⟩ := Bool.and_eq_true_iff.1 hout
      have hnode : key ∈ workflow.graph.nodes.map (·.1) := by
        rw [Graph.keys, List.mem_cons, List.mem_cons] at hkey
        exact (hkey.resolve_left hstart).resolve_left (of_decide_eq_true hend)
      exact ⟨(Option.some.inj hfault).symm, hnode, List.isEmpty_iff.1 hout⟩
    · split at hfault
      next hmixed =>
        obtain ⟨hmem, hother⟩ := Bool.and_eq_true_iff.1 hmixed
        obtain ⟨target, htarget, hne⟩ := List.any_eq_true.1 hother
        exact absurd (hwhole (List.contains_iff_mem.1 hmem) target htarget) (of_decide_eq_true hne)
      · rw [htrigger] at hfault
        dsimp only at hfault
        rw [unmergeable?_drawing h hclear options.merges hkey hstart] at hfault
        exact nomatch hfault

omit h in
/-- The check of an edge fails because of the types. -/
theorem kind_of_wire_error {edge : Edge} (hedge : edge ∈ workflow.edges) {e : Error}
    (hwire : workflow.drawing.wire edge = .error e) : e.kind = .staticType := by
  obtain ⟨intake, hintake, hmem⟩ := List.mem_flatMap.1 hedge
  have hplan : Outcome (fun e : Error => e.kind = .staticType) (fun _ => True)
      (workflow.drawing.edgePlan edge) := by
    unfold Graph.edgePlan
    dsimp only
    split
    · have hguard : Outcome (fun e : Error => e.kind = .staticType) (fun _ => True)
          (Mapping.checkWhole edge.source (workflow.drawing.outputType edge.source)
            (workflow.drawing.inputType edge.target)) := by
        unfold Mapping.checkWhole
        dsimp only
        split
        · trivial
        · trivial
        · exact Eq.refl ErrorKind.staticType
      exact hguard.bind fun _ _ _ => trivial
    next hplain =>
      have hplain := Bool.eq_false_iff.2 hplain
      refine Mapping.outcome_check (Mapping.shaped_iff_any.2
        ⟨fun heq => ?_, (hclear intake hintake).not_whole hmem hplain⟩)
      rw [Edge.isPlain, heq] at hplain
      cases hplain
  have hwired : Outcome (fun e : Error => e.kind = .staticType) (fun _ => True)
      (workflow.drawing.wire edge) := hplan.bind fun _ _ _ => trivial
  rwa [hwire] at hwired

omit hclear in
/-- A drawing that can be ordered and whose nodes pass their checks has no defect of its
structure. -/
theorem not_structural_of_checks (hgraph : workflow.drawing.WellFormed) {order : List String}
    (horder : workflow.drawing.executionOrder options = .ok order)
    (hchecks : workflow.drawing.keys.forM (workflow.drawing.checkNode options) = .ok ())
    (fault : GraphFault) : ¬workflow.Defect (.structural fault) := by
  have hedge : ∀ {source target : String}, workflow.Feeds source target →
      workflow.drawing.Leads source target := fun hfeeds => leads_drawing ▸ hfeeds
  intro hdefect
  cases hdefect with
  | sourceMissing hfeeds hmissing =>
    obtain ⟨edge, hmem, rfl, _⟩ := hedge hfeeds
    exact hmissing (hgraph.source_mem edge hmem)
  | sourceEnd hfeeds =>
    obtain ⟨edge, hmem, hsource, _⟩ := hedge hfeeds
    exact hgraph.source_ne edge hmem hsource
  | cycle hcycle =>
    exact Graph.acyclic_of_executionOrder hgraph horder _ (leads_drawing ▸ hcycle)
  | @unheard key hkey hnone =>
    have hmem : key ∈ workflow.drawing.keys := List.mem_cons_of_mem _ (List.mem_cons_of_mem _ hkey)
    have hchecked := Graph.checkedNode_of_checks hchecks hmem (h.graph.ne_startKey_of_mem hkey)
    obtain ⟨edge, hout⟩ :=
      List.exists_mem_of_ne_nil _ (hchecked.outgoing_ne (h.ne_endKey_of_mem hkey))
    obtain ⟨hmem, hsource⟩ := List.mem_filter.1 hout
    exact hnone edge.target (leads_drawing ▸ ⟨edge, hmem, of_decide_eq_true hsource, rfl⟩)

omit hclear in
/-- A drawing that compiles has no defect. -/
theorem not_defect_of_compile {circuit : Circuit} (hgraph : workflow.drawing.WellFormed)
    (hcompile : workflow.drawing.compile options = .ok circuit) (e : Error) :
    ¬workflow.Defect e := by
  intro hdefect
  cases e with
  | structural fault =>
    obtain ⟨order, horder, hlater⟩ := bind_eq_ok hcompile
    obtain ⟨_, hchecks, _⟩ := bind_eq_ok hlater
    exact not_structural_of_checks h hgraph horder hchecks fault hdefect
  | staticType mapping reason =>
    cases hdefect with
    | mistyped hmem hwire =>
      obtain ⟨wire, _, hok⟩ :=
        exists_right_of_forall₂ (Graph.wires_of_compile hcompile) hmem
      rw [hwire] at hok
      exact nomatch hok
  | _ => cases hdefect

end Clear

/-- The defect that compiling reports.  Types are looked at last, so a defect of the
types is reported only when there is none of the structure. -/
structure Reported (workflow : Workflow) (e : Error) : Prop where
  defect : workflow.Defect e
  first : e.kind = .staticType → ∀ fault, ¬workflow.Defect (.structural fault)

/-- Defects of the structure are reported whatever else is wrong. -/
theorem Reported.structural {fault : GraphFault} (h : workflow.Defect (.structural fault)) :
    workflow.Reported (.structural fault) :=
  ⟨h, nofun⟩

/-- What compiling reports if the intakes are clear, and what is true if it reports
nothing. -/
theorem reported_of_compile (h : workflow.WellFormed)
    (hchecked : ∀ intake ∈ workflow.intakes, intake.check = .ok ())
    (htrigger : options.trigger = .allPredecessors) :
    Outcome workflow.Reported (fun _ => ∀ e, ¬workflow.Defect e) (workflow.compile options) := by
  have hchecks : workflow.intakes.forM Intake.check = .ok () := forM_eq_ok_of_forall hchecked
  have hclear := clear_of_checks hchecks
  have hdraw : Outcome workflow.Reported
      (fun graph => graph = workflow.drawing ∧ graph.WellFormed) workflow.drawn := by
    refine (outcome_drawn hclear h).imp (fun e => ?_) fun _ => id
    rintro ⟨source, target, hfeeds, ⟨rfl, rfl⟩ | ⟨hmissing, rfl⟩⟩
    · exact .structural (.sourceEnd hfeeds)
    · exact .structural (.sourceMissing hfeeds hmissing)
  rw [compile, if_neg (not_not.2 htrigger), hchecks]
  refine hdraw.bind fun graph _ hgraph => ?_
  obtain ⟨rfl, hgraph⟩ := hgraph
  cases hcompile : workflow.drawing.compile options with
  | ok circuit => exact not_defect_of_compile h hgraph hcompile
  | error e =>
    have hwhy := Graph.outcome_compile hgraph options
    rw [hcompile] at hwhy
    rcases hwhy with ⟨key, hcycle, rfl⟩ | ⟨key, hkey, fault, hfault, rfl⟩ |
      ⟨⟨order, horder⟩, hnodes, edge, hedge, hwire⟩
    · exact .structural (.cycle (leads_drawing ▸ hcycle))
    · obtain ⟨rfl, hnode, hout⟩ := nodeFault?_drawing h hclear htrigger hkey hfault
      refine .structural (.unheard hnode fun target hfeeds => ?_)
      obtain ⟨edge, hmem, hsource, _⟩ : workflow.drawing.Leads key target := leads_drawing ▸ hfeeds
      have hmem : edge ∈ workflow.drawing.outgoing key :=
        List.mem_filter.2 ⟨hmem, decide_eq_true hsource⟩
      rw [hout] at hmem
      exact nomatch hmem
    · have hkind := kind_of_wire_error hclear hedge hwire
      cases e with
      | staticType mapping reason =>
        exact ⟨.mistyped hedge hwire, fun _ => not_structural_of_checks h hgraph horder hnodes⟩
      | _ => exact nomatch hkind

/-- A workflow whose intakes are clear compiles, and then it has no defect, or compiling
reports a defect that it has. -/
theorem outcome_compile (h : workflow.WellFormed)
    (hchecked : ∀ intake ∈ workflow.intakes, intake.check = .ok ())
    (htrigger : options.trigger = .allPredecessors) :
    Outcome workflow.Defect (fun _ => ∀ e, ¬workflow.Defect e) (workflow.compile options) :=
  (reported_of_compile h hchecked htrigger).imp (fun _ => Reported.defect) fun _ => id

/-- The checks of a workflow cover those of its graph.  When all intakes pass their
checks, compiling gives a circuit exactly if the workflow has no defect, the error it
ends with otherwise reports a defect of the workflow, and no check that clear intakes
make redundant ever fails. -/
theorem compile_legal {input output : Ty} {requests : List Request}
    (hworkflow : declared input output requests = workflow)
    (htrigger : options.trigger = .allPredecessors)
    (hchecked : ∀ intake ∈ workflow.intakes, intake.check = .ok ()) :
    ((∃ circuit, workflow.compile options = .ok circuit) ↔ ∀ e, ¬workflow.Defect e) ∧
      (∀ e, workflow.compile options = .error e → workflow.Defect e) ∧
      ∀ fault, workflow.compile options = .error (.structural fault) → fault.isCovered = false := by
  have h : workflow.WellFormed := hworkflow ▸ wellFormed_declared input output requests
  have houtcome : Outcome workflow.Defect (fun _ => ∀ e, ¬workflow.Defect e)
      (workflow.compile options) := outcome_compile h hchecked htrigger
  cases hcompile : workflow.compile options with
  | ok circuit =>
    rw [hcompile] at houtcome
    exact ⟨⟨fun _ => houtcome, fun _ => ⟨circuit, rfl⟩⟩, nofun, nofun⟩
  | error e =>
    rw [hcompile] at houtcome
    refine ⟨⟨fun hok => ?_, fun hnone => absurd houtcome (hnone e)⟩, fun e' he => ?_,
      fun fault he => ?_⟩
    · obtain ⟨circuit, hok⟩ := hok
      exact nomatch hok
    · exact Except.error.inj he ▸ houtcome
    · exact Defect.not_covered (Except.error.inj he ▸ houtcome)

/-- The name in a map becomes a label, and the label goes to the end. -/
def labelling : Workflow :=
  declared (.map .string .any) (.list .string)
    [.node "label" Graph.labelNode, .input "label" [⟨startKey, "name", "text"⟩],
      .finish [{ node := "label" }], .input "missing" [{ node := startKey }]]

theorem exists_compile_labelling : ∃ circuit, labelling.compile {} = .ok circuit := by
  have hok : (labelling.compile {}).map (fun _ => ()) = .ok () := by cbv
  obtain ⟨circuit, h, _⟩ := map_eq_ok hok
  exact ⟨circuit, h⟩

theorem labelling_legal :
    (∀ intake ∈ labelling.intakes, intake.check = .ok ()) ∧
      (∃ circuit, labelling.compile {} = .ok circuit) ∧ ∀ e, ¬labelling.Defect e := by
  have hall : labelling.intakes.map Intake.check = [.ok (), .ok ()] := by cbv
  have hchecked : ∀ intake ∈ labelling.intakes, intake.check = .ok () := by
    intro intake hintake
    have hmem : intake.check ∈ labelling.intakes.map Intake.check := List.mem_map_of_mem hintake
    rw [hall] at hmem
    simpa using hmem
  exact ⟨hchecked, exists_compile_labelling,
    (compile_legal rfl rfl hchecked).1.1 exists_compile_labelling⟩

end Workflow

end Dataflow
