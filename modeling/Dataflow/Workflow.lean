import Dataflow.Graph.Compile

/-!
# Workflows

A workflow is a graph whose nodes say where their inputs come from.  Compiling
it draws one edge for each pair of a node and one of its sources, so the values
for one target never have to be merged.
-/

namespace Dataflow

/-- Where the input of a node comes from. -/
structure Intake where
  /-- The key of the node. -/
  key : String
  /-- The mappings that fill its input, in order of declaration. -/
  inputs : List Mapping := []
deriving DecidableEq

/-- A graph under construction, with the intakes that its edges will be drawn
from. -/
structure Workflow where
  /-- The nodes, without edges. -/
  graph : Graph
  /-- The intakes of the declared nodes, in order of declaration. -/
  nodes : List Intake := []
  /-- The intake of the end. -/
  finish : Intake := { key := endKey }

namespace Intake

/-- Adds mappings to those that fill the input. -/
def add (intake : Intake) (mappings : List Mapping) : Intake :=
  { intake with inputs := intake.inputs ++ mappings }

/-- The first mapping that does not go together with the others: one that fills
the whole input although there are more, or one whose target was filled. -/
def clash? (key : String) (count : Nat) (filled : List String) : List Mapping → Option GraphFault
  | [] => none
  | mapping :: rest =>
    if mapping.fillsWhole && 1 < count then
      some (.inputWholeAndMore key mapping.text)
    else if filled.contains mapping.target then
      some (.inputRepeated key mapping.target)
    else
      clash? key count (mapping.target :: filled) rest

/-- What is wrong with an intake, if anything is. -/
def fault? (intake : Intake) : Option GraphFault :=
  if intake.inputs.isEmpty then
    some (.inputMissing intake.key)
  else
    clash? intake.key intake.inputs.length [] intake.inputs

/-- Rejects an intake that does not describe a single input. -/
def check (intake : Intake) : Except Error Unit :=
  match intake.fault? with
  | some fault => .error (.structural fault)
  | none => .ok ()

/-- Puts a mapping into the group of its source, which is opened at the end if
there is none. -/
def putInGroup (mapping : Mapping) :
    List (String × List Mapping) → List (String × List Mapping)
  | [] => [(mapping.node, [mapping])]
  | (source, group) :: rest =>
    if source = mapping.node then
      (source, group ++ [mapping]) :: rest
    else
      (source, group) :: putInGroup mapping rest

/-- The mappings by their sources, in the order in which the sources first
occur. -/
def groups (intake : Intake) : List (String × List Mapping) :=
  intake.inputs.foldl (fun groups mapping => putInGroup mapping groups) []

/-- Draws the edge for one group of mappings; a mapping of the whole output to
the whole input that stands alone makes a plain edge. -/
def drawEdge (target : String) (graph : Graph) (group : String × List Mapping) :
    Except Error Graph :=
  if group.2.length = 1 && group.2.all Mapping.isWhole then
    graph.connect group.1 target
  else
    graph.connectMapped group.1 target group.2

/-- Draws the edges of an intake. -/
def drawEdges (graph : Graph) (intake : Intake) : Except Error Graph :=
  intake.groups.foldlM (drawEdge intake.key) graph

end Intake

namespace Workflow

/-- A workflow without nodes. -/
def empty (input output : Ty) : Workflow := { graph := { input, output } }

/-- Adds a node under a key of its own. -/
def addNode (workflow : Workflow) (key : String) (node : Node) : Except Error Workflow := do
  let graph ← workflow.graph.addNode key node
  return { workflow with graph, nodes := workflow.nodes ++ [{ key }] }

/-- The intake of a declared node. -/
def node? (workflow : Workflow) (key : String) : Option Intake :=
  workflow.nodes.find? (·.key = key)

/-- Adds mappings to the intake of a declared node. -/
def addInput (workflow : Workflow) (key : String) (mappings : List Mapping) : Workflow :=
  { workflow with
    nodes := workflow.nodes.map fun i => if i.key = key then i.add mappings else i }

/-- Adds mappings to the intake of the end. -/
def addEnd (workflow : Workflow) (mappings : List Mapping) : Workflow :=
  { workflow with finish := workflow.finish.add mappings }

/-- The intakes of all nodes and of the end. -/
def intakes (workflow : Workflow) : List Intake :=
  workflow.nodes ++ [workflow.finish]

/-- The graph with the edges of all intakes. -/
def drawn (workflow : Workflow) : Except Error Graph :=
  workflow.intakes.foldlM Intake.drawEdges workflow.graph

/-- Checks a workflow and makes it ready to run.  Only nodes that wait for every
predecessor make sense, because an input is put together from all of them. -/
def compile (workflow : Workflow) (options : CompileOptions) : Except Error Circuit := do
  if options.trigger ≠ .allPredecessors then
    throw (.structural (.triggerUnsupported options.trigger))
  workflow.intakes.forM Intake.check
  (← workflow.drawn).compile options

end Workflow

end Dataflow
