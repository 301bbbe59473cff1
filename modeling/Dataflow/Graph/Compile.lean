import Dataflow.Circuit
import Dataflow.Graph
import Dataflow.Mapping.Check

/-!
# Compiling graphs

A graph compiles when it has no cycle, every node is fed and heard, no node is
fed as a whole and in parts at once, values that meet can be merged, and the
types along every edge agree.  Cycles are looked for first, then the nodes are
checked in order of declaration after the end, then the edges.
-/

namespace Dataflow.Graph

/-- The parts of a node's input that its edges fill, as often as they do. -/
def filledTargets (graph : Graph) (key : String) : List String :=
  (graph.incoming key).flatMap Edge.targets

/-- The first part of a node's input that several edges fill and that there is
no policy for. -/
def unmergeable? (graph : Graph) (merges : MergeRegistry) (key : String) : Option GraphFault :=
  let targets := graph.filledTargets key
  targets.findSome? fun target =>
    if targets.count target ≤ 1 then
      none
    else
      match (graph.inputType key).part target with
      | .error _ => none
      | .ok type =>
        if (merges.policy? type).isSome then
          none
        else
          some (.unmergeable key (targets.count target) target type.text)

/-- What is wrong with the edges of a node, if anything is. -/
def nodeFault? (graph : Graph) (options : CompileOptions) (key : String) : Option GraphFault :=
  let incoming := graph.incoming key
  let targets := graph.filledTargets key
  if key = startKey then
    none
  else if key = endKey && incoming.isEmpty then
    some .endWithoutPredecessor
  else if incoming.isEmpty then
    some (.withoutPredecessor key)
  else if key ≠ endKey && (graph.outgoing key).isEmpty then
    some (.withoutSuccessor key)
  else if targets.contains "" && targets.any (· ≠ "") then
    some (.wholeAndFields key)
  else
    match options.trigger with
    | .anyPredecessor =>
      if incoming.any (!·.isPlain) then some (.mappingsNeedAll key) else none
    | .allPredecessors => graph.unmergeable? options.merges key

/-- Checks the edges of a node. -/
def checkNode (graph : Graph) (options : CompileOptions) (key : String) : Except Error Unit :=
  match graph.nodeFault? options key with
  | some fault => .error (.structural fault)
  | none => .ok ()

/-- Checks the types along an edge and gives its guards, if there are any. -/
def edgePlan (graph : Graph) (edge : Edge) : Except Error (Option GuardPlan) :=
  let predecessor := graph.outputType edge.source
  let successor := graph.inputType edge.target
  if edge.isPlain then do
    let guard ← Mapping.checkWhole edge.source predecessor successor
    return guard.map GuardPlan.empty.insert
  else
    Mapping.check predecessor successor edge.mappings

/-- Makes an edge ready to run. -/
def wire (graph : Graph) (edge : Edge) : Except Error Wire := do
  let plan ← graph.edgePlan edge
  return ⟨edge.source, edge.target, edge.effectiveMappings, plan⟩

/-- What the node under a key does at run time. -/
def role (graph : Graph) (key : String) : Role :=
  if key = startKey then .start
  else match graph.node? key with
    | some node => .work node
    | none => .finish

/-- Makes a node ready to run. -/
def station (graph : Graph) (options : CompileOptions) (key : String) : Station :=
  ⟨key, graph.role key, ⟨graph.inputType key, options.merges⟩⟩

/-- The keys in execution order, if there is no cycle. -/
def executionOrder (graph : Graph) (options : CompileOptions) : Except Error (List String) :=
  (options.sorter.sort (fun key => (graph.outgoing key).map (·.target))
    (fun key => (graph.incoming key).map (·.source)) graph.keys).mapError
      fun key => .structural (.cycle key)

/-- Checks a graph and makes it ready to run. -/
def compile (graph : Graph) (options : CompileOptions) : Except Error Circuit := do
  let order ← graph.executionOrder options
  graph.keys.forM (graph.checkNode options)
  let wires ← graph.edges.mapM graph.wire
  return ⟨graph.input, graph.output, order.map (graph.station options), wires, options⟩

end Dataflow.Graph
