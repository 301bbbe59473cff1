import Dataflow.AccessError
import Dataflow.Trigger

/-!
# Errors of graphs and runs

What can go wrong while a graph is declared, compiled or run.  Each error names
its cause; `Error.message` has all the wording.
-/

namespace Dataflow

/-! ## Causes -/

/-- What can be wrong with the structure of a graph or a workflow. -/
inductive GraphFault
  /-- A node key is empty. -/
  | emptyKey
  /-- A node key is taken. -/
  | nodeExists (key : String)
  /-- No node has the key. -/
  | nodeMissing (key : String)
  /-- An edge with mappings is declared without any. -/
  | edgeWithoutMappings (source target : String)
  /-- Two mappings of an edge have one target. -/
  | targetRepeated (source target field : String)
  /-- An edge leaves the end. -/
  | leavesEnd
  /-- An edge enters the start. -/
  | entersStart
  /-- There is an edge between the two nodes already. -/
  | edgeExists (source target : String)
  /-- The edges form a cycle. -/
  | cycle (key : String)
  /-- No edge enters the end. -/
  | endWithoutPredecessor
  /-- No edge enters a node. -/
  | withoutPredecessor (key : String)
  /-- No edge leaves a node. -/
  | withoutSuccessor (key : String)
  /-- Some edges fill the whole input of a node and some fill fields of it. -/
  | wholeAndFields (key : String)
  /-- An edge with mappings enters a node that takes one predecessor alone. -/
  | mappingsNeedAll (key : String)
  /-- Several values reach one target and there is no policy to merge them. -/
  | unmergeable (key : String) (count : Nat) (field type : String)
  /-- The mappings of an edge are to be checked and there are none. -/
  | noMappings
  /-- The mappings of an edge read the whole output and fill the whole input. -/
  | wholeToWhole (mappings : String)
  /-- A workflow is compiled for a trigger it does not have. -/
  | triggerUnsupported (trigger : Trigger)
  /-- A workflow node declares no input. -/
  | inputMissing (key : String)
  /-- A workflow node fills its whole input and more. -/
  | inputWholeAndMore (key mapping : String)
  /-- A workflow node fills one field twice. -/
  | inputRepeated (key field : String)
  /-- A fault in its own words. -/
  | other (message : String)
deriving DecidableEq

/-- What should have been excluded by the time a graph runs. -/
inductive Breach
  /-- Values arrived for the whole input and for fields of it. -/
  | wholeAndFields (type : String)
  /-- A field that values arrived for is not a part of the input type. -/
  | unresolved (field type : String) (error : AccessError)
  /-- A merged value could not be stored. -/
  | notStored (field type : String) (error : AccessError)
  /-- A node was reached before one of its predecessors. -/
  | outputMissing (key : String)
  /-- A node was reached before the stream of one of its predecessors. -/
  | streamMissing (key : String)
  /-- The end was never reached. -/
  | endNotReached
  /-- A breach in its own words. -/
  | other (message : String)
deriving DecidableEq

/-! ## Errors -/

/-- What can go wrong while a graph is declared, compiled or run. -/
inductive Error
  /-- The graph or workflow has no valid structure. -/
  | structural (fault : GraphFault)
  /-- The declared types rule a mapping out. -/
  | staticType (mapping reason : String)
  /-- A guard rejected a value. -/
  | runtimeType (mapping actual expected : String)
  /-- Several values for one field could not be merged. -/
  | merge (field type : String) (count : Nat) (reason : String)
  /-- A part could not be read or written. -/
  | access (error : AccessError)
  /-- A node failed. -/
  | node (key message : String)
  /-- Something that compiling should have excluded. -/
  | internal (breach : Breach)
deriving DecidableEq

/-- The kinds of errors. -/
inductive ErrorKind
  | structural | staticType | runtimeType | merge | access | node | internal
deriving DecidableEq

/-- The word for a kind of error. -/
def ErrorKind.word : ErrorKind → String
  | .structural => "structural"
  | .staticType => "static_type"
  | .runtimeType => "runtime_type"
  | .merge => "merge"
  | .access => "access"
  | .node => "node"
  | .internal => "internal"

/-! ## Wording -/

/-- How messages call a workflow node. -/
def workflowLabel (key : String) : String :=
  if key = endKey then "workflow END" else s!"workflow node '{key}'"

namespace GraphFault

/-- The text of a fault. -/
def message : GraphFault → String
  | .emptyKey => "node key must not be empty"
  | .nodeExists key => s!"node '{key}' already exists"
  | .nodeMissing key => s!"node '{key}' does not exist"
  | .edgeWithoutMappings source target => s!"edge '{source}' -> '{target}' declares no mappings"
  | .targetRepeated source target field =>
    s!"edge '{source}' -> '{target}' maps to field '{field}' more than once"
  | .leavesEnd => "END cannot have outgoing edges"
  | .entersStart => "START cannot have incoming edges"
  | .edgeExists source target => s!"edge '{source}' -> '{target}' already exists"
  | .cycle key => s!"graph has a cycle through node '{key}'"
  | .endWithoutPredecessor => "END has no predecessor"
  | .withoutPredecessor key => s!"node '{key}' has no predecessor"
  | .withoutSuccessor key => s!"node '{key}' has no successor"
  | .wholeAndFields key =>
    s!"node '{key}' receives its whole input and individual fields at once"
  | .mappingsNeedAll key =>
    s!"node '{key}' has field mapping edges, which require the {Trigger.allPredecessors.word} trigger mode"
  | .unmergeable key count field type =>
    let target := if field = "" then "its input" else s!"field '{field}'"
    s!"node '{key}' receives {count} values for {target} of type {type}, which cannot be merged"
  | .noMappings => "field mapping edge declares no mappings"
  | .wholeToWhole mappings =>
    s!"invalid field mappings {mappings}: from all fields to all, use a plain edge instead"
  | .triggerUnsupported trigger => s!"workflow does not support the {trigger.word} trigger mode"
  | .inputMissing key => s!"{workflowLabel key} has no input mapping"
  | .inputWholeAndMore key mapping =>
    s!"{workflowLabel key} maps {mapping} to its whole input, but has other input mappings"
  | .inputRepeated key field =>
    s!"{workflowLabel key} has more than one mapping to field '{field}'"
  | .other message => message

end GraphFault

namespace Breach

/-- The text of a breach. -/
def message : Breach → String
  | .wholeAndFields type => s!"input of type {type} is mapped both as a whole and by field"
  | .unresolved field type error =>
    s!"field '{field}' of {type} is not resolvable after validation: {error.message}"
  | .notStored field type error =>
    s!"injecting field '{field}' into {type} failed after validation: {error.message}"
  | .outputMissing key => s!"predecessor of node '{key}' has not produced an output"
  | .streamMissing key => s!"predecessor of node '{key}' has not produced a stream"
  | .endNotReached => "graph finished without reaching END"
  | .other message => message

end Breach

namespace Error

/-- The kind of an error. -/
def kind : Error → ErrorKind
  | .structural _ => .structural
  | .staticType .. => .staticType
  | .runtimeType .. => .runtimeType
  | .merge .. => .merge
  | .access _ => .access
  | .node .. => .node
  | .internal _ => .internal

/-- Whether the error is about the graph and not about one run of it. -/
def isCompileTime (error : Error) : Bool :=
  match error.kind with
  | .structural | .staticType => true
  | _ => false

/-- The text of an error. -/
def message : Error → String
  | .structural fault => s!"invalid graph structure: {fault.message}"
  | .staticType mapping reason => s!"static check failed for mapping {mapping}: {reason}"
  | .runtimeType mapping actual expected =>
    s!"runtime check failed for mapping {mapping}: {actual} is not assignable to {expected}"
  | .merge field type count reason =>
    s!"cannot merge {count} values for field '{field}' of type {type}: {reason}"
  | .access error => error.message
  | .node key message => s!"node '{key}' failed: {message}"
  | .internal breach => s!"internal error: {breach.message}"

end Error

end Dataflow
