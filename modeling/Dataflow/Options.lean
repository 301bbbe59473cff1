import Dataflow.Graph.Sorter
import Dataflow.Merge
import Dataflow.Text.Blank

/-!
# Compile options

How a graph is to be compiled: when its nodes run, how several values for one
target are merged, and what the graph is called.  By which sort it is put in order is
part of them, so that what holds of a compiled graph holds for any sort; the options
that are built have the standard one.
-/

namespace Dataflow

/-- How a graph is compiled. -/
structure CompileOptions where
  trigger : Trigger := .allPredecessors
  merges : MergeRegistry := .standard
  /-- The name of the graph, if it has one. -/
  name : Option String := none
  /-- The sort that puts the nodes in order. -/
  sorter : Sorter := .depthFirst

instance : Inhabited CompileOptions := ⟨{}⟩

/-- What can be wrong with options. -/
inductive OptionsError
  /-- The name is there and blank. -/
  | blankName
  /-- No trigger is called by the word. -/
  | unknownTrigger
deriving DecidableEq

/-- The text of an error about options. -/
def OptionsError.message : OptionsError → String
  | .blankName => "name must not be blank"
  | .unknownTrigger => "Matching variant not found"

/-- The options with the given settings; a name must not be blank. -/
def CompileOptions.build (trigger : Trigger) (merges : MergeRegistry) (name : Option String) :
    Except OptionsError CompileOptions :=
  if name.any isBlank then .error .blankName else .ok { trigger, merges, name }

/-- Reads a trigger from its word. -/
def Trigger.parse (word : String) : Except OptionsError Trigger :=
  match Trigger.ofWord? word with
  | some trigger => .ok trigger
  | none => .error .unknownTrigger

end Dataflow
