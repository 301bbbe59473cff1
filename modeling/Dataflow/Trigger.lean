/-!
# Terminals and triggers

Every graph has two terminals: the start gives the graph's input to its
successors, and the end receives the graph's output.  The trigger says when a
node with several predecessors runs.
-/

namespace Dataflow

/-- The key of the start. -/
def startKey : String := "start"

/-- The key of the end. -/
def endKey : String := "end"

/-- When a node with several predecessors runs. -/
inductive Trigger
  /-- It waits for every predecessor and receives what all of them contribute. -/
  | allPredecessors
  /-- It runs on the output of its earliest predecessor alone. -/
  | anyPredecessor
deriving DecidableEq, Inhabited

namespace Trigger

/-- The word for a trigger. -/
def word : Trigger → String
  | .allPredecessors => "all_predecessor"
  | .anyPredecessor => "any_predecessor"

/-- The triggers, in the order in which they are listed. -/
def all : List Trigger := [.allPredecessors, .anyPredecessor]

/-- The trigger of a word. -/
def ofWord? (word : String) : Option Trigger :=
  all.find? (·.word = word)

end Trigger

end Dataflow
