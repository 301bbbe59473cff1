/-!
# Execution order

Puts the keys of a graph into an order in which every node comes after its
predecessors.  The order is that of a depth-first search: of two nodes without
a path between them, the one that the search finishes later comes first.
-/

namespace Dataflow.Order

/-- Searches depth first from the nodes of a stack.  A node stays on the stack
until its successors are finished; the answer lists the finished nodes, latest
first.  A node that is its own successor ends the search. -/
def search (successors : String → List String) (unvisited stack finished : List String) :
    Except String (List String) :=
  match stack with
  | [] => .ok finished
  | key :: rest =>
    if key ∈ unvisited then
      if key ∈ successors key then
        .error key
      else
        let unvisited' := unvisited.erase key
        search successors unvisited'
          ((successors key).filter (· ∈ unvisited') ++ key :: rest) finished
    else if key ∈ finished then
      search successors unvisited rest finished
    else
      search successors unvisited rest (key :: finished)
termination_by (unvisited.length, stack.length)
decreasing_by
  · have := List.length_erase_of_mem ‹key ∈ unvisited›
    have := List.length_pos_of_mem ‹key ∈ unvisited›
    exact .left _ _ (by omega)
  · exact .right _ (by simp)
  · exact .right _ (by simp)

/-- The first predecessor, by node and then by edge, that does not come before
the node it leads to. -/
def misplaced? (predecessors : String → List String) (placed : List String) :
    List String → Option String
  | [] => none
  | key :: rest =>
    ((predecessors key).find? fun p => p ≠ key && !placed.contains p).or
      (misplaced? predecessors (key :: placed) rest)

/-- The keys in execution order, or a node on a cycle. -/
def sort (successors predecessors : String → List String) (keys : List String) :
    Except String (List String) := do
  let order ← search successors keys keys []
  match misplaced? predecessors [] order with
  | some key => throw key
  | none => return order

end Dataflow.Order
