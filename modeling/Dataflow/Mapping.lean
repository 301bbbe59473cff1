import Dataflow.Error
import Dataflow.Value.Part

/-!
# Mappings

A mapping sends one part of a node's output to one part of another node's
input.  The empty name stands for the whole, so a mapping between two empty
names does what a plain edge does.
-/

namespace Dataflow

/-- A part of the output of a node, and the part of an input it is sent to. -/
structure Mapping where
  /-- The key of the node whose output is read. -/
  node : String
  /-- The part that is read, empty for the whole output. -/
  source : String := ""
  /-- The part that is filled, empty for the whole input. -/
  target : String := ""
deriving DecidableEq

/-- Values by the part of an input they are for. -/
abbrev Fields := Table Value

namespace Mapping

/-- Whether the whole output is read. -/
def readsWhole (mapping : Mapping) : Bool := mapping.source = ""

/-- Whether the whole input is filled. -/
def fillsWhole (mapping : Mapping) : Bool := mapping.target = ""

/-- Whether the whole output fills the whole input. -/
def isWhole (mapping : Mapping) : Bool := mapping.readsWhole && mapping.fillsWhole

/-- The text that messages use for a mapping. -/
def text (mapping : Mapping) : String :=
  let source := if mapping.readsWhole then "" else s!"{mapping.source}(field) of "
  let target := if mapping.fillsWhole then "" else s!" to {mapping.target}(field)"
  s!"from {source}node '{mapping.node}'{target}"

/-- The text that messages use for several mappings. -/
def textAll (mappings : List Mapping) : String :=
  "; ".intercalate (mappings.map text)

/-- Reads every mapped part of an output, in the order of the mappings. -/
def extract (mappings : List Mapping) (output : Value) : Except Error Fields :=
  mappings.foldlM (fun fields mapping => do
    let part ← (output.take mapping.source).mapError .access
    return fields.insert mapping.target part) Table.empty

end Mapping

end Dataflow
