import Dataflow.Mapping
import Dataflow.Merge
import Dataflow.Ty.Part

/-!
# Assembling inputs

The input of a node is put together from what its edges contribute.  Values for
the whole input are merged and become the input.  Values for parts of it are
merged part by part, in name order, and stored in a zero value of the input
type.
-/

namespace Dataflow

/-- Every value that arrived for each target, in order of arrival. -/
abbrev Gathered := Table (List Value)

/-- Adds the values of one contribution to those gathered so far. -/
def Gathered.add (gathered : Gathered) (fields : Fields) : Gathered :=
  fields.entries.foldl (fun gathered entry =>
    gathered.insert entry.1 ((gathered.find? entry.1).getD [] ++ [entry.2])) gathered

/-- Gathers the values of some contributions, in their order. -/
def gather (contributions : List Fields) : Gathered :=
  contributions.foldl Gathered.add Table.empty

/-- Makes inputs of a declared type. -/
structure Assembler where
  /-- The declared type of the inputs. -/
  target : Ty
  /-- How several values for one target are merged. -/
  merges : MergeRegistry

namespace Assembler

/-- Merges the values for a part of the input and stores the result. -/
def store (assembler : Assembler) (input : Value) (field : String) (values : List Value) :
    Except Error Value := do
  let type := assembler.target
  let declared ← (type.part field).mapError fun e => .internal (.unresolved field type.text e)
  let merged ← assembler.merges.merge field declared values
  (input.assign type field merged).mapError fun e => .internal (.notStored field type.text e)

/-- The input that some gathered values make. -/
def assemble (assembler : Assembler) (gathered : Gathered) : Except Error Value :=
  match gathered.find? "" with
  | some whole =>
    if (gathered.erase "").isEmpty then
      assembler.merges.merge "" assembler.target whole
    else
      .error (.internal (.wholeAndFields assembler.target.text))
  | none =>
    gathered.entries.foldlM (fun input entry => assembler.store input entry.1 entry.2)
      assembler.target.zero

end Assembler

end Dataflow
