import Dataflow.Stream.Transducer
import Dataflow.Value.Part

/-!
# Nodes

A node is a unit of work with a declared input and output type.  It is trusted
to produce values of its output type; nothing checks them until they reach a
guard or are stored.
-/

namespace Dataflow

/-- A unit of work. -/
structure Node where
  /-- The declared type of the values it takes. -/
  input : Ty
  /-- The declared type of the values it makes. -/
  output : Ty
  /-- Works on one value. -/
  run : Value → Except Error Value
  /-- Works on a stream; unless it says otherwise, value by value. -/
  transducer : Transducer Value Value := .perChunk run

end Dataflow
