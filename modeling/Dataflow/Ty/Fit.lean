import Dataflow.Ty.Record

/-!
# Which types fit where

A type fits where itself, `any` or an interface it implements is declared.
Nothing else is converted: there is no variance in lists, maps and boxes.

Between two declared types there are three verdicts.  An open source may carry
a value that fits, which only a check of that value can tell.
-/

namespace Dataflow

namespace Ty

/-- Whether the type provides every capability that the interface asks for. -/
def implements (type : Ty) (interface : Interface) : Bool :=
  if interface.capabilities.isEmpty then
    true
  else
    match type.unboxed with
    | .record shape => interface.isSatisfiedBy shape.capabilities
    | .interface shape => interface.isSatisfiedBy shape.capabilities
    | _ => false

/-- Whether every value of the type can be stored where `dest` is declared.
The absence of a value fits every interface. -/
def fits (type dest : Ty) : Bool :=
  if type = dest then
    true
  else
    match dest with
    | .any => true
    | .interface shape => type = .null || type.implements shape
    | _ => false

end Ty

/-- Whether values of one declared type fit where another is declared. -/
inductive Fit
  /-- Every value fits. -/
  | always
  /-- No value fits. -/
  | never
  /-- Each value has to be checked. -/
  | conditional
deriving DecidableEq

/-- The word for a verdict. -/
def Fit.word : Fit → String
  | .always => "always"
  | .never => "never"
  | .conditional => "conditional"

/-- The verdicts, in the order in which they are listed. -/
def Fit.all : List Fit := [.always, .never, .conditional]

/-- The verdict on a source type and the type it is to be stored as. -/
def Ty.fit (source dest : Ty) : Fit :=
  if source.fits dest then
    .always
  else
    match source with
    | .any => .conditional
    | .interface shape => if dest.implements shape then .conditional else .never
    | _ => .never

end Dataflow
