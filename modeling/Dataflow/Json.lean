/-!
# JSON trees

JSON documents as trees.  The members of an object keep the order in which they
are listed.
-/

namespace Dataflow

/-- A JSON document. -/
inductive Json
  | null
  | bool (b : Bool)
  /-- The number `mantissa · 10 ^ -exponent`. -/
  | number (mantissa : Int) (exponent : Nat)
  | string (s : String)
  | array (items : List Json)
  | object (members : List (String × Json))

instance : Inhabited Json := ⟨.null⟩

namespace Json

/-- The first member of a name. -/
def member? (name : String) : List (String × Json) → Option Json
  | [] => none
  | (n, json) :: rest => if n = name then some json else member? name rest

/-- The text, if the document is one. -/
def asString? : Json → Option String
  | .string s => some s
  | _ => none

/-- The items, if the document is an array. -/
def asArray? : Json → Option (List Json)
  | .array items => some items
  | _ => none

/-- The word of a plain variant, which is written as a text or as an object with
one empty member. -/
def asWord? : Json → Option String
  | .string word => some word
  | .object [(word, .null)] => some word
  | _ => none

/-- The array of some texts. -/
def strings (texts : List String) : Json := .array (texts.map .string)

end Json

end Dataflow
