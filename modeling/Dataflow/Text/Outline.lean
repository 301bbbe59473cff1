import Dataflow.Circuit
import Dataflow.Text.Printable

/-!
# Outlines

The outline of a thing is a text that shows how it is built: each constructor by
name with what it holds.  Texts inside are quoted.
-/

namespace Dataflow

namespace Outline

/-- How quoted text shows a character. -/
def quoteChar (c : Char) : String :=
  match c with
  | '"' => "\\\""
  | '\\' => "\\\\"
  | '\n' => "\\n"
  | '\r' => "\\r"
  | '\t' => "\\t"
  | '\x00' => "\\0"
  | _ =>
    if hasForm c then
      String.singleton c
    else
      "\\u\x7b" ++ String.ofList (Nat.toDigits 16 c.toNat) ++ "\x7d"

/-- A text between quotation marks. -/
def quote (text : String) : String :=
  "\"" ++ String.join (text.toList.map quoteChar) ++ "\""

/-- Parts between brackets. -/
def bracketed (parts : List String) : String :=
  "[" ++ ", ".intercalate parts ++ "]"

/-- Parts between braces. -/
def braced (parts : List String) : String :=
  "\x7b" ++ ", ".intercalate parts ++ "\x7d"

/-- A constructor with named parts. -/
def named (name : String) (parts : List (String × String)) : String :=
  name ++ " \x7b " ++ ", ".intercalate (parts.map fun p => p.1 ++ ": " ++ p.2) ++ " \x7d"

/-- A constructor with named parts, some of which are not shown. -/
def openStructure (name : String) (parts : List (String × String)) : String :=
  name ++ " \x7b " ++ String.join (parts.map fun p => p.1 ++ ": " ++ p.2 ++ ", ") ++ ".. \x7d"

/-- A set of capabilities. -/
def capabilities (set : Capabilities) : String :=
  braced (set.names.map quote)

mutual

/-- A type. -/
def type : Ty → String
  | .any => "Any"
  | .null => "Null"
  | .bool => "Bool"
  | .int => "Int"
  | .float => "Float"
  | .string => "String"
  | .list elem => "List(" ++ type elem ++ ")"
  | .map key value => named "Map" [("key", type key), ("value", type value)]
  | .record ⟨name, fields, caps⟩ => "Record(" ++ named "RecordType"
      [("name", quote name), ("fields", bracketed (Outline.fields fields)),
        ("capabilities", capabilities caps)] ++ ")"
  | .interface shape => "Interface(" ++ named "InterfaceType"
      [("name", quote shape.name), ("capabilities", capabilities shape.capabilities)] ++ ")"
  | .boxed inner => "Boxed(" ++ type inner ++ ")"

/-- The fields of a record. -/
def fields : List Field → List String
  | [] => []
  | ⟨name, fieldType, visibility⟩ :: rest =>
    named "FieldDef" [("name", quote name), ("ty", type fieldType),
      ("visibility", match visibility with | .shown => "Public" | .hidden => "Private")]
      :: fields rest

end

/-- A kind. -/
def kind : Kind → String
  | .any => "Any"
  | .null => "Null"
  | .bool => "Bool"
  | .int => "Int"
  | .float => "Float"
  | .string => "String"
  | .list => "List"
  | .map => "Map"
  | .record => "Record"
  | .interface => "Interface"
  | .boxed => "Boxed"

end Outline

/-- The outline of a registry: the types with policies by their texts, and the
kinds with policies in their usual order. -/
def MergeRegistry.outline (registry : MergeRegistry) : String :=
  let types := (registry.byType.map (·.1)).mergeSort fun a b => decide (a.text ≤ b.text)
  let kinds := Kind.all.filter fun k => registry.byKind.any (·.1 = k)
  Outline.named "MergeRegistry"
    [("types", Outline.bracketed (types.map Outline.type)),
      ("kinds", Outline.bracketed (kinds.map Outline.kind))]

/-- The outline of a node. -/
def Node.outline (node : Node) : String :=
  Outline.openStructure "Lambda"
    [("input", Outline.type node.input), ("output", Outline.type node.output)]

/-- The outline of a handler. -/
def Handler.outline : String :=
  Outline.openStructure "HandlerPair" []

/-- The outline of a circuit. -/
def Circuit.outline (circuit : Circuit) : String :=
  let name := match circuit.options.name with
    | none => "None"
    | some name => "Some(" ++ Outline.quote name ++ ")"
  Outline.openStructure "CompiledGraph"
    [("name", name), ("order", Outline.bracketed (circuit.order.map Outline.quote)),
      ("edges", toString circuit.wires.length), ("input_type", Outline.type circuit.input),
      ("output_type", Outline.type circuit.output)]

end Dataflow
