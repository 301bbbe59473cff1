import Dataflow.Merge

/-!
# Ready-made merge policies

Policies that graphs can register beside the standard ones.
-/

namespace Dataflow.Policy

/-- The first value. -/
def first : Policy := fun _ values => .ok (values.headD .null)

/-- The last value. -/
def last : Policy := fun _ values => .ok (values.getLastD .null)

/-- The sum of the numbers, in 64 bits with wrapping; other values do not
count. -/
def sum : Policy := fun _ values =>
  .ok (.int (values.filterMap Value.asInt?).sum)

/-- A text with the number of values and their declared type. -/
def describe : Policy := fun type values =>
  .ok (.string s!"{values.length}*{type.text}")

/-- The values as a list with the declared type as its element type. -/
def collect : Policy := fun type values => do
  let list ← (ListValue.ofItems type values).mapError .access
  return list.toValue

/-- Always refuses, with a reason. -/
def refuse (reason : String) : Policy := fun _ _ => .error (conflict reason)

/-- Always fails, with a message of its own. -/
def fail (message : String) : Policy := fun _ _ => .error (.internal (.other message))

end Dataflow.Policy
