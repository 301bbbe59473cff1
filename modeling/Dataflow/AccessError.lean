/-!
# Access errors

Why a part of a type or a value could not be read or written.  An error is a
kind and, where there is more to say, a detail.
-/

namespace Dataflow

/-- The kinds of access errors. -/
inductive AccessKind
  /-- A map has no entry for the key. -/
  | keyNotFound
  /-- A record has no field of the name. -/
  | fieldNotFound
  /-- The field cannot be read from outside its record. -/
  | fieldNotAccessible
  /-- The field cannot be written from outside its record. -/
  | fieldNotWritable
  /-- The value has neither fields nor keys. -/
  | unsupportedShape
  /-- The map has no text keys. -/
  | unsupportedKeyType
  /-- The value does not fit where it is to be stored. -/
  | typeMismatch
deriving DecidableEq

/-- The kinds, in the order in which they are listed. -/
def AccessKind.all : List AccessKind :=
  [.keyNotFound, .fieldNotFound, .fieldNotAccessible, .fieldNotWritable, .unsupportedShape,
    .unsupportedKeyType, .typeMismatch]

/-- The word for a kind. -/
def AccessKind.word : AccessKind → String
  | .keyNotFound => "key_not_found"
  | .fieldNotFound => "field_not_found"
  | .fieldNotAccessible => "field_not_accessible"
  | .fieldNotWritable => "field_not_writable"
  | .unsupportedShape => "unsupported_shape"
  | .unsupportedKeyType => "unsupported_key_type"
  | .typeMismatch => "type_mismatch"

/-- Why a part could not be read or written. -/
structure AccessError where
  kind : AccessKind
  /-- What there is to say beyond the kind. -/
  detail : Option String := none
deriving DecidableEq

namespace AccessError

/-- Says more about an error, in place of what was said before. -/
def withDetail (error : AccessError) (detail : String) : AccessError :=
  { error with detail := some detail }

/-- The text of an error: its kind and its detail. -/
def message (error : AccessError) : String :=
  match error.detail with
  | none => error.kind.word
  | some detail => error.kind.word ++ ": " ++ detail

end AccessError

end Dataflow
