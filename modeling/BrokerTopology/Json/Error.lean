/-!
# Why a document is not read

The causes fall into three kinds: the text ends too early, the text is not JSON, or it is JSON of
another shape than the one asked for.
-/

namespace BrokerTopology.Json

/-- Why a text is not read as the document asked for. -/
inductive Error where
  /-- The text ends inside a value. -/
  | unexpectedEnd
  /-- No value begins with this character. -/
  | expectedValue
  /-- The word is not `null`, `true` or `false`. -/
  | expectedLiteral
  /-- A member name is not followed by a colon. -/
  | expectedColon
  /-- An item or a member is followed neither by a comma nor by the closing bracket. -/
  | expectedSeparator
  /-- A comma is followed by the closing bracket. -/
  | trailingComma
  /-- A member does not begin with a quoted name. -/
  | expectedName
  /-- Something follows the document, or the last field of an array that stands for a record. -/
  | trailingText
  /-- A number lacks a digit, or begins with a zero that another digit follows. -/
  | malformedNumber
  /-- A number is too large for a double. -/
  | numberOutOfRange
  /-- A backslash begins no escape. -/
  | malformedEscape
  /-- An escaped surrogate has no partner. -/
  | unpairedSurrogate
  /-- A control character stands in a text without being escaped. -/
  | controlCharacter
  /-- Containers are nested too deep. -/
  | nestedTooDeep
  /-- A value of another type is asked for. -/
  | wrongType
  /-- An array that stands for a record has too few or too many items. -/
  | wrongLength
  /-- A record lacks a field. -/
  | missingField (name : String)
  /-- A record has a field twice. -/
  | repeatedField (name : String)
  /-- A record is tagged with a word that names no variant. -/
  | unknownVariant (tag : String)
  deriving DecidableEq, Repr

namespace Error

/-- The three kinds of causes. -/
inductive Kind where
  | ended
  | malformed
  | mismatched
  deriving DecidableEq, Repr

/-- The kind of a cause. -/
def kind : Error → Kind
  | unexpectedEnd => .ended
  | expectedValue | expectedLiteral | expectedColon | expectedSeparator | trailingComma
  | expectedName | trailingText | malformedNumber | numberOutOfRange | malformedEscape
  | unpairedSurrogate | controlCharacter | nestedTooDeep => .malformed
  | wrongType | wrongLength | missingField _ | repeatedField _ | unknownVariant _ => .mismatched

end Error

end BrokerTopology.Json
