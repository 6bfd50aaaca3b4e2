import AndroidAudit.Json.Place

/-!
# Faults of syntax

Why a text is no JSON document, and where.
-/

namespace AndroidAudit.Json

/-- Why a text is no document. -/
inductive SyntaxError where
  | endInList
  | endInObject
  | endInString
  | endInValue
  | expectedColon
  | expectedListComma
  | expectedObjectComma
  /-- A word other than the three that are values. -/
  | expectedWord
  | expectedValue
  | invalidEscape
  /-- A number that breaks off or has a zero in front. -/
  | invalidNumber
  /-- A number too large for a floating point number. -/
  | numberOutOfRange
  | controlCharacter
  | keyMustBeString
  | loneSurrogate
  | trailingComma
  | trailingCharacters
  /-- The first half of a surrogate pair, without an escape after it. -/
  | endOfHexEscape
  | tooDeep
  deriving DecidableEq, Repr

/-- What is wrong, in words. -/
def SyntaxError.text : SyntaxError → String
  | .endInList => "EOF while parsing a list"
  | .endInObject => "EOF while parsing an object"
  | .endInString => "EOF while parsing a string"
  | .endInValue => "EOF while parsing a value"
  | .expectedColon => "expected `:`"
  | .expectedListComma => "expected `,` or `]`"
  | .expectedObjectComma => "expected `,` or `\x7d`"
  | .expectedWord => "expected ident"
  | .expectedValue => "expected value"
  | .invalidEscape => "invalid escape"
  | .invalidNumber => "invalid number"
  | .numberOutOfRange => "number out of range"
  | .controlCharacter => "control character (\\u0000-\\u001F) found while parsing a string"
  | .keyMustBeString => "key must be a string"
  | .loneSurrogate => "lone leading surrogate in hex escape"
  | .trailingComma => "trailing comma"
  | .trailingCharacters => "trailing characters"
  | .endOfHexEscape => "unexpected end of hex escape"
  | .tooDeep => "recursion limit exceeded"

/-- Whether a longer text could be right. -/
def SyntaxError.isEnd : SyntaxError → Bool
  | .endInList | .endInObject | .endInString | .endInValue => true
  | _ => false

/-- A fault and its place. -/
structure Fault where
  error : SyntaxError
  place : Place
  deriving DecidableEq, Repr

/-- A fault seen in the byte that comes next. -/
def Cursor.faultAhead (c : Cursor) (e : SyntaxError) : Fault := ⟨e, c.peek⟩

/-- A fault just before what comes next. -/
def Cursor.faultHere (c : Cursor) (e : SyntaxError) : Fault := ⟨e, c.place⟩

end AndroidAudit.Json
