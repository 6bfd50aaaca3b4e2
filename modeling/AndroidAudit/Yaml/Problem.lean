/-!
# What can be wrong with YAML text

A problem has a cause and a mark, and it may have a context: what was being read, and where that
started.
-/

namespace AndroidAudit.Yaml

/-- A place in a text. All three numbers count from zero. -/
structure Mark where
  /-- The number of bytes before it. -/
  index : Nat
  /-- The number of lines before it. -/
  line : Nat
  /-- The number of characters before it in its line. -/
  column : Nat
  deriving DecidableEq, Repr

namespace Mark

/-- The start of a text. -/
def start : Mark := ⟨0, 0, 0⟩

/-- Whether a mark is the first place of the first line. -/
def isStart (m : Mark) : Bool := m.line == 0 && m.column == 0

/-- Whether two marks have the same line and column. -/
def sameSpot (m n : Mark) : Bool := m.line == n.line && m.column == n.column

/-- A mark in words. -/
def text (m : Mark) : String :=
  "line " ++ toString (m.line + 1) ++ " column " ++ toString (m.column + 1)

/-- A mark in words behind a message. The start of the text is not mentioned. -/
def suffix (m : Mark) : String := if m.isStart then "" else " at " ++ m.text

end Mark

/-- What was being read. -/
inductive Context where
  | nextToken
  /-- A key without a question mark before it. -/
  | simpleKey
  | directive
  | versionDirective
  | tagDirective
  | tagDirectiveHandle
  | tagDirectiveHandleEnd
  | tagDirectiveTarget
  | tag
  /-- The rest of a tag behind its handle. -/
  | tagTarget
  | anchor
  /-- An alias. -/
  | reference
  /-- A literal or folded scalar. -/
  | blockScalar
  | quotedScalar
  | quotedEscape
  | plainScalar
  | node
  | blockNode
  | flowNode
  /-- A list in a block. -/
  | blockCollection
  | blockMapping
  | flowSequence
  | flowMapping
  deriving DecidableEq, Repr

/-- A context in words. -/
def Context.text : Context → String
  | nextToken => "while scanning for the next token"
  | simpleKey => "while scanning a simple key"
  | directive => "while scanning a directive"
  | versionDirective => "while scanning a %YAML directive"
  | tagDirective => "while scanning a %TAG directive"
  | tagDirectiveHandle => "while scanning a tag directive"
  | tagDirectiveHandleEnd => "while parsing a tag directive"
  | tagDirectiveTarget => "while parsing a %TAG directive"
  | tag => "while scanning a tag"
  | tagTarget => "while parsing a tag"
  | anchor => "while scanning an anchor"
  | reference => "while scanning an alias"
  | blockScalar => "while scanning a block scalar"
  | quotedScalar => "while scanning a quoted scalar"
  | quotedEscape => "while parsing a quoted scalar"
  | plainScalar => "while scanning a plain scalar"
  | node => "while parsing a node"
  | blockNode => "while parsing a block node"
  | flowNode => "while parsing a flow node"
  | blockCollection => "while parsing a block collection"
  | blockMapping => "while parsing a block mapping"
  | flowSequence => "while parsing a flow sequence"
  | flowMapping => "while parsing a flow mapping"

/-- What is wrong. -/
inductive Cause where
  | controlCharacter
  | cannotStart
  /-- A key that must be one has no colon. -/
  | missingColon
  | misplacedEntry
  | misplacedKey
  | misplacedValue
  | noDirectiveName
  /-- A name that goes on in another way than with letters. -/
  | badDirectiveName
  | unknownDirective
  /-- Something behind a directive or a block scalar's head. -/
  | noLineEnd
  | noVersionPoint
  | noVersionNumber
  | longVersion
  | noBlank
  | noBlankOrEnd
  | noExclamation
  | noAngleBracket
  | noTagTarget
  /-- A percent sign without two digits. -/
  | noOctet
  | badFirstOctet
  | badNextOctet
  /-- An anchor or alias without a name. -/
  | noName
  | zeroIndent
  /-- A tab among the blanks of an indentation in a block scalar. -/
  | tabInIndent
  /-- A document marker inside quotes. -/
  | documentMarker
  /-- The end of the text inside quotes. -/
  | endOfText
  | unknownEscape
  | noHexDigits
  | badCodePoint
  /-- A colon that a bracket, brace or comma follows. -/
  | strayColon
  /-- A tab among the blanks of an indentation in a plain scalar. -/
  | tabBreaksIndent
  | noDocumentStart
  | secondVersion
  | otherVersion
  | secondHandle
  /-- A tag handle that no directive defines. -/
  | unknownHandle
  | noNode
  | noEntry
  | noKey
  /-- A list in brackets that neither goes on nor ends. -/
  | noSequenceEnd
  /-- A mapping in braces that neither goes on nor ends. -/
  | noMappingEnd
  deriving DecidableEq, Repr

/-- A cause in words. -/
def Cause.text : Cause → String
  | controlCharacter => "control characters are not allowed"
  | cannotStart => "found character that cannot start any token"
  | missingColon => "could not find expected ':'"
  | misplacedEntry => "block sequence entries are not allowed in this context"
  | misplacedKey => "mapping keys are not allowed in this context"
  | misplacedValue => "mapping values are not allowed in this context"
  | noDirectiveName => "could not find expected directive name"
  | badDirectiveName => "found unexpected non-alphabetical character"
  | unknownDirective => "found unknown directive name"
  | noLineEnd => "did not find expected comment or line break"
  | noVersionPoint => "did not find expected digit or '.' character"
  | noVersionNumber => "did not find expected version number"
  | longVersion => "found extremely long version number"
  | noBlank => "did not find expected whitespace"
  | noBlankOrEnd => "did not find expected whitespace or line break"
  | noExclamation => "did not find expected '!'"
  | noAngleBracket => "did not find the expected '>'"
  | noTagTarget => "did not find expected tag URI"
  | noOctet => "did not find URI escaped octet"
  | badFirstOctet => "found an incorrect leading UTF-8 octet"
  | badNextOctet => "found an incorrect trailing UTF-8 octet"
  | noName => "did not find expected alphabetic or numeric character"
  | zeroIndent => "found an indentation indicator equal to 0"
  | tabInIndent => "found a tab character where an indentation space is expected"
  | documentMarker => "found unexpected document indicator"
  | endOfText => "found unexpected end of stream"
  | unknownEscape => "found unknown escape character"
  | noHexDigits => "did not find expected hexadecimal number"
  | badCodePoint => "found invalid Unicode character escape code"
  | strayColon => "found unexpected ':'"
  | tabBreaksIndent => "found a tab character that violates indentation"
  | noDocumentStart => "did not find expected <document start>"
  | secondVersion => "found duplicate %YAML directive"
  | otherVersion => "found incompatible YAML document"
  | secondHandle => "found duplicate %TAG directive"
  | unknownHandle => "found undefined tag handle"
  | noNode => "did not find expected node content"
  | noEntry => "did not find expected '-' indicator"
  | noKey => "did not find expected key"
  | noSequenceEnd => "did not find expected ',' or ']'"
  | noMappingEnd => "did not find expected ',' or '\x7d'"

/-- Where a problem is: at a mark, or so many bytes into the text. -/
inductive Position where
  | mark (m : Mark)
  /-- So many bytes into the text. -/
  | offset (n : Nat)
  deriving DecidableEq, Repr

/-- Something wrong with a text. -/
structure Problem where
  cause : Cause
  position : Position
  /-- What was being read, and where that started. -/
  context : Option (Context × Mark)
  deriving DecidableEq, Repr

/-- A problem in words. -/
def Problem.message (p : Problem) : String :=
  let position := match p.position with
    | .mark m => m.suffix
    | .offset n => if n = 0 then "" else " at position " ++ toString n
  let known := match p.position with
    | .mark m => m
    | .offset _ => .start
  let context := match p.context with
    | none => ""
    | some (c, m) => ", " ++ c.text ++ (if m.sameSpot known then "" else m.suffix)
  p.cause.text ++ position ++ context

end AndroidAudit.Yaml
