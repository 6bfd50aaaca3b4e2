/-!
# Patterns as they are written

A written pattern keeps where its parts start and stop, so that whatever is wrong with a part can be
shown under it (`Flaw.message`).
-/

namespace AndroidAudit.Pattern

/-! ## Places in a written pattern -/

/-- A place in a written pattern. -/
structure Spot where
  /-- The number of characters before it. -/
  offset : Nat
  /-- Its line, from one. -/
  line : Nat
  /-- Its column, from one. -/
  column : Nat
  deriving DecidableEq, Repr

namespace Spot

/-- Where a written pattern starts. -/
def first : Spot := ⟨0, 1, 1⟩

/-- The place behind a character. -/
def after (s : Spot) (c : Char) : Spot :=
  if c = '\n' then ⟨s.offset + 1, s.line + 1, 1⟩ else ⟨s.offset + 1, s.line, s.column + 1⟩

end Spot

/-- A part of a written pattern. -/
structure Span where
  start : Spot
  stop : Spot
  deriving DecidableEq, Repr

/-- The empty part at a place. -/
def Span.point (s : Spot) : Span := ⟨s, s⟩

/-! ## What can be wrong -/

/-- What is wrong with a written pattern. -/
inductive Cause where
  | escapeInSet
  | rangeDown
  /-- A range whose end is no character. -/
  | rangeEnd
  | openSet
  /-- A number too large. -/
  | badNumber
  | emptyHex
  /-- A code point that is no character. -/
  | badHex
  | badHexDigit
  | openEscape
  | unknownEscape
  | danglingHyphen
  | repeatedFlag
  | repeatedHyphen
  | openFlags
  | unknownFlag
  | repeatedName
  | emptyName
  | badName
  | openName
  | openGroup
  | strayGroupEnd
  | tooDeep
  /-- A count whose least is greater than its most. -/
  | countDown
  | emptyCount
  | openCount
  | nothingCounted
  | openEdge
  | unknownEdge
  /-- A word edge or a count that breaks off. -/
  | brokenEdge
  /-- A class of characters that is no name. -/
  | badProperty
  | reference
  /-- A look at what comes before or behind. -/
  | lookAround
  /-- A character out of ASCII where only bytes can stand. -/
  | wideNotAllowed
  /-- A part that fits bytes which are no text. -/
  | notText
  | unknownProperty
  | unknownValue
  /-- A class of letters, digits or blanks of all scripts. -/
  | wideClass
  /-- Case left out of account in all scripts. -/
  | wideCase
  deriving DecidableEq, Repr

/-- How deep parts may be inside each other. -/
def maxDepth : Nat := 250

/-- What is wrong, in words. -/
def Cause.text : Cause → String
  | escapeInSet => "invalid escape sequence found in character class"
  | rangeDown => "invalid character class range, the start must be <= the end"
  | rangeEnd => "invalid range boundary, must be a literal"
  | openSet => "unclosed character class"
  | badNumber => "decimal literal invalid"
  | emptyHex => "hexadecimal literal empty"
  | badHex => "hexadecimal literal is not a Unicode scalar value"
  | badHexDigit => "invalid hexadecimal digit"
  | openEscape => "incomplete escape sequence, reached end of pattern prematurely"
  | unknownEscape => "unrecognized escape sequence"
  | danglingHyphen => "dangling flag negation operator"
  | repeatedFlag => "duplicate flag"
  | repeatedHyphen => "flag negation operator repeated"
  | openFlags => "expected flag but got end of regex"
  | unknownFlag => "unrecognized flag"
  | repeatedName => "duplicate capture group name"
  | emptyName => "empty capture group name"
  | badName => "invalid capture group character"
  | openName => "unclosed capture group name"
  | openGroup => "unclosed group"
  | strayGroupEnd => "unopened group"
  | tooDeep =>
    "exceed the maximum number of nested parentheses/brackets (" ++ toString maxDepth ++ ")"
  | countDown => "invalid repetition count range, the start must be <= the end"
  | emptyCount => "repetition quantifier expects a valid decimal"
  | openCount => "unclosed counted repetition"
  | nothingCounted => "repetition operator missing expression"
  | openEdge =>
    "special word boundary assertion is either unclosed or contains an invalid character"
  | unknownEdge => "unrecognized special word boundary assertion, "
    ++ "valid choices are: start, end, start-half or end-half"
  | brokenEdge => "found either the beginning of a special word boundary or a bounded repetition "
    ++ "on a \\b with an opening brace, but no closing brace"
  | badProperty => "invalid Unicode character class"
  | reference => "backreferences are not supported"
  | lookAround => "look-around, including look-ahead and look-behind, is not supported"
  | wideNotAllowed => "Unicode not allowed here"
  | notText => "pattern can match invalid UTF-8"
  | unknownProperty => "Unicode property not found"
  | unknownValue => "Unicode property value not found"
  | wideClass =>
    "Unicode-aware Perl class not found (make sure the unicode-perl feature is enabled)"
  | wideCase => "Unicode-aware case insensitivity matching is not available "
    ++ "(make sure the unicode-case feature is enabled)"

/-- Something wrong with a written pattern, the part where it is, and another part that it has to do
with. -/
structure Flaw where
  cause : Cause
  span : Span
  /-- The other part. -/
  other : Option Span
  deriving DecidableEq, Repr

/-! ## Flaws shown under the pattern -/

/-- The lines of a text, without their ends. What is behind the last line end is a line only if it is
not empty. -/
def linesOf (cs : List Char) : List (List Char) :=
  let lines := (String.ofList cs).splitOn "\n" |>.map String.toList
  let lines := if lines.getLast? == some [] then lines.dropLast else lines
  lines.zipIdx.map fun (line, i) =>
    -- a carriage return belongs to the line end behind it
    let ended := i + 1 < lines.length || cs.getLast? == some '\n'
    if ended && line.getLast? == some '\r' then line.dropLast else line

/-- Marks under the parts of a line, from a column on. -/
def underline (column : Nat) : List Span → List Char
  | [] => []
  | s :: rest =>
    let blanks := s.start.column - 1 - column
    let marks := max 1 (s.stop.column - s.start.column)
    List.replicate blanks ' ' ++ List.replicate marks '^' ++ underline (column + blanks + marks) rest

/-- The lines of a pattern with marks under those that have parts to mark. The number is how wide the
line numbers are, if the lines are numbered. -/
def annotate (width : Nat) (spans : List Span) (lines : List (List Char)) : List (List Char) :=
  lines.zipIdx.flatMap fun (line, i) =>
    let number := (toString (i + 1)).toList
    let head :=
      if width = 0 then List.replicate 4 ' '
      else List.replicate (width - number.length) ' ' ++ number ++ [':', ' ']
    let marked := spans.filter (·.start.line == i + 1)
    (head ++ line) :: (if marked.isEmpty then []
      else [List.replicate (if width = 0 then 4 else width + 2) ' ' ++ underline 0 marked])

/-- A flaw of a pattern: the pattern with marks under what is wrong, and what that is. -/
def Flaw.message (f : Flaw) (pattern : List Char) : String :=
  let spans := (f.span :: f.other.toList).mergeSort fun a b => a.start.offset ≤ b.start.offset
  let lines := linesOf pattern
  let count := lines.length + (if pattern.getLast? == some '\n' then 1 else 0)
  let width := if count ≤ 1 then 0 else (toString count).length
  let short := spans.filter fun s => s.start.line == s.stop.line
  let long := spans.filter fun s => s.start.line != s.stop.line
  let body := annotate width short lines |>.map String.ofList
  let divider := String.ofList (List.replicate 79 '~')
  let note (s : Span) : String :=
    "on line " ++ toString s.start.line ++ " (column " ++ toString s.start.column
      ++ ") through line " ++ toString s.stop.line ++ " (column "
      ++ toString (s.stop.column - 1) ++ ")"
  let parts :=
    if pattern.contains '\n' then [divider] ++ body ++ [divider] ++ long.map note else body
  "\n".intercalate (["regex parse error:"] ++ parts ++ ["error: " ++ f.cause.text])

/-! ## Written patterns -/

/-- A way of reading a pattern that can be turned on and off. -/
inductive Flag where
  /-- Case is left out of account. -/
  | fold
  /-- Lines have starts and ends. -/
  | lines
  /-- The full stop fits line ends too. -/
  | dotAll
  /-- Counts take as little as they can first. -/
  | swap
  /-- Characters of all scripts. -/
  | wide
  /-- A carriage return ends lines too. -/
  | returns
  /-- Blanks and comments are passed over. -/
  | loose
  deriving DecidableEq, Repr

/-- The flag of a letter. -/
def Flag.ofChar? (c : Char) : Option Flag :=
  if c = 'i' then some .fold
  else if c = 'm' then some .lines
  else if c = 's' then some .dotAll
  else if c = 'U' then some .swap
  else if c = 'u' then some .wide
  else if c = 'R' then some .returns
  else if c = 'x' then some .loose
  else none

/-- Flags that are turned on or off. -/
abbrev FlagChanges := List (Flag × Bool)

/-- Classes of characters by a letter. -/
inductive LetterClass where
  | digit
  | space
  /-- What words are made of. -/
  | word
  deriving DecidableEq, Repr

/-- What a place is asked by its sign. -/
inductive Sign where
  /-- The start of a line, or of the text. -/
  | lineStart
  /-- The end of a line, or of the text. -/
  | lineStop
  | textStart
  | textStop
  | edge
  | noEdge
  | wordStart
  | wordStop
  /-- No letter is before. -/
  | wordStartHalf
  /-- No letter is behind. -/
  | wordStopHalf
  deriving DecidableEq, Repr

/-- One character or class, as it is written in brackets or outside. -/
inductive Piece where
  /-- A character, which may be written as a byte. -/
  | char (c : Char) (isByte : Bool) (span : Span)
  | dot (span : Span)
  | sign (s : Sign) (span : Span)
  | letter (l : LetterClass) (negated : Bool) (span : Span)
  /-- A class by a property's name, and its value if there is one. -/
  | property (name : List Char) (value : Option (List Char)) (span : Span)
  deriving DecidableEq, Repr

/-- Where a character or class is. -/
def Piece.span : Piece → Span
  | .char _ _ s | .dot s | .sign _ s | .letter _ _ s | .property _ _ s => s

/-- What is done with two sets. -/
inductive SetOperation where
  | inter
  | diff
  | symmDiff
  deriving DecidableEq, Repr

/-- What stands in brackets. -/
inductive WrittenSet where
  | empty (span : Span)
  | piece (p : Piece)
  | range (a b : Char) (aIsByte bIsByte : Bool) (aSpan bSpan : Span)
  /-- A class of ASCII by its name. -/
  | named (ranges : List (Nat × Nat)) (negated : Bool) (span : Span)
  | bracket (negated : Bool) (s : WrittenSet) (span : Span)
  | union (items : List WrittenSet) (span : Span)
  | both (op : SetOperation) (a b : WrittenSet) (span : Span)

/-- Where a set is. -/
def WrittenSet.span : WrittenSet → Span
  | .empty s | .named _ _ s | .bracket _ _ s | .union _ s | .both _ _ _ s => s
  | .piece p => p.span
  | .range _ _ _ _ a b => ⟨a.start, b.stop⟩

/-- A pattern as it is written. -/
inductive Written where
  | empty (span : Span)
  /-- Flags for what comes behind. -/
  | flags (changes : FlagChanges) (span : Span)
  | piece (p : Piece)
  | bracket (negated : Bool) (s : WrittenSet) (span : Span)
  | times (w : Written) (least : Nat) (most : Option Nat) (span : Span)
  /-- A pattern in parentheses, with flags of its own. -/
  | group (changes : FlagChanges) (w : Written) (span : Span)
  | alternation (ws : List Written) (span : Span)
  | concat (ws : List Written) (span : Span)

/-- Where a written pattern is. -/
def Written.span : Written → Span
  | .empty s | .flags _ s | .bracket _ _ s | .times _ _ _ s | .group _ _ s | .alternation _ s
  | .concat _ s => s
  | .piece p => p.span

end AndroidAudit.Pattern
