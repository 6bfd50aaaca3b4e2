import AndroidAudit.Yaml.Problem

/-!
# YAML text under a reading hand

A source is what is left of a text with the mark where it starts. This module has the classes of
characters and the small steps that everything else is read by.
-/

namespace AndroidAudit.Yaml

/-- The rest of a text, and where it starts. -/
structure Source where
  rest : List Char
  mark : Mark
  /-- A number above that of the characters left, which bounds every loop over them. It stays the same
  from the start of the text to its end. -/
  bound : Nat
  deriving DecidableEq, Repr

/-- Whether a character may stand in a text. -/
def isAllowed (c : Char) : Bool :=
  let n := c.toNat
  n == 0x09 || n == 0x0A || n == 0x0D || (0x20 ≤ n && n ≤ 0x7E) || n == 0x85
    || (0xA0 ≤ n && n ≤ 0xD7FF) || (0xE000 ≤ n && n ≤ 0xFFFD) || 0x10000 ≤ n

/-- The mark of byte order, which may stand at the start of a line. -/
def byteOrderMark : Char := Char.ofNat 0xFEFF

/-- The number of bytes in which a text is taken in: a block has as many characters as fit. -/
def blockSize : Nat := 16384

/-- The first character that may not stand in a text: how many characters are in the blocks before its
block, and how many bytes are before it. `room` is what is left of the current block, `taken` counts
the characters before that block and `count` those before the next character. -/
def barrier? (room taken count offset : Nat) : List Char → Option (Nat × Nat)
  | [] => none
  | c :: rest =>
    let fits := c.utf8Size ≤ room
    let taken := if fits then taken else count
    let room := if fits then room else blockSize
    if isAllowed c then
      barrier? (room - c.utf8Size) taken (count + 1) (offset + c.utf8Size) rest
    else some (taken, offset)

/-- The next line character. -/
def nextLine : Char := Char.ofNat 0x85

/-- The line separator. -/
def lineSeparator : Char := Char.ofNat 0x2028

/-- The paragraph separator. -/
def paragraphSeparator : Char := Char.ofNat 0x2029

/-- Whether a character ends a line. -/
def isBreak (c : Char) : Bool :=
  c == '\n' || c == '\r' || c == nextLine || c == lineSeparator || c == paragraphSeparator

/-- Whether a character is a space or a tab. -/
def isBlank (c : Char) : Bool := c == ' ' || c == '\t'

/-- Whether a character may stand in a name. -/
def isNameChar (c : Char) : Bool :=
  ('0' ≤ c && c ≤ '9') || ('A' ≤ c && c ≤ 'Z') || ('a' ≤ c && c ≤ 'z') || c == '_' || c == '-'

/-- Whether a text ends here, or a line does. -/
def atBreak : List Char → Bool
  | [] => true
  | c :: _ => isBreak c

/-- Whether a text or a line ends here, or a blank comes. -/
def atGap : List Char → Bool
  | [] => true
  | c :: _ => isBlank c || isBreak c

/-- Whether a blank comes. -/
def atBlank : List Char → Bool
  | [] => false
  | c :: _ => isBlank c

/-- Whether one of some characters comes. -/
def atAny (cs : List Char) : List Char → Bool
  | [] => false
  | c :: _ => cs.contains c

/-- Whether three hyphens or three points come and a gap behind them. -/
def atDocumentMarker : List Char → Bool
  | '-' :: '-' :: '-' :: rest => atGap rest
  | '.' :: '.' :: '.' :: rest => atGap rest
  | _ => false

/-- Behind a character in the same line. -/
def Mark.past (m : Mark) (c : Char) : Mark := ⟨m.index + c.utf8Size, m.line, m.column + 1⟩

/-- At the start of the next line, so many bytes on. -/
def Mark.down (m : Mark) (n : Nat) : Mark := ⟨m.index + n, m.line + 1, 0⟩

namespace Source

/-- The start of a text. -/
def ofText (text : List Char) : Source := ⟨text, .start, text.length + 1⟩

/-- One character on in the same line. -/
def skip (s : Source) : Source :=
  match s.rest with
  | [] => s
  | c :: rest => ⟨rest, s.mark.past c, s.bound⟩

/-- So many characters on in the same line. -/
def skipMany : Nat → Source → Source
  | 0, s => s
  | n + 1, s => skipMany n s.skip

/-- The end of a line as it is kept, and the source behind it. -/
def takeBreak (s : Source) : List Char × Source :=
  match s.rest with
  | '\r' :: '\n' :: rest => (['\n'], ⟨rest, s.mark.down 2, s.bound⟩)
  | c :: rest =>
    if c == lineSeparator || c == paragraphSeparator then
      ([c], ⟨rest, s.mark.down c.utf8Size, s.bound⟩)
    else if isBreak c then (['\n'], ⟨rest, s.mark.down c.utf8Size, s.bound⟩)
    else ([], s)
  | [] => ([], s)

/-- The source behind the end of a line. -/
def skipBreak (s : Source) : Source := s.takeBreak.2

/-- The characters at the front that satisfy a test, and the source behind them. -/
def takeWhile (s : Source) (p : Char → Bool) : List Char × Source :=
  let taken := s.rest.takeWhile p
  (taken, s.skipMany taken.length)

/-- The source behind the characters at the front that satisfy a test. -/
def skipWhile (s : Source) (p : Char → Bool) : Source := (s.takeWhile p).2

/-- The source behind the blanks at the front. -/
def skipBlanks (s : Source) : Source := s.skipWhile isBlank

/-- The source behind a comment, if one comes. -/
def skipComment (s : Source) : Source :=
  match s.rest with
  | '#' :: _ => s.skipWhile (!isBreak ·)
  | _ => s

/-- A problem here. -/
def fail {α : Type} (s : Source) (cause : Cause) (context : Context) (start : Mark) :
    Except Problem α :=
  .error ⟨cause, .mark s.mark, some (context, start)⟩

end Source

end AndroidAudit.Yaml
