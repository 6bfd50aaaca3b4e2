/-!
# Places in a text

A place is a line and the number of bytes before it in that line. A cursor is what is left of a text
together with the place where it starts.
-/

namespace AndroidAudit.Json

/-- A place in a text. Lines count from one. -/
structure Place where
  line : Nat
  /-- The number of bytes before it in the line. -/
  column : Nat
  deriving DecidableEq, Repr

namespace Place

/-- The place where a text starts. -/
def start : Place := ⟨1, 0⟩

/-- The place after a character. -/
def after (p : Place) (c : Char) : Place :=
  if c = '\n' then ⟨p.line + 1, 0⟩ else ⟨p.line, p.column + c.utf8Size⟩

/-- The place after a list of characters. -/
def afterAll (p : Place) (cs : List Char) : Place := cs.foldl after p

/-- The place after one byte of a character. -/
def afterByte (p : Place) (c : Char) : Place :=
  if c = '\n' then ⟨p.line + 1, 0⟩ else ⟨p.line, p.column + 1⟩

/-- The place so many bytes further on, which may fall inside a character. -/
def afterBytes? (p : Place) : Nat → List Char → Option Place
  | 0, _ => some p
  | _ + 1, [] => none
  | n + 1, c :: rest =>
    if c.utf8Size ≤ n + 1 then (p.after c).afterBytes? (n + 1 - c.utf8Size) rest
    else some ⟨p.line, p.column + (n + 1)⟩

end Place

/-- The rest of a text, and where it starts. -/
structure Cursor where
  rest : List Char
  place : Place
  deriving DecidableEq, Repr

namespace Cursor

/-- The start of a text. -/
def ofText (cs : List Char) : Cursor := ⟨cs, .start⟩

/-- The place after the next byte, or the end if there is none. -/
def peek (c : Cursor) : Place :=
  match c.rest with
  | [] => c.place
  | d :: _ => c.place.afterByte d

/-- One character on. -/
def next (c : Cursor) : Cursor :=
  match c.rest with
  | [] => c
  | d :: rest => ⟨rest, c.place.after d⟩

/-- The characters at the front that satisfy a test, and the cursor after them. -/
def spanFrom (p : Char → Bool) : List Char → Place → List Char × Cursor
  | [], place => ([], ⟨[], place⟩)
  | d :: rest, place =>
    if p d then
      let (taken, c) := spanFrom p rest (place.after d)
      (d :: taken, c)
    else ([], ⟨d :: rest, place⟩)

/-- The characters at the front that satisfy a test, and the cursor after them. -/
def span (p : Char → Bool) (c : Cursor) : List Char × Cursor := spanFrom p c.rest c.place

/-- Blanks may stand between any two parts of a document. -/
def isBlank (c : Char) : Bool := c = ' ' || c = '\n' || c = '\t' || c = '\r'

/-- The cursor after the blanks at the front. -/
def skipBlank (c : Cursor) : Cursor := (c.span isBlank).2

end Cursor

end AndroidAudit.Json
