import AndroidAudit.Pattern.Written
import AndroidAudit.Text.Blank
import AndroidAudit.Text.Hex

/-!
# Reading a written pattern

A pattern is read from left to right. What is wrong is told of the first part that cannot be read, and
of a bracket or a group that is not closed once the end is reached, the innermost first.
-/

namespace AndroidAudit.Pattern

/-- What is left of a written pattern. -/
structure Hand where
  rest : List Char
  spot : Spot
  /-- Whether blanks and comments are passed over. -/
  loose : Bool
  names : List (List Char × Span)

namespace Hand

/-- The start of a written pattern. -/
def ofText (cs : List Char) : Hand := ⟨cs, .first, false, []⟩

/-- One character on. -/
def bump (h : Hand) : Hand :=
  match h.rest with
  | [] => h
  | c :: rest => { h with rest := rest, spot := h.spot.after c }

/-- So many characters on. -/
def bumpMany : Nat → Hand → Hand
  | 0, h => h
  | n + 1, h => bumpMany n h.bump

/-- Behind the blanks and comments at the front. A comment goes to the end of its line. -/
def skipLoose : Nat → (inComment : Bool) → Hand → Hand
  | 0, _, h => h
  | fuel + 1, inComment, h =>
    match h.rest with
    | [] => h
    | c :: _ =>
      if inComment then skipLoose fuel (c ≠ '\n') h.bump
      else if Text.isBlank c then skipLoose fuel false h.bump
      else if c = '#' then skipLoose fuel true h.bump
      else h

/-- Behind what is passed over at the front. -/
def space (h : Hand) : Hand := if h.loose then skipLoose h.rest.length false h else h

/-- One character on, and behind what is passed over there. -/
def bumpSpace (h : Hand) : Hand := h.bump.space

/-- Whether the pattern ends here. -/
def atEnd (h : Hand) : Bool := h.rest.isEmpty

/-- Whether a character comes. -/
def sees (h : Hand) (c : Char) : Bool := h.rest.head? == some c

/-- Behind some characters if they come. -/
def bumpIf? (h : Hand) (cs : List Char) : Option Hand :=
  if cs.isPrefixOf h.rest then some (bumpMany cs.length h) else none

/-- The empty part here. -/
def here (h : Hand) : Span := .point h.spot

/-- The part from a place to here. -/
def since (h : Hand) (start : Spot) : Span := ⟨start, h.spot⟩

/-- The part of the next character. -/
def charSpan (h : Hand) : Span :=
  match h.rest with
  | [] => h.here
  | c :: _ => ⟨h.spot, h.spot.after c⟩

/-- The character behind the next one, what is passed over left out. -/
def second? (h : Hand) : Option Char :=
  let rest := h.rest.drop 1
  if h.loose then (rest.dropWhile Text.isBlank ++ rest).head? else rest.head?

/-- Behind the characters at the front that satisfy a test, and these characters. What is passed over
is left out after each. -/
def takeWhile (p : Char → Bool) : Nat → Hand → List Char × Hand
  | 0, h => ([], h)
  | fuel + 1, h =>
    match h.rest with
    | [] => ([], h)
    | c :: _ =>
      if p c then
        let (cs, after) := takeWhile p fuel h.bumpSpace
        (c :: cs, after)
      else ([], h)

end Hand

/-- A flaw in a part. -/
def flaw {α : Type} (cause : Cause) (span : Span) : Except Flaw α := .error ⟨cause, span, none⟩

/-! ## Characters and classes -/

/-- Whether a character has a meaning of its own in patterns. -/
def isSpecial (c : Char) : Bool :=
  ['\\', '.', '+', '*', '?', '(', ')', '|', '[', ']', '\x7b', '\x7d', '^', '$', '#', '&', '-',
    '~'].contains c

/-- Whether a backslash before a character leaves it as it is. -/
def isEscapable (c : Char) : Bool :=
  isSpecial c || (c.toNat < 128 && !c.isAlphanum && c != '<' && c != '>')

/-- The character of a code point, if it is one. -/
def charOf? (n : Nat) : Option Char :=
  if n < 0xD800 ∨ (0xDFFF < n ∧ n ≤ 0x10FFFF) then some (Char.ofNat n) else none

/-- The number of hexadecimal digits. -/
def hexOf (cs : List Char) : Nat :=
  cs.foldl (fun n c => n * 16 + (Text.hexValue? c).getD 0) 0

/-- So many hexadecimal digits. -/
def hexDigits : Nat → (first : Bool) → Hand → Except Flaw (List Char × Hand)
  | 0, _, h => .ok ([], h)
  | n + 1, first, h =>
    let h := if first then h else h.bumpSpace
    match h.rest with
    | [] => flaw .openEscape h.here
    | c :: _ =>
      if (Text.hexValue? c).isNone then flaw .badHexDigit h.charSpan
      else do
        let (cs, h) ← hexDigits n false h
        return (c :: cs, h)

/-- A character by its number, from behind the letter that announces it. -/
def hexChar (start : Spot) (digits : Nat) (isByte : Bool) (h : Hand) :
    Except Flaw (Piece × Hand) :=
  if h.atEnd then flaw .openEscape h.here
  else if h.sees '\x7b' then
    let brace := h.spot
    let inside := h.charSpan.stop
    let (cs, h) := (h.bumpSpace).takeWhile (fun c => (Text.hexValue? c).isSome) h.rest.length
    match h.rest with
    | [] => flaw .openEscape (h.since brace)
    | c :: _ =>
      if c ≠ '\x7d' then flaw .badHexDigit h.charSpan
      else
        let stop := h.spot
        let h := h.bumpSpace
        if cs.isEmpty then flaw .emptyHex (h.since brace)
        else match charOf? (hexOf cs) with
          | none => flaw .badHex ⟨inside, stop⟩
          | some c => .ok (.char c false (h.since start), h)
  else do
    let first := h.spot
    let (cs, h) ← hexDigits digits true h
    let h := h.bumpSpace
    match charOf? (hexOf cs) with
    | none => flaw .badHex (h.since first)
    | some c => return (.char c isByte (h.since start), h)

/-- A text before and behind the first occurrence of some characters. -/
def splitAt? (mark : List Char) : List Char → Option (List Char × List Char)
  | [] => none
  | c :: rest =>
    if mark.isPrefixOf (c :: rest) then some ([], (c :: rest).drop mark.length)
    else (splitAt? mark rest).map fun (a, b) => (c :: a, b)

/-- A class by a property, from behind the letter that announces it. -/
def property (start : Spot) (h : Hand) : Except Flaw (Piece × Hand) :=
  if h.atEnd then flaw .openEscape h.here
  else if h.sees '\x7b' then
    let (name, h) := (h.bumpSpace).takeWhile (· ≠ '\x7d') h.rest.length
    if h.atEnd then flaw .openEscape h.here
    else
      let h := h.bump
      let parts := match splitAt? ['!', '='] name with
        | some p => some p
        | none => match splitAt? [':'] name with
          | some p => some p
          | none => splitAt? ['='] name
      match parts with
      | some (n, v) => .ok (.property n (some v) (h.since start), h)
      | none => .ok (.property name none (h.since start), h)
  else if h.sees '\\' then flaw .badProperty h.charSpan
  else
    let name := h.rest.take 1
    let h := h.bumpSpace
    .ok (.property name none (h.since start), h)

/-- The sign of the name of a word's edge. -/
def edgeSign? (name : List Char) : Option Sign :=
  match String.ofList name with
  | "start" => some .wordStart
  | "end" => some .wordStop
  | "start-half" => some .wordStartHalf
  | "end-half" => some .wordStopHalf
  | _ => none

/-- Whether a character stands in the name of a word's edge. -/
def isEdgeChar (c : Char) : Bool := c.isAlpha || c == '-'

/-- The edge of a word, from behind its letter. A name in braces tells which, and a count in braces
is left for later. -/
def wordEdge (start : Spot) (h : Hand) : Except Flaw (Piece × Hand) :=
  let plain : Except Flaw (Piece × Hand) := .ok (.sign .edge (h.since start), h)
  if !h.sees '\x7b' then plain
  else
    let brace := h.spot
    let inner := h.bumpSpace
    match inner.rest with
    | [] => flaw .brokenEdge (inner.since start)
    | c :: _ =>
      if !isEdgeChar c then plain
      else
        let (name, after) := inner.takeWhile isEdgeChar inner.rest.length
        if !after.sees '\x7d' then flaw .openEdge (after.since brace)
        else match edgeSign? name with
          | some s => .ok (.sign s (after.bump.since start), after.bump)
          | none => flaw .unknownEdge ⟨inner.spot, after.spot⟩

/-- The character that a letter behind a backslash stands for. -/
def escapedControl? (c : Char) : Option Char :=
  if c = 'a' then some '\x07'
  else if c = 'f' then some '\x0c'
  else if c = 't' then some '\t'
  else if c = 'n' then some '\n'
  else if c = 'r' then some '\r'
  else if c = 'v' then some '\x0b'
  else none

/-- The class that a letter behind a backslash stands for. -/
def escapedClass? (c : Char) : Option (LetterClass × Bool) :=
  if c = 'd' then some (.digit, false)
  else if c = 'D' then some (.digit, true)
  else if c = 's' then some (.space, false)
  else if c = 'S' then some (.space, true)
  else if c = 'w' then some (.word, false)
  else if c = 'W' then some (.word, true)
  else none

/-- The sign that a letter behind a backslash stands for. -/
def escapedSign? (c : Char) : Option Sign :=
  if c = 'A' then some .textStart
  else if c = 'z' then some .textStop
  else if c = 'B' then some .noEdge
  else if c = '<' then some .wordStart
  else if c = '>' then some .wordStop
  else none

/-- What comes with a backslash. -/
def escape (h : Hand) : Except Flaw (Piece × Hand) :=
  let start := h.spot
  let h := h.bump
  match h.rest with
  | [] => flaw .openEscape (h.since start)
  | c :: _ =>
    let after := h.bump
    let span := after.since start
    if '0' ≤ c ∧ c ≤ '9' then flaw .reference span
    else if c = 'x' then hexChar start 2 true h.bumpSpace
    else if c = 'u' then hexChar start 4 false h.bumpSpace
    else if c = 'U' then hexChar start 8 false h.bumpSpace
    else if c = 'p' ∨ c = 'P' then property start h.bumpSpace
    else if c = 'b' then wordEdge start after
    else if isEscapable c then .ok (.char c false span, after)
    else match escapedClass? c, escapedControl? c, escapedSign? c with
      | some (l, negated), _, _ => .ok (.letter l negated span, after)
      | none, some d, _ => .ok (.char d false span, after)
      | none, none, some s => .ok (.sign s span, after)
      | none, none, none => flaw .unknownEscape span

/-- A character or a class outside brackets. -/
def piece (c : Char) (h : Hand) : Except Flaw (Piece × Hand) :=
  if c = '\\' then escape h
  else if c = '.' then .ok (.dot h.charSpan, h.bump)
  else if c = '^' then .ok (.sign .lineStart h.charSpan, h.bump)
  else if c = '$' then .ok (.sign .lineStop h.charSpan, h.bump)
  else .ok (.char c false h.charSpan, h.bump)

/-! ## Brackets -/

/-- The ranges of a class of ASCII by its name. -/
def asciiClass? (name : List Char) : Option (List (Nat × Nat)) :=
  match String.ofList name with
  | "alnum" => some [(0x30, 0x39), (0x41, 0x5A), (0x61, 0x7A)]
  | "alpha" => some [(0x41, 0x5A), (0x61, 0x7A)]
  | "ascii" => some [(0x00, 0x7F)]
  | "blank" => some [(0x09, 0x09), (0x20, 0x20)]
  | "cntrl" => some [(0x00, 0x1F), (0x7F, 0x7F)]
  | "digit" => some [(0x30, 0x39)]
  | "graph" => some [(0x21, 0x7E)]
  | "lower" => some [(0x61, 0x7A)]
  | "print" => some [(0x20, 0x7E)]
  | "punct" => some [(0x21, 0x2F), (0x3A, 0x40), (0x5B, 0x60), (0x7B, 0x7E)]
  | "space" => some [(0x09, 0x0D), (0x20, 0x20)]
  | "upper" => some [(0x41, 0x5A)]
  | "word" => some [(0x30, 0x39), (0x41, 0x5A), (0x5F, 0x5F), (0x61, 0x7A)]
  | "xdigit" => some [(0x30, 0x39), (0x41, 0x46), (0x61, 0x66)]
  | _ => none

/-- A class of ASCII by its name, if one comes. -/
def namedSet? (h : Hand) : Option (WrittenSet × Hand) := do
  let inner ← h.bumpIf? ['[', ':']
  let negated := inner.sees '^'
  let inner := if negated then inner.bump else inner
  let name := inner.rest.takeWhile (· ≠ ':')
  let after ← (inner.bumpMany name.length).bumpIf? [':', ']']
  let ranges ← asciiClass? name
  return (.named ranges negated (after.since h.spot), after)

/-- A character or a class in brackets. -/
def setPiece (h : Hand) : Except Flaw (Piece × Hand) :=
  match h.rest with
  | '\\' :: _ => escape h
  | c :: _ => .ok (.char c false h.charSpan, h.bump)
  | [] => flaw .openEscape h.here

/-- A character, a class or a range in brackets that were opened in a part. -/
def setRange (opened : Span) (h : Hand) : Except Flaw (WrittenSet × Hand) := do
  let (a, h) ← setPiece h
  let h := h.space
  if h.atEnd then flaw .openSet opened
  else if !h.sees '-' || h.second? == some ']' || h.second? == some '-' then
    match a with
    | .sign _ s | .dot s => flaw .escapeInSet s
    | a => return (.piece a, h)
  else
    let h := h.bumpSpace
    if h.atEnd then flaw .openSet opened
    else
      let (b, h) ← setPiece h
      match a, b with
      | .char c cIsByte cSpan, .char d dIsByte dSpan =>
        if d < c then flaw .rangeDown ⟨cSpan.start, dSpan.stop⟩
        else return (.range c d cIsByte dIsByte cSpan dSpan, h)
      | .char _ _ _, b => flaw .rangeEnd b.span
      | a, _ => flaw .rangeEnd a.span

/-- The items of a set, in order, as one. -/
def ofItems (vacant : Span) : List WrittenSet → WrittenSet
  | [] => .empty vacant
  | [s] => s
  | s :: rest => .union (s :: rest) ⟨s.span.start, ((s :: rest).getLast (by simp)).span.stop⟩

/-- A set with the operation that is waiting for it. -/
def settleSet (waiting : Option (SetOperation × WrittenSet)) (s : WrittenSet) : WrittenSet :=
  match waiting with
  | none => s
  | some (op, lhs) => .both op lhs s ⟨lhs.span.start, s.span.stop⟩

/-- Hyphens at the start of brackets stand for themselves. The part is where the brackets start. -/
def leadingHyphens (start : Spot) :
    Nat → Hand → List WrittenSet → Except Flaw (List WrittenSet × Hand)
  | 0, h, items => .ok (items, h)
  | fuel + 1, h, items =>
    if h.sees '-' then
      let item := WrittenSet.piece (.char '-' false h.charSpan)
      let h := h.bumpSpace
      if h.atEnd then flaw .openSet (.point start) else leadingHyphens start fuel h (items ++ [item])
    else .ok (items, h)

/-- The start of brackets: whether they are negated, the characters that stand for themselves because
they come first, and where that stops. -/
def openBracket (h : Hand) : Except Flaw (Bool × List WrittenSet × Span × Hand) := do
  let start := h.spot
  let h := h.bumpSpace
  if h.atEnd then flaw .openSet (h.since start)
  else
    let negated := h.sees '^'
    let h := if negated then h.bumpSpace else h
    if h.atEnd then flaw .openSet (h.since start)
    else
      let (items, h) ← leadingHyphens start h.rest.length h []
      if items.isEmpty && h.sees ']' then
        let item := WrittenSet.piece (.char ']' false h.charSpan)
        let h := h.bumpSpace
        if h.atEnd then flaw .openSet (h.since start)
        else return (negated, [item], h.since start, h)
      else return (negated, items, h.since start, h)

/-- The operation on sets that comes. -/
def setOperation? (h : Hand) : Option (SetOperation × Hand) :=
  match h.bumpIf? ['&', '&'], h.bumpIf? ['-', '-'], h.bumpIf? ['~', '~'] with
  | some h, _, _ => some (.inter, h)
  | none, some h, _ => some (.diff, h)
  | none, none, some h => some (.symmDiff, h)
  | none, none, none => none

mutual

/-- Brackets with what stands in them. -/
def bracket : Nat → Hand → Except Flaw (Bool × WrittenSet × Span × Hand)
  | 0, h => flaw .openSet h.here
  | fuel + 1, h => do
    let (negated, items, opened, inner) ← openBracket h
    let (s, h) ← setItems fuel opened none items inner.here inner
    return (negated, s, h.since opened.start, h)

/-- What stands in brackets, from behind the items that were found, to behind their end. -/
def setItems : Nat → (opened : Span) → Option (SetOperation × WrittenSet) → List WrittenSet →
    (vacant : Span) → Hand → Except Flaw (WrittenSet × Hand)
  | 0, opened, _, _, _, _ => flaw .openSet opened
  | fuel + 1, opened, waiting, items, vacant, h => do
    let h := h.space
    match h.rest with
    | [] => flaw .openSet opened
    | c :: _ =>
      if c = '[' then
        match namedSet? h with
        | some (s, h) => setItems fuel opened waiting (items ++ [s]) vacant h
        | none =>
          let (negated, s, span, h) ← bracket fuel h
          setItems fuel opened waiting (items ++ [.bracket negated s span]) vacant h
      else if c = ']' then return (settleSet waiting (ofItems vacant items), h.bump)
      else match setOperation? h with
        | some (op, h) =>
          let lhs := settleSet waiting (ofItems vacant items)
          setItems fuel opened (some (op, lhs)) [] h.here h
        | none =>
          let (s, h) ← setRange opened h
          setItems fuel opened waiting (items ++ [s]) vacant h

end

/-! ## Counts -/

/-- A number, blanks around it left out. -/
def decimal (h : Hand) : Except Flaw Nat × Hand :=
  let blanks := h.rest.takeWhile Text.isBlank
  let h := h.bumpMany blanks.length
  let start := h.spot
  let (digits, h) := h.takeWhile Char.isDigit h.rest.length
  let span := h.since start
  let (_, h) := h.takeWhile Text.isBlank h.rest.length
  let value := digits.foldl (fun n c => n * 10 + (c.toNat - 48)) 0
  if digits.isEmpty then (flaw .emptyCount span, h)
  else if UInt32.size ≤ value then (flaw .badNumber span, h)
  else (.ok value, h)

/-- Behind a question mark, if one comes. -/
def skipQuestion (h : Hand) : Hand := if h.sees '?' then h.bump else h

/-- The bounds of a count that starts at a place, behind its least, which may be missing. -/
def countBounds (start : Spot) (least : Except Flaw Nat) (h : Hand) :
    Except Flaw (Nat × Option Nat × Hand) := do
  if h.sees ',' then
    let h := h.bumpSpace
    if h.atEnd then flaw .openCount (h.since start)
    else if h.sees '\x7d' then return (← least, none, h)
    else
      let n ← least
      let (most, h) := decimal h
      return (n, some (← most), h)
  else
    let n ← least
    return (n, some n, h)

/-- A count in braces: the least, the most, and what is left. -/
def count (h : Hand) : Except Flaw (Nat × Option Nat × Hand) := do
  let start := h.spot
  let h := h.bumpSpace
  if h.atEnd then flaw .openCount (h.since start)
  else
    let (least, h) := decimal h
    if h.atEnd then flaw .openCount (h.since start)
    else
      let (n, most, h) ← countBounds start least h
      if !h.sees '\x7d' then flaw .openCount (h.since start)
      else
        let h := skipQuestion h.bumpSpace
        if most.any (· < n) then flaw .countDown (h.since start)
        else return (n, most, h)

/-- Whether a written pattern can come more or less often. -/
def canBeCounted : Written → Bool
  | .empty _ | .flags _ _ => false
  | _ => true

/-! ## Groups -/

/-- Whether a character can stand in a group's name. -/
def isNameChar (first : Bool) (c : Char) : Bool :=
  c == '_' || c.isAlpha || (!first && (c == '.' || c == '[' || c == ']' || c.isDigit))

/-- A group's name, to behind the angle bracket at its end. -/
def groupName (h : Hand) : Except Flaw Hand := do
  if h.atEnd then flaw .openName h.here
  else
    let start := h.spot
    let name := match h.rest with
      | c :: rest => if isNameChar true c then c :: rest.takeWhile (isNameChar false) else []
      | [] => []
    let h := h.bumpMany name.length
    match h.rest with
    | [] => flaw .openName h.here
    | c :: _ =>
      let span := h.since start
      if c ≠ '>' then flaw .badName h.charSpan
      else if name.isEmpty then flaw .emptyName span
      else match h.names.lookup name with
        | some other => .error ⟨.repeatedName, span, some other⟩
        | none => return { h.bump with names := h.names ++ [(name, span)] }

/-- Flags up to a colon or the end of the group. -/
def flagItems : Nat → (seen : List (Flag × Span)) → (hyphen : Option Span) → (dangling : Bool) →
    FlagChanges → Hand → Except Flaw (FlagChanges × Hand)
  | 0, _, _, _, changes, h => .ok (changes, h)
  | fuel + 1, seen, hyphen, dangling, changes, h =>
    match h.rest with
    | [] => flaw .openFlags h.here
    | c :: _ =>
      if c = ':' ∨ c = ')' then
        match hyphen, dangling with
        | some s, true => flaw .danglingHyphen s
        | _, _ => .ok (changes, h)
      else if c = '-' then
        match hyphen with
        | some s => .error ⟨.repeatedHyphen, h.charSpan, some s⟩
        | none => flagItems fuel seen (some h.charSpan) true changes h.bump
      else match Flag.ofChar? c with
        | none => flaw .unknownFlag h.charSpan
        | some f =>
          match seen.lookup f with
          | some s => .error ⟨.repeatedFlag, h.charSpan, some s⟩
          | none =>
            flagItems fuel (seen ++ [(f, h.charSpan)]) hyphen false (changes ++ [(f, hyphen.isNone)])
              h.bump

/-- How a group starts. -/
inductive GroupStart where
  /-- It only sets flags. -/
  | flags (changes : FlagChanges)
  /-- It holds a pattern, for which it sets flags. -/
  | opened (changes : FlagChanges)

/-- The start of a group. -/
def groupStart (h : Hand) : Except Flaw (GroupStart × Hand) := do
  let opened := h.charSpan
  let h := h.bumpSpace
  let look := [['?', '='], ['?', '!'], ['?', '<', '='], ['?', '<', '!']].findSome? h.bumpIf?
  match look with
  | some after => flaw .lookAround (after.since opened.start)
  | none =>
    match [['?', 'P', '<'], ['?', '<']].findSome? h.bumpIf?, h.bumpIf? ['?'] with
    | some inner, _ => return (.opened [], ← groupName inner)
    | none, some inner =>
      if inner.atEnd then flaw .openGroup opened
      else
        let (changes, after) ← flagItems (inner.rest.length + 1) [] none false [] inner
        if after.sees ')' then
          if after.spot = inner.spot then flaw .nothingCounted h.here
          else return (.flags changes, after.bump)
        else return (.opened changes, after.bump)
    | none, none => return (.opened [], h)

/-- Patterns one after another, in order, as one. -/
def ofParts (span : Span) : List Written → Written
  | [] => .empty span
  | [w] => w
  | ws => .concat ws span

/-- Patterns of which one comes, as one. -/
def ofBranches (span : Span) : List Written → Written
  | [w] => w
  | ws => .alternation ws span

/-- Whether blanks and comments are passed over behind changes of flags. -/
def looseAfter (old : Bool) (changes : FlagChanges) : Bool := (changes.lookup .loose).getD old

mutual

/-- Patterns one after another, from behind those that were found, up to a bar or the end of the
group. -/
def parts : Nat → List Written → Hand → Except Flaw (List Written × Hand)
  | 0, ws, h => .ok (ws, h)
  | fuel + 1, ws, h => do
    let h := h.space
    match h.rest with
    | [] => return (ws, h)
    | c :: _ =>
      if c = ')' ∨ c = '|' then return (ws, h)
      else if c = '(' then
        let (w, h) ← group fuel h
        parts fuel (ws ++ [w]) h
      else if c = '[' then
        let (negated, s, span, h) ← bracket (2 * h.rest.length + 2) h
        parts fuel (ws ++ [.bracket negated s span]) h
      else if c = '?' ∨ c = '*' ∨ c = '+' ∨ c = '\x7b' then
        match ws.getLast? with
        | none => flaw .nothingCounted h.here
        | some w =>
          if !canBeCounted w then flaw .nothingCounted h.here
          else
            let (least, most, h) ←
              if c = '\x7b' then count h
              else pure (if c = '+' then 1 else 0, if c = '?' then some 1 else none,
                skipQuestion h.bump)
            parts fuel (ws.dropLast ++ [.times w least most (h.since w.span.start)]) h
      else
        let (p, h) ← piece c h
        parts fuel (ws ++ [.piece p]) h

/-- Patterns of which one comes, up to the end of the group. -/
def branches : Nat → List Written → Hand → Except Flaw (List Written × Hand)
  | 0, ws, h => .ok (ws, h)
  | fuel + 1, ws, h => do
    let start := h.spot
    let (found, h) ← parts fuel [] h
    let ws := ws ++ [ofParts (h.since start) found]
    if h.sees '|' then branches fuel ws h.bump else return (ws, h)

/-- A group. -/
def group : Nat → Hand → Except Flaw (Written × Hand)
  | 0, h => .ok (.empty h.here, h)
  | fuel + 1, h => do
    let opened := h.charSpan
    match ← groupStart h with
    | (.flags changes, after) =>
      return (.flags changes (after.since opened.start),
        { after with loose := looseAfter h.loose changes })
    | (.opened changes, inner) =>
      let inner := { inner with loose := looseAfter h.loose changes }
      let start := inner.spot
      let (ws, after) ← branches fuel [] inner
      if after.atEnd then flaw .openGroup opened
      else
        let w := ofBranches (after.since start) ws
        let after := { after.bump with loose := h.loose }
        return (.group changes w (after.since opened.start), after)

end

/-! ## Depth -/

/-- What is found inside a part so many others are around, unless they are too many. -/
def enterDepth (depth : Nat) (span : Span) (inner : Except Flaw PUnit) : Except Flaw PUnit :=
  if maxDepth ≤ depth then flaw .tooDeep span else inner

mutual

/-- Refuses sets that are too deep inside each other. -/
def WrittenSet.checkDepth (depth : Nat) : WrittenSet → Except Flaw PUnit
  | .bracket _ s span => enterDepth depth span (s.checkDepth (depth + 1))
  | .union items span => enterDepth depth span (checkItems (depth + 1) items)
  | .both _ a b span => enterDepth depth span (do
      a.checkDepth (depth + 1)
      b.checkDepth (depth + 1))
  | _ => .ok ()

/-- Refuses items that are too deep inside each other. -/
def checkItems (depth : Nat) : List WrittenSet → Except Flaw PUnit
  | [] => .ok ()
  | s :: rest => do
    s.checkDepth depth
    checkItems depth rest

end

mutual

/-- Refuses patterns that are too deep inside each other. -/
def Written.checkDepth (depth : Nat) : Written → Except Flaw PUnit
  | .bracket _ s span => enterDepth depth span (s.checkDepth (depth + 1))
  | .times w _ _ span => enterDepth depth span (w.checkDepth (depth + 1))
  | .group _ w span => enterDepth depth span (w.checkDepth (depth + 1))
  | .alternation ws span => enterDepth depth span (checkParts (depth + 1) ws)
  | .concat ws span => enterDepth depth span (checkParts (depth + 1) ws)
  | _ => .ok ()

/-- Refuses patterns in a row that are too deep inside each other. -/
def checkParts (depth : Nat) : List Written → Except Flaw PUnit
  | [] => .ok ()
  | w :: rest => do
    w.checkDepth depth
    checkParts depth rest

end

/-- The pattern that a text writes. -/
def Written.ofText (cs : List Char) : Except Flaw Written := do
  let h := Hand.ofText cs
  let (ws, h) ← branches (4 * cs.length + 8) [] h
  if h.sees ')' then flaw .strayGroupEnd h.charSpan
  else
    let w := ofBranches (h.since .first) ws
    w.checkDepth 0
    return w

end AndroidAudit.Pattern
