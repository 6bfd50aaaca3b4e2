import AndroidAudit.Text.Hex
import AndroidAudit.Yaml.Token

/-!
# Scalars in YAML text

How the text of a scalar is found: blanks inside it, line ends that are joined into blanks, escapes,
and the indentation of blocks. Texts are gathered back to front.
-/

namespace AndroidAudit.Yaml

/-- Characters in front of others that are gathered back to front. -/
def pushAll (cs acc : List Char) : List Char := cs.reverse ++ acc

/-- What stands for line ends between two words: a blank for one, and one fewer for more. A first
line end that is not a newline is kept. -/
def foldBreaks (first more : List Char) : List Char :=
  if first.head? == some '\n' then if more.isEmpty then [' '] else more
  else first ++ more

/-- Blanks and line ends that may turn out to be inside a scalar or behind it. -/
structure Gap where
  /-- Blanks in the line of the last word. -/
  blanks : List Char
  broken : Bool
  /-- The first line end. -/
  first : List Char
  /-- The line ends after it. -/
  more : List Char

namespace Gap

/-- Nothing. -/
def none : Gap := ⟨[], false, [], []⟩

/-- A gap that starts behind an escaped line end. -/
def joined : Gap := ⟨[], true, [], []⟩

/-- What stands for the gap between two words. -/
def text (g : Gap) : List Char := if g.broken then foldBreaks g.first g.more else g.blanks

/-- A gap with one more line end. -/
def addBreak (g : Gap) (b : List Char) : Gap :=
  if g.broken then { g with more := g.more ++ b } else ⟨[], true, b, []⟩

end Gap

/-! ## Scalars in quotes -/

/-- What an escape stands for. -/
inductive Escape where
  | char (c : Char)
  /-- The character whose number is in so many digits. -/
  | digits (n : Nat)

/-- What a character behind a backslash stands for. -/
def escape? (c : Char) : Option Escape :=
  if c = '0' then some (.char '\x00')
  else if c = 'a' then some (.char '\x07')
  else if c = 'b' then some (.char '\x08')
  else if c = 't' ∨ c = '\t' then some (.char '\t')
  else if c = 'n' then some (.char '\n')
  else if c = 'v' then some (.char '\x0b')
  else if c = 'f' then some (.char '\x0c')
  else if c = 'r' then some (.char '\r')
  else if c = 'e' then some (.char '\x1b')
  else if c = ' ' then some (.char ' ')
  else if c = '"' then some (.char '"')
  else if c = '/' then some (.char '/')
  else if c = '\\' then some (.char '\\')
  else if c = 'N' then some (.char nextLine)
  else if c = '_' then some (.char (Char.ofNat 0xA0))
  else if c = 'L' then some (.char lineSeparator)
  else if c = 'P' then some (.char paragraphSeparator)
  else if c = 'x' then some (.digits 2)
  else if c = 'u' then some (.digits 4)
  else if c = 'U' then some (.digits 8)
  else none

/-- The number of some hexadecimal digits. -/
def hexNumber? (cs : List Char) : Option Nat :=
  cs.foldl (fun n c => do return (← n) * 16 + (← Text.hexValue? c)) (some 0)

/-- The character that an escape stands for, and the source behind the escape. -/
def scanEscape (start : Mark) (s : Source) : Except Problem (Char × Source) :=
  match s.rest with
  | _ :: c :: rest =>
    match escape? c with
    | none => s.fail .unknownEscape .quotedEscape start
    | some (.char d) => .ok (d, s.skipMany 2)
    | some (.digits n) =>
      let after := s.skipMany 2
      let digits := rest.take n
      match hexNumber? digits with
      | some v =>
        if digits.length < n then after.fail .noHexDigits .quotedEscape start
        else if (0xD800 ≤ v ∧ v ≤ 0xDFFF) ∨ 0x10FFFF < v then
          after.fail .badCodePoint .quotedEscape start
        else .ok (Char.ofNat v, after.skipMany n)
      | none => after.fail .noHexDigits .quotedEscape start
  | _ => s.fail .unknownEscape .quotedEscape start

/-- The word at the front, up to a gap, the closing quote or an escaped line end. Gives the text so
far, the gap that the word leaves open, and the source. -/
def quotedWord (single : Bool) (start : Mark) :
    Nat → Source → List Char → Except Problem (List Char × Gap × Source)
  | 0, s, acc => .ok (acc, .none, s)
  | fuel + 1, s, acc =>
    match s.rest with
    | [] => .ok (acc, .none, s)
    | c :: rest =>
      if isBlank c || isBreak c then .ok (acc, .none, s)
      else if single then
        if c = '\'' then
          match rest with
          | '\'' :: _ => quotedWord single start fuel (s.skipMany 2) ('\'' :: acc)
          | _ => .ok (acc, .none, s)
        else quotedWord single start fuel s.skip (c :: acc)
      else if c = '"' then .ok (acc, .none, s)
      else if c = '\\' then
        match rest with
        | d :: _ =>
          if isBreak d then .ok (acc, .joined, s.skip.skipBreak)
          else do
            let (e, s) ← scanEscape start s
            quotedWord single start fuel s (e :: acc)
        | [] => s.fail .unknownEscape .quotedEscape start
      else quotedWord single start fuel s.skip (c :: acc)

/-- The gap at the front, added to one that is open already. -/
def quotedGap : Nat → Source → Gap → Gap × Source
  | 0, s, g => (g, s)
  | fuel + 1, s, g =>
    match s.rest with
    | [] => (g, s)
    | c :: _ =>
      if isBlank c then
        quotedGap fuel s.skip (if g.broken then g else { g with blanks := g.blanks ++ [c] })
      else if isBreak c then
        let (b, s) := s.takeBreak
        quotedGap fuel s (g.addBreak b)
      else (g, s)

/-- The rest of a scalar in quotes, and the source behind the closing quote. -/
def quotedRest (single : Bool) (start : Mark) :
    Nat → Source → List Char → Except Problem (List Char × Source)
  | 0, s, acc => .ok (acc.reverse, s)
  | fuel + 1, s, acc => do
    if s.mark.column == 0 && atDocumentMarker s.rest then
      s.fail .documentMarker .quotedScalar start
    else if s.rest.isEmpty then s.fail .endOfText .quotedScalar start
    else
      let (acc, gap, s) ← quotedWord single start s.bound s acc
      if atAny [if single then '\'' else '"'] s.rest then return (acc.reverse, s.skip)
      else
        let (gap, s) := quotedGap s.bound s gap
        quotedRest single start fuel s (pushAll gap.text acc)

/-- A scalar in quotes. -/
def scanQuoted (single : Bool) (s : Source) : Except Problem (Token × Source) := do
  let (text, after) ← quotedRest single s.mark s.bound s.skip []
  return (⟨.scalar text (if single then .single else .double), s.mark, after.mark⟩, after)

/-! ## Scalars without quotes -/

/-- The characters that end a plain scalar between brackets. -/
def flowIndicators : List Char := [',', '[', ']', '\x7b', '\x7d']

/-- The word at the front of a plain scalar. Gives the text so far with the gap before the word filled
in, the mark behind the word, the gap if there was no word, and the source. -/
def plainWord (flow : Bool) (start : Mark) :
    Nat → Source → List Char → Gap → Mark → Except Problem (List Char × Gap × Mark × Source)
  | 0, s, acc, gap, stop => .ok (acc, gap, stop, s)
  | fuel + 1, s, acc, gap, stop =>
    match s.rest with
    | [] => .ok (acc, gap, stop, s)
    | c :: rest =>
      if isBlank c || isBreak c then .ok (acc, gap, stop, s)
      else if flow && c == ':' && atAny ('?' :: flowIndicators) rest then
        s.fail .strayColon .plainScalar start
      else if (c == ':' && atGap rest) || (flow && flowIndicators.contains c) then
        .ok (acc, gap, stop, s)
      else plainWord flow start fuel s.skip (c :: pushAll gap.text acc) .none s.skip.mark

/-- The gap at the front of a plain scalar. -/
def plainGap (start : Mark) (indent : Int) :
    Nat → Source → Gap → Except Problem (Gap × Source)
  | 0, s, g => .ok (g, s)
  | fuel + 1, s, g =>
    match s.rest with
    | [] => .ok (g, s)
    | c :: _ =>
      if isBlank c then
        if g.broken && (s.mark.column : Int) < indent && c == '\t' then
          s.fail .tabBreaksIndent .plainScalar start
        else
          plainGap start indent fuel s.skip
            (if g.broken then g else { g with blanks := g.blanks ++ [c] })
      else if isBreak c then
        let (b, s) := s.takeBreak
        plainGap start indent fuel s (g.addBreak b)
      else .ok (g, s)

/-- The rest of a plain scalar: its text, the gap left open, the mark behind it, and the source. -/
def plainRest (flow : Bool) (start : Mark) (indent : Int) :
    Nat → Source → List Char → Gap → Mark → Except Problem (List Char × Gap × Mark × Source)
  | 0, s, acc, gap, stop => .ok (acc.reverse, gap, stop, s)
  | fuel + 1, s, acc, gap, stop => do
    if (s.mark.column == 0 && atDocumentMarker s.rest) || atAny ['#'] s.rest then
      return (acc.reverse, gap, stop, s)
    else
      let (acc, gap, stop, s) ← plainWord flow start s.bound s acc gap stop
      if s.rest.isEmpty || !atGap s.rest then return (acc.reverse, gap, stop, s)
      else
        let (gap, s) ← plainGap start indent s.bound s gap
        if !flow && (s.mark.column : Int) < indent then return (acc.reverse, gap, stop, s)
        else plainRest flow start indent fuel s acc gap stop

/-- A plain scalar in a block of some indentation. Also tells whether a line ended behind it. -/
def scanPlain (flow : Bool) (indent : Int) (s : Source) :
    Except Problem (Token × Bool × Source) := do
  let (text, gap, stop, after) ←
    plainRest flow s.mark (indent + 1) s.bound s [] .none s.mark
  return (⟨.scalar text .plain, s.mark, stop⟩, gap.broken, after)

/-! ## Block scalars -/

/-- What becomes of the line ends behind a block scalar. -/
inductive Chomping where
  /-- The first is kept. -/
  | clip
  /-- None is kept. -/
  | strip
  /-- All are kept. -/
  | keep
  deriving DecidableEq, Repr

/-- The chomping that a sign asks for. -/
def chomping? : List Char → Option Chomping
  | '+' :: _ => some .keep
  | '-' :: _ => some .strip
  | _ => none

/-- The indentation that a digit asks for, and the source behind it. -/
def indentDigit (start : Mark) (s : Source) : Except Problem (Option Nat × Source) :=
  match s.rest with
  | c :: _ =>
    if c = '0' then s.fail .zeroIndent .blockScalar start
    else if '1' ≤ c ∧ c ≤ '9' then .ok (some (c.toNat - 48), s.skip)
    else .ok (none, s)
  | [] => .ok (none, s)

/-- The head of a block scalar behind its sign. -/
def blockHead (start : Mark) (s : Source) : Except Problem (Chomping × Option Nat × Source) :=
  match chomping? s.rest with
  | some c => do
    let (n, s) ← indentDigit start s.skip
    return (c, n, s)
  | none => do
    let (n, s) ← indentDigit start s
    match n, chomping? s.rest with
    | some _, some c => return (c, n, s.skip)
    | _, _ => return (.clip, n, s)

/-- The empty lines at the front of a block scalar, of which the indentation is known or not. Gives
the line ends, the greatest column met, the mark behind the last of them, and the source. -/
def blockBreaks (start : Mark) (indent : Option Nat) :
    Nat → Source → List Char → Nat → Mark →
    Except Problem (List Char × Nat × Mark × Source)
  | 0, s, breaks, most, stop => .ok (breaks, most, stop, s)
  | fuel + 1, s, breaks, most, stop =>
    let spaces := (s.rest.takeWhile (· == ' ')).length
    let spaces := match indent with
      | none => spaces
      | some n => min spaces (n - s.mark.column)
    let s := s.skipMany spaces
    let most := max most s.mark.column
    let inside := match indent with
      | none => true
      | some n => s.mark.column < n
    if inside && atAny ['\t'] s.rest then s.fail .tabInIndent .blockScalar start
    else if !s.rest.isEmpty && atBreak s.rest then
      let (b, s) := s.takeBreak
      blockBreaks start indent fuel s (breaks ++ b) most s.mark
    else .ok (breaks, most, stop, s)

/-- The lines of a block scalar. -/
def blockLines (literal : Bool) (start : Mark) (indent : Nat) (chomp : Chomping) :
    Nat → Source → List Char → (first more : List Char) → Bool → Mark →
    Except Problem (List Char × Mark × Source)
  | 0, s, acc, _, _, _, stop => .ok (acc.reverse, stop, s)
  | fuel + 1, s, acc, first, more, blankBefore, stop => do
    if s.mark.column == indent && !s.rest.isEmpty then
      let blank := atBlank s.rest
      let joint :=
        if !literal && first.head? == some '\n' && !blankBefore && !blank then
          if more.isEmpty then [' '] else more
        else first ++ more
      let (line, s) := s.takeWhile (!isBreak ·)
      let (first, s) := s.takeBreak
      let (more, _, stop, s) ← blockBreaks start (some indent) s.bound s [] 0 s.mark
      blockLines literal start indent chomp fuel s (pushAll line (pushAll joint acc))
        first more blank stop
    else
      let tail := match chomp with
        | .strip => []
        | .clip => first
        | .keep => first ++ more
      return ((pushAll tail acc).reverse, stop, s)

/-- A block scalar in a block of some indentation. -/
def scanBlock (literal : Bool) (parent : Int) (s : Source) : Except Problem (Token × Source) := do
  let start := s.mark
  let (chomp, increment, s) ← blockHead start s.skip
  let s := s.skipBlanks.skipComment
  if !atBreak s.rest then s.fail .noLineEnd .blockScalar start
  else
    let s := s.skipBreak
    let given := increment.map fun n => if 0 ≤ parent then parent.toNat + n else n
    let (more, most, stop, s) ← blockBreaks start given s.bound s [] 0 s.mark
    let indent := given.getD (max (max most (parent + 1).toNat) 1)
    let (text, stop, s) ←
      blockLines literal start indent chomp s.bound s [] [] more false stop
    return (⟨.scalar text (if literal then .literal else .folded), start, stop⟩, s)

end AndroidAudit.Yaml
