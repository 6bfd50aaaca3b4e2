import AndroidAudit.Pattern.CharSet

/-!
# Patterns

A pattern says which parts of a text it fits. The places of a text are before its characters and
behind the last. Followed from some places, a pattern leads to others (`Pattern.reach`), and it occurs
in a text if it leads anywhere from any place (`Pattern.occursIn`).
-/

namespace AndroidAudit

namespace Pattern

/-- What is asked of the edge of a word. -/
inductive Edge where
  /-- A word starts or ends. -/
  | either
  /-- No word starts or ends. -/
  | neither
  | start
  | stop
  /-- No letter is before. -/
  | startHalf
  /-- No letter is behind. -/
  | stopHalf
  deriving DecidableEq, Repr

/-- What is asked of a place. -/
inductive Look where
  | textStart
  | textStop
  | lineStart
  | lineStop
  /-- A line starts, where a carriage return ends lines too. -/
  | returnStart
  /-- A line ends, where a carriage return ends lines too. -/
  | returnStop
  /-- The edge of a word, by the letters of all scripts or by those of ASCII alone. -/
  | word (allScripts : Bool) (edge : Edge)
  deriving DecidableEq, Repr

end Pattern

/-- A pattern. -/
inductive Pattern where
  | empty
  | chars (s : Pattern.CharSet)
  | look (l : Pattern.Look)
  | seq (a b : Pattern)
  | alt (a b : Pattern)
  | times (a : Pattern) (least : Nat) (most : Option Nat)
  deriving DecidableEq, Repr

namespace Pattern

/-! ## Places -/

/-- Whether a character is an ASCII letter of a word: a letter, a digit or an underscore. -/
def isWordChar (c : Char) : Bool := c.isAlphanum || c == '_'

/-- Whether an edge is where there is a letter before or not, and behind or not. -/
def Edge.holds (before behind : Bool) : Edge → Bool
  | .either => before != behind
  | .neither => before == behind
  | .start => !before && behind
  | .stop => before && !behind
  | .startHalf => !before
  | .stopHalf => !behind

/-- Whether a place is as asked, by the characters before it and behind it. -/
def Look.holds (before behind : Option Char) : Look → Bool
  | .textStart => before.isNone
  | .textStop => behind.isNone
  | .lineStart => before.isNone || before == some '\n'
  | .lineStop => behind.isNone || behind == some '\n'
  | .returnStart =>
    before.isNone || before == some '\n' || (before == some '\r' && behind != some '\n')
  | .returnStop =>
    behind.isNone || behind == some '\r' || (behind == some '\n' && before != some '\r')
  | .word _ edge => edge.holds (before.any isWordChar) (behind.any isWordChar)

/-- Whether place `i` of a text is as asked. -/
def Look.holdsAt (text : Array Char) (i : Nat) (l : Look) : Bool :=
  l.holds (if i = 0 then none else text[i - 1]?) text[i]?

/-! ## Following a pattern -/

/-- The places of two lists, each once. -/
def merge (a b : List Nat) : List Nat := a ++ b.filter (!a.contains ·)

/-- So many steps from some places. -/
def iterate (step : List Nat → List Nat) : Nat → List Nat → List Nat
  | 0, places => places
  | n + 1, places => if places.isEmpty then [] else iterate step n (step places)

/-- The places seen and those that at most so many steps from the newest of them lead to. -/
def closure (step : List Nat → List Nat) : Nat → (newest seen : List Nat) → List Nat
  | 0, _, seen => seen
  | n + 1, newest, seen =>
    let found := (step newest).filter (!seen.contains ·)
    if found.isEmpty then seen else closure step n found (seen ++ found)

/-- The places that a pattern leads to from some places of a text. More steps than there are places
lead nowhere else. -/
def reach (text : Array Char) : Pattern → List Nat → List Nat
  | .empty, places => places
  | .chars s, places => (places.filter fun i => text[i]?.any s.contains).map (· + 1)
  | .look l, places => places.filter (l.holdsAt text ·)
  | .seq a b, places => b.reach text (a.reach text places)
  | .alt a b, places => merge (a.reach text places) (b.reach text places)
  | .times a least most, places =>
    let enough := text.size + 1
    let more := match most with
      | none => enough
      | some n => min (n - least) enough
    let first := iterate (a.reach text) (min least enough) places
    closure (a.reach text) more first first

/-- Whether a pattern occurs in a text. -/
def occursIn (p : Pattern) (text : String) : Bool :=
  let chars := text.toList.toArray
  !(p.reach chars (List.range (chars.size + 1))).isEmpty

/-! ## What a pattern takes -/

/-- Whether a pattern fits the empty text alone. -/
def isEmptyOnly : Pattern → Bool
  | .empty | .look _ => true
  | .chars _ => false
  | .seq a b | .alt a b => a.isEmptyOnly && b.isEmptyOnly
  | .times a _ most => a.isEmptyOnly || most == some 0

/-- How often a pattern is spelled out that is to fit so many times. -/
def copies (a : Pattern) (least : Nat) (most : Option Nat) : Nat :=
  if a.isEmptyOnly then 1 else max (most.getD 0) (max least 1)

/-- The number of bytes of a pattern spelled out in steps, each for a byte of a text. -/
def cost : Pattern → Nat
  | .empty | .look _ => 32
  | .chars ⟨[(a, b)]⟩ => if a = b then 32 * (Char.ofNat a).utf8Size else 72
  | .chars s => if s.ranges.all (·.2 < 128) then 64 + 8 * s.ranges.length else 480
  | .seq a b => a.cost + b.cost
  | .alt a b => a.cost + b.cost + 40
  | .times a least most => if most = some 0 then 32 else a.cost * a.copies least most

/-- Whether a pattern asks for the edges of words in all scripts. -/
def hasWideWords : Pattern → Bool
  | .empty | .chars _ => false
  | .look (.word wide _) => wide
  | .look _ => false
  | .seq a b | .alt a b => a.hasWideWords || b.hasWideWords
  | .times a _ most => most != some 0 && a.hasWideWords

end Pattern

end AndroidAudit
