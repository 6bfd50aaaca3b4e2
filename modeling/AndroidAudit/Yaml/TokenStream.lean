import AndroidAudit.Yaml.Indicator
import AndroidAudit.Yaml.Scalar

/-!
# From YAML text to tokens

Tokens are found one after another. A token that may turn out to be the start of a key is held back
until that is decided, since the key's own token goes before it. So the tokens that come out before
something wrong is met are not all those that were found before it.
-/

namespace AndroidAudit.Yaml

/-- A place where a key may have started. -/
structure KeyStart where
  /-- Whether nothing but a key can stand there. -/
  required : Bool
  /-- The number of the token that starts it. -/
  number : Nat
  mark : Mark
  /-- How many brackets are open around it. -/
  depth : Nat
  deriving DecidableEq, Repr

/-- Where the finding of tokens stands. -/
structure Scanner where
  source : Source
  /-- Whether the first token was found. -/
  started : Bool
  held : List Token
  /-- How many tokens have come out. -/
  released : Nat
  /-- How many brackets are open. -/
  depth : Nat
  /-- Where keys may have started, the innermost brackets first and at most one between any two. -/
  keys : List KeyStart
  /-- The column of the innermost block. -/
  indent : Int
  /-- The columns of the blocks around it. -/
  outer : List Int
  keyAllowed : Bool
  /-- What is wrong behind what is left, if the text goes on there. -/
  beyond : Option Problem

namespace Scanner

/-- The start of a text. -/
def ofSource (s : Source) (beyond : Option Problem) : Scanner :=
  ⟨s, false, [], 0, 0, [], -1, [], true, beyond⟩

/-- Whether the text is between brackets here. -/
def inFlow (s : Scanner) : Bool := 0 < s.depth

/-- A problem here that needs no context. -/
def fail {α : Type} (s : Scanner) (cause : Cause) : Except Problem α :=
  .error ⟨cause, .mark s.source.mark, none⟩

/-- One token more. -/
def push (s : Scanner) (t : Token) : Scanner := { s with held := s.held ++ [t] }

/-- One token more, with the text behind it. -/
def emit (s : Scanner) (t : Token) (after : Source) : Scanner :=
  { s with held := s.held ++ [t], source := after }

/-- One token of some characters more. -/
def emitChars (s : Scanner) (kind : TokenKind) (n : Nat) : Scanner :=
  let after := s.source.skipMany n
  s.emit ⟨kind, s.source.mark, after.mark⟩ after

/-! ## Keys -/

/-- A key is within one line and at most 1024 bytes long. One that is not cannot be a key any more. -/
def isStale (s : Scanner) (k : KeyStart) : Bool :=
  k.mark.line < s.source.mark.line || k.mark.index + 1024 < s.source.mark.index

/-- Gives up what cannot be a key any more. -/
def dropStale (s : Scanner) : Except Problem Scanner :=
  match s.keys.find? fun k => s.isStale k && k.required with
  | some k => s.source.fail .missingColon .simpleKey k.mark
  | none => .ok { s with keys := s.keys.filter (!s.isStale ·) }

/-- Where a key may have started between the innermost brackets. -/
def key? (s : Scanner) : Option KeyStart := s.keys.head?.filter (·.depth == s.depth)

/-- Gives up what may be a key between the innermost brackets. -/
def dropKey (s : Scanner) : Except Problem Scanner :=
  match s.key? with
  | some k =>
    if k.required then s.source.fail .missingColon .simpleKey k.mark
    else .ok { s with keys := s.keys.tail }
  | none => .ok s

/-- Notes that a key may start here. -/
def saveKey (s : Scanner) : Except Problem Scanner :=
  if s.keyAllowed then do
    let key : KeyStart :=
      { required := !s.inFlow && s.indent == s.source.mark.column
        number := s.released + s.held.length
        mark := s.source.mark
        depth := s.depth }
    let s ← s.dropKey
    return { s with keys := key :: s.keys }
  else .ok s

/-! ## Blocks -/

/-- Opens a block at a column, if that is further in, with a token before the one of a number. -/
def openBlock (s : Scanner) (column : Int) (number : Option Nat) (kind : TokenKind) (mark : Mark) :
    Scanner :=
  if s.inFlow || column ≤ s.indent then s
  else
    let t : Token := ⟨kind, mark, mark⟩
    let held := match number with
      | none => s.held ++ [t]
      | some n => s.held.insertIdx (n - s.released) t
    { s with held := held, outer := s.indent :: s.outer, indent := column }

/-- Closes the blocks that are further in than a column. -/
def closeBlocks (s : Scanner) (column : Int) : Scanner :=
  if s.inFlow then s else go s.outer s.indent s.held
where
  /-- Closes one block after another. -/
  go : List Int → Int → List Token → Scanner
    | [], indent, held => { s with held := held, outer := [], indent := indent }
    | o :: outer, indent, held =>
      if column < indent then
        go outer o (held ++ [⟨.blockEnd, s.source.mark, s.source.mark⟩])
      else { s with held := held, outer := o :: outer, indent := indent }

/-! ## Single tokens -/

/-- The end of the text. -/
def fetchEnd (s : Scanner) : Except Problem Scanner := do
  let m := s.source.mark
  let m := if m.column = 0 then m else ⟨m.index, m.line + 1, 0⟩
  let s := { s with source := { s.source with mark := m } }
  let s ← (s.closeBlocks (-1)).dropKey
  return { s with keyAllowed := false }.push ⟨.streamEnd, m, m⟩

/-- A directive. -/
def fetchDirective (s : Scanner) : Except Problem Scanner := do
  let s ← (s.closeBlocks (-1)).dropKey
  let (t, after) ← scanDirective s.source
  return { s with keyAllowed := false }.emit t after

/-- The start or the end of a document. -/
def fetchDocumentMarker (s : Scanner) (kind : TokenKind) : Except Problem Scanner := do
  let s ← (s.closeBlocks (-1)).dropKey
  return { s with keyAllowed := false }.emitChars kind 3

/-- An opening bracket or brace. -/
def fetchFlowStart (s : Scanner) (kind : TokenKind) : Except Problem Scanner := do
  let s ← s.saveKey
  return { s with depth := s.depth + 1, keyAllowed := true }.emitChars kind 1

/-- A closing bracket or brace. -/
def fetchFlowEnd (s : Scanner) (kind : TokenKind) : Except Problem Scanner := do
  let s ← s.dropKey
  return { s with depth := s.depth - 1, keyAllowed := false }.emitChars kind 1

/-- A comma between brackets. -/
def fetchFlowEntry (s : Scanner) : Except Problem Scanner := do
  let s ← s.dropKey
  return { s with keyAllowed := true }.emitChars .flowEntry 1

/-- A hyphen. -/
def fetchBlockEntry (s : Scanner) : Except Problem Scanner := do
  if !s.inFlow && !s.keyAllowed then s.fail .misplacedEntry
  else
    let m := s.source.mark
    let s ← (s.openBlock m.column none .blockSequenceStart m).dropKey
    return { s with keyAllowed := true }.emitChars .blockEntry 1

/-- A question mark before a key. -/
def fetchKey (s : Scanner) : Except Problem Scanner := do
  if !s.inFlow && !s.keyAllowed then s.fail .misplacedKey
  else
    let m := s.source.mark
    let s ← (s.openBlock m.column none .blockMappingStart m).dropKey
    return { s with keyAllowed := !s.inFlow }.emitChars .key 1

/-- A colon before a value. What came before it is a key if it may be one. -/
def fetchValue (s : Scanner) : Except Problem Scanner :=
  match s.key? with
  | some k =>
    let held := s.held.insertIdx (k.number - s.released) ⟨.key, k.mark, k.mark⟩
    let s := { s with held := held, keys := s.keys.tail, keyAllowed := false }
    let s := s.openBlock k.mark.column (some k.number) .blockMappingStart k.mark
    .ok (s.emitChars .value 1)
  | none =>
    if !s.inFlow && !s.keyAllowed then s.fail .misplacedValue
    else
      let m := s.source.mark
      let s := s.openBlock m.column none .blockMappingStart m
      .ok ({ s with keyAllowed := !s.inFlow }.emitChars .value 1)

/-- A token that may be the start of a key. -/
def fetchNode (s : Scanner) (scan : Source → Except Problem (Token × Source)) :
    Except Problem Scanner := do
  let s ← s.saveKey
  let (t, after) ← scan s.source
  return { s with keyAllowed := false }.emit t after

/-- A block scalar. -/
def fetchBlockScalar (s : Scanner) (literal : Bool) : Except Problem Scanner := do
  let s ← s.dropKey
  let (t, after) ← scanBlock literal s.indent s.source
  return { s with keyAllowed := true }.emit t after

/-- A plain scalar. -/
def fetchPlain (s : Scanner) : Except Problem Scanner := do
  let s ← s.saveKey
  let (t, broken, after) ← scanPlain s.inFlow s.indent s.source
  return { s with keyAllowed := broken }.emit t after

/-! ## The next token -/

/-- The source behind a mark of byte order at the start of a line. -/
def skipOrderMark (s : Source) : Source :=
  if s.mark.column == 0 && atAny [byteOrderMark] s.rest then s.skip else s

/-- Passes over blanks, comments and line ends. Behind the end of a line in a block a key may start. A
tab may stand only where no key may. -/
def skipGaps : Nat → Scanner → Scanner
  | 0, s => s
  | fuel + 1, s =>
    let tabs := s.inFlow || !s.keyAllowed
    let source := (skipOrderMark s.source).skipWhile fun c => c == ' ' || (tabs && c == '\t')
    let source := source.skipComment
    if !source.rest.isEmpty && atBreak source.rest then
      skipGaps fuel
        { s with source := source.skipBreak, keyAllowed := if s.inFlow then s.keyAllowed else true }
    else { s with source := source }

/-- Characters with which no plain scalar starts. -/
def indicators : List Char :=
  ['-', '?', ':', ',', '[', ']', '\x7b', '\x7d', '#', '&', '*', '!', '|', '>', '\'', '"', '%', '@',
    '`']

/-- Whether a plain scalar starts here. -/
def startsPlain (s : Scanner) (c : Char) (rest : List Char) : Bool :=
  !(isBlank c || isBreak c || indicators.contains c) || (c == '-' && !atBlank rest)
    || (!s.inFlow && (c == '?' || c == ':') && !atGap rest)

/-- Finds the token at the front. -/
def fetchHere (s : Scanner) : Except Problem Scanner :=
  match s.source.rest with
  | [] => s.fetchEnd
  | c :: rest =>
    let first := s.source.mark.column == 0
    if first && c == '%' then s.fetchDirective
    else if first && c == '-' && atDocumentMarker s.source.rest then
      s.fetchDocumentMarker .documentStart
    else if first && c == '.' && atDocumentMarker s.source.rest then
      s.fetchDocumentMarker .documentEnd
    else if c == '[' then s.fetchFlowStart .flowSequenceStart
    else if c == '\x7b' then s.fetchFlowStart .flowMappingStart
    else if c == ']' then s.fetchFlowEnd .flowSequenceEnd
    else if c == '\x7d' then s.fetchFlowEnd .flowMappingEnd
    else if c == ',' then s.fetchFlowEntry
    else if c == '-' && atGap rest then s.fetchBlockEntry
    else if c == '?' && (s.inFlow || atGap rest) then s.fetchKey
    else if c == ':' && (s.inFlow || atGap rest) then s.fetchValue
    else if c == '*' then s.fetchNode (scanAnchor true)
    else if c == '&' then s.fetchNode (scanAnchor false)
    else if c == '!' then s.fetchNode (scanTag s.inFlow)
    else if c == '|' && !s.inFlow then s.fetchBlockScalar true
    else if c == '>' && !s.inFlow then s.fetchBlockScalar false
    else if c == '\'' then s.fetchNode (scanQuoted true)
    else if c == '"' then s.fetchNode (scanQuoted false)
    else if s.startsPlain c rest then s.fetchPlain
    else s.source.fail .cannotStart .nextToken s.source.mark

/-! ## Where the text goes on unread -/

/-- Looks at so many characters at the front. If the text goes on behind fewer of them, what is wrong
there is met. -/
def look (s : Scanner) (n : Nat) : Except Problem Unit :=
  match s.beyond with
  | some p => if (s.source.rest.take n).length < n then .error p else .ok ()
  | none => .ok ()

/-- How many characters are looked at behind a token to see where it stops. -/
def lookBehind : TokenKind → Nat
  | .scalar _ .plain | .scalar _ .literal | .scalar _ .folded => 1
  | .anchor _ | .reference _ | .tag _ _ | .version _ _ | .handle _ _ => 1
  | _ => 0

/-- Whether a problem is met where the text goes on unread. -/
def isBeyond (s : Scanner) : Problem → Bool
  | ⟨_, .mark m, _⟩ => s.source.rest.foldl (fun n c => n + c.utf8Size) s.source.mark.index ≤ m.index
  | _ => false

/-- Finds the token at the front, unless what is wrong where the text goes on is met on the way. -/
def fetchWithin (s : Scanner) : Except Problem Scanner := do
  s.look 4
  match s.fetchHere, s.beyond with
  | .error p, some q => .error (if s.isBeyond p then q else p)
  | .error p, none => .error p
  | .ok after, _ =>
    after.look ((after.held.getLast?.map (lookBehind ·.kind)).getD 0)
    return after

/-- Finds the next token. -/
def fetch (s : Scanner) : Except Problem Scanner := do
  s.look 1
  if !s.started then
    let m := s.source.mark
    return { s with started := true }.push ⟨.streamStart, m, m⟩
  else
    let s := skipGaps s.source.bound s
    s.look 1
    let s ← s.dropStale
    (s.closeBlocks s.source.mark.column).fetchWithin

/-- Finds tokens until the first one that is held back can come out. -/
def prepare : Nat → Scanner → Except Problem Scanner
  | 0, s => .ok s
  | fuel + 1, s => do
    if s.held.isEmpty then prepare fuel (← s.fetch)
    else
      let s ← s.dropStale
      if s.keys.any (·.number == s.released) then prepare fuel (← s.fetch)
      else return s

/-- The tokens that come out, and what is wrong behind them. -/
def run (limit : Nat) : Nat → Scanner → List Token × Option Problem
  | 0, _ => ([], none)
  | fuel + 1, s =>
    match prepare limit s with
    | .error p => ([], some p)
    | .ok s =>
      match s.held with
      | [] => ([], none)
      | t :: rest =>
        if t.kind = .streamEnd then ([t], none)
        else
          let (ts, p) := run limit fuel { s with held := rest, released := s.released + 1 }
          (t :: ts, p)

end Scanner

/-- The tokens of a text up to the first thing wrong with it. A text is taken in by blocks, and a
character that may not stand in it is met as soon as its block is. -/
def tokens (text : List Char) : List Token × Option Problem :=
  let (body, beyond) : List Char × Option Problem := match barrier? blockSize 0 0 0 text with
    | some (n, offset) => (text.take n, some ⟨.controlCharacter, .offset offset, none⟩)
    | none => (text, none)
  let limit := 2 * body.length + 8
  Scanner.run limit (2 * limit) (.ofSource (.ofText body) beyond)

end AndroidAudit.Yaml
