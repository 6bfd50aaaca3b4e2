import AndroidAudit.Text.Hex
import AndroidAudit.Yaml.Token

/-!
# Directives, tags and anchors in YAML text
-/

namespace AndroidAudit.Yaml

/-! ## Tags -/

/-- Characters that may stand in the target of a tag. Inside angle brackets, and in directives, there
are some more. -/
def isTargetChar (wide : Bool) (c : Char) : Bool :=
  isNameChar c || [';', '/', '?', ':', '@', '&', '=', '+', '$', '.', '%', '!', '~', '*', '\'', '(',
    ')'].contains c || (wide && [',', '[', ']'].contains c)

/-- How many octets a character has whose encoding starts with the given one. -/
def octetCount (n : Nat) : Nat :=
  if n < 0x80 then 1
  else if n / 0x20 = 6 then 2
  else if n / 0x10 = 14 then 3
  else if n / 0x08 = 30 then 4
  else 0

/-- One escaped octet at the front. -/
def octet? : List Char → Option Nat
  | '%' :: a :: b :: _ => do return (← Text.hexValue? a) * 16 + (← Text.hexValue? b)
  | _ => none

/-- The octets of an escaped character after its first one. -/
def nextOctets (context : Context) (start : Mark) :
    Nat → Source → Except Problem (List UInt8 × Source)
  | 0, s => .ok ([], s)
  | n + 1, s =>
    match octet? s.rest with
    | none => s.fail .noOctet context start
    | some o =>
      if o / 0x40 = 2 then do
        let (more, s) ← nextOctets context start n (s.skipMany 3)
        return (o.toUInt8 :: more, s)
      else s.fail .badNextOctet context start

/-- The octets of an escaped character. -/
def scanOctets (context : Context) (start : Mark) (s : Source) :
    Except Problem (List UInt8 × Source) :=
  match octet? s.rest with
  | none => s.fail .noOctet context start
  | some o =>
    match octetCount o with
    | 0 => s.fail .badFirstOctet context start
    | n + 1 => do
      let (more, s) ← nextOctets context start n (s.skipMany 3)
      return (o.toUInt8 :: more, s)

/-- The bytes of the target of a tag. The characters that stand for themselves are one byte each. -/
def targetBytes (wide : Bool) (context : Context) (start : Mark) :
    Nat → Source → Except Problem (List UInt8 × Source)
  | 0, s => .ok ([], s)
  | fuel + 1, s =>
    match s.rest with
    | [] => .ok ([], s)
    | c :: _ =>
      if c = '%' then do
        let (octets, s) ← scanOctets context start s
        let (more, s) ← targetBytes wide context start fuel s
        return (octets ++ more, s)
      else if isTargetChar wide c then do
        let (more, s) ← targetBytes wide context start fuel s.skip
        return (c.toUInt8 :: more, s)
      else .ok ([], s)

/-- The target of a tag. What was taken for a handle and is none is its start, less the exclamation
mark. -/
def scanTarget (wide : Bool) (context : Context) (head : List Char) (start : Mark) (s : Source) :
    Except Problem (List UInt8 × Source) := do
  let (bytes, after) ← targetBytes wide context start s.bound s
  if head.isEmpty && bytes.isEmpty then after.fail .noTagTarget context start
  else return ((head.drop 1).map Char.toUInt8 ++ bytes, after)

/-- The handle of a tag: an exclamation mark, a name, and another one if the name ends with it. -/
def scanHandle (directive : Bool) (start : Mark) (s : Source) :
    Except Problem (List Char × Source) :=
  match s.rest with
  | '!' :: _ =>
    let (name, after) := s.skip.takeWhile isNameChar
    match after.rest with
    | '!' :: _ => .ok ('!' :: name ++ ['!'], after.skip)
    | _ =>
      if directive && !name.isEmpty then after.fail .noExclamation .tagDirectiveHandleEnd start
      else .ok ('!' :: name, after)
  | _ => s.fail .noExclamation (if directive then .tagDirectiveHandle else .tag) start

/-- The handle and the target of a tag. A lone exclamation mark is a target without a handle. -/
def tagParts (start : Mark) (s : Source) : Except Problem (List Char × List UInt8 × Source) :=
  match s.rest with
  | _ :: '<' :: _ => do
    let (target, s) ← scanTarget true .tagTarget [] start (s.skipMany 2)
    if atAny ['>'] s.rest then return ([], target, s.skip)
    else s.fail .noAngleBracket .tag start
  | _ => do
    let (handle, s) ← scanHandle false start s
    if 1 < handle.length && handle.getLast? == some '!' then
      let (target, s) ← scanTarget false .tagTarget [] start s
      return (handle, target, s)
    else
      let (target, s) ← scanTarget false .tagTarget handle start s
      return if (Tag.untilZero target).isEmpty then ([], [Tag.mark], s) else (['!'], target, s)

/-- A tag. -/
def scanTag (flow : Bool) (s : Source) : Except Problem (Token × Source) := do
  let start := s.mark
  let (handle, target, s) ← tagParts start s
  if !(flow && atAny [','] s.rest) && !atGap s.rest then s.fail .noBlankOrEnd .tag start
  else return (⟨.tag handle target, start, s.mark⟩, s)

/-! ## Anchors -/

/-- An anchor or an alias. -/
def scanAnchor (isAlias : Bool) (s : Source) : Except Problem (Token × Source) :=
  let start := s.mark
  let (name, after) := s.skip.takeWhile isNameChar
  if name.isEmpty
      || !(atGap after.rest || atAny ['?', ':', ',', ']', '\x7d', '%', '@', '`'] after.rest) then
    after.fail .noName (if isAlias then .reference else .anchor) start
  else .ok (⟨if isAlias then .reference name else .anchor name, start, after.mark⟩, after)

/-! ## Directives -/

/-- Whether a character is a decimal digit. -/
def isDigit (c : Char) : Bool := '0' ≤ c && c ≤ '9'

/-- One number of a version. -/
def versionNumber (start : Mark) (s : Source) : Except Problem (Nat × Source) :=
  let digits := s.rest.takeWhile isDigit
  if digits.isEmpty then s.fail .noVersionNumber .versionDirective start
  else if 9 < digits.length then (s.skipMany 9).fail .longVersion .versionDirective start
  else .ok (digits.foldl (fun n c => n * 10 + (c.toNat - 48)) 0, s.skipMany digits.length)

/-- The version in a directive. -/
def versionValue (start : Mark) (s : Source) : Except Problem (TokenKind × Source) := do
  let (major, s) ← versionNumber start s.skipBlanks
  if !atAny ['.'] s.rest then s.fail .noVersionPoint .versionDirective start
  else
    let (minor, s) ← versionNumber start s.skip
    return (.version major minor, s)

/-- The handle and the target in a directive. -/
def handleValue (start : Mark) (s : Source) : Except Problem (TokenKind × Source) := do
  let (handle, s) ← scanHandle true start s.skipBlanks
  if !atBlank s.rest then s.fail .noBlank .tagDirective start
  else
    let (target, s) ← scanTarget true .tagDirectiveTarget [] start s.skipBlanks
    if !atGap s.rest then s.fail .noBlankOrEnd .tagDirective start
    else return (.handle handle target, s)

/-- A directive, with the rest of its line. -/
def scanDirective (s : Source) : Except Problem (Token × Source) := do
  let start := s.mark
  let (name, after) := s.skip.takeWhile isNameChar
  if name.isEmpty then after.fail .noDirectiveName .directive start
  else if !atGap after.rest then after.fail .badDirectiveName .directive start
  else
    let (kind, s) ←
      if name = ['Y', 'A', 'M', 'L'] then versionValue start after
      else if name = ['T', 'A', 'G'] then handleValue start after
      else after.fail .unknownDirective .directive start
    let stop := s.mark
    let s := s.skipBlanks.skipComment
    if !atBreak s.rest then s.fail .noLineEnd .directive start
    else return (⟨kind, start, stop⟩, s.skipBreak)

end AndroidAudit.Yaml
