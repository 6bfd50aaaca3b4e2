import AndroidAudit.Pattern.Basic
import AndroidAudit.Pattern.Reading

/-!
# What a written pattern means

Flags decide what the parts of a written pattern mean, and some parts mean nothing under some flags:
there are no tables of the letters of all scripts, so that classes and case are for ASCII alone, and a
pattern must not fit bytes that are no text.
-/

namespace AndroidAudit

namespace Pattern

/-- The flags that are on. -/
structure Manner where
  fold : Bool
  lines : Bool
  dotAll : Bool
  returns : Bool
  wide : Bool
  deriving DecidableEq, Repr

namespace Manner

/-- The flags at the start of a pattern. -/
def initial : Manner := ⟨false, false, false, false, true⟩

/-- The flags behind a change of them. -/
def change (m : Manner) : FlagChanges → Manner
  | [] => m
  | (f, on) :: rest =>
    let m := match f with
      | .fold => { m with fold := on }
      | .lines => { m with lines := on }
      | .dotAll => { m with dotAll := on }
      | .returns => { m with returns := on }
      | .wide => { m with wide := on }
      | .swap | .loose => m
    m.change rest

end Manner

/-! ## Sets -/

/-- A set in brackets, with case left out of account if that is asked for, and turned inside out if
it is negated. -/
def foldAndNegate (m : Manner) (span : Span) (negated : Bool) (s : CharSet) :
    Except Flaw CharSet :=
  if m.wide then
    if m.fold && !s.ranges.isEmpty then flaw .wideCase span
    else .ok (if negated then s.complement else s)
  else if negated then flaw .notText span
  else .ok (if m.fold then s.foldCase else s)

/-- The ASCII characters of a class. -/
def LetterClass.ascii : LetterClass → CharSet
  | .digit => ⟨[(0x30, 0x39)]⟩
  | .space => ⟨[(0x09, 0x0D), (0x20, 0x20)]⟩
  | .word => ⟨[(0x30, 0x39), (0x41, 0x5A), (0x5F, 0x5F), (0x61, 0x7A)]⟩

/-- The characters of a class by a letter. -/
def letterSet (m : Manner) (l : LetterClass) (negated : Bool) (span : Span) : Except Flaw CharSet :=
  if m.wide then flaw .wideClass span
  else if negated then flaw .notText span
  else .ok l.ascii

/-- A name without case, blanks, hyphens and underscores, and without `is` at its start. -/
def plainName (name : List Char) : List Char :=
  let lower := name.map Char.toLower
  let isLed := ['i', 's'].isPrefixOf lower
  let body := (if isLed then lower.drop 2 else lower).filter fun c =>
    c != ' ' && c != '_' && c != '-' && c.toNat < 128
  if isLed && body == ['c'] then ['i', 's', 'c'] else body

/-- Why a class by a property means nothing. A few short names are those of values and not of
properties. -/
def propertyFlaw (m : Manner) (name : List Char) (value : Option (List Char)) : Cause :=
  if !m.wide then .wideNotAllowed
  else if value.isNone && [['c', 'f'], ['s', 'c'], ['l', 'c']].contains (plainName name) then
    .unknownValue
  else .unknownProperty

/-- A character that may have to be a byte. -/
def plainChar (m : Manner) (c : Char) (isByte : Bool) (span : Span) : Except Flaw Char :=
  if !m.wide && isByte && 127 < c.toNat then flaw .notText span else .ok c

/-- A character in brackets. -/
def setChar (m : Manner) (c : Char) (isByte : Bool) (span : Span) : Except Flaw Char := do
  let c ← plainChar m c isByte span
  if !m.wide && 127 < c.toNat then flaw .wideNotAllowed span else return c

/-- The characters of a character or class in brackets. -/
def Piece.set (m : Manner) : Piece → Except Flaw CharSet
  | .char c isByte span => do return .single (← setChar m c isByte span)
  | .letter l negated span => letterSet m l negated span
  | .property name value span => flaw (propertyFlaw m name value) span
  | .dot _ | .sign _ _ => .ok .none

/-- Two sets and what is done with them. -/
def SetOperation.apply (op : SetOperation) (s t : CharSet) : CharSet :=
  match op with
  | .inter => s.inter t
  | .diff => s.diff t
  | .symmDiff => s.symmDiff t

mutual

/-- The characters of a set as it is written. -/
def WrittenSet.set (m : Manner) : WrittenSet → Except Flaw CharSet
  | .empty _ => .ok .none
  | .piece p => p.set m
  | .range a b aIsByte bIsByte aSpan bSpan => do
    let a ← setChar m a aIsByte aSpan
    let b ← setChar m b bIsByte bSpan
    return .range a b
  | .named ranges negated span => foldAndNegate m span negated ⟨ranges⟩
  | .bracket negated s span => do foldAndNegate m span negated (← s.set m)
  | .union items _ => unionSet m items
  | .both op a b _ => do
    let s ← a.set m
    let t ← b.set m
    let t ← foldAndNegate m b.span false t
    let s ← foldAndNegate m a.span false s
    return op.apply s t

/-- The characters of some sets. -/
def unionSet (m : Manner) : List WrittenSet → Except Flaw CharSet
  | [] => .ok .none
  | s :: rest => do
    let a ← s.set m
    let b ← unionSet m rest
    return a.union b

end

/-! ## Patterns -/

/-- What a sign asks of a place. -/
def Sign.look (m : Manner) : Sign → Look
  | .lineStart => if m.lines then if m.returns then .returnStart else .lineStart else .textStart
  | .lineStop => if m.lines then if m.returns then .returnStop else .lineStop else .textStop
  | .textStart => .textStart
  | .textStop => .textStop
  | .edge => .word m.wide .either
  | .noEdge => .word m.wide .neither
  | .wordStart => .word m.wide .start
  | .wordStop => .word m.wide .stop
  | .wordStartHalf => .word m.wide .startHalf
  | .wordStopHalf => .word m.wide .stopHalf

/-- What a character or class means. -/
def Piece.meaning (m : Manner) : Piece → Except Flaw Pattern
  | .char c isByte span => do
    let c ← plainChar m c isByte span
    if m.fold && m.wide then flaw .wideCase span
    else return .chars (if m.fold then (CharSet.single c).foldCase else .single c)
  | .dot span =>
    if !m.wide then flaw .notText span
    else if m.dotAll then .ok (.chars CharSet.none.complement)
    else if m.returns then .ok (.chars (CharSet.complement ⟨[(0x0A, 0x0A), (0x0D, 0x0D)]⟩))
    else .ok (.chars (CharSet.single '\n').complement)
  | .sign s _ => .ok (.look (s.look m))
  | .letter l negated span => do return .chars (← letterSet m l negated span)
  | .property name value span => flaw (propertyFlaw m name value) span

mutual

/-- What a written pattern means under some flags, and the flags behind it. -/
def Written.meaning (m : Manner) : Written → Except Flaw (Pattern × Manner)
  | .empty _ => .ok (.empty, m)
  | .flags changes _ => .ok (.empty, m.change changes)
  | .piece p => do return (← p.meaning m, m)
  | .bracket negated s span => do
    return (.chars (← foldAndNegate m span negated (← s.set m)), m)
  | .times w least most _ => do
    let (p, _) ← w.meaning m
    return (.times p least most, m)
  | .group changes w _ => do
    let (p, _) ← w.meaning (m.change changes)
    return (p, m)
  | .alternation ws _ => branchesMeaning m ws
  | .concat ws _ => partsMeaning m ws

/-- What patterns mean of which one comes. -/
def branchesMeaning (m : Manner) : List Written → Except Flaw (Pattern × Manner)
  | [] => .ok (.chars .none, m)
  | w :: rest => do
    let (a, m) ← w.meaning m
    let (b, m) ← branchesMeaning m rest
    return (.alt a b, m)

/-- What patterns mean that come one after another. -/
def partsMeaning (m : Manner) : List Written → Except Flaw (Pattern × Manner)
  | [] => .ok (.empty, m)
  | w :: rest => do
    let (a, m) ← w.meaning m
    let (b, m) ← partsMeaning m rest
    return (.seq a b, m)

end

/-! ## Patterns from text -/

/-- Why a text is no pattern. -/
inductive Refusal where
  | flaw (f : Flaw)
  /-- It takes too much room spelled out. -/
  | tooBig
  /-- It asks for the edges of words in all scripts. -/
  | wideWords
  deriving DecidableEq, Repr

/-- How many bytes a pattern may take spelled out. -/
def maxCost : Nat := 10485760

/-- Why a text is no pattern, in words. -/
def Refusal.message (pattern : String) : Refusal → String
  | .flaw f => f.message pattern.toList
  | .tooBig => "Compiled regex exceeds size limit of " ++ toString maxCost ++ " bytes."
  | .wideWords => "error building NFA"

end Pattern

/-- The pattern that a text writes. -/
def Pattern.ofText (text : String) : Except Pattern.Refusal Pattern :=
  match Pattern.Written.ofText text.toList with
  | .error f => .error (.flaw f)
  | .ok w =>
    match w.meaning .initial with
    | .error f => .error (.flaw f)
    | .ok (p, _) =>
      if Pattern.maxCost < p.cost then .error .tooBig
      else if p.hasWideWords then .error .wideWords
      else .ok p

end AndroidAudit
