import AndroidAudit.Json.Fault

/-!
# Numbers in a document

A numeral is read as a natural number or a negative integer if it has neither a fraction nor an
exponent and fits into 64 bits, and as a floating point number otherwise. A floating point number is
found from the digits that fit into 64 bits and one multiplication or division by a power of ten.
-/

namespace AndroidAudit.Json

/-- What a numeral stands for. -/
inductive Number where
  /-- A natural number below `2^64`. -/
  | nat (n : Nat)
  /-- The integer `-n`, with `n` from 1 to `2^63`. -/
  | neg (n : Nat)
  | float (f : Float)

/-- Whether a character is a decimal digit. -/
def isDigit (c : Char) : Bool := '0' ≤ c && c ≤ '9'

/-- The value of a decimal digit. -/
def digitValue (c : Char) : Nat := c.toNat - 48

/-- Appends digits to a number below `2^64` until one does not fit any more. Gives the number and how
many digits were left over. -/
def appendDigits (n : Nat) : List Char → Nat × Nat
  | [] => (n, 0)
  | d :: rest =>
    let m := n * 10 + digitValue d
    if m < UInt64.size then appendDigits m rest else (n, rest.length + 1)

/-- A power of ten as a floating point number. -/
def powerOfTen (n : Nat) : Float := OfScientific.ofScientific 1 false n

/-- A number times a power of ten. Nothing if it is too large. -/
def scaleFloat? (f : Float) (exponent : Int) : Option Float :=
  if 0 ≤ exponent then
    if exponent ≤ 308 then
      let g := f * powerOfTen exponent.toNat
      if g.isInf then none else some g
    else if f == 0 then some f else none
  else some (shrink 4 f (-exponent).toNat)
where
  /-- Divides by a power of ten, in steps if it is a large one. -/
  shrink : Nat → Float → Nat → Float
    | 0, f, _ => f
    | fuel + 1, f, n =>
      if n ≤ 308 then f / powerOfTen n
      else if f == 0 then f
      else shrink fuel (f / powerOfTen 308) (n - 308)

/-- The exponent of a numeral, or that it has more digits than matter. -/
inductive Exponent where
  | exact (e : Int)
  /-- A power of ten beyond all bounds, seen at a place. -/
  | huge (place : Place)
  /-- A power of ten beyond all bounds, below one. -/
  | tiny

/-- The magnitude of an exponent, up to the digit that takes it past 31 bits. -/
def exponentValue (n : Nat) (p : Place) : List Char → Except Place Nat
  | [] => .ok n
  | d :: rest =>
    let m := n * 10 + digitValue d
    if m ≤ 2147483647 then exponentValue m (p.after d) rest else .error (p.after d)

/-- What a numeral turned out to be. -/
inductive NumberScan where
  /-- A whole numeral. Its value may be out of range. -/
  | whole (value : Except Fault Number) (stop : Cursor)
  /-- A numeral that breaks off, with the fault if it is read and if it is skipped. -/
  | broken (read skip : Fault)

/-- A floating point number from its digits and exponent. -/
def makeFloat (negative : Bool) (significand : Nat) (exponent : Exponent) (stop : Cursor) :
    Except Fault Number :=
  let sign (f : Float) : Float := if negative then -f else f
  match exponent with
  | .tiny => .ok (.float (sign 0))
  | .huge p => if significand = 0 then .ok (.float (sign 0)) else .error ⟨.numberOutOfRange, p⟩
  | .exact e =>
    match scaleFloat? significand.toUInt64.toFloat e with
    | some f => .ok (.float (sign f))
    | none => .error ⟨.numberOutOfRange, stop.place⟩

/-- The fault of a numeral that has no digit here. At the end of the text it reads differently. -/
def missingDigit (c : Cursor) : NumberScan :=
  match c.rest with
  | [] => .broken ⟨.endInValue, c.place⟩ ⟨.invalidNumber, c.place⟩
  | _ => .broken ⟨.invalidNumber, c.peek⟩ ⟨.invalidNumber, c.peek⟩

/-- The exponent of a numeral, from behind the letter. -/
def scanExponent (negative : Bool) (significand : Nat) (shift : Int) (c : Cursor) : NumberScan :=
  let (below, c) : Bool × Cursor := match c.rest with
    | '+' :: _ => (false, c.next)
    | '-' :: _ => (true, c.next)
    | _ => (false, c)
  let (digits, stop) := c.span isDigit
  if digits.isEmpty then missingDigit c
  else
    let exponent : Exponent := match exponentValue 0 c.place digits with
      | .ok e => .exact (if below then shift - e else shift + e)
      | .error p => if below then .tiny else .huge p
    .whole (makeFloat negative significand exponent stop) stop

/-- What follows the digits of a numeral that has a fraction or too many digits. -/
def scanTail (negative : Bool) (significand : Nat) (shift : Int) (c : Cursor) : NumberScan :=
  match c.rest with
  | 'e' :: _ | 'E' :: _ => scanExponent negative significand shift c.next
  | _ => .whole (makeFloat negative significand (.exact shift) c) c

/-- A numeral, from behind its sign. -/
def scanUnsigned (negative : Bool) (c : Cursor) : NumberScan :=
  let (digits, stop) := c.span isDigit
  match digits with
  | [] => missingDigit c
  | '0' :: _ :: _ => .broken (c.next.faultAhead .invalidNumber) (c.next.faultAhead .invalidNumber)
  | _ =>
    let (significand, extra) := appendDigits 0 digits
    match stop.rest with
    | '.' :: _ =>
      let c := stop.next
      let (fraction, stop) := c.span isDigit
      if fraction.isEmpty then missingDigit c
      else
        let (significand, dropped) := appendDigits significand fraction
        let used : Nat := fraction.length - dropped
        scanTail negative significand ((extra : Int) - used) stop
    | 'e' :: _ | 'E' :: _ => scanExponent negative significand extra stop.next
    | _ =>
      if extra ≠ 0 then scanTail negative significand extra stop
      else if !negative then .whole (.ok (.nat significand)) stop
      else if 0 < significand ∧ significand ≤ Nat.pow 2 63 then .whole (.ok (.neg significand)) stop
      else .whole (.ok (.float (-significand.toUInt64.toFloat))) stop

/-- A numeral. -/
def scanNumber (c : Cursor) : NumberScan :=
  match c.rest with
  | '-' :: _ => scanUnsigned true c.next
  | _ => scanUnsigned false c

end AndroidAudit.Json
