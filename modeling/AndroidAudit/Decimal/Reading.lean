/-!
# Floating point numbers from text

A decimal number with an optional sign, point and exponent, rounded to the nearest floating point
number.
-/

namespace AndroidAudit.Decimal

/-- Whether a character is a decimal digit. -/
def isDigit (c : Char) : Bool := '0' ≤ c && c ≤ '9'

/-- The number that digits stand for. -/
def digitsValue (cs : List Char) : Nat := cs.foldl (fun n c => n * 10 + (c.toNat - 48)) 0

/-- The power of ten behind a number. Nothing there is one. -/
def exponent? : List Char → Option Int
  | [] => some 0
  | c :: rest =>
    if c = 'e' ∨ c = 'E' then
      let (below, digits) := match rest with
        | '-' :: ds => (true, ds)
        | '+' :: ds => (false, ds)
        | ds => (false, ds)
      if digits.isEmpty || !digits.all isDigit then none
      else some (if below then -(digitsValue digits : Int) else digitsValue digits)
    else none

/-- The number `digits · 10^exponent`, if it is not too large. Far outside the range of floating point
numbers only the size matters. -/
def scaled? (digits : List Char) (exponent : Int) : Option Float :=
  let significant := digits.dropWhile (· == '0')
  let size := (significant.length : Int) + exponent
  if significant.isEmpty || size < -400 then some 0
  else if 400 < size then none
  else
    let f : Float := OfScientific.ofScientific (digitsValue significant) (exponent < 0) exponent.natAbs
    if f.isInf then none else some f

/-- The number without its sign. -/
def readUnsigned? (cs : List Char) : Option Float := do
  let whole := cs.takeWhile isDigit
  let rest := cs.dropWhile isDigit
  let (fraction, rest) := match rest with
    | '.' :: more => (more.takeWhile isDigit, more.dropWhile isDigit)
    | more => ([], more)
  if whole.isEmpty && fraction.isEmpty then none
  else
    let e ← exponent? rest
    scaled? (whole ++ fraction) (e - fraction.length)

/-- The number that a text stands for, if it is finite. -/
def read? : List Char → Option Float
  | '-' :: rest => (readUnsigned? rest).map (-·)
  | '+' :: rest => readUnsigned? rest
  | cs => readUnsigned? cs

end AndroidAudit.Decimal
