/-!
# The shortest decimal that reads back

A binary floating point number is `m · 2^q`. The decimals that round to it form an interval around it,
whose ends belong to it if `m` is even. Of the decimals in that interval the one with the fewest
digits is taken, of several the nearest, of two equally near the one with the even last digit.
-/

namespace AndroidAudit.Decimal

/-- A positive fraction. -/
structure Ratio where
  num : Nat
  den : Nat

namespace Ratio

/-- A number times a power of a base, which may be below one. -/
def scaled (n base : Nat) (exponent : Int) : Ratio :=
  if 0 ≤ exponent then ⟨n * base.pow exponent.toNat, 1⟩ else ⟨n, base.pow (-exponent).toNat⟩

/-- Whether one fraction is less than another. -/
def lt (a b : Ratio) : Bool := a.num * b.den < b.num * a.den

/-- The whole part of a fraction divided by another. -/
def floorDiv (a b : Ratio) : Nat := a.num * b.den / (b.num * a.den)

end Ratio

/-- A positive binary number with the ends of the interval that rounds to it. -/
structure Interval where
  low : Ratio
  mid : Ratio
  high : Ratio
  /-- Whether the ends belong to it. -/
  closed : Bool

/-- The interval of the double with the given bits, the sign left out. The gap below a power of two
is half of the gap above it. -/
def Interval.ofBits (bits : Nat) : Interval :=
  let fraction : Nat := bits % Nat.pow 2 52
  let biased : Nat := bits / Nat.pow 2 52 % Nat.pow 2 11
  let m : Nat := if biased = 0 then fraction else fraction + Nat.pow 2 52
  let q : Int := if biased = 0 then -1074 else (biased : Int) - 1075
  let below := if fraction = 0 ∧ 1 < biased then 1 else 2
  { low := .scaled (4 * m - below) 2 (q - 2)
    mid := .scaled (4 * m) 2 (q - 2)
    high := .scaled (4 * m + 2) 2 (q - 2)
    closed := m % 2 = 0 }

/-- Whether a decimal rounds to the number. -/
def Interval.contains (i : Interval) (d : Ratio) : Bool :=
  if i.closed then !(d.lt i.low) && !(i.high.lt d) else i.low.lt d && d.lt i.high

/-- The place of the first digit of a positive fraction: 0 for the units. -/
def leadingPlace (r : Ratio) : Int :=
  if r.den ≤ r.num then ((Nat.toDigits 10 (r.num / r.den)).length : Int) - 1
  else -(search 400 1)
where
  /-- The least power of ten that brings the fraction to one or above. -/
  search : Nat → Nat → Int
    | 0, k => k
    | fuel + 1, k => if r.den ≤ r.num * Nat.pow 10 k then k else search fuel (k + 1)

/-- A decimal: its digits as one number, and the place of the last of them. -/
structure Digits where
  value : Nat
  /-- The place of the last digit. -/
  place : Int

/-- The decimal in an interval whose last digit has the given place. -/
def onGrid? (i : Interval) (place : Int) : Option Digits :=
  let step := Ratio.scaled 1 10 place
  let down := i.mid.floorDiv step
  let up := down + 1
  let hit (n : Nat) : Bool := i.contains (.scaled n 10 place)
  -- twice the number against the sum of its two neighbours
  let twice : Ratio := ⟨2 * i.mid.num, i.mid.den⟩
  let middle := Ratio.scaled (down + up) 10 place
  let nearUp := middle.lt twice || (!(twice.lt middle) && down % 2 = 1)
  match hit down, hit up with
  | true, true => some ⟨if nearUp then up else down, place⟩
  | true, false => some ⟨down, place⟩
  | false, true => some ⟨up, place⟩
  | false, false => none

/-- The shortest decimal of a positive double. -/
def shortest (bits : Nat) : Digits :=
  let i := Interval.ofBits bits
  let lead := leadingPlace i.mid
  go i lead 17 0
where
  /-- Tries one digit more at a time. -/
  go (i : Interval) (lead : Int) : Nat → Nat → Digits
    | 0, n => ⟨i.mid.floorDiv (.scaled 1 10 (lead - n)), lead - n⟩
    | fuel + 1, n => match onGrid? i (lead - n) with
      | some d => d
      | none => go i lead fuel (n + 1)

end AndroidAudit.Decimal
