import AndroidAudit.Decimal.Shortest

/-!
# Floating point numbers as text

A number is written with the digits of its shortest decimal, either with all its places or as a
digit, more digits after a point, and an exponent. A number written with all its places always has a
digit after the point.
-/

namespace AndroidAudit.Decimal

/-- Which numbers are written with all their places, by the place of their first digit. -/
structure Layout where
  least : Int
  greatest : Int

/-- From five places after the point to sixteen before it. -/
def Layout.mixed : Layout := ⟨-5, 15⟩

/-- All of them. -/
def Layout.full : Layout := ⟨-1100, 1100⟩

/-- Digits with all their places, the first of which is given. -/
def positional (digits : List Char) (lead : Int) : List Char :=
  if lead < 0 then '0' :: '.' :: List.replicate (-lead - 1).toNat '0' ++ digits
  else
    let whole := digits.take (lead.toNat + 1)
    let rest := digits.drop (lead.toNat + 1)
    whole ++ List.replicate (lead.toNat + 1 - digits.length) '0' ++ '.' ::
      (if rest.isEmpty then ['0'] else rest)

/-- Digits with an exponent. The sign of the exponent is always written. -/
def scientific (digits : List Char) (lead : Int) : List Char :=
  let mantissa := match digits with
    | d :: e :: rest => d :: '.' :: e :: rest
    | short => short
  let sign := if lead < 0 then '-' else '+'
  mantissa ++ 'e' :: sign :: Nat.toDigits 10 lead.natAbs

/-- The digits without the zeros at the end. -/
def significant (n : Nat) : List Char :=
  ((Nat.toDigits 10 n).reverse.dropWhile (· == '0')).reverse

/-- A floating point number as text. -/
def Layout.text (n : Layout) (f : Float) : String :=
  let bits := f.toBits.toNat
  let sign := if bits / Nat.pow 2 63 = 1 then ['-'] else []
  let body := bits % Nat.pow 2 63
  if f.isNaN then "NaN"
  else if f.isInf then String.ofList (sign ++ "inf".toList)
  else if body = 0 then String.ofList (sign ++ "0.0".toList)
  else
    let d := shortest body
    let lead := d.place + ((Nat.toDigits 10 d.value).length : Int) - 1
    let digits := significant d.value
    String.ofList (sign ++
      if n.least ≤ lead ∧ lead ≤ n.greatest then positional digits lead else scientific digits lead)

end AndroidAudit.Decimal
