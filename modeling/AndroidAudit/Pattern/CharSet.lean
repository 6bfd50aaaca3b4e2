/-!
# Sets of characters

A set is written as ranges of code points. Kept in order and apart from each other, the ranges can be
joined, cut and turned inside out.
-/

namespace AndroidAudit.Pattern

/-- A set of characters by ranges of code points, both ends included. -/
structure CharSet where
  ranges : List (Nat × Nat)
  deriving DecidableEq, Repr

namespace CharSet

/-- The last code point. -/
def last : Nat := 0x10FFFF

/-- The set without characters. -/
def none : CharSet := ⟨[]⟩

/-- The characters from one to another. -/
def range (a b : Char) : CharSet := ⟨[(a.toNat, b.toNat)]⟩

/-- One character. -/
def single (c : Char) : CharSet := range c c

/-- Whether a character is in a set. -/
def contains (s : CharSet) (c : Char) : Bool :=
  s.ranges.any fun r => r.1 ≤ c.toNat && c.toNat ≤ r.2

/-- Ranges in rising order of their starts, with those joined that touch. -/
def join : List (Nat × Nat) → List (Nat × Nat)
  | [] => []
  | r :: rest =>
    match join rest with
    | [] => [r]
    | q :: more => if q.1 ≤ r.2 + 1 then (r.1, max r.2 q.2) :: more else r :: q :: more

/-- The same set with its ranges in order and apart. -/
def tidy (s : CharSet) : CharSet := ⟨join (s.ranges.mergeSort fun a b => a.1 ≤ b.1)⟩

/-- The characters of either set. -/
def union (s t : CharSet) : CharSet := tidy ⟨s.ranges ++ t.ranges⟩

/-- The code points from `start` on that are in none of some ranges in order. -/
def gaps (start : Nat) : List (Nat × Nat) → List (Nat × Nat)
  | [] => if start ≤ last then [(start, last)] else []
  | r :: rest =>
    if start < r.1 then (start, r.1 - 1) :: gaps (r.2 + 1) rest else gaps (max start (r.2 + 1)) rest

/-- The characters that are not in a set. -/
def complement (s : CharSet) : CharSet := ⟨gaps 0 (tidy s).ranges⟩

/-- The characters of both sets. -/
def inter (s t : CharSet) : CharSet := (s.complement.union t.complement).complement

/-- The characters of the first set that are not in the second. -/
def diff (s t : CharSet) : CharSet := s.inter t.complement

/-- The characters of one set only. -/
def symmDiff (s t : CharSet) : CharSet := (s.diff t).union (t.diff s)

/-- The set with the letters A to Z in either case if it has them in one. -/
def foldCase (s : CharSet) : CharSet :=
  let letters := (List.range 26).flatMap fun i =>
    let upper := Char.ofNat (65 + i)
    let lower := Char.ofNat (97 + i)
    (if s.contains upper then [(lower.toNat, lower.toNat)] else [])
      ++ (if s.contains lower then [(upper.toNat, upper.toNat)] else [])
  s.union ⟨letters⟩

end CharSet

end AndroidAudit.Pattern
