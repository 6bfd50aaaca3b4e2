/-!
# Letters without their case

Case is folded for the letters A to Z alone; every other character stands for itself.
-/

namespace AndroidAudit.Text

/-- A text with the letters A to Z in lower case. -/
def foldCase (s : List Char) : List Char := s.map Char.toLower

/-- Whether two texts differ at most in the case of their letters A to Z. -/
def eqFoldCase (a b : String) : Bool := foldCase a.toList == foldCase b.toList

theorem eqFoldCase_iff {a b : String} :
    eqFoldCase a b = true ↔ foldCase a.toList = foldCase b.toList := beq_iff_eq

end AndroidAudit.Text
