import AndroidAudit.Text.Blank

/-!
# Type names

A type is named with dots or with slashes, perhaps between blanks. Two spellings name one type if
they are alike once the blanks at the ends are gone and slashes are dots.

In droidlint `normalizeTypeName` is `normalize_type_name`.
-/

namespace AndroidAudit

/-- A dot for a slash. -/
def dotForSlash (c : Char) : Char := if c = '/' then '.' else c

/-- The dotted spelling of a type name. -/
def normalizeTypeName (name : String) : String :=
  String.ofList ((Text.trim name.toList).map dotForSlash)

end AndroidAudit
