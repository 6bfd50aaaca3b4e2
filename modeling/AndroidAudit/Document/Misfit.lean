import AndroidAudit.Decimal.Layout
import AndroidAudit.Text.Quoted

/-!
# Values that do not fit

What is wrong with a value that is well written and is not what the shape of the document asks for.
-/

namespace AndroidAudit.Document

/-- A value found where another was expected. -/
inductive Found where
  | null
  | bool (b : Bool)
  /-- An integer of 64 bits. -/
  | integer (n : Int)
  /-- An integer of 128 bits. -/
  | wide (n : Int)
  | float (f : Float)
  | text (s : String)
  | sequence
  | map
  | tagged

/-- How a kind of document names some values. -/
structure Wording where
  null : String
  floats : Decimal.Layout

/-- Why a value does not fit. -/
inductive Misfit where
  | invalidType (found : Found) (expected : String)
  /-- A value of the right type that is out of range. -/
  | invalidValue (found : Found) (expected : String)
  | invalidLength (length : Nat) (expected : String)
  | unknownWord (word : String) (words : List String)
  | missingField (name : String)
  | duplicateField (name : String)
  /-- A tag of the document where only its shape decides. -/
  | strayTag

/-- An integer as text. -/
def intText (n : Int) : String := if n < 0 then "-" ++ toString n.natAbs else toString n.natAbs

/-- A text between two grave accents. -/
def ticked (s : String) : String := "`" ++ s ++ "`"

/-- What was found, in words. -/
def Found.phrase (w : Wording) : Found → String
  | null => w.null
  | bool b => "boolean " ++ ticked (if b then "true" else "false")
  | integer n => "integer " ++ ticked (intText n)
  | wide n => "integer " ++ ticked (intText n) ++ (if n < 0 then " as i128" else " as u128")
  | float f => "floating point " ++ ticked (w.floats.text f)
  | text s => "string " ++ Text.quoted s
  | sequence => "sequence"
  | map => "map"
  | tagged => "enum"

/-- The words allowed, as a list in words. -/
def wordList : List String → String
  | [] => "there are no variants"
  | [a] => "expected " ++ ticked a
  | [a, b] => "expected " ++ ticked a ++ " or " ++ ticked b
  | ws => "expected one of " ++ ", ".intercalate (ws.map ticked)

/-- What is wrong, in words. -/
def Misfit.phrase (w : Wording) : Misfit → String
  | invalidType found expected => "invalid type: " ++ found.phrase w ++ ", expected " ++ expected
  | invalidValue found expected => "invalid value: " ++ found.phrase w ++ ", expected " ++ expected
  | invalidLength n expected => "invalid length " ++ toString n ++ ", expected " ++ expected
  | unknownWord word words => "unknown variant " ++ ticked word ++ ", " ++ wordList words
  | missingField name => "missing field " ++ ticked name
  | duplicateField name => "duplicate field " ++ ticked name
  | strayTag => "untagged and internally tagged enums do not support enum input"

/-- So many of something, in words. -/
def counted (n : Nat) (one many : String) : String :=
  toString n ++ " " ++ (if n = 1 then one else many)

end AndroidAudit.Document
