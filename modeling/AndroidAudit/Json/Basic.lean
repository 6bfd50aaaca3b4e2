import AndroidAudit.Text.Hex

/-!
# JSON values and how they are written

A value is written in one line without blanks (`Json.compact`) or over several lines, two columns
further in for each level (`Json.pretty`). Only natural numbers are written.
-/

namespace AndroidAudit

/-- A JSON value. The members of an object keep their order. -/
inductive Json where
  | null
  | bool (b : Bool)
  | number (n : Nat)
  | string (s : String)
  | array (items : List Json)
  | object (members : List (String × Json))

namespace Json

/-- A character of a text. Controls, quotes and backslashes are escaped. -/
def escapeChar (c : Char) : List Char :=
  if c = '"' then ['\\', '"']
  else if c = '\\' then ['\\', '\\']
  else if c = '\x08' then ['\\', 'b']
  else if c = '\x0c' then ['\\', 'f']
  else if c = '\n' then ['\\', 'n']
  else if c = '\r' then ['\\', 'r']
  else if c = '\t' then ['\\', 't']
  else if c.toNat < 32 then
    ['\\', 'u', '0', '0', Text.hexDigit (c.toNat / 16), Text.hexDigit (c.toNat % 16)]
  else [c]

/-- A text in quotes. -/
def quote (s : String) : List Char := '"' :: s.toList.flatMap escapeChar ++ ['"']

/-- The digits of a number. -/
def digits (n : Nat) : List Char := Nat.toDigits 10 n

/-- The word for a truth value. -/
def boolText : Bool → List Char
  | true => ['t', 'r', 'u', 'e']
  | false => ['f', 'a', 'l', 's', 'e']

/-- The word for nothing. -/
def nullText : List Char := ['n', 'u', 'l', 'l']

mutual

/-- A value in one line. -/
def compact : Json → List Char
  | .null => nullText
  | .bool b => boolText b
  | .number n => digits n
  | .string s => quote s
  | .array items => '[' :: compactItems true items ++ [']']
  | .object members => '\x7b' :: compactMembers true members ++ ['\x7d']

/-- Items with commas between them, and before them unless they come first. -/
def compactItems (first : Bool) : List Json → List Char
  | [] => []
  | j :: rest => (if first then [] else [',']) ++ compact j ++ compactItems false rest

/-- Members with commas between them, and before them unless they come first. -/
def compactMembers (first : Bool) : List (String × Json) → List Char
  | [] => []
  | (k, j) :: rest =>
    (if first then [] else [',']) ++ quote k ++ ':' :: compact j ++ compactMembers false rest

end

/-- A new line, so many levels in. -/
def newline (level : Nat) : List Char := '\n' :: List.replicate (2 * level) ' '

mutual

/-- A value over several lines, so many levels in. -/
def indented (level : Nat) : Json → List Char
  | .null => nullText
  | .bool b => boolText b
  | .number n => digits n
  | .string s => quote s
  | .array [] => ['[', ']']
  | .array items => '[' :: indentedItems (level + 1) true items ++ newline level ++ [']']
  | .object [] => ['\x7b', '\x7d']
  | .object members =>
    '\x7b' :: indentedMembers (level + 1) true members ++ newline level ++ ['\x7d']

/-- Items on lines of their own. -/
def indentedItems (level : Nat) (first : Bool) : List Json → List Char
  | [] => []
  | j :: rest =>
    (if first then [] else [',']) ++ newline level ++ indented level j
      ++ indentedItems level false rest

/-- Members on lines of their own. -/
def indentedMembers (level : Nat) (first : Bool) : List (String × Json) → List Char
  | [] => []
  | (k, j) :: rest =>
    (if first then [] else [',']) ++ newline level ++ quote k ++ ':' :: ' ' :: indented level j
      ++ indentedMembers level false rest

end

/-- A value over several lines. -/
def pretty (j : Json) : List Char := indented 0 j

/-- The text of a value in one line. -/
def compactText (j : Json) : String := String.ofList j.compact

/-- The text of a value over several lines. -/
def prettyText (j : Json) : String := String.ofList j.pretty

end Json

end AndroidAudit
