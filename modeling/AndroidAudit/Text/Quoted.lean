import AndroidAudit.Text.Hex
import AndroidAudit.Text.Unprintable

/-!
# Quoted text in messages

A text that a message shows stands in double quotes, with a backslash before a quote or a backslash,
a letter for the common controls and a code point for whatever else has no shape of its own.
-/

namespace AndroidAudit.Text

/-- A character inside quotes. -/
def quoteChar (c : Char) : List Char :=
  if c = '"' then ['\\', '"']
  else if c = '\\' then ['\\', '\\']
  else if c = '\n' then ['\\', 'n']
  else if c = '\r' then ['\\', 'r']
  else if c = '\t' then ['\\', 't']
  else if c = '\x00' then ['\\', '0']
  else if isUnprintable c then "\\u\x7b".toList ++ hexNumber c.toNat ++ "\x7d".toList
  else [c]

/-- A text in double quotes. -/
def quoted (s : String) : String :=
  String.ofList ('"' :: s.toList.flatMap quoteChar ++ ['"'])

end AndroidAudit.Text
