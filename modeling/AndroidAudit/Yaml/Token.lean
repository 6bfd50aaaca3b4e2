import AndroidAudit.Yaml.Source
import AndroidAudit.Yaml.Tag

/-!
# YAML tokens
-/

namespace AndroidAudit.Yaml

/-- How a scalar is written. -/
inductive Style where
  | plain
  | single
  | double
  /-- As a block whose lines are kept. -/
  | literal
  /-- As a block whose lines are joined. -/
  | folded
  deriving DecidableEq, Repr

/-- The kinds of tokens. -/
inductive TokenKind where
  | streamStart
  | streamEnd
  | version (major minor : Nat)
  | handle (name : List Char) (base : List UInt8)
  | documentStart
  | documentEnd
  | blockSequenceStart
  | blockMappingStart
  | blockEnd
  | flowSequenceStart
  | flowSequenceEnd
  | flowMappingStart
  | flowMappingEnd
  /-- A hyphen before an entry of a list. -/
  | blockEntry
  /-- A comma. -/
  | flowEntry
  | key
  | value
  | reference (name : List Char)
  | anchor (name : List Char)
  | tag (handle : List Char) (target : List UInt8)
  | scalar (text : List Char) (style : Style)
  deriving DecidableEq, Repr

/-- A token, and where it starts and stops. -/
structure Token where
  kind : TokenKind
  start : Mark
  stop : Mark
  deriving DecidableEq, Repr

end AndroidAudit.Yaml
