import AndroidAudit.Text.Utf8

/-!
# YAML tags

A tag is written with escapes for bytes, so it is bytes and need not be text. It ends before its first
zero byte. A tag that starts with an exclamation mark and is text names a kind of value that only the
document's shape can know.
-/

namespace AndroidAudit.Yaml

/-- The bytes of a tag. -/
abbrev Tag := List UInt8

namespace Tag

/-- The byte of the exclamation mark. -/
def mark : UInt8 := 0x21

/-- The bytes before the first zero byte. -/
def untilZero (bytes : List UInt8) : List UInt8 := bytes.takeWhile (· ≠ 0)

/-- The tag of a handle's base and the target behind the handle. -/
def join (base target : List UInt8) : Tag := untilZero base ++ untilZero target

/-- A tag in words of the standard. -/
def core (kind : String) : Tag := Text.encode ("tag:yaml.org,2002:" ++ kind)

/-- Whether a tag starts with an exclamation mark. -/
def isMarked (t : Tag) : Bool := t.head? == some mark

/-- Whether a tag names a kind of value that only a shape could know: it starts with an exclamation
mark, and what comes behind the mark is text. -/
def isLocal (t : Tag) : Bool := t.isMarked && (Text.decode? (t.drop 1)).isSome

end Tag

end AndroidAudit.Yaml
