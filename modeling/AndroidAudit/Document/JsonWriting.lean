import AndroidAudit.Document.Shape
import AndroidAudit.Json.Basic

/-!
# Documents written as JSON

A record is an object with its fields in order, less those that are left out. A tagged record has its
tag first.
-/

namespace AndroidAudit.Document

/-- An atom as JSON. -/
def Atom.toJson : (a : Atom) → a.Value → Json
  | .text, s => .string s
  | .flag, b => .bool b
  | .number _, n => .number n.val

/-- A scalar as JSON. -/
def Scalar.toJson : (s : Scalar) → s.Value → Json
  | .plain a, v => a.toJson v
  | .nullable _, none => .null
  | .nullable a, some v => a.toJson v

/-- A field as a member, unless it is left out. -/
def Presence.toMember {α : Type} (name : String) (write : α → Json) :
    (p : Presence) → p.Value α → List (String × Json)
  | .required, v => [(name, write v)]
  | .optional, some v => [(name, write v)]
  | .optional, none => []

/-- The fields of a tagged record as members. -/
def slotsToJson : (slots : List Slot) → SlotsValue slots → List (String × Json)
  | [], () => []
  | s :: rest, (v, vs) => s.presence.toMember s.name s.scalar.toJson v ++ slotsToJson rest vs

/-- A tagged record as members. -/
def casesToJson (tag : String) : (cases : List Case) → CasesValue cases → List (String × Json)
  | c :: _, .inl v => (tag, .string c.tag) :: slotsToJson c.slots v
  | _ :: rest, .inr v => casesToJson tag rest v

mutual

/-- A document as JSON. -/
def Shape.toJson : (s : Shape) → s.Value → Json
  | .scalar s, v => s.toJson v
  | .list item, vs => .array (vs.map item.toJson)
  | .table item, vs => .object (vs.map fun e => (e.1, item.toJson e.2))
  | .choice words, i => .string (words.get i)
  | .record _ fields, v => .object (fields.toJson v)
  | .tagged _ tag cases, v => .object (casesToJson tag cases v)

/-- The fields of a record as members. -/
def Fields.toJson : (f : Fields) → f.Value → List (String × Json)
  | .done, () => []
  | .field name p s rest, (v, vs) => p.toMember name s.toJson v ++ rest.toJson vs

end

end AndroidAudit.Document
