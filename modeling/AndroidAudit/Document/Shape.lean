/-!
# Shapes of documents

A `Shape` says what a document must hold, whatever it is written in: texts, truth values and numbers of
a fixed width, lists, tables by name, words out of a list, records, and records of several kinds told
apart by a tag. `Shape.Value` is the type of what such a document holds. A field that a document may
leave out has an optional value, so that reading back what was written gives the value itself.
-/

namespace AndroidAudit.Document

/-- How many bits a number has. -/
inductive Width where
  | byte
  | half
  | word
  deriving DecidableEq, Repr

namespace Width

/-- How many numbers there are of this width. -/
def size : Width → Nat
  | byte => UInt8.size
  | half => UInt32.size
  | word => UInt64.size

/-- What a number of this width is called. -/
def text : Width → String
  | byte => "u8"
  | half => "u32"
  | word => "usize"

end Width

/-- A value that has no parts. -/
inductive Atom where
  | text
  | flag
  | number (width : Width)

namespace Atom

/-- What an atom holds. -/
@[reducible] def Value : Atom → Type
  | text => String
  | flag => Bool
  | number w => Fin w.size

/-- What an atom is called where another value was found. -/
def expected : Atom → String
  | text => "a string"
  | flag => "a boolean"
  | number w => w.text

end Atom

/-- An atom, or an atom that may be null. -/
inductive Scalar where
  | plain (atom : Atom)
  | nullable (atom : Atom)

/-- What a scalar holds. -/
@[reducible] def Scalar.Value : Scalar → Type
  | plain a => a.Value
  | nullable a => Option a.Value

/-- Whether a field may be left out. -/
inductive Presence where
  | required
  | optional
  deriving DecidableEq, Repr

/-- What a field holds, by the type of what it holds if it is there. -/
@[reducible] def Presence.Value (α : Type) : Presence → Type
  | required => α
  | optional => Option α

/-- A field of a tagged record. -/
structure Slot where
  name : String
  presence : Presence
  scalar : Scalar

/-- What the fields of a tagged record hold. -/
@[reducible] def SlotsValue : List Slot → Type
  | [] => Unit
  | s :: rest => s.presence.Value s.scalar.Value × SlotsValue rest

/-- One kind of a tagged record. -/
structure Case where
  /-- The word that the tag holds. -/
  tag : String
  /-- The name of the kind. -/
  title : String
  slots : List Slot

/-- What a tagged record holds: the fields of one of its kinds. -/
@[reducible] def CasesValue : List Case → Type
  | [] => Empty
  | c :: rest => SlotsValue c.slots ⊕ CasesValue rest

mutual

/-- What a document must hold. -/
inductive Shape where
  | scalar (s : Scalar)
  | list (item : Shape)
  | table (item : Shape)
  | choice (words : List String)
  | record (name : String) (fields : Fields)
  /-- A record of one of several kinds. The field `tag` tells which. -/
  | tagged (name tag : String) (cases : List Case)

/-- The fields of a record, in order. -/
inductive Fields where
  | done
  | field (name : String) (presence : Presence) (shape : Shape) (rest : Fields)

end

mutual

/-- What a document of a shape holds. -/
@[reducible] def Shape.Value : Shape → Type
  | .scalar s => s.Value
  | .list item => List item.Value
  | .table item => List (String × item.Value)
  | .choice words => Fin words.length
  | .record _ fields => fields.Value
  | .tagged _ _ cases => CasesValue cases

/-- What the fields of a record hold. -/
@[reducible] def Fields.Value : Fields → Type
  | .done => Unit
  | .field _ p s rest => p.Value s.Value × rest.Value

end

/-- How many fields a record has. -/
def Fields.size : Fields → Nat
  | .done => 0
  | .field _ _ _ rest => rest.size + 1

/-- A text. -/
def Shape.text : Shape := .scalar (.plain .text)

/-- A truth value. -/
def Shape.flag : Shape := .scalar (.plain .flag)

/-- A number. -/
def Shape.number (w : Width) : Shape := .scalar (.plain (.number w))

/-- A text or null. -/
def Shape.nullableText : Shape := .scalar (.nullable .text)

/-- The fields of a record from a list. -/
def Fields.ofList : List (String × Presence × Shape) → Fields
  | [] => .done
  | (name, p, s) :: rest => .field name p s (ofList rest)

/-! ## Values on the way

While a record is read some of its fields have a value and others have none yet.
-/

/-- The values of the fields read so far. -/
@[reducible] def Fields.Partial : Fields → Type
  | .done => Unit
  | .field _ _ s rest => Option s.Value × rest.Partial

/-- No field read. -/
def Fields.blank : (f : Fields) → f.Partial
  | .done => ()
  | .field _ _ _ rest => (none, rest.blank)

/-- The value of a field that has been read or not. The error is the name of one that is missing. -/
def Presence.settle {α : Type} (name : String) : (p : Presence) → Option α → Except String (p.Value α)
  | .required, some v => .ok v
  | .required, none => .error name
  | .optional, v => .ok v

/-- The value of a record all of whose fields have been read. The error is the first name that is
missing. -/
def Fields.settle : (f : Fields) → f.Partial → Except String f.Value
  | .done, () => .ok ()
  | .field name p _ rest, (v, vs) => do
    let v ← p.settle name v
    let vs ← rest.settle vs
    return (v, vs)

/-- The values of the fields of a tagged record read so far. -/
@[reducible] def SlotsPartial : List Slot → Type
  | [] => Unit
  | s :: rest => Option s.scalar.Value × SlotsPartial rest

/-- No field read. -/
def slotsBlank : (slots : List Slot) → SlotsPartial slots
  | [] => ()
  | _ :: rest => (none, slotsBlank rest)

/-- The value of a tagged record all of whose fields have been read. The error is the first name that
is missing. -/
def settleSlots : (slots : List Slot) → SlotsPartial slots → Except String (SlotsValue slots)
  | [], () => .ok ()
  | s :: rest, (v, vs) => do
    let v ← s.presence.settle s.name v
    let vs ← settleSlots rest vs
    return (v, vs)

end AndroidAudit.Document
