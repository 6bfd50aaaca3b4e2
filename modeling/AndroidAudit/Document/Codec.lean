import AndroidAudit.Document.JsonReading
import AndroidAudit.Document.JsonWriting
import AndroidAudit.Names.Sorted

/-!
# Codecs

A codec gives a type the shape of its documents and takes its values to those of the shape and back.
Going there and back changes nothing.
-/

namespace AndroidAudit.Document

/-- How values of a type are kept in documents. -/
structure Codec (α : Type) where
  shape : Shape
  toValue : α → shape.Value
  ofValue : shape.Value → α
  ofValue_toValue : ∀ a, ofValue (toValue a) = a

namespace Codec

variable {α : Type}

/-- A value as JSON. -/
def toJson (c : Codec α) (a : α) : Json := c.shape.toJson (c.toValue a)

/-- A value as JSON text in one line. -/
def compact (c : Codec α) (a : α) : String := (c.toJson a).compactText

/-- A value as JSON text over several lines. -/
def pretty (c : Codec α) (a : α) : String := (c.toJson a).prettyText

/-- The value that a JSON text stands for. -/
def readJson (c : Codec α) (text : String) : Except JsonError α :=
  (c.shape.readJson text.toList).map c.ofValue

/-- Bytes. -/
def byte : Codec UInt8 := ⟨.number .byte, UInt8.toFin, UInt8.ofFin, fun _ => rfl⟩

/-- Lists. -/
def list (c : Codec α) : Codec (List α) where
  shape := .list c.shape
  toValue as := as.map c.toValue
  ofValue vs := List.map c.ofValue vs
  ofValue_toValue as := by
    induction as with
    | nil => rfl
    | cons a as ih => simpa [c.ofValue_toValue] using ih

/-- Sets of names, as lists of them. -/
def names : Codec NameSet where
  shape := .list .text
  toValue s := s.names
  ofValue vs := NameSet.ofList vs
  ofValue_toValue := NameSet.ofList_names

/-- Tables by name. -/
def table (c : Codec α) : Codec (NameMap α) where
  shape := .table c.shape
  toValue m := m.entries.map fun e => (e.1, c.toValue e.2)
  ofValue vs := NameMap.ofList (List.map (fun e => (e.1, c.ofValue e.2)) vs)
  ofValue_toValue m := by
    have h : (m.entries.map fun e => (e.1, c.toValue e.2)).map (fun e => (e.1, c.ofValue e.2))
        = m.entries := by
      simp [c.ofValue_toValue, Function.comp_def]
    rw [h]
    exact NameMap.ofList_entries m

end Codec

end AndroidAudit.Document
