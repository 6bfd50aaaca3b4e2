import AndroidAudit.Document.Shape
import AndroidAudit.Document.Misfit

/-!
# Values kept for later

The fields of a tagged record cannot be given their shapes before its tag is known, so they are kept
as they were found. The same values serve to say what an atom is read from.
-/

namespace AndroidAudit.Document

/-- A value as it was found. -/
inductive Buffered where
  | null
  | bool (b : Bool)
  | nat (n : Nat)
  /-- The integer `-n`. -/
  | neg (n : Nat)
  | float (f : Float)
  | text (s : String)
  | sequence (items : List Buffered)
  | map (entries : List (Buffered × Buffered))

/-- What to call the value where another was expected. -/
def Buffered.found : Buffered → Found
  | null => .null
  | bool b => .bool b
  | nat n => .integer n
  | neg n => .integer (-n)
  | float f => .float f
  | text s => .text s
  | sequence _ => .sequence
  | map _ => .map

/-- Reads a number of some width. -/
def Width.readNat (w : Width) (n : Nat) : Except Misfit (Fin w.size) :=
  if h : n < w.size then .ok ⟨n, h⟩ else .error (.invalidValue (.integer n) w.text)

/-- Reads an atom. -/
def Atom.read : (a : Atom) → Buffered → Except Misfit a.Value
  | .text, .text s => .ok s
  | .flag, .bool b => .ok b
  | .number w, .nat n => w.readNat n
  | .number w, .neg n =>
    if n = 0 then w.readNat 0 else .error (.invalidValue (.integer (-n)) w.text)
  | a, b => .error (.invalidType b.found a.expected)

/-- Reads a scalar. -/
def Scalar.read : (s : Scalar) → Buffered → Except Misfit s.Value
  | .plain a, b => a.read b
  | .nullable _, .null => .ok none
  | .nullable a, b => (a.read b).map some

/-! ## Fields of tagged records -/

/-- The name of a field, or its number. Nothing if there is no such field. -/
def slotIndex? (slots : List Slot) : Buffered → Except Misfit (Option Nat)
  | .text s => .ok (slots.findIdx? (·.name == s))
  | .nat n => .ok (if n < slots.length then some n else none)
  | b => .error (.invalidType b.found "field identifier")

/-- Reads the value of one field. -/
def putSlot : (slots : List Slot) → Nat → Buffered → SlotsPartial slots →
    Except Misfit (SlotsPartial slots)
  | [], _, _, vs => .ok vs
  | s :: _, 0, b, (v, vs) =>
    match v with
    | some _ => .error (.duplicateField s.name)
    | none => do return (some (← s.scalar.read b), vs)
  | _ :: rest, i + 1, b, (v, vs) => do return (v, ← putSlot rest i b vs)

/-- Reads fields by name. -/
def readEntries (slots : List Slot) :
    List (Buffered × Buffered) → SlotsPartial slots → Except Misfit (SlotsPartial slots)
  | [], vs => .ok vs
  | (k, b) :: rest, vs => do
    match ← slotIndex? slots k with
    | none => readEntries slots rest vs
    | some i => readEntries slots rest (← putSlot slots i b vs)

/-- Reads fields by position. The error of a field that is missing says how many there should be. -/
def readPositions (expected : String) : (slots : List Slot) → Nat → List Buffered →
    Except Misfit (SlotsValue slots × Nat)
  | [], _, rest => .ok ((), rest.length)
  | s :: slots, i, items => do
    let v ← match items with
      | [] => pure none
      | b :: _ => some <$> s.scalar.read b
    let v : s.presence.Value s.scalar.Value ← match s.presence.settle s.name v with
      | .ok v => .ok v
      | .error _ => .error (.invalidLength i expected)
    let (vs, extra) ← readPositions expected slots (i + 1) (items.drop 1)
    return ((v, vs), extra)

/-- Reads the fields of one kind of a tagged record called `name`. A kind without fields takes any
names, though no items. -/
def Case.read (name : String) (c : Case) : Buffered → Except Misfit (SlotsValue c.slots)
  | .map entries =>
    if c.slots.isEmpty then (settleSlots c.slots (slotsBlank c.slots)).mapError .missingField
    else do
      let vs ← readEntries c.slots entries (slotsBlank c.slots)
      (settleSlots c.slots vs).mapError .missingField
  | .sequence items => do
    let n := c.slots.length
    let expected :=
      "struct variant " ++ name ++ "::" ++ c.title ++ " with " ++ counted n "element" "elements"
    let (vs, extra) ← readPositions expected c.slots 0 items
    if extra = 0 then return vs
    else .error (.invalidLength (n + extra)
      (counted n "element in sequence" "elements in sequence"))
  | b => .error (.invalidType b.found (if c.slots.isEmpty then "unit" else "struct variant"))

/-- Which kind a tag names. -/
def caseIndex (cases : List Case) (word : String) : Except Misfit (Fin cases.length) :=
  match h : cases.findIdx? (·.tag == word) with
  | some i => .ok ⟨i, (List.findIdx?_eq_some_iff_findIdx_eq.mp h).1⟩
  | none => .error (.unknownWord word (cases.map (·.tag)))

/-- Reads the fields of the kind with a number. -/
def readCase (name : String) : (cases : List Case) → Fin cases.length → Buffered →
    Except Misfit (CasesValue cases)
  | c :: _, ⟨0, _⟩, b => do return .inl (← c.read name b)
  | _ :: rest, ⟨i + 1, h⟩, b => do
    return .inr (← readCase name rest ⟨i, Nat.lt_of_succ_lt_succ h⟩ b)

end AndroidAudit.Document
