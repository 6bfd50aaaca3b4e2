import AndroidAudit.Document.Buffered
import AndroidAudit.Json.Source

/-!
# Documents read from JSON

A text is taken apart into an item (`Json.Cursor.item`), and the item is read by its shape
(`Shape.readItem`). A record may also be a list of its fields in order. Members with unknown names are
passed over. What is wrong with a value is told with its place; where the place is not known before
the list or object around it ends, it is the place where that ends.
-/

namespace AndroidAudit.Document

open Json

/-- Why a text is no document of its shape. -/
inductive JsonCause where
  | malformed (e : SyntaxError)
  | misfit (m : Misfit)

/-- What is wrong with a text, and where if that is known. -/
structure JsonError where
  cause : JsonCause
  place : Option Place

namespace JsonError

/-- A fault of syntax. -/
def ofFault (f : Fault) : JsonError := ⟨.malformed f.error, some f.place⟩

/-- A value that does not fit, at a place. -/
def misfitAt (p : Place) (m : Misfit) : JsonError := ⟨.misfit m, some p⟩

/-- A value that does not fit, at a place that is not known yet. -/
def misfit (m : Misfit) : JsonError := ⟨.misfit m, none⟩

/-- Gives the error a place if it has none. -/
def settle (e : JsonError) (p : Place) : JsonError :=
  { e with place := some (e.place.getD p) }

/-- How JSON documents name values. -/
def wording : Wording := ⟨"null", .mixed⟩

/-- The error in words. -/
def message (e : JsonError) : String :=
  let text := match e.cause with
    | .malformed c => c.text
    | .misfit m => m.phrase wording
  match e.place with
  | some p => text ++ " at line " ++ toString p.line ++ " column " ++ toString p.column
  | none => text

end JsonError

/-- The place to name for a value that does not fit: behind it, or before it if it has parts. -/
def itemPlace (i : Item) : Place :=
  match i.form with
  | .array _ _ | .object _ _ => i.start.place
  | _ => i.stop.place

/-- What an item is at first sight: the parts of lists and objects are not looked at. -/
def glance (i : Item) : Except JsonError Buffered :=
  match i.form with
  | .null _ => .ok .null
  | .bool b _ => .ok (.bool b)
  | .number (.ok (.nat n)) _ => .ok (.nat n)
  | .number (.ok (.neg n)) _ => .ok (.neg n)
  | .number (.ok (.float f)) _ => .ok (.float f)
  | .text (.ok s) _ => .ok (.text (String.ofList s))
  | .array _ _ => .ok (.sequence [])
  | .object _ _ => .ok (.map [])
  | .number (.error f) _ | .text (.error f) _ | .broken f _ | .absent f => .error (.ofFault f)

/-- The error of an item that should have been something else. -/
def wrongType {α : Type} (i : Item) (expected : String) : Except JsonError α := do
  .error (.misfitAt (itemPlace i) (.invalidType (← glance i).found expected))

/-- Reads a scalar from an item. -/
def Scalar.readItem (s : Scalar) (i : Item) : Except JsonError s.Value := do
  (s.read (← glance i)).mapError (.misfitAt (itemPlace i))

/-- Reads a word that names something. -/
def readWord (i : Item) : Except JsonError String := do
  match ← glance i with
  | .text s => .ok s
  | b => .error (.misfitAt (itemPlace i) (.invalidType b.found "variant identifier"))

/-- How many lists and objects may stand inside each other. -/
def depthLimit : Nat := 128

/-- The depth inside a list or object that starts here. -/
def enter (depth : Nat) (start : Cursor) : Except JsonError Nat :=
  if depth ≤ 1 then .error (.ofFault (start.faultAhead .tooDeep)) else .ok (depth - 1)

/-- The end of a list or object that is read. -/
def readFinish : Finish → Except JsonError Cursor
  | .closed stop => .ok stop
  | .broken f _ => .error (.ofFault f)

/-! ## Values kept for later -/

mutual

/-- Keeps a value. -/
def bufferItem (depth : Nat) : Item → Except JsonError Buffered
  | .mk start form => bufferForm depth start form

/-- Keeps a value in some form. -/
def bufferForm (depth : Nat) (start : Cursor) : Form → Except JsonError Buffered
  | .array items finish => do
    let depth ← enter depth start
    let vs ← bufferItems depth items
    let _ ← readFinish finish
    return .sequence vs
  | .object members finish => do
    let depth ← enter depth start
    let vs ← bufferMembers depth members
    let _ ← readFinish finish
    return .map vs
  | form => glance (.mk start form)

/-- Keeps items. -/
def bufferItems (depth : Nat) : List Item → Except JsonError (List Buffered)
  | [] => .ok []
  | i :: rest => do
    let v ← bufferItem depth i
    let vs ← bufferItems depth rest
    return v :: vs

/-- Keeps members. -/
def bufferMembers (depth : Nat) : List Member → Except JsonError (List (Buffered × Buffered))
  | [] => .ok []
  | .mk key _ i :: rest => do
    let k ← key.mapError .ofFault
    let v ← bufferItem depth i
    let vs ← bufferMembers depth rest
    return (.text (String.ofList k), v) :: vs

end

/-! ## Lists and objects -/

/-- Gives an error of a list's item a place: where the list ends if it is ended behind the item. -/
def settleItem {α : Type} (i : Item) : Except JsonError α → Except JsonError α :=
  Except.mapError (·.settle i.stop.endList.1.place)

/-- Gives an error behind a cursor in an object a place: where the object ends if it is ended there. -/
def settleMember {α : Type} (c : Cursor) : Except JsonError α → Except JsonError α :=
  Except.mapError (·.settle c.endObject.1.place)

/-- Reads the items of a list. -/
def readItems {α : Type} (read : Item → Except JsonError α) :
    List Item → Except JsonError (List α)
  | [] => .ok []
  | i :: rest => do
    let v ← settleItem i (read i)
    let vs ← readItems read rest
    return v :: vs

/-- Reads the members of a table. -/
def readTable {α : Type} (read : Item → Except JsonError α) :
    List Member → Except JsonError (List (String × α))
  | [] => .ok []
  | .mk key _ i :: rest => do
    let k ← key.mapError .ofFault
    let v ← settleMember i.stop (read i)
    let vs ← readTable read rest
    return (String.ofList k, v) :: vs

/-- What becomes of a member of a record. -/
inductive Put (σ : Type) where
  | unknown
  /-- It names a field that has a value already. -/
  | taken
  | free (store : Item → Except JsonError σ)

/-- Reads the members of a record. -/
def readMembers {σ : Type} (put : String → σ → Put σ) : List Member → σ → Except JsonError σ
  | [], vs => .ok vs
  | .mk key keyStop i :: rest, vs => do
    let name := String.ofList (← key.mapError .ofFault)
    match put name vs with
    | .unknown =>
      i.skip.mapError .ofFault
      readMembers put rest vs
    | .taken => settleMember keyStop (.error (.misfit (.duplicateField name)))
    | .free store =>
      let vs ← settleMember i.stop (store i)
      readMembers put rest vs

/-! ## Words out of a list -/

/-- Which of some words this is. -/
def wordIndex (words : List String) (word : String) : Except Misfit (Fin words.length) :=
  match h : words.findIdx? (· == word) with
  | some i => .ok ⟨i, (List.findIdx?_eq_some_iff_findIdx_eq.mp h).1⟩
  | none => .error (.unknownWord word words)

/-- Reads a word as an item of its own. -/
def readWordIndex (words : List String) (i : Item) : Except JsonError (Fin words.length) := do
  let word ← readWord i
  (wordIndex words word).mapError (.misfitAt i.stop.place)

/-- Reads a word as the first name of an object, from behind the object's bracket. -/
def readNameIndex (words : List String) (before : Cursor) : Except JsonError (Fin words.length) :=
  let c := before.skipBlank
  match c.rest with
  | '"' :: _ => readWordIndex words c.item
  | '\x7d' :: _ => .error (.ofFault (c.faultAhead .expectedValue))
  | [] => .error (.ofFault (c.faultAhead .endInObject))
  | _ => .error (.ofFault (c.faultAhead .keyMustBeString))

/-- Reads a word: a string, or an object with the word as its only name and null as its value. -/
def readChoice (words : List String) (depth : Nat) (i : Item) :
    Except JsonError (Fin words.length) :=
  let start := i.start
  let noWord : Except JsonError (Fin words.length) :=
    .error (.ofFault (start.faultAhead .expectedValue))
  match i.form with
  | .text _ _ => readWordIndex words i
  | .object members _ => do
    let _ ← enter depth start
    let index ← readNameIndex words start.next
    match members with
    | [] => noWord
    | .mk _ _ value :: _ =>
      match ← glance value with
      | .null =>
        let c := value.stop.skipBlank
        match c.rest with
        | '\x7d' :: _ => return index
        | [] => .error (.ofFault (c.faultHere .endInObject))
        | _ => .error (.ofFault (c.faultHere .expectedValue))
      | _ => wrongType value "unit"
  | .absent f => .error (.ofFault f)
  | .broken f _ =>
    match start.rest with
    | [] | '"' :: _ => .error (.ofFault f)
    | _ => noWord
  | _ => noWord

/-! ## Tagged records -/

/-- Which kind a tag names. -/
def readTag (cases : List Case) (i : Item) : Except JsonError (Fin cases.length) := do
  let word ← readWord i
  (caseIndex cases word).mapError (.misfitAt i.stop.place)

/-- The tag among the members of an object, and the other members kept for later. -/
def readTagged (tag : String) (cases : List Case) (depth : Nat) :
    List Member → Option (Fin cases.length) →
    Except JsonError (Option (Fin cases.length) × List (Buffered × Buffered))
  | [], found => .ok (found, [])
  | .mk key keyStop i :: rest, found => do
    let name := String.ofList (← key.mapError .ofFault)
    if name = tag then
      match found with
      | some _ => settleMember keyStop (.error (.misfit (.duplicateField tag)))
      | none => readTagged tag cases depth rest (some (← readTag cases i))
    else
      let v ← bufferItem depth i
      let (found, vs) ← readTagged tag cases depth rest found
      return (found, (.text name, v) :: vs)

/-- Reads a tagged record: an object, or a list with the tag first and then the fields in order. -/
def readCases (name tag : String) (cases : List Case) (depth : Nat) (i : Item) :
    Except JsonError (CasesValue cases) := do
  match i.form with
  | .object members finish =>
    let depth ← enter depth i.start
    let (found, vs) ← readTagged tag cases depth members none
    let stop ← readFinish finish
    match found with
    | none => .error (.misfitAt stop.place (.missingField tag))
    | some index => (readCase name cases index (.map vs)).mapError .misfit
  | .array items finish =>
    let depth ← enter depth i.start
    match items with
    | [] =>
      let stop ← readFinish finish
      .error (.misfitAt stop.place (.missingField tag))
    | first :: rest =>
      let index ← readTag cases first
      let vs ← bufferItems depth rest
      let _ ← readFinish finish
      (readCase name cases index (.sequence vs)).mapError .misfit
  | _ => wrongType i ("internally tagged enum " ++ name)

/-! ## Documents -/

mutual

/-- Reads an item by its shape, with so much depth left. -/
def Shape.readItem : (s : Shape) → Nat → Item → Except JsonError s.Value
  | .scalar s, _, i => s.readItem i
  | .list item, depth, i =>
    match i.form with
    | .array items finish => do
      let depth ← enter depth i.start
      let vs ← readItems (item.readItem depth) items
      let _ ← readFinish finish
      return vs
    | _ => wrongType i "a sequence"
  | .table item, depth, i =>
    match i.form with
    | .object members finish => do
      let depth ← enter depth i.start
      let vs ← readTable (item.readItem depth) members
      let _ ← readFinish finish
      return vs
    | _ => wrongType i "a map"
  | .choice words, depth, i => readChoice words depth i
  | .record name fields, depth, i =>
    match i.form with
    | .object members finish => do
      let depth ← enter depth i.start
      let vs ← readMembers (fields.put depth) members fields.blank
      let stop ← readFinish finish
      (fields.settle vs).mapError fun missing => .misfitAt stop.place (.missingField missing)
    | .array items finish => do
      let depth ← enter depth i.start
      let expected :=
        "struct " ++ name ++ " with " ++ counted fields.size "element" "elements"
      fields.readPositions depth expected 0 items finish i.start.next
    | _ => wrongType i ("struct " ++ name)
  | .tagged name tag cases, depth, i => readCases name tag cases depth i

/-- What becomes of a member of a record with these fields. -/
def Fields.put : (f : Fields) → Nat → String → f.Partial → Put f.Partial
  | .done, _, _, _ => .unknown
  | .field name _ s rest, depth, key, (v, vs) =>
    if key = name then
      match v with
      | some _ => .taken
      | none => .free fun i => do return (some (← s.readItem depth i), vs)
    else match rest.put depth key vs with
      | .unknown => .unknown
      | .taken => .taken
      | .free store => .free fun i => do return (v, ← store i)

/-- Reads the fields of a record from the items of a list. The cursor is where the last item read
stops. -/
def Fields.readPositions : (f : Fields) → Nat → String → Nat → List Item → Finish → Cursor →
    Except JsonError f.Value
  | .done, _, _, _, _, _, c =>
    match c.endList.2 with
    | none => .ok ()
    | some f => .error (.ofFault f)
  | .field name p s rest, depth, expected, n, i :: items, finish, _ => do
    let v ← settleItem i (s.readItem depth i)
    let v : p.Value s.Value ← (p.settle name (some v)).mapError fun missing =>
      .misfit (.missingField missing)
    let vs ← rest.readPositions depth expected (n + 1) items finish i.stop
    return (v, vs)
  | .field name p s rest, depth, expected, n, [], finish, c => do
    let stop ← readFinish finish
    let v : p.Value s.Value ← (p.settle name (none : Option s.Value)).mapError fun _ =>
      .misfitAt stop.place (.invalidLength n expected)
    let vs ← rest.readPositions depth expected (n + 1) [] finish c
    return (v, vs)

end

/-- Reads a text by its shape. -/
def Shape.readJson (s : Shape) (text : List Char) : Except JsonError s.Value := do
  let item := (Cursor.ofText text).item
  let v ← s.readItem depthLimit item
  let rest := item.stop.skipBlank
  match rest.rest with
  | [] => return v
  | _ => .error (.ofFault (rest.faultAhead .trailingCharacters))

end AndroidAudit.Document
