import AndroidAudit.Document.Codec
import AndroidAudit.Yaml.Parse
import AndroidAudit.Yaml.Sense

/-!
# Documents read from YAML

A text is taken apart into a document (`Yaml.Document.ofText`), and the document is read by its shape
(`Shape.readTree`). A text takes any scalar as it is written, while the fields of a tagged record are
taken for what they look like. An empty scalar stands for an empty list or record. What is wrong with
a value is told with the names that lead to it and the mark where it starts.
-/

namespace AndroidAudit.Document

open Yaml

/-- Why a text is no document of its shape. -/
inductive YamlError where
  | malformed (d : Defect)
  /-- It holds something else, at a mark and under some names if these are known. -/
  | misfit (m : Misfit) (spot : Option (Mark × String))
  | endOfText
  | tooDeep (mark : Mark)
  | tooManyAliases
  | moreDocuments

namespace YamlError

/-- How YAML documents name values. -/
def wording : Wording := ⟨"unit value", .full⟩

/-- The error in words. -/
def message : YamlError → String
  | malformed d => d.message
  | misfit m none => m.phrase wording
  | misfit m (some (mark, names)) =>
    (if names == "." then "" else names ++ ": ") ++ m.phrase wording ++ mark.suffix
  | endOfText => "EOF while parsing a value"
  | tooDeep mark => "recursion limit exceeded" ++ mark.suffix
  | tooManyAliases => "repetition limit exceeded"
  | moreDocuments => "deserializing from YAML containing more than one document is not supported"

/-- Gives the error a mark and names if it has none. -/
def settle (mark : Mark) (names : String) : YamlError → YamlError
  | misfit m none => .misfit m (some (mark, names))
  | e => e

end YamlError

/-- The names that lead to the whole document. -/
def rootNames : String := "."

/-- The names that lead to an item of a list. -/
def itemNames (names : String) (i : Nat) : String := names ++ "[" ++ toString i ++ "]"

/-- The names that lead to the value of a key. -/
def entryNames (names : String) (key : Tree) : String :=
  let base := if names == rootNames then "" else names ++ "."
  match key with
  | .scalar _ text _ => base ++ String.ofList text
  | _ => base ++ "?"

/-- What is known of a document while it is read. -/
structure YamlContext where
  anchored : List (Nat × Tree)
  /-- How many aliases may be followed. -/
  limit : Nat
  /-- Why the document is cut off, if it is. -/
  defect : Option Defect

/-- Reading counts the aliases that were followed. -/
abbrev YamlRead := StateT Nat (Except YamlError)

/-- Gives an error a mark and names if it has none. -/
def settleAt {α : Type} (mark : Mark) (names : String) (r : YamlRead α) : YamlRead α :=
  fun n => (r n).mapError (·.settle mark names)

/-- A value that does not fit, at a mark that is not known yet. -/
def misfit {α : Type} (m : Misfit) : YamlRead α := throw (.misfit m none)

/-- What fits, or why it does not. -/
def fit {α : Type} (r : Except Misfit α) : YamlRead α :=
  match r with
  | .ok v => pure v
  | .error m => misfit m

namespace YamlContext

/-- The error where a document is cut off. -/
def cutOff {α : Type} (c : YamlContext) : YamlRead α :=
  throw (match c.defect with
    | some d => .malformed d
    | none => .endOfText)

/-- The last node with an anchor of this number. -/
def node (c : YamlContext) (id : Nat) : Tree :=
  ((c.anchored.reverse).lookup id).getD .missing

/-- A value, with an alias followed to the node it refers to. -/
def follow (c : YamlContext) : Tree → YamlRead Tree
  | .reference _ id => do
    let n := (← get) + 1
    set n
    if c.limit < n then throw .tooManyAliases else return c.node id
  | v => return v

end YamlContext

/-- The depth inside a list or mapping that starts at a mark. -/
def descend (depth : Nat) (mark : Mark) : YamlRead Nat :=
  match depth with
  | 0 => throw (.tooDeep mark)
  | d + 1 => return d

/-- What a scalar stands for. -/
def scalarSense (head : Head) (text : List Char) (style : Style) : Except Misfit Sense :=
  (sense head.tag style text).mapError fun what =>
    .invalidValue (.text (String.ofList text)) what

/-- What to call a scalar where another value was expected. -/
def senseFound : Sense → Found
  | .null => .null
  | .bool b => .bool b
  | .nat n => .integer n
  | .neg n => .integer (-n)
  | .wide n => .wide n
  | .float f => .float f
  | .text s => .text (String.ofList s)

/-- The error of a value that should have been something else. -/
def wrongKind {α : Type} (c : YamlContext) (v : Tree) (expected : String) : YamlRead α :=
  match v with
  | .scalar head text style =>
    fit (do .error (.invalidType (senseFound (← scalarSense head text style)) expected))
  | .sequence _ _ _ => misfit (.invalidType .sequence expected)
  | .mapping _ _ _ => misfit (.invalidType .map expected)
  | .void => throw .endOfText
  | .reference _ _ | .missing => c.cutOff

/-- Where a value starts. -/
def treeMark : Tree → Mark
  | .scalar head _ _ | .sequence head _ _ | .mapping head _ _ => head.mark
  | .reference mark _ => mark
  | .void | .missing => .start

/-- Whether a value stands for an empty list or record. -/
def isEmptyTree : Tree → Bool
  | .void => true
  | .scalar _ text style => text.isEmpty && style == .plain
  | _ => false

/-! ## Scalars -/

/-- Whether a scalar may be a number or a truth value, by how it is written: without quotes, or as a
literal block under the tag for it. -/
def isBare (kind : String) (head : Head) (style : Style) : Bool :=
  style == .plain || (style == .literal && head.tag == some (Tag.core kind))

/-- Reads an atom. -/
def Atom.readTree (c : YamlContext) (names : String) (a : Atom) (v : Tree) : YamlRead a.Value := do
  let v ← c.follow v
  settleAt (treeMark v) names <| match a, v with
    | .text, .scalar _ cs _ => return String.ofList cs
    | .flag, .scalar head cs style =>
      match if isBare "bool" head style then boolWord? cs else none with
      | some b => return b
      | none => wrongKind c v Atom.flag.expected
    | .number w, .scalar head cs style =>
      match if isBare "int" head style then natural? cs else none with
      | some n => if n < UInt64.size then fit (w.readNat n) else wrongKind c v w.text
      | none => wrongKind c v w.text
    | a, v => wrongKind c v a.expected

/-- Whether a value stands for nothing. -/
def readIsNull (c : YamlContext) : Tree → YamlRead Bool
  | .void => return true
  | .missing => c.cutOff
  | .scalar head text style =>
    if style != .plain then return false
    else match head.tag with
      | some t =>
        if t = Tag.core "null" then
          if isNullWord text then return true
          else misfit (.invalidValue (.text (String.ofList text)) "null")
        else return false
      | none => return text.isEmpty || isNullWord text
  | _ => return false

/-- Reads a scalar. -/
def Scalar.readTree (c : YamlContext) (names : String) : (s : Scalar) → Tree → YamlRead s.Value
  | .plain a, v => a.readTree c names v
  | .nullable a, v => do
    let v ← c.follow v
    if ← readIsNull c v then return none else return some (← a.readTree c names v)

/-- Reads a word that names something. -/
def readName (c : YamlContext) (names expected : String) (v : Tree) : YamlRead String := do
  let v ← c.follow v
  settleAt (treeMark v) names <| match v with
    | .scalar _ text _ => return String.ofList text
    | v => wrongKind c v expected

/-! ## Passing over values -/

/-- Whether a value is there in full. -/
def isWhole : Tree → Bool
  | .scalar _ _ _ | .reference _ _ | .void => true
  | .sequence _ _ whole | .mapping _ _ whole => whole
  | .missing => false

/-- Passes over a value. -/
def passOver (c : YamlContext) (v : Tree) : YamlRead Unit :=
  if isWhole v then return () else c.cutOff

/-- The end of a list or mapping. -/
def readEnd (c : YamlContext) (whole : Bool) : YamlRead Unit :=
  if whole then return () else c.cutOff

/-! ## Values kept for later -/

/-- Whether a tag names a kind of value that only a shape could know. -/
def isLocalTag (tag : Option Tag) : Bool := tag.any Tag.isLocal

/-- Keeps a value, with so much depth left. -/
def bufferTree (c : YamlContext) (expected : String) :
    Nat → (names : String) → Tree → YamlRead Buffered
  | depth, names, v => do
    let v ← c.follow v
    settleAt (treeMark v) names <| match v with
      | .scalar head text style =>
        if isLocalTag head.tag then misfit .strayTag
        else do
          match ← fit (scalarSense head text style) with
          | .null => return .null
          | .bool b => return .bool b
          | .nat n => return .nat n
          | .neg n => return .neg n
          | .wide n => misfit (.invalidType (.wide n) expected)
          | .float f => return .float f
          | .text s => return .text (String.ofList s)
      | .sequence head items whole =>
        if isLocalTag head.tag then misfit .strayTag
        else match depth with
          | 0 => throw (.tooDeep head.mark)
          | d + 1 => do
            let vs ← items.zipIdx.mapM fun (item, i) =>
              bufferTree c "any value" d (itemNames names i) item
            readEnd c whole
            return .sequence vs
      | .mapping head entries whole =>
        if isLocalTag head.tag then misfit .strayTag
        else match depth with
          | 0 => throw (.tooDeep head.mark)
          | d + 1 => do
            let vs ← entries.mapM fun (key, value) => do
              let k ← bufferTree c "any value" d names key
              let v ← bufferTree c "any value" d (entryNames names key) value
              return (k, v)
            readEnd c whole
            return .map vs
      | .void => return .null
      | .reference _ _ | .missing => c.cutOff

/-! ## Tagged records -/

/-- Which kind a tag names. -/
def readTagTree (c : YamlContext) (names : String) (cases : List Case) (v : Tree) :
    YamlRead (Fin cases.length) := do
  let v ← c.follow v
  settleAt (treeMark v) names <| match v with
    | .scalar _ text _ => fit (caseIndex cases (String.ofList text))
    | v => wrongKind c v "variant identifier"

/-- The tag among the entries of a mapping, and the other entries kept for later. -/
def readTaggedEntries (c : YamlContext) (names tag : String) (cases : List Case) (depth : Nat) :
    List (Tree × Tree) → Option (Fin cases.length) →
    YamlRead (Option (Fin cases.length) × List (Buffered × Buffered))
  | [], found => return (found, [])
  | (key, value) :: rest, found => do
    let expected := "a type tag " ++ ticked tag ++ " or any other value"
    let isTag : Buffered → Bool
      | .text s => s == tag
      | _ => false
    let k ← bufferTree c expected depth names key
    if isTag k then
      match found with
      | some _ => misfit (.duplicateField tag)
      | none =>
        let index ← readTagTree c (entryNames names key) cases value
        readTaggedEntries c names tag cases depth rest (some index)
    else
      let v ← bufferTree c "any value" depth (entryNames names key) value
      let (found, vs) ← readTaggedEntries c names tag cases depth rest found
      return (found, (k, v) :: vs)

/-- The kind of a tagged record, and its fields kept for later. -/
def readTaggedTree (c : YamlContext) (names name tag : String) (cases : List Case) (depth : Nat)
    (v : Tree) : YamlRead (Fin cases.length × Buffered) :=
  let expected := "internally tagged enum " ++ name
  match v with
  | .mapping head entries whole =>
    if isLocalTag head.tag then misfit (.invalidType .tagged expected)
    else do
      let depth ← descend depth head.mark
      let (found, vs) ← readTaggedEntries c names tag cases depth entries none
      readEnd c whole
      match found with
      | some index => return (index, .map vs)
      | none => misfit (.missingField tag)
  | .sequence head items whole =>
    if isLocalTag head.tag then misfit (.invalidType .tagged expected)
    else do
      let depth ← descend depth head.mark
      match items with
      | [] =>
        readEnd c whole
        misfit (.missingField tag)
      | first :: rest =>
        let index ← readTagTree c (itemNames names 0) cases first
        let vs ← rest.zipIdx.mapM fun (item, i) =>
          bufferTree c "any value" depth (itemNames names (i + 1)) item
        readEnd c whole
        return (index, .sequence vs)
  | .scalar head _ _ =>
    if isLocalTag head.tag then misfit (.invalidType .tagged expected)
    else wrongKind c v expected
  | v => wrongKind c v expected

/-- Reads a tagged record: a mapping, or a list with the tag first and then the fields in order. The
mark of a field that does not fit is not known. -/
def readCasesTree (c : YamlContext) (names name tag : String) (cases : List Case) (depth : Nat)
    (v : Tree) : YamlRead (CasesValue cases) := do
  let v ← c.follow v
  let (index, b) ← settleAt (treeMark v) names (readTaggedTree c names name tag cases depth v)
  fit (readCase name cases index b)

/-! ## Documents -/

/-- What becomes of an entry of a record. -/
inductive Store (σ : Type) where
  | unknown
  /-- It names a field that has a value already. -/
  | taken
  | free (store : String → Tree → YamlRead σ)

/-- Reads the entries of a record. -/
def readRecordEntries {σ : Type} (c : YamlContext) (names : String) (put : String → σ → Store σ) :
    List (Tree × Tree) → σ → YamlRead σ
  | [], vs => return vs
  | (key, value) :: rest, vs => do
    let name ← readName c names "field identifier" key
    match put name vs with
    | .unknown =>
      passOver c value
      readRecordEntries c names put rest vs
    | .taken => misfit (.duplicateField name)
    | .free store =>
      let vs ← store (entryNames names key) value
      readRecordEntries c names put rest vs

mutual

/-- Reads a value by its shape, with so much depth left. -/
def Shape.readTree (c : YamlContext) : (s : Shape) → Nat → String → Tree → YamlRead s.Value
  | .scalar s, _, names, v => s.readTree c names v
  | .list item, depth, names, v => do
    let v ← c.follow v
    settleAt (treeMark v) names <| match v with
      | .sequence head items whole => do
        let depth ← descend depth head.mark
        let vs ← items.zipIdx.mapM fun (v, i) => item.readTree c depth (itemNames names i) v
        readEnd c whole
        return vs
      | v => if isEmptyTree v then return [] else wrongKind c v "a sequence"
  | .table item, depth, names, v => do
    let v ← c.follow v
    settleAt (treeMark v) names <| match v with
      | .mapping head entries whole => do
        let depth ← descend depth head.mark
        let vs ← entries.mapM fun (key, value) => do
          let k ← readName c names "a string" key
          return (k, ← item.readTree c depth (entryNames names key) value)
        readEnd c whole
        return vs
      | v => if isEmptyTree v then return [] else wrongKind c v "a map"
  | .choice words, _, names, v => do
    let v ← c.follow v
    settleAt (treeMark v) names <| match v with
      | .scalar _ text _ => fit (wordIndex words (String.ofList text))
      | v => wrongKind c v "variant identifier"
  | .record name fields, depth, names, v => do
    let v ← c.follow v
    settleAt (treeMark v) names <| match v with
      | .mapping head entries whole => do
        let depth ← descend depth head.mark
        let vs ← readRecordEntries c names (fields.putTree c depth) entries fields.blank
        readEnd c whole
        fit ((fields.settle vs).mapError .missingField)
      | v =>
        if isEmptyTree v then fit ((fields.settle fields.blank).mapError .missingField)
        else wrongKind c v ("struct " ++ name)
  | .tagged name tag cases, depth, names, v => readCasesTree c names name tag cases depth v

/-- What becomes of an entry of a record with these fields. -/
def Fields.putTree (c : YamlContext) :
    (f : Fields) → Nat → String → f.Partial → Store f.Partial
  | .done, _, _, _ => .unknown
  | .field name _ s rest, depth, key, (v, vs) =>
    if key = name then
      match v with
      | some _ => .taken
      | none => .free fun names value => do return (some (← s.readTree c depth names value), vs)
    else match rest.putTree c depth key vs with
      | .unknown => .unknown
      | .taken => .taken
      | .free store => .free fun names value => do return (v, ← store names value)

end

/-- Reads a text by its shape. What is wrong with the text is told only if what comes before it fits,
and a second document only if the first is in order. -/
def Shape.readYaml (s : Shape) (text : List Char) : Except YamlError s.Value := do
  let d := Yaml.Document.ofText text
  let context : YamlContext := ⟨d.root.anchored, 100 * d.root.size, d.defect⟩
  let (v, _) ← (s.readTree context depthLimit rootNames d.root).run 0
  match d.defect with
  | some defect => .error (.malformed defect)
  | none => if d.more then .error .moreDocuments else return v

/-- The value that a YAML text stands for. -/
def Codec.readYaml {α : Type} (c : Codec α) (text : String) : Except YamlError α :=
  (c.shape.readYaml text.toList).map c.ofValue

end AndroidAudit.Document
