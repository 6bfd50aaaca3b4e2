import AndroidAudit.Yaml.Token

/-!
# YAML documents

A document is a tree of scalars, lists and mappings. A node may bear the number of an anchor, and an
alias the number of the anchor it refers to. Where the text breaks off or a rule of syntax is broken,
the tree ends in a node that is missing, and so do the lists and mappings around it.
-/

namespace AndroidAudit.Yaml

/-- What comes with a node: where it starts, the number of its anchor, and its tag. -/
structure Head where
  mark : Mark
  /-- The number of its anchor. -/
  anchor : Option Nat
  tag : Option Tag

/-- A node of a document. -/
inductive Tree where
  | scalar (head : Head) (text : List Char) (style : Style)
  /-- A list, which may be cut off. -/
  | sequence (head : Head) (items : List Tree) (whole : Bool)
  /-- A mapping, which may be cut off. -/
  | mapping (head : Head) (entries : List (Tree × Tree)) (whole : Bool)
  | reference (mark : Mark) (anchor : Nat)
  /-- The document of an empty text. -/
  | void
  /-- Where a document is cut off. -/
  | missing

namespace Tree

/-- The scalar that stands for nothing. -/
def emptyScalar (mark : Mark) : Tree := .scalar ⟨mark, none, none⟩ [] .plain

mutual

/-- The nodes with anchors, in the order of the text. -/
def anchored : Tree → List (Nat × Tree)
  | .scalar head text style => (head.anchor.map (·, .scalar head text style)).toList
  | .sequence head items whole =>
    (head.anchor.map (·, .sequence head items whole)).toList ++ anchoredItems items
  | .mapping head entries whole =>
    (head.anchor.map (·, .mapping head entries whole)).toList ++ anchoredEntries entries
  | _ => []

/-- The nodes with anchors among items. -/
def anchoredItems : List Tree → List (Nat × Tree)
  | [] => []
  | v :: rest => v.anchored ++ anchoredItems rest

/-- The nodes with anchors among entries. -/
def anchoredEntries : List (Tree × Tree) → List (Nat × Tree)
  | [] => []
  | (k, v) :: rest => k.anchored ++ v.anchored ++ anchoredEntries rest

end

mutual

/-- How many nodes a document has, the ends of lists and mappings counted too. -/
def size : Tree → Nat
  | .scalar _ _ _ | .reference _ _ | .void => 1
  | .sequence _ items whole => 1 + sizeItems items + (if whole then 1 else 0)
  | .mapping _ entries whole => 1 + sizeEntries entries + (if whole then 1 else 0)
  | .missing => 0

/-- How many nodes are among items. -/
def sizeItems : List Tree → Nat
  | [] => 0
  | v :: rest => v.size + sizeItems rest

/-- How many nodes are among entries. -/
def sizeEntries : List (Tree × Tree) → Nat
  | [] => 0
  | (k, v) :: rest => k.size + v.size + sizeEntries rest

end

end Tree

/-- Why a document is cut off. -/
inductive Defect where
  | problem (p : Problem)
  | unknownAnchor (mark : Mark)
  deriving DecidableEq, Repr

/-- A defect in words. -/
def Defect.message : Defect → String
  | .problem p => p.message
  | .unknownAnchor m => "unknown anchor" ++ m.suffix

/-- The first document of a text. -/
structure Document where
  root : Tree
  /-- Why it is cut off, if it is. -/
  defect : Option Defect
  /-- Whether something comes behind it. -/
  more : Bool

end AndroidAudit.Yaml
