import AndroidAudit.Text.Utf8

/-!
# Paths

A path is the text by which a file is named: names between slashes. Its spelling is kept, since
messages show it, and two spellings of one path have the same `components`: empty names and single
dots are left out, but for a dot at the very start, and two dots are kept.
-/

namespace AndroidAudit

open Text (Symbol)

/-- What stands between two slashes. -/
abbrev Name := List Symbol

/-- A path as it is spelled. -/
structure Path where
  symbols : List Symbol
  deriving DecidableEq, Repr

/-- One step of a path. -/
inductive Component where
  /-- The slash at the start of an absolute path. -/
  | root
  /-- The dot at the start of a relative path. -/
  | here
  | up
  | name (n : Name)
  deriving DecidableEq, Repr

/-- The symbols of a text. -/
def Name.ofString (s : String) : Name := s.toList.map .char

/-- A name as text, the replacement character for each stray part. -/
def Name.text (n : Name) : String := String.ofList (n.map Symbol.shown)

/-- A name as text, if it has no stray part. -/
def Name.text? (n : Name) : Option String := (n.mapM Symbol.char?).map String.ofList

namespace Path

/-- The slash. -/
def slash : Symbol := .char '/'

/-- The full stop. -/
def dot : Symbol := .char '.'

/-- The path spelled by a text. -/
def ofString (s : String) : Path := ⟨Name.ofString s⟩

/-- The path spelled by bytes. -/
def ofBytes (bytes : List UInt8) : Path := ⟨Text.symbols bytes⟩

/-- A path as text, the replacement character for each stray part. -/
def text (p : Path) : String := Name.text p.symbols

/-- The path without any symbol. -/
def empty : Path := ⟨[]⟩

/-- Whether a path starts at the root. -/
def isAbsolute (p : Path) : Bool := p.symbols.head? == some slash

/-! ## Segments -/

/-- The names between slashes, as spelled: empty ones and dots included. -/
def split : List Symbol → List Name
  | [] => [[]]
  | s :: rest =>
    if s = slash then [] :: split rest
    else match split rest with
      | [] => [[s]]
      | n :: ns => (s :: n) :: ns

/-- Names with slashes between them. -/
def joinNames : List Name → List Symbol
  | [] => []
  | [n] => n
  | n :: ns => n ++ slash :: joinNames ns

/-- Whether a segment says nothing: it is empty or a dot. -/
def idle (n : Name) : Bool := n == [] || n == [dot]

/-- Segments without the idle ones at the end. -/
def trimEnd (ns : List Name) : List Name := (ns.reverse.dropWhile idle).reverse

/-- Segments without the idle ones at the start. -/
def trimStart (ns : List Name) : List Name := ns.dropWhile idle

/-- How a path begins, with the segments that follow. -/
def begin (p : Path) : Option Component × List Name :=
  match split p.symbols with
  | [] => (none, [])
  | n :: ns =>
    if p.isAbsolute then (some .root, ns)
    else if n == [dot] then (some .here, ns)
    else (none, n :: ns)

/-- The step that a segment after the beginning makes. -/
def step? (n : Name) : Option Component :=
  if idle n then none else if n == [dot, dot] then some .up else some (.name n)

/-- The steps of a path. -/
def components (p : Path) : List Component :=
  let (first, rest) := p.begin
  first.toList ++ rest.filterMap step?

/-- Whether two paths take the same steps. -/
def same (p q : Path) : Bool := p.components == q.components

/-- A beginning and segments, spelled again. -/
def spell (first : Option Component) (rest : List Name) : Path :=
  match first, rest with
  | some .root, ns => ⟨slash :: joinNames ns⟩
  | some .here, [] => ⟨[dot]⟩
  | some .here, ns => ⟨dot :: slash :: joinNames ns⟩
  | _, ns => ⟨joinNames ns⟩

/-! ## Operations -/

/-- One path after another. An absolute path stands by itself. -/
def join (p q : Path) : Path :=
  if q.isAbsolute then q
  else if p.symbols = [] || p.symbols.getLast? == some slash then ⟨p.symbols ++ q.symbols⟩
  else ⟨p.symbols ++ slash :: q.symbols⟩

/-- A name in the directory that a path names. -/
def child (p : Path) (n : Name) : Path := p.join ⟨n⟩

/-- The last step, if it is a name. -/
def fileName? (p : Path) : Option Name :=
  match p.components.getLast? with
  | some (.name n) => some n
  | _ => none

/-- What follows the last full stop of the file name. A full stop at its start is no division. -/
def extension? (p : Path) : Option Name :=
  p.fileName?.bind fun n =>
    let after := (n.reverse.takeWhile (· ≠ dot)).reverse
    let before := n.take (n.length - after.length - 1)
    if n.contains dot && before ≠ [] then some after else none

/-- The path without its last step. -/
def parent? (p : Path) : Option Path :=
  let (first, rest) := p.begin
  match (trimEnd rest).reverse with
  | _ :: before => some (spell first (trimEnd before.reverse))
  | [] => if first == some .here then some empty else none

/-- The paths from a path upwards, itself first. -/
def ancestors (p : Path) : List Path :=
  go p.symbols.length p
where
  /-- At most as many steps upwards as the spelling has symbols. -/
  go : Nat → Path → List Path
    | 0, q => [q]
    | n + 1, q => match q.parent? with
      | none => [q]
      | some r => q :: go n r

/-- The segments left after the given steps. -/
def dropSteps : List Component → List Name → Option (List Name)
  | [], ns => some ns
  | c :: cs, ns => match trimStart ns with
    | n :: rest => if step? n == some c then dropSteps cs rest else none
    | [] => none

/-- What a path says after the steps of another. -/
def stripBase? (p base : Path) : Option Path :=
  let (first, rest) := p.begin
  match base.components with
  | [] => some (spell first (trimEnd rest))
  | c :: cs =>
    let left := match first with
      | some f => if f == c then dropSteps cs rest else none
      | none => dropSteps (c :: cs) rest
    left.map fun ns => spell none (trimEnd (trimStart ns))

end Path

end AndroidAudit
