import AndroidAudit.FileTree.Basic

/-!
# From paths to places

A path is followed name by name, through links, as a host follows it: `FileTree.turn` takes one name
and `FileTree.walkTo` all of them. The place it leads to may be vacant in its last name only. At most
`maxLinks` links are followed on the way.
-/

namespace AndroidAudit

/-- How many links one path may lead through. -/
def maxLinks : Nat := 40

/-- How many bytes one name may have. -/
def maxNameBytes : Nat := 255

/-- How many bytes one path may have. -/
def maxPathBytes : Nat := 4095

/-- What a path is followed for. -/
inductive Aim where
  /-- What it leads to in the end. -/
  | target
  /-- What stands under its last name, be it a link. -/
  | entry
  /-- A file to be written, which a slash behind the last name rules out. -/
  | file
  deriving DecidableEq, Repr

/-- Where a path leads. -/
inductive Spot where
  | taken (place : List Name) (node : Node)
  /-- To a name that its directory does not have. -/
  | vacant (dir : List Name) (name : Name)

namespace FileTree

/-- The number of bytes of a name or a path. -/
def byteCount (symbols : List Text.Symbol) : Nat := symbols.foldr (fun s n => s.byteCount + n) 0

/-- The segments that are followed one by one. A slash at the end leaves an empty one, which asks for
a directory. -/
def route (p : Path) : List Name :=
  let named := (Path.split p.symbols).filter (· ≠ [])
  if p.symbols.getLast? == some Path.slash then named ++ [[]] else named

/-- What comes of the first segment of a search, at a place and with so many links left to follow. -/
inductive Turn where
  | stop (result : Except SysError Spot)
  | go (links : Nat) (place : List Name) (todo : List Name)

/-- Takes a name as the first segment of a search, by what its directory has under that name. -/
def enter (aim : Aim) (links : Nat) (place : List Name) (n : Name) (rest : List Name) :
    Option Node → Turn
  | none => .stop (if rest = [] then .ok (.vacant place n) else .error .notFound)
  | some (.link target) =>
    if rest = [] ∧ aim = .entry then .stop (.ok (.taken (place ++ [n]) (.link target)))
    else match links with
      | 0 => .stop (.error .tooManyLinks)
      | links + 1 =>
        if target.symbols = [] then .stop (.error .notFound)
        else .go links (if target.isAbsolute then [] else place) (route target ++ rest)
  | some _ => .go links (place ++ [n]) rest

/-- Takes the first segment of a search. -/
def turn (root : Node) (aim : Aim) (links : Nat) (place : List Name) (n : Name) (rest : List Name) :
    Turn :=
  match root.get? place with
  | some (.dir entries _) =>
    if Path.idle n then .go links place rest
    else if n = [Path.dot, Path.dot] then .go links place.dropLast rest
    else if aim = .file ∧ rest = [[]] then .stop (.error .isDirectory)
    else if maxNameBytes < byteCount n then .stop (.error .nameTooLong)
    else enter aim links place n rest (entries.lookup n)
  | some _ => .stop (.error .notDirectory)
  | none => .stop (.error .notFound)

/-- A search that goes on has one link less to follow, or the segment behind it. -/
theorem turn_shorter {root : Node} {aim : Aim} {links links' : Nat} {place place' todo rest : List Name}
    {n : Name} (h : turn root aim links place n rest = .go links' place' todo) :
    links' < links ∨ links' = links ∧ todo = rest := by
  simp only [turn, enter] at h
  repeat' split at h
  all_goals cases h
  all_goals first | exact .inr ⟨rfl, rfl⟩ | exact .inl (Nat.lt_succ_self _)

/-- Follows segments from a place. -/
def walkTo (root : Node) (aim : Aim) (links : Nat) (place : List Name) (todo : List Name) :
    Except SysError Spot :=
  match todo with
  | [] => match root.get? place with
    | some node => .ok (.taken place node)
    | none => .error .notFound
  | n :: rest => match h : turn root aim links place n rest with
    | .stop result => result
    | .go links' place' todo' =>
      have := turn_shorter h
      walkTo root aim links' place' todo'
termination_by (links, todo.length)
decreasing_by
  rcases this with hless | ⟨rfl, rfl⟩
  · exact Prod.Lex.left _ _ hless
  · exact Prod.Lex.right _ (Nat.lt_succ_self _)

/-- Where a path leads. -/
def spot (t : FileTree) (aim : Aim) (p : Path) : Except SysError Spot :=
  if p.symbols.contains (.char '\x00') then .error .nulInPath
  else if p.symbols.isEmpty then .error .notFound
  else if maxPathBytes < byteCount p.symbols then .error .nameTooLong
  else walkTo t.root aim maxLinks (if p.isAbsolute then [] else t.cwd) (route p)

/-- The node at a path. -/
def node (t : FileTree) (aim : Aim) (p : Path) : Except SysError Node :=
  match t.spot aim p with
  | .ok (.taken _ node) => .ok node
  | .ok (.vacant _ _) => .error .notFound
  | .error e => .error e

/-- Whether a path leads to a directory. -/
def isDir (t : FileTree) (p : Path) : Bool :=
  match t.node .target p with
  | .ok node => node.isDir
  | .error _ => false

/-- The path of a place. -/
def absolute (place : List Name) : Path := Path.spell (some .root) place

/-- The path of the place that a path leads to, without links and dots. -/
def canonical? (t : FileTree) (p : Path) : Option Path :=
  match t.spot .target p with
  | .ok (.taken place _) => some (absolute place)
  | _ => none

/-- The bytes of the file at a path. What is closed is not even opened. -/
def read (t : FileTree) (p : Path) : Except SysError (List UInt8) :=
  match t.node .target p with
  | .ok (.file bytes false) => .ok bytes
  | .ok (.file _ true) | .ok (.dir _ true) => .error .denied
  | .ok _ => .error .isDirectory
  | .error e => .error e

/-- The text of the file at a path. -/
def readText (t : FileTree) (p : Path) : Except SysError String :=
  match t.read p with
  | .ok bytes => match Text.decode? bytes with
    | some s => .ok s
    | none => .error .notText
  | .error e => .error e

end FileTree

end AndroidAudit
