import AndroidAudit.Path.Basic

/-!
# File trees

A tree of directories, files and symbolic links. A place in it is the list of names that leads to it
from the root, and no link is followed on the way (`Node.get?`). A host may refuse to read a file or to
list a directory: such a node is closed. Paths lead through a closed directory as through any other,
and a closed file can be written. What a host says when an operation fails is a `SysError`.
-/

namespace AndroidAudit

/-- What stands at a place in a tree. -/
inductive Node where
  /-- A file, whose bytes can be read unless it is closed. -/
  | file (bytes : List UInt8) (closed : Bool)
  | link (target : Path)
  /-- A directory, whose entries can be listed unless it is closed. -/
  | dir (entries : List (Name × Node)) (closed : Bool)

/-- Why an operation on a tree fails. -/
inductive SysError where
  | notFound
  /-- A closed file is read, or a closed directory listed. -/
  | denied
  | exists
  /-- A step of the path leads through something that is no directory. -/
  | notDirectory
  /-- A directory stands where a file is wanted. -/
  | isDirectory
  | nameTooLong
  | tooManyLinks
  | nulInPath
  /-- A file read as text is not UTF-8. -/
  | notText
  deriving DecidableEq, Repr

/-- The host's words for a failure. -/
def SysError.message : SysError → String
  | .notFound => "No such file or directory (os error 2)"
  | .denied => "Permission denied (os error 13)"
  | .exists => "File exists (os error 17)"
  | .notDirectory => "Not a directory (os error 20)"
  | .isDirectory => "Is a directory (os error 21)"
  | .nameTooLong => "File name too long (os error 36)"
  | .tooManyLinks => "Too many levels of symbolic links (os error 40)"
  | .nulInPath => "file name contained an unexpected NUL byte"
  | .notText => "stream did not contain valid UTF-8"

namespace Node

/-- Whether a node is a directory. -/
def isDir : Node → Bool
  | .dir _ _ => true
  | _ => false

/-- Whether a node is a file. -/
def isFile : Node → Bool
  | .file _ _ => true
  | _ => false

/-- The entry of a name in a directory. -/
def child? : Node → Name → Option Node
  | .dir entries _, n => entries.lookup n
  | _, _ => none

/-- What stands at a place below a node. -/
def get? : Node → List Name → Option Node
  | node, [] => some node
  | node, n :: place => match node.child? n with
    | some below => below.get? place
    | none => none

/-- Entries with one name's entry replaced, or added at the end. -/
def putEntry (n : Name) (node : Node) : List (Name × Node) → List (Name × Node)
  | [] => [(n, node)]
  | (m, old) :: rest => if m = n then (m, node) :: rest else (m, old) :: putEntry n node rest

/-- A node with another put at a place below it, where a directory must stand above the place. -/
def put : Node → List Name → Node → Node
  | _, [], new => new
  | .dir entries closed, n :: place, new => match entries.lookup n with
    | some below => .dir (putEntry n (below.put place new) entries) closed
    | none => if place = [] then .dir (putEntry n new entries) closed else .dir entries closed
  | node, _ :: _, _ => node

/-- A node without what stands at a place below it. -/
def remove : Node → List Name → Node
  | .dir entries closed, [n] => .dir (entries.filter (·.1 ≠ n)) closed
  | .dir entries closed, n :: place => match entries.lookup n with
    | some below => .dir (putEntry n (below.remove place) entries) closed
    | none => .dir entries closed
  | node, _ => node

end Node

/-- A tree and the directory that relative paths start from. -/
structure FileTree where
  root : Node
  /-- The place of the current directory. -/
  cwd : List Name

end AndroidAudit
