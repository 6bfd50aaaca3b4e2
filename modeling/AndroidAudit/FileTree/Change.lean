import AndroidAudit.FileTree.Lookup

/-!
# Changes to a file tree

Making a directory, making all that lead to it, and writing a file. An attempt to make several
directories keeps those it made when it fails.
-/

namespace AndroidAudit

namespace FileTree

/-- The tree with a node put at a place. -/
def put (t : FileTree) (place : List Name) (node : Node) : FileTree :=
  { t with root := t.root.put place node }

/-- A path without the slashes at its end. The root keeps its one. -/
def withoutEndSlash (p : Path) : Path :=
  match p.symbols.reverse.dropWhile (· == Path.slash) with
  | [] => p
  | symbols => ⟨symbols.reverse⟩

/-- Makes an empty directory where nothing stands. -/
def makeDir (t : FileTree) (p : Path) : Except SysError FileTree :=
  match t.spot .entry (withoutEndSlash p) with
  | .ok (.vacant dir name) => .ok (t.put (dir ++ [name]) (.dir [] false))
  | .ok (.taken _ _) => .error .exists
  | .error e => .error e

/-- Makes the first of some paths a directory, the later ones being those above it: a directory that
cannot be made for want of the one above it is made after that one. -/
def makeDirs (t : FileTree) : List Path → Except SysError Unit × FileTree
  | [] => (.error .notFound, t)
  | p :: above =>
    if p.symbols.isEmpty then (.ok (), t)
    else match t.makeDir p with
      | .ok t' => (.ok (), t')
      | .error .notFound => match makeDirs t above with
        | (.ok (), t') => match t'.makeDir p with
          | .ok t'' => (.ok (), t'')
          | .error e => (if t'.isDir p then .ok () else .error e, t')
        | failed => failed
      | .error e => (if t.isDir p then .ok () else .error e, t)

/-- Makes a path a directory, and those above it. -/
def makeDirAll (t : FileTree) (p : Path) : Except SysError Unit × FileTree :=
  t.makeDirs p.ancestors

/-- Writes a file, over the bytes it had. A closed file stays closed. -/
def write (t : FileTree) (p : Path) (bytes : List UInt8) : Except SysError FileTree :=
  match t.spot .file p with
  | .ok (.vacant dir name) => .ok (t.put (dir ++ [name]) (.file bytes false))
  | .ok (.taken place (.file _ closed)) => .ok (t.put place (.file bytes closed))
  | .ok (.taken _ _) => .error .isDirectory
  | .error e => .error e

end FileTree

end AndroidAudit
