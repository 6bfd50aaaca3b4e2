import AndroidAudit.Audit.Log
import AndroidAudit.FileTree.Change

/-!
# Commands

A command works on a file tree, prints and keeps a log. It may fail, and what it has done until then
stays done.

In droidlint `FileTree.resolveRoot` is `resolve_root`.
-/

namespace AndroidAudit

/-- Why a command fails: what went wrong, and what each thing that went wrong comes from. -/
structure Failure where
  text : String
  /-- What it comes from, the nearest first. -/
  causes : List String
  deriving DecidableEq, Repr

namespace Failure

/-- The failure in one line. -/
def line (f : Failure) : String := ": ".intercalate (f.text :: f.causes)

/-- A failure of the host at something. -/
def ofSystem (doing : String) (path : Path) (e : SysError) : Failure :=
  ⟨doing ++ ": " ++ path.text, [e.message]⟩

end Failure

/-- What a command works on. -/
structure Host where
  tree : FileTree
  time : String
  output : String
  log : List LogEntry

/-- A command that gives a value. -/
abbrev Command := ExceptT Failure (StateM Host)

namespace Command

/-- The files as they are. -/
def files : Command FileTree := do return (← get).tree

/-- Prints a line. -/
def printLine (s : String) : Command Unit :=
  modify fun h => { h with output := h.output ++ s ++ "\n" }

/-- Logs an entry. -/
def log (e : LogEntry) : Command Unit := modify fun h => { h with log := h.log ++ [e] }

/-- Goes on with a value, or fails. -/
def orFail {α ε : Type} (r : Except ε α) (explain : ε → Failure) : Command α :=
  match r with
  | .ok v => return v
  | .error e => throw (explain e)

/-- Makes a directory and those above it. -/
def makeDirAll (doing : String) (p : Path) : Command Unit := do
  let (r, tree) := (← files).makeDirAll p
  modify fun h => { h with tree := tree }
  orFail r (.ofSystem doing p)

/-- Writes a file. -/
def writeFile (doing : String) (p : Path) (text : String) : Command Unit := do
  let tree ← orFail ((← files).write p (Text.encode text)) (.ofSystem doing p)
  modify fun h => { h with tree := tree }

end Command

/-- The root of a project from how it is named: the path without links and dots if it is there, and
else as seen from the current directory. -/
def FileTree.resolveRoot (t : FileTree) (root : String) : Path :=
  (t.canonical? (.ofString root)).getD ((absolute t.cwd).join (.ofString root))

end AndroidAudit
