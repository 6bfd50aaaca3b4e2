import AndroidAudit.CommandLine.Run
import AndroidAudit.FileTree.Difference
import AndroidAudit.Time.Moment
import Std.Time.DateTime.Timestamp

/-!
# The program

The program takes a picture of the files that its command line speaks of, runs the command line on
the picture, and then makes and writes what the outcome has more than the picture.
-/

namespace AndroidAudit.Program

/-- The absolute path of a place, as the host spells it. -/
def spelled (place : List Name) : String := "/" ++ "/".intercalate (place.map Name.text)

/-- A node put at a place, with directories made for it. -/
def graft (node : Node) : List Name → Node → Node
  | [], _ => node
  | n :: place, .dir entries closed =>
    .dir (Node.putEntry n (graft node place ((entries.lookup n).getD (.dir [] false))) entries) closed
  | _, tree => tree

/-- The link of an entry, with a target that does not lead through links. A link that leads nowhere
has an empty target. -/
def linkOf (e : IO.FS.DirEntry) : IO Node := do
  try
    return .link (.ofString (← IO.FS.realPath e.path).toString)
  catch _ => return .link .empty

/-- The file of an entry, closed if the host refuses to read it. -/
def fileOf (e : IO.FS.DirEntry) : IO Node := do
  try
    return .file (← IO.FS.readBinFile e.path).toList false
  catch _ => return .file [] true

mutual

/-- All that stands at a directory of the host, which is closed if the host refuses to list it. -/
partial def pictureDir (place : List Name) : IO Node := do
  let listed ← try some <$> (← IO.FS.realPath (spelled place)).readDir catch _ => pure none
  match listed with
  | none => return .dir [] true
  | some entries =>
    let nodes ← entries.toList.mapM fun e => do
      let name := Name.ofString e.fileName
      return (name, ← pictureEntry (place ++ [name]) e)
    return .dir nodes false

/-- All that stands at an entry of a directory of the host. -/
partial def pictureEntry (place : List Name) (e : IO.FS.DirEntry) : IO Node := do
  match (← e.path.symlinkMetadata).type with
  | .dir => pictureDir place
  | .symlink => linkOf e
  | _ => fileOf e

end

/-- Adds to a picture what the host has on the way along a path, and all below its end if that is
wanted. -/
partial def follow (all : Bool) (tree : Node) (place : List Name) : List Name → IO Node
  | [] => do
    if all then return graft (← pictureDir place) place tree else return tree
  | n :: rest => do
    if n.isEmpty || n == [Path.dot] then follow all tree place rest
    else if n == [Path.dot, Path.dot] then follow all tree place.dropLast rest
    else
      let entries ← (← IO.FS.realPath (spelled place)).readDir
      match entries.find? fun e => Name.ofString e.fileName == n with
      | none => return tree
      | some e =>
        let here := place ++ [n]
        match (← e.path.symlinkMetadata).type with
        | .dir =>
          let seen := (tree.get? here).isSome
          follow all (if seen then tree else graft (.dir [] false) here tree) here rest
        | .symlink =>
          let link ← linkOf e
          let tree := graft link here tree
          match link with
          | .link target => if target.isAbsolute then
              follow all tree [] (FileTree.route target ++ rest) else return tree
          | _ => return tree
        | _ => return graft (← fileOf e) here tree

/-- The paths that a command line speaks of. The first holds the project, all of which is looked
at. -/
def paths (words : List String) : Option (String × List String) :=
  match CommandLine.Request.ofWords false 0 words with
  | .ok (.run _ _ given) =>
    some ((given.values.lookup .root).getD ".",
      (given.values.lookup .units).toList ++ (given.values.lookup .output).toList)
  | _ => none

/-- A picture of the files that a command line speaks of. -/
def picture (words : List String) : IO FileTree := do
  let cwd := FileTree.route (.ofString (← IO.currentDir).toString)
  let tree ← follow false (.dir [] false) [] cwd
  match paths words with
  | none => return ⟨tree, cwd⟩
  | some (root, others) =>
    let start (p : Path) : List Name := if p.isAbsolute then [] else cwd
    let look (all : Bool) (tree : Node) (p : Path) : IO Node := do
      try follow all tree (start p) (FileTree.route p) catch _ => return tree
    let project : ProjectLayout := ⟨.ofString root⟩
    let tree ← look true tree project.root
    let rest := project.configFile :: project.reportsDir :: others.map .ofString
    return ⟨← rest.foldlM (look false) tree, cwd⟩

/-- Makes or writes one thing. -/
def apply : Step → IO Unit
  | .makeDir place => IO.FS.createDir (spelled place)
  | .writeFile place bytes => IO.FS.writeBinFile (spelled place) ⟨bytes.toArray⟩

end AndroidAudit.Program

open AndroidAudit in
/-- Runs a command line. -/
def main (words : List String) : IO UInt32 := do
  let tree ← Program.picture words
  let now := (← Std.Time.Timestamp.now).val
  let time := Moment.text ⟨now.second.val.toNat, now.nano.val.toNat⟩
  let (outcome, after) := CommandLine.run words (← IO.getEnv "RUST_LOG") tree time
  (tree.stepsTo after).forM Program.apply
  IO.print outcome.stdout
  IO.eprint outcome.stderr
  return UInt32.ofNat outcome.code
