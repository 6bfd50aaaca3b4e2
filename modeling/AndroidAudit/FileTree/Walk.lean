import AndroidAudit.FileTree.Lookup

/-!
# Walking a file tree

The walk below a root visits each entry once, a directory before its entries, and follows no link but
the root itself. An entry that is not kept is left out with all below it. A closed directory is met and
not looked into. A directory is listed by its path, so it is the same with one whose path is longer than
a host allows.
-/

namespace AndroidAudit

/-- What a walk meets. -/
structure Visit where
  path : Path
  /-- How many names it is below the root of the walk. -/
  depth : Nat
  /-- What stands there. A link is not followed. -/
  node : Node

/-- A root or a directory that the walk cannot look into. -/
structure WalkFault where
  path : Path
  error : SysError

/-- The words for what the walk cannot look into. -/
def WalkFault.message (f : WalkFault) : String :=
  "IO error for operation on " ++ f.path.text ++ ": " ++ f.error.message

mutual

/-- What is met below a node that stands at a path. -/
def Node.visits (keep : Visit → Bool) (path : Path) (depth : Nat) :
    Node → List (Except WalkFault Visit)
  | .dir entries closed =>
    if maxPathBytes < FileTree.byteCount path.symbols then [.error ⟨path, .nameTooLong⟩]
    else if closed then [.error ⟨path, .denied⟩]
    else visitsAmong keep path depth entries
  | _ => []

/-- What is met among some entries of a directory, and below them. -/
def visitsAmong (keep : Visit → Bool) (path : Path) (depth : Nat) :
    List (Name × Node) → List (Except WalkFault Visit)
  | [] => []
  | (name, node) :: rest =>
    let visit := ⟨path.child name, depth + 1, node⟩
    if keep visit then
      .ok visit :: (node.visits keep visit.path visit.depth ++ visitsAmong keep path depth rest)
    else visitsAmong keep path depth rest

end

/-- The walk from a root. -/
def FileTree.walk (t : FileTree) (keep : Visit → Bool) (root : Path) :
    List (Except WalkFault Visit) :=
  match t.node .entry root with
  | .error e => [.error ⟨root, e⟩]
  | .ok node =>
    let visit := ⟨root, 0, node⟩
    let start := match node with
      | .link _ => t.node .target root
      | _ => .ok node
    match start with
    | .error e => [.error ⟨root, e⟩]
    | .ok below => if keep visit then .ok visit :: below.visits keep root 0 else []

end AndroidAudit
