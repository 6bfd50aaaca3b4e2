import AndroidAudit.FileTree.Basic

/-!
# What is new in a file tree

Two pictures of a tree, one taken before some work and one after it, tell what there is to make and to
write so that the first becomes the second. Nothing is ever taken away.
-/

namespace AndroidAudit

/-- One step of making a tree like another. -/
inductive Step where
  | makeDir (place : List Name)
  | writeFile (place : List Name) (bytes : List UInt8)

mutual

/-- What there is to do so that a node stands at a place where `old` was before. -/
def Node.stepsFrom (old : Option Node) (place : List Name) : Node → List Step
  | .file bytes _ => match old with
    | some (.file before _) => if before = bytes then [] else [.writeFile place bytes]
    | _ => [.writeFile place bytes]
  | .link _ => []
  | .dir entries _ =>
    (if (old.map Node.isDir).getD false then [] else [.makeDir place])
      ++ stepsAmong old place entries

/-- What there is to do for some entries of a directory. -/
def stepsAmong (old : Option Node) (place : List Name) : List (Name × Node) → List Step
  | [] => []
  | (name, node) :: rest =>
    node.stepsFrom (old.bind (·.child? name)) (place ++ [name]) ++ stepsAmong old place rest

end

/-- What there is to do so that one tree becomes another. -/
def FileTree.stepsTo (t u : FileTree) : List Step := u.root.stepsFrom (some t.root) []

end AndroidAudit
