import AndroidAudit.Path.Basic

/-!
# Where a project keeps its own files

The settings of a project are in a directory of their own below its root, and so are the reports on
it. Neither is audited.

In droidlint `reportFile` is `report_path`, `isInternal` is `is_internal_dir` and `inferredName` is
`infer_project_name`.
-/

namespace AndroidAudit

/-- The paths of a project. -/
structure ProjectLayout where
  root : Path
  deriving DecidableEq, Repr

namespace ProjectLayout

/-- The directory of the settings. -/
def metaDir (l : ProjectLayout) : Path := l.root.join (.ofString ".droidlint")

/-- The file of the settings. -/
def configFile (l : ProjectLayout) : Path := l.metaDir.join (.ofString "project.json")

/-- The directory of the reports. -/
def reportsDir (l : ProjectLayout) : Path := l.root.join (.ofString "reports")

/-- The file of a report of some name. -/
def reportFile (l : ProjectLayout) (name : String) : Path :=
  l.reportsDir.join (.ofString (name ++ ".json"))

/-- Whether a path is one of the two directories that are not audited. -/
def isInternal (l : ProjectLayout) (p : Path) : Bool := p.same l.metaDir || p.same l.reportsDir

/-- The name of a project that has not been given one: that of its root. -/
def inferredName (root : Path) : String := (root.fileName?.bind Name.text?).getD "unnamed-project"

end ProjectLayout

end AndroidAudit
