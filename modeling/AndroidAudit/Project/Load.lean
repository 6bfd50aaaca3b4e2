import AndroidAudit.Audit.Scan
import AndroidAudit.Format.Project

/-!
# Loading a project

The settings of a project are read from its settings file. A project without one has the settings
that its name alone gives; a file that cannot be read otherwise, or does not hold valid settings, is
an error.

In droidlint `loadConfig` is `load_project_config`, `loadConfigOrDefault` is `load_or_default_config` and
`Project.ofRoot` is `from_root`.
-/

namespace AndroidAudit

open Document

/-- Why the settings of a project cannot be had. -/
inductive ProjectError where
  | unreadable (path : Path) (error : SysError)
  | malformed (path : Path) (error : JsonError)
  | refused (flaw : ConfigFlaw)

namespace ProjectError

/-- The error in words. -/
def message : ProjectError → String
  | unreadable path e => "Failed to read project config at " ++ path.text ++ ": " ++ e.message
  | malformed path e => "Failed to parse project config JSON at " ++ path.text ++ ": " ++ e.message
  | refused flaw => flaw.message

/-- What the error comes from, in words. -/
def causes : ProjectError → List String
  | unreadable _ e => [e.message]
  | malformed _ e => [e.message]
  | refused _ => []

end ProjectError

namespace ProjectLayout

/-- The settings in the settings file. -/
def loadConfig (l : ProjectLayout) (t : FileTree) : Except ProjectError ProjectConfig :=
  match t.readText l.configFile with
  | .error e => .error (.unreadable l.configFile e)
  | .ok text =>
    match ProjectConfig.codec.readJson text with
    | .error e => .error (.malformed l.configFile e)
    | .ok config =>
      match config.flaw? with
      | some flaw => .error (.refused flaw)
      | none => .ok config

/-- The settings in the settings file, or those of the project's name if there is no such file. -/
def loadConfigOrDefault (l : ProjectLayout) (t : FileTree) : Except ProjectError ProjectConfig :=
  match l.loadConfig t with
  | .error (.unreadable _ .notFound) => .ok (.ofName (inferredName l.root))
  | other => other

end ProjectLayout

/-- The project at a root. -/
def Project.ofRoot (t : FileTree) (root : Path) : Except ProjectError Project :=
  (ProjectLayout.loadConfigOrDefault ⟨root⟩ t).map (⟨⟨root⟩, ·⟩)

end AndroidAudit
