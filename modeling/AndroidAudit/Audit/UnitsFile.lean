import AndroidAudit.Document.YamlReading
import AndroidAudit.FileTree.Lookup
import AndroidAudit.Format.Code
import AndroidAudit.Text.AsciiCase

/-!
# Files of analysis units

The end of a file's name tells whether it is JSON or YAML.

In droidlint `AnalysisUnits.load` is `load_units`.
-/

namespace AndroidAudit

open Document

/-- How a file of units is written. -/
inductive UnitsFormat where
  | json
  | yaml
  deriving DecidableEq, Repr

/-- The format that the end of a file's name tells, in either case. -/
def UnitsFormat.ofPath? (p : Path) : Option UnitsFormat :=
  match (p.extension?.bind Name.text?).map fun e => String.ofList (Text.foldCase e.toList) with
  | some "json" => some .json
  | some "yaml" | some "yml" => some .yaml
  | _ => none

/-- Why units cannot be had. -/
inductive UnitsError where
  | unreadable (path : Path) (error : SysError)
  | badJson (path : Path) (error : JsonError)
  | badYaml (path : Path) (error : YamlError)
  /-- The file's name tells no format. -/
  | unsupported (path : Path)

namespace UnitsError

/-- The error in words. -/
def message : UnitsError → String
  | unreadable path e => "Failed to read analysis units at " ++ path.text ++ ": " ++ e.message
  | badJson path e =>
    "Failed to parse analysis units JSON at " ++ path.text ++ ": " ++ e.message
  | badYaml path e =>
    "Failed to parse analysis units YAML at " ++ path.text ++ ": " ++ e.message
  | unsupported path =>
    "Unsupported analysis units format for " ++ path.text ++ "; expected .json, .yaml or .yml"

/-- What the error comes from, in words. -/
def causes : UnitsError → List String
  | unreadable _ e => [e.message]
  | badJson _ e => [e.message]
  | badYaml _ e => [e.message]
  | unsupported _ => []

end UnitsError

/-- The units in a file. -/
def AnalysisUnits.load (t : FileTree) (p : Path) : Except UnitsError AnalysisUnits :=
  match UnitsFormat.ofPath? p with
  | none => .error (.unsupported p)
  | some format =>
    match t.readText p with
    | .error e => .error (.unreadable p e)
    | .ok text =>
      match format with
      | .json => (AnalysisUnits.codec.readJson text).mapError (.badJson p)
      | .yaml => (AnalysisUnits.codec.readYaml text).mapError (.badYaml p)

end AndroidAudit
