import AndroidAudit.Model.Code

/-!
# Findings

What an audit reports: which issue, how severe, where, and in what words. Findings are shown in the
order of their issue and then of their location.
-/

namespace AndroidAudit

/-- How much a finding matters, from least to most. -/
inductive Severity where
  | informational
  | warning
  | error
  | fatal
  deriving DecidableEq, Repr

/-- The word for a severity. -/
def Severity.text : Severity → String
  | .informational => "informational"
  | .warning => "warning"
  | .error => "error"
  | .fatal => "fatal"

/-- Where a finding points. -/
inductive Location where
  | method (className method : String)
  | source (file : String) (line column : UInt32)
  | file (path : String)
  deriving DecidableEq, Repr

namespace Location

/-- A location in one line of text. -/
def text : Location → String
  | .method c m => c ++ "#" ++ m
  | .source f l c => f ++ ":" ++ toString l.toNat ++ ":" ++ toString c.toNat
  | .file p => p

/-- The location of a source position. -/
def ofSource (l : SourceLocation) : Location := .source l.file l.line l.column

/-- Methods come before source positions and these before files; within a kind the fields decide, the
first one first. -/
def order : Location → Location → Ordering
  | .method c m, .method c' m' => (compare c c').then (compare m m')
  | .method _ _, _ => .lt
  | .source _ _ _, .method _ _ => .gt
  | .source f l c, .source f' l' c' => ((compare f f').then (compare l l')).then (compare c c')
  | .source _ _ _, .file _ => .lt
  | .file p, .file p' => compare p p'
  | .file _, _ => .gt

end Location

/-- One report of an issue. -/
structure Finding where
  ruleId : String
  severity : Severity
  location : Location
  message : String
  /-- Facts about it that were gathered afterwards. -/
  evidence : List String := []
  deriving DecidableEq, Repr

/-- Findings are ordered by issue, then by location. -/
def Finding.order (a b : Finding) : Ordering :=
  (compare a.ruleId b.ruleId).then (a.location.order b.location)

/-- Findings in their order. Those that are alike in it keep the order they had. -/
def sortFindings (fs : List Finding) : List Finding :=
  fs.mergeSort fun a b => a.order b != .gt

end AndroidAudit
