import AndroidAudit.Audit.Units
import AndroidAudit.Model.Finding

/-!
# Reports

What an audit found, and how much it looked at.

In droidlint these are `ScanReport` and `ScanStats`.
-/

namespace AndroidAudit

/-- How much an audit looked at, and how many findings it left out. -/
structure AuditStats where
  classes : UInt64
  callSites : UInt64
  files : UInt64
  /-- The number of findings whose issue is disabled. -/
  suppressed : UInt64
  deriving DecidableEq, Repr

namespace AuditStats

/-- Nothing yet. -/
def zero : AuditStats := ⟨0, 0, 0, 0⟩

/-- With the classes and calls of some units. -/
def addUnits (s : AuditStats) (u : AnalysisUnits) : AuditStats :=
  { s with
    classes := s.classes + UInt64.ofNat u.classes.length
    callSites := s.callSites + UInt64.ofNat u.callSites.length }

/-- With so many files more. -/
def addFiles (s : AuditStats) (n : Nat) : AuditStats :=
  { s with files := s.files + UInt64.ofNat n }

/-- With so many findings more left out. -/
def addSuppressed (s : AuditStats) (n : Nat) : AuditStats :=
  { s with suppressed := s.suppressed + UInt64.ofNat n }

end AuditStats

/-- The outcome of an audit. -/
structure AuditReport where
  project : String
  generatedAt : String
  stats : AuditStats
  findings : List Finding
  deriving DecidableEq, Repr

end AndroidAudit
