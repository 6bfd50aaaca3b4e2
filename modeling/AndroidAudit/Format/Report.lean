import AndroidAudit.Audit.Report
import AndroidAudit.Format.Finding

/-!
# Reports in documents
-/

namespace AndroidAudit

open Document

/-- How much an audit looked at. -/
def AuditStats.codec : Codec AuditStats where
  shape := .record "ScanStats" (.ofList
    [ ("classes", .required, .number .word), ("call_sites", .required, .number .word),
      ("files", .required, .number .word), ("suppressed", .required, .number .word) ])
  toValue s := (s.classes.toFin, s.callSites.toFin, s.files.toFin, s.suppressed.toFin, ())
  ofValue
    | (classes, sites, files, suppressed, ()) =>
      ⟨.ofFin classes, .ofFin sites, .ofFin files, .ofFin suppressed⟩
  ofValue_toValue _ := rfl

/-- Reports. -/
def AuditReport.codec : Codec AuditReport where
  shape := .record "ScanReport" (.ofList
    [ ("project", .required, .text), ("generated_at", .required, .text),
      ("stats", .required, AuditStats.codec.shape),
      ("findings", .required, (Codec.list Finding.codec).shape) ])
  toValue r := (r.project, r.generatedAt, AuditStats.codec.toValue r.stats,
    (Codec.list Finding.codec).toValue r.findings, ())
  ofValue
    | (project, time, stats, findings, ()) =>
      ⟨project, time, AuditStats.codec.ofValue stats, (Codec.list Finding.codec).ofValue findings⟩
  ofValue_toValue r := by
    simp [AuditStats.codec.ofValue_toValue, (Codec.list Finding.codec).ofValue_toValue]

end AndroidAudit
