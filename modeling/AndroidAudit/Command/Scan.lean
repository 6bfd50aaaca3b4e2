import AndroidAudit.Audit.UnitsFile
import AndroidAudit.Command.Basic
import AndroidAudit.Digest.Sha256
import AndroidAudit.Format.Report
import AndroidAudit.Project.Load

/-!
# The command that audits a project

The report goes to a file that is named, or to the project's own reports if it keeps any, and is
printed. Findings never make the command fail.

In droidlint `scan` is `scan_command`. It goes by `sha256_file` (`FileTree.digest`), `attach_digests`
(`attachDigest` of each finding), `write_report` (`writeReport`) and `print_report` (`AuditReport.lines`).
-/

namespace AndroidAudit

/-- The digest of the file at a path. -/
def FileTree.digest (t : FileTree) (p : Path) : Except Failure String :=
  match t.read p with
  | .ok bytes => .ok (Digest.sha256Text bytes)
  | .error .isDirectory => .error (.ofSystem "Failed to read file for hashing" p .isDirectory)
  | .error e => .error (.ofSystem "Failed to open file for hashing" p e)

/-- A finding with the digest of the file it is about, or why that cannot be had. -/
def Finding.attachDigest (t : FileTree) (root : Path) (f : Finding) : Finding × List LogEntry :=
  if f.ruleId = Issue.nativeCodeLocation.id then
    match f.location with
    | .file path =>
      match t.digest (root.join (.ofString path)) with
      | .ok d => ({ f with evidence := f.evidence ++ ["sha256:" ++ d] }, [])
      | .error e => (f, [⟨.warn, .scanCommand, e.line⟩])
    | _ => (f, [])
  else (f, [])

/-- A report, line by line. -/
def AuditReport.lines (r : AuditReport) : List String :=
  let n (x : UInt64) : String := toString x.toNat
  [ "Scan of " ++ r.project ++ " (" ++ r.generatedAt ++ ")",
    "Classes: " ++ n r.stats.classes ++ "  Call sites: " ++ n r.stats.callSites ++ "  Files: "
      ++ n r.stats.files ++ "  Suppressed: " ++ n r.stats.suppressed ]
    ++ if r.findings.isEmpty then ["Findings: (none)"]
      else ("Findings (" ++ toString r.findings.length ++ "):") :: r.findings.flatMap fun f =>
        ("- [" ++ f.severity.text ++ "] " ++ f.ruleId ++ " " ++ f.location.text ++ ": " ++ f.message)
          :: f.evidence.map ("    " ++ ·)

namespace Command

/-- The name of the report that a project keeps. -/
def latestReport : String := "latest-scan"

/-- Loads units from a file. -/
def loadUnits (path : String) : Command AnalysisUnits := do
  let units ← orFail (AnalysisUnits.load (← files) (.ofString path)) fun e => ⟨e.message, e.causes⟩
  log ⟨.info, .scanCommand, "loaded " ++ toString units.classes.length ++ " classes and "
    ++ toString units.callSites.length ++ " call sites from " ++ path⟩
  return units

/-- Where the report of a project goes. -/
def reportPath? (t : FileTree) (layout : ProjectLayout) : Option String → Option Path
  | some path => some (.ofString path)
  | none => if t.isDir layout.reportsDir then some (layout.reportFile latestReport) else none

/-- Writes a report, making the directories above it. -/
def writeReport (path : Path) (report : AuditReport) : Command Unit := do
  match path.parent? with
  | some parent =>
    if !parent.symbols.isEmpty then makeDirAll "Failed to create report dir" parent
  | none => pure ()
  writeFile "Failed to write scan report" path (AuditReport.codec.pretty report)
  log ⟨.info, .scanCommand, "wrote report to " ++ path.text⟩

/-- Audits the project at a root. -/
def scan (root : String) (units : Option String) (json : Bool) (output : Option String) :
    Command AuditReport := do
  let t ← files
  let path := t.resolveRoot root
  let project ← orFail (Project.ofRoot t path) fun e =>
    ⟨"Failed to load project at " ++ path.text, e.message :: e.causes⟩
  let units ← match units with
    | some file => some <$> loadUnits file
    | none => pure none
  let (report, entries) := project.audit .standard t units (← get).time
  entries.forM log
  let attached := report.findings.map (·.attachDigest t path)
  (attached.flatMap (·.2)).forM log
  let report := { report with findings := attached.map (·.1) }
  match reportPath? t project.layout output with
  | some file => writeReport file report
  | none => pure ()
  if json then printLine (AuditReport.codec.pretty report) else report.lines.forM printLine
  return report

end Command

end AndroidAudit
