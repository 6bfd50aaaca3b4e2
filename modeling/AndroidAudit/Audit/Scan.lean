import AndroidAudit.Audit.Log
import AndroidAudit.Audit.Report
import AndroidAudit.Audit.RuleSet
import AndroidAudit.FileTree.Walk
import AndroidAudit.Project.Config
import AndroidAudit.Project.Layout

/-!
# The audit of a project

An audit looks at the units it is given and at the files below the root, leaves out what the project
has disabled, and sorts the rest.

In droidlint a `Project` is a `ProjectContext`, and its audit is the `run` of a `Scanner`: `scan_units`
(`scanUnits`), `scan_files` (`scanFiles`, which passes over what `is_skipped_dir` names) and `apply_config`
(`keep`, with `suppressed` for its count).
-/

namespace AndroidAudit

/-- A project: where it is and its settings. -/
structure Project where
  layout : ProjectLayout
  config : ProjectConfig

namespace ProjectConfig

/-- What the rules report of some units: first the classes, then the calls. -/
def scanUnits (c : ProjectConfig) (rules : RuleSet) (u : AnalysisUnits) : List Finding :=
  u.classes.flatMap rules.checkClass ++
    u.callSites.flatMap (rules.checkCall c.callRegistry u.typeGraph)

/-- A finding as severe as the project takes it to be. An issue of the catalogue has the severity it
has there, unless the project says otherwise. -/
def regrade (c : ProjectConfig) (f : Finding) : Finding :=
  let usual := ((Issue.find? f.ruleId).map (·.defaultSeverity)).getD f.severity
  { f with severity := c.severityFor f.ruleId usual }

/-- The findings that the project wants, in order. -/
def keep (c : ProjectConfig) (fs : List Finding) : List Finding :=
  sortFindings ((fs.filter fun f => c.isEnabled f.ruleId).map c.regrade)

/-- How many of some findings the project does not want. -/
def suppressed (c : ProjectConfig) (fs : List Finding) : Nat :=
  (fs.filter fun f => !c.isEnabled f.ruleId).length

end ProjectConfig

/-- Directories that hold no sources: hidden ones and the outputs of builds. -/
def isSkippedName (n : Name) : Bool :=
  n.head? == some Path.dot ||
    [Name.ofString "build", Name.ofString "target", Name.ofString "node_modules"].contains n

/-- Whether a walk goes into what it meets. The root itself is never skipped by its name. -/
def ProjectLayout.keeps (l : ProjectLayout) (v : Visit) : Bool :=
  !(v.depth != 0 && v.node.isDir && (v.path.fileName?.map isSkippedName).getD false)
    && !l.isInternal v.path

/-- What the files of a project gave. -/
structure FileScan where
  count : Nat
  findings : List Finding
  log : List LogEntry

namespace Project

/-- Looks at the files of a project, unless it does not want that. -/
def scanFiles (p : Project) (rules : RuleSet) (t : FileTree) : FileScan :=
  let root := p.layout.root
  if !p.config.reportIssues then
    ⟨0, [], [⟨.debug, .audit,
      "project " ++ p.config.name ++ " does not report issues; skipping files"⟩]⟩
  else if !rules.hasFileRules then ⟨0, [], []⟩
  else
    let met := t.walk p.layout.keeps root
    let files := (met.filterMap Except.toOption).filter (·.node.isFile)
    ⟨files.length, files.flatMap fun v => rules.checkFile p.config.nativeCode t root v.path,
      met.filterMap fun e => match e with
        | .error f => some ⟨.debug, .audit, "skipping unreadable entry: " ++ f.message⟩
        | .ok _ => none⟩

/-- The words on an audit that is done. -/
def summary (s : AuditStats) (findings : Nat) : String :=
  "scanned " ++ toString s.classes.toNat ++ " classes, " ++ toString s.callSites.toNat
    ++ " call sites, " ++ toString s.files.toNat ++ " files: " ++ toString findings
    ++ " findings (" ++ toString s.suppressed.toNat ++ " suppressed)"

/-- Audits a project and, if they are given, some units. -/
def audit (p : Project) (rules : RuleSet) (t : FileTree) (units : Option AnalysisUnits)
    (time : String) : AuditReport × List LogEntry :=
  let inUnits := (units.map (p.config.scanUnits rules)).getD []
  let inFiles := p.scanFiles rules t
  let found := inUnits ++ inFiles.findings
  let kept := p.config.keep found
  let stats := (units.map AuditStats.zero.addUnits).getD .zero
  let stats := (stats.addFiles inFiles.count).addSuppressed (p.config.suppressed found)
  (⟨p.config.name, time, stats, kept⟩,
    inFiles.log ++ [⟨.info, .audit, summary stats kept.length⟩])

end Project

end AndroidAudit
