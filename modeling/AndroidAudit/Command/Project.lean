import AndroidAudit.Command.Basic
import AndroidAudit.Project.Load

/-!
# Commands on a project and on the catalogue of issues

In droidlint these are `init_project_command` (`initProject`), `project_info_command` (`projectInfo`) and
`list_issues_command` (`listIssues`).
-/

namespace AndroidAudit.Command

/-- Sets a project up: its directories and its settings. -/
def initProject (root : String) (name : Option String) : Command Unit := do
  let path := (← files).resolveRoot root
  let layout : ProjectLayout := ⟨path⟩
  let name := name.getD (ProjectLayout.inferredName path)
  makeDirAll "Failed to create meta dir" layout.metaDir
  makeDirAll "Failed to create reports dir" layout.reportsDir
  writeFile "Failed to write project config" layout.configFile
    (ProjectConfig.codec.pretty (.ofName name))
  printLine "Initialized droidlint project:"
  printLine ("  Name: " ++ name)
  printLine ("  Root: " ++ layout.root.text)
  printLine ("  Config: " ++ layout.configFile.text)
  printLine ("  Reports dir: " ++ layout.reportsDir.text)

/-- What is known of a project, as JSON. -/
def infoJson (layout : ProjectLayout) (config : ProjectConfig) : Json := .object
  [ ("root", .string layout.root.text), ("config_file", .string layout.configFile.text),
    ("reports_dir", .string layout.reportsDir.text),
    ("config", ProjectConfig.codec.toJson config),
    ("rules", .array (RuleSet.standard.names.map .string)),
    ("applicable_methods",
      .array (config.callRegistry.applicableMethods.names.map .string)) ]

/-- Names with commas between them. -/
def listed (names : List String) : String := ", ".intercalate names

/-- What is known of a project, line by line. -/
def infoLines (t : FileTree) (layout : ProjectLayout) (config : ProjectConfig) : List String :=
  let status (label : String) (p : Path) : String :=
    "- " ++ label ++ ": " ++ (if t.isDir p then "OK" else "MISSING") ++ " (" ++ p.text ++ ")"
  ["droidlint Project Info", "======================", "Name: " ++ config.name]
    ++ (config.description.map ("Description: " ++ ·)).toList
    ++ [ "Root: " ++ layout.root.text, "Config file: " ++ layout.configFile.text,
      "Config version: " ++ config.configVersion,
      "Reports issues: " ++ (if config.reportIssues then "yes" else "no") ]
    ++ (if config.disabledIssues.isEmpty then []
      else ["Disabled issues: " ++ listed config.disabledIssues.names])
    ++ config.severityOverrides.entries.map (fun e =>
      "Severity override: " ++ e.1 ++ " -> " ++ e.2.text)
    ++ [ "Content roots: " ++ listed config.nativeCode.contentRoots,
      "Library dirs: " ++ listed config.nativeCode.libraryDirs,
      "Unsafe call methods: " ++ listed config.callRegistry.applicableMethods.names,
      "Rules: " ++ listed RuleSet.standard.names, "", "Directories:",
      status "Meta dir (.droidlint)" layout.metaDir, status "Reports dir" layout.reportsDir ]

/-- Prints what is known of a project that has been set up. -/
def projectInfo (root : String) (json : Bool) : Command Unit := do
  let t ← files
  let layout : ProjectLayout := ⟨t.resolveRoot root⟩
  let config ← orFail (layout.loadConfig t) fun e =>
    ⟨"Failed to load project config for " ++ layout.root.text, e.message :: e.causes⟩
  if json then printLine (infoJson layout config).prettyText
  else (infoLines t layout config).forM printLine

/-- Prints the catalogue of issues. -/
def listIssues (json : Bool) : Command Unit := do
  if json then printLine Issue.catalogueJson.prettyText
  else
    printLine "Issues:"
    Issue.catalogue.forM fun i =>
      printLine ("- " ++ i.id ++ " [" ++ i.defaultSeverity.text ++ ", priority "
        ++ toString i.priority ++ "]: " ++ i.summary)

end AndroidAudit.Command
