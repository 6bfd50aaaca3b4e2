import AndroidAudit.Rule.NativeCode
import AndroidAudit.Rule.UnsafeCall

/-!
# Project settings

What a project says about its audit: which issues it does not want reported, how severe it takes
others to be, what counts as native code, and which further calls are unsafe.

In droidlint `ofName` is `new`, `flaw?` is `validate`, and `callRegistry`, `isEnabled` and
`severityFor` are `call_registry`, `is_enabled` and `severity_for`.
-/

namespace AndroidAudit

/-- The settings of a project. -/
structure ProjectConfig where
  name : String
  description : Option String
  /-- The version of the format that the settings are written in. -/
  configVersion : String
  /-- Whether the files of the project are audited. -/
  reportIssues : Bool
  disabledIssues : NameSet
  /-- The severities of issues that differ from the usual ones. -/
  severityOverrides : NameMap Severity
  nativeCode : NativeCodePolicy
  /-- Unsafe calls besides those that always are. -/
  unsafeCalls : List UnsafeCall
  deriving DecidableEq

/-- Why settings are refused. -/
inductive ConfigFlaw where
  | unsupportedVersion (found : String)
  | unknownIssue (id : String)
  deriving DecidableEq, Repr

namespace ProjectConfig

/-- The versions of the format that are known. -/
def supportedVersions : List String := ["0.1.0"]

/-- The settings of a project that has only a name. -/
def ofName (name : String) : ProjectConfig where
  name := name
  description := none
  configVersion := "0.1.0"
  reportIssues := true
  disabledIssues := .empty
  severityOverrides := .empty
  nativeCode := .standard
  unsafeCalls := []

/-- The issues that settings name: first the disabled ones, then those with a severity. -/
def namedIssues (c : ProjectConfig) : List String :=
  c.disabledIssues.names ++ c.severityOverrides.names

/-- The first reason to refuse settings: the version, then the first unknown issue. -/
def flaw? (c : ProjectConfig) : Option ConfigFlaw :=
  if supportedVersions.contains c.configVersion then
    (c.namedIssues.find? fun id => (Issue.find? id).isNone).map .unknownIssue
  else some (.unsupportedVersion c.configVersion)

/-- The unsafe calls of a project: those that always are, then its own. -/
def callRegistry (c : ProjectConfig) : CallRegistry :=
  c.unsafeCalls.foldl CallRegistry.register .builtin

/-- Whether an issue is reported. -/
def isEnabled (c : ProjectConfig) (id : String) : Bool := !c.disabledIssues.contains id

/-- How severe an issue is to a project that takes it to be `usual` unless it says otherwise. -/
def severityFor (c : ProjectConfig) (id : String) (usual : Severity) : Severity :=
  (c.severityOverrides.get? id).getD usual

end ProjectConfig

/-- What is wrong with settings, in words. -/
def ConfigFlaw.message : ConfigFlaw → String
  | .unsupportedVersion found => "Unsupported config version " ++ found ++ "; supported: "
    ++ ", ".intercalate ProjectConfig.supportedVersions
  | .unknownIssue id => "Unknown issue id '" ++ id ++ "' in project config"

end AndroidAudit
