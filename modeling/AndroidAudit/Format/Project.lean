import AndroidAudit.Format.Finding
import AndroidAudit.Project.Config
import AndroidAudit.Rule.TrustManager

/-!
# Project settings in documents
-/

namespace AndroidAudit

open Document

/-- Return shapes, by their words. -/
def ReturnShape.codec : Codec ReturnShape where
  shape := .choice ["empty_array_or_null", "void_noop"]
  toValue
    | .emptyArrayOrNull => (0 : Fin 2)
    | .voidNoop => (1 : Fin 2)
  ofValue (i : Fin 2) := match i with
    | 0 => .emptyArrayOrNull
    | 1 => .voidNoop
  ofValue_toValue s := by cases s <;> rfl

/-- Signatures of native formats. -/
def FileSignature.codec : Codec FileSignature where
  shape := .record "FileSignature" (.ofList
    [("format", .required, .text), ("magic", .required, (Codec.list Codec.byte).shape)])
  toValue s := (s.format, (Codec.list Codec.byte).toValue s.magic, ())
  ofValue
    | (format, magic, ()) => ⟨format, (Codec.list Codec.byte).ofValue magic⟩
  ofValue_toValue s := by simp [(Codec.list Codec.byte).ofValue_toValue]

/-- What counts as native code and where it belongs. What is left out is as in the standard policy. -/
def NativeCodePolicy.codec : Codec NativeCodePolicy where
  shape := .record "NativeCodePolicy" (.ofList
    [ ("signatures", .optional, (Codec.list FileSignature.codec).shape),
      ("content_roots", .optional, .list .text), ("library_dirs", .optional, .list .text) ])
  toValue p := (some ((Codec.list FileSignature.codec).toValue p.signatures), some p.contentRoots,
    some p.libraryDirs, ())
  ofValue
    | (signatures, roots, dirs, ()) =>
      ⟨(Option.map (Codec.list FileSignature.codec).ofValue signatures).getD standard.signatures,
        Option.getD roots standard.contentRoots, Option.getD dirs standard.libraryDirs⟩
  ofValue_toValue p := by
    simp [(Codec.list FileSignature.codec).ofValue_toValue]
    rfl

/-- Unsafe calls. -/
def UnsafeCall.codec : Codec UnsafeCall where
  shape := .record "UnsafeCallTarget" (.ofList
    [ ("class", .required, .text), ("methods", .required, Codec.names.shape),
      ("alternative", .required, .text) ])
  toValue t := (t.className, Codec.names.toValue t.methods, t.alternative, ())
  ofValue
    | (className, methods, alternative, ()) =>
      ⟨className, Codec.names.ofValue methods, alternative⟩
  ofValue_toValue t := by simp [Codec.names.ofValue_toValue]

/-- Registries of unsafe calls. -/
def CallRegistry.codec : Codec CallRegistry where
  shape := .record "UnsafeCallRegistry" (.ofList
    [("targets", .required, (Codec.list UnsafeCall.codec).shape)])
  toValue r := ((Codec.list UnsafeCall.codec).toValue r.targets, ())
  ofValue
    | (targets, ()) => ⟨(Codec.list UnsafeCall.codec).ofValue targets⟩
  ofValue_toValue r := by simp [(Codec.list UnsafeCall.codec).ofValue_toValue]

/-- Project settings. Notes, issues and calls that there are none of are not written. -/
def ProjectConfig.codec : Codec ProjectConfig where
  shape := .record "ProjectConfig" (.ofList
    [ ("name", .required, .text), ("description", .optional, .nullableText),
      ("config_version", .required, .text), ("report_issues", .optional, .flag),
      ("disabled_issues", .optional, Codec.names.shape),
      ("severity_overrides", .optional, (Codec.table Severity.codec).shape),
      ("native_code", .optional, NativeCodePolicy.codec.shape),
      ("unsafe_calls", .optional, (Codec.list UnsafeCall.codec).shape) ])
  toValue c := (c.name, c.description.map some, c.configVersion, some c.reportIssues,
    if c.disabledIssues.isEmpty then none else some (Codec.names.toValue c.disabledIssues),
    if c.severityOverrides.entries.isEmpty then none
      else some ((Codec.table Severity.codec).toValue c.severityOverrides),
    some (NativeCodePolicy.codec.toValue c.nativeCode),
    if c.unsafeCalls.isEmpty then none
      else some ((Codec.list UnsafeCall.codec).toValue c.unsafeCalls), ())
  ofValue
    | (name, description, version, report, disabled, overrides, policy, calls, ()) =>
      { name := name
        description := Option.getD description none
        configVersion := version
        reportIssues := Option.getD report true
        disabledIssues := (Option.map Codec.names.ofValue disabled).getD .empty
        severityOverrides := (Option.map (Codec.table Severity.codec).ofValue overrides).getD .empty
        nativeCode := (Option.map NativeCodePolicy.codec.ofValue policy).getD .standard
        unsafeCalls := (Option.map (Codec.list UnsafeCall.codec).ofValue calls).getD [] }
  ofValue_toValue c := by
    obtain ⟨name, description, version, report, ⟨disabled, hd⟩, ⟨overrides, ho⟩, policy, calls⟩ := c
    cases description <;> cases disabled <;> cases overrides <;> cases calls <;>
      simp [NameSet.isEmpty, NameSet.empty, NameMap.empty, Codec.names.ofValue_toValue,
        (Codec.table Severity.codec).ofValue_toValue, NativeCodePolicy.codec.ofValue_toValue,
        (Codec.list UnsafeCall.codec).ofValue_toValue] <;>
      exact ⟨rfl, rfl⟩

end AndroidAudit
