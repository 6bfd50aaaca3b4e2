import AndroidAudit.Model.TypeGraph
import AndroidAudit.Rule.NativeCode
import AndroidAudit.Rule.TrustManager
import AndroidAudit.Rule.UnsafeCall

/-!
# Rule sets

A rule looks at classes, at calls or at files. A rule set is a list of named rules, and what it
reports of something is what each of its rules reports, in order.

In droidlint a `RuleSet` is a `RuleRegistry`, `standard` is `default_rule_registry`, and `checkClass`,
`checkCall` and `checkFile` are `check_class`, `check_call_site` and `check_file`.
-/

namespace AndroidAudit

/-- What a rule looks at, and what it reports. -/
inductive Check where
  | ofClass (report : ClassUnit → List Finding)
  | ofCall (report : CallRegistry → TypeGraph → CallSite → Option Finding)
  | ofFile (report : NativeCodePolicy → FileTree → Path → Path → Option Finding)

/-- A rule with a name. -/
structure Rule where
  name : String
  check : Check

namespace Check

/-- Reports trust managers that accept every certificate. -/
def trustManager : Check := .ofClass fun c => TrustManager.scan c.interfaces c.resolvedMethods

/-- Reports unsafe calls. -/
def unsafeCall : Check := .ofCall fun calls types site => calls.check? types.isSubclassOf site

/-- Reports misplaced native code. -/
def nativeCode : Check := .ofFile NativeCodePolicy.checkFile?

/-- What is reported of a class. -/
def onClass (c : ClassUnit) : Check → List Finding
  | .ofClass report => report c
  | _ => []

/-- What is reported of a call. -/
def onCall (calls : CallRegistry) (types : TypeGraph) (site : CallSite) : Check → List Finding
  | .ofCall report => (report calls types site).toList
  | _ => []

/-- What is reported of a file. -/
def onFile (policy : NativeCodePolicy) (t : FileTree) (root path : Path) : Check → List Finding
  | .ofFile report => (report policy t root path).toList
  | _ => []

/-- Whether files are looked at. -/
def isOfFile : Check → Bool
  | .ofFile _ => true
  | _ => false

end Check

/-- Rules in order. -/
abbrev RuleSet := List Rule

namespace RuleSet

/-- The rules that an audit applies. -/
def standard : RuleSet :=
  [ ⟨"insecure-trust-manager", .trustManager⟩, ⟨"unsafe-dynamic-load", .unsafeCall⟩,
    ⟨"native-code-location", .nativeCode⟩ ]

/-- The names of the rules, in rising order. -/
def names (rules : RuleSet) : List String :=
  (rules.map (·.name)).mergeSort fun a b => decide (a ≤ b)

/-- Whether some rule looks at files. -/
def hasFileRules (rules : RuleSet) : Bool := rules.any (·.check.isOfFile)

/-- What is reported of a class. -/
def checkClass (rules : RuleSet) (c : ClassUnit) : List Finding :=
  rules.flatMap (·.check.onClass c)

/-- What is reported of a call. -/
def checkCall (rules : RuleSet) (calls : CallRegistry) (types : TypeGraph) (site : CallSite) :
    List Finding :=
  rules.flatMap (·.check.onCall calls types site)

/-- What is reported of a file. -/
def checkFile (rules : RuleSet) (policy : NativeCodePolicy) (t : FileTree) (root path : Path) :
    List Finding :=
  rules.flatMap (·.check.onFile policy t root path)

end RuleSet

end AndroidAudit
