import AndroidAudit.Model.Finding

/-!
# The catalogue of issues

The issues that an audit can report, with what each is about.

In droidlint `catalogue` is `builtin_issues` and `find?` is `find_issue`.
-/

namespace AndroidAudit

/-- The field that an issue belongs to. -/
inductive Category where
  | security
  deriving DecidableEq, Repr

/-- The word for a category. -/
def Category.text : Category → String
  | .security => "security"

/-- One kind of finding. -/
structure Issue where
  /-- The name by which findings and settings refer to it. -/
  id : String
  summary : String
  explanation : String
  category : Category
  /-- From 1 (lowest) to 10 (highest). -/
  priority : Nat
  /-- The severity of its findings unless a project says otherwise. -/
  defaultSeverity : Severity
  deriving DecidableEq, Repr

namespace Issue

/-- A trust manager that accepts every certificate. -/
def insecureTls : Issue where
  id := "InsecureTLS"
  summary := "Insecure certificate validation"
  explanation := "This check looks for an X509TrustManager that contains a getAcceptedIssuers, "
    ++ "checkServerTrusted, or checkClientTrusted method that simply returns null "
    ++ "(or an empty array in the case of getAcceptedIssuers), which could result "
    ++ "in the app improperly trusting unauthorized certificates."
  category := .security
  priority := 6
  defaultSeverity := .warning

/-- A call that loads code from a place of its choosing. -/
def unsafeLoad : Issue where
  id := "UnsafeDynamicallyLoadedCode"
  summary := "`load` used to dynamically load code"
  explanation := "Dynamically loading code from locations other than the application's library "
    ++ "directory or the platform's built-in library directories is dangerous, as "
    ++ "there is an increased risk that the code could have been tampered with. "
    ++ "Applications should use `loadLibrary` when possible, which provides "
    ++ "increased assurance that libraries are loaded from one of these safer "
    ++ "locations."
  category := .security
  priority := 4
  defaultSeverity := .warning

/-- Native code among the resources or assets. -/
def nativeCodeLocation : Issue where
  id := "UnsafeNativeCodeLocation"
  summary := "Native code outside library directory"
  explanation := "Application native code should only be placed in the application's library "
    ++ "directory, not in other locations such as the res or assets directories. "
    ++ "Placing the code in the library directory provides increased assurance that "
    ++ "the code will not be tampered with after installation. Embedding "
    ++ "non-shared-library native executables into applications should be avoided "
    ++ "when possible."
  category := .security
  priority := 4
  defaultSeverity := .warning

/-- Every issue, in the order of their names. -/
def catalogue : List Issue := [insecureTls, unsafeLoad, nativeCodeLocation]

/-- The issue of a name. -/
def find? (id : String) : Option Issue := catalogue.find? (·.id == id)

example : catalogue.Pairwise (fun a b => a.id < b.id) := by decide

end Issue

end AndroidAudit
