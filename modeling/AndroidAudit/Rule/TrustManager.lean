import AndroidAudit.Model.Issue
import AndroidAudit.Model.TypeName

/-!
# Trust managers that accept every certificate

A method is *trivial* for a return shape if it has a step besides markers and all such steps are ones
that the shape allows. A class that implements the trust manager interface is reported once for each
of its checking methods that is trivial.

In droidlint `isTrivial` is `is_trivially_empty` and `scan` is `scan_trust_manager`.
-/

namespace AndroidAudit

/-- What a method that does no work gives back. -/
inductive ReturnShape where
  | emptyArrayOrNull
  | voidNoop
  deriving DecidableEq, Repr

/-- The steps that a method of a shape may take without doing work. -/
def ReturnShape.permits : ReturnShape → Instruction → Bool
  | .emptyArrayOrNull, .pushZero => true
  | .emptyArrayOrNull, .pushNull => true
  | .emptyArrayOrNull, .allocateArray _ => true
  | .emptyArrayOrNull, .returnReference => true
  | .voidNoop, .returnVoid => true
  | _, _ => false

/-- The steps of a body that are no markers. -/
def realSteps (steps : List Instruction) : List Instruction := steps.filter (!·.isMarker)

/-- Whether steps do no work beyond returning what the shape allows. Without any real step, the code
is not known and the answer is no. -/
def isTrivial (shape : ReturnShape) (steps : List Instruction) : Bool :=
  !(realSteps steps).isEmpty && (realSteps steps).all shape.permits

namespace TrustManager

/-- The interface that trust managers implement. -/
def interfaceName : String := "javax.net.ssl.X509TrustManager"

/-- The shape to hold a method of this name against, if it is one that checks. -/
def shapeOf? (name : String) : Option ReturnShape :=
  if name = "getAcceptedIssuers" then some .emptyArrayOrNull
  else if name = "checkServerTrusted" ∨ name = "checkClientTrusted" then some .voidNoop
  else none

/-- The words about a trivial method of this name. -/
def message (name : String) : ReturnShape → String
  | .emptyArrayOrNull => name ++ " always returns an empty array or null, which could cause "
      ++ "vulnerable TLS certificate checking"
  | .voidNoop => name ++ " is empty, which could cause vulnerable TLS certificate checking"

/-- What is reported of one method of a trust manager. -/
def check? (m : MethodBody) : Option Finding :=
  match shapeOf? m.name with
  | none => none
  | some shape =>
    if isTrivial shape m.instructions then
      some {
        ruleId := Issue.insecureTls.id
        severity := Issue.insecureTls.defaultSeverity
        location := .method (normalizeTypeName m.declaringType) m.name
        message := message m.name shape }
    else none

/-- What is reported of a class with these interfaces and methods. -/
def scan (interfaces : List String) (methods : List MethodBody) : List Finding :=
  if interfaces.any fun i => normalizeTypeName i == interfaceName then methods.filterMap check?
  else []

end TrustManager

end AndroidAudit
