import AndroidAudit.Model.Issue
import AndroidAudit.Names.Sorted

/-!
# Calls that load code

A registry lists classes with those of their methods that are unsafe to call. A call is reported by
the first entry that lists its method and whose class is that of the call or above it.

In droidlint a `CallRegistry` is an `UnsafeCallRegistry`, `applicableMethods` is
`applicable_method_names` and `check?` is `scan_call_site`.
-/

namespace AndroidAudit

/-- Methods of a class that are unsafe to call on it or on a class below it. -/
structure UnsafeCall where
  className : String
  methods : NameSet
  /-- What to call instead. -/
  alternative : String
  deriving DecidableEq

/-- Unsafe calls, the first one that fits being the one that is reported. -/
structure CallRegistry where
  targets : List UnsafeCall
  deriving DecidableEq

namespace CallRegistry

/-- The registry without any call. -/
def empty : CallRegistry := ⟨[]⟩

/-- The registry with one more call at the end. -/
def register (r : CallRegistry) (target : UnsafeCall) : CallRegistry := ⟨r.targets ++ [target]⟩

/-- The two `load` methods of the platform. -/
def builtin : CallRegistry :=
  ⟨[⟨"java.lang.Runtime", NameSet.ofList ["load"], "loadLibrary"⟩,
    ⟨"java.lang.System", NameSet.ofList ["load"], "loadLibrary"⟩]⟩

/-- Every method that some entry lists: a call of another one need not be looked at. -/
def applicableMethods (r : CallRegistry) : NameSet :=
  NameSet.ofList (r.targets.flatMap (·.methods.names))

/-- The first entry that lists a method and whose class is at or above the given one. -/
def find? (r : CallRegistry) (isBelow : String → String → Bool) (className method : String) :
    Option UnsafeCall :=
  r.targets.find? fun t => t.methods.contains method && isBelow className t.className

/-- What is reported of a call. A call of which the class or the method is unknown is let pass. -/
def check? (r : CallRegistry) (isBelow : String → String → Bool) (site : CallSite) :
    Option Finding :=
  match site.className, site.method with
  | some className, some method =>
    (r.find? isBelow className method).map fun target =>
      { ruleId := Issue.unsafeLoad.id
        severity := Issue.unsafeLoad.defaultSeverity
        location := .ofSource site.location
        message := "Dynamically loading code using `" ++ method ++ "` is risky, please use `"
          ++ target.alternative ++ "` instead when possible" }
  | _, _ => none

end CallRegistry

end AndroidAudit
