import AndroidAudit.Model.TypeGraph

/-!
# What an audit is given besides files

Classes, calls and types, as a reader of bytecode or source text hands them over.

In droidlint `typeGraph` is `type_graph`.
-/

namespace AndroidAudit

/-- Classes and calls to audit, with what is known of types. -/
structure AnalysisUnits where
  classes : List ClassUnit
  types : List TypeRecord
  callSites : List CallSite
  deriving DecidableEq, Repr

/-- Which type extends which. -/
def AnalysisUnits.typeGraph (u : AnalysisUnits) : TypeGraph := .ofRecords u.types

end AndroidAudit
