import AndroidAudit.Document.Codec
import AndroidAudit.Model.Issue

/-!
# Findings in documents
-/

namespace AndroidAudit

open Document

/-- Severities, by their words. -/
def Severity.codec : Codec Severity where
  shape := .choice ["informational", "warning", "error", "fatal"]
  toValue
    | .informational => (0 : Fin 4)
    | .warning => (1 : Fin 4)
    | .error => (2 : Fin 4)
    | .fatal => (3 : Fin 4)
  ofValue (i : Fin 4) := match i with
    | 0 => .informational
    | 1 => .warning
    | 2 => .error
    | 3 => .fatal
  ofValue_toValue s := by cases s <;> rfl

/-- The kinds of locations. -/
def Location.cases : List Case :=
  [ ⟨"method", "Method", [⟨"class", .required, .plain .text⟩, ⟨"method", .required, .plain .text⟩]⟩,
    ⟨"source", "Source", [⟨"file", .required, .plain .text⟩,
      ⟨"line", .required, .plain (.number .half)⟩, ⟨"column", .required, .plain (.number .half)⟩]⟩,
    ⟨"file", "File", [⟨"path", .required, .plain .text⟩]⟩ ]

/-- Locations, told apart by their type. -/
def Location.codec : Codec Location where
  shape := .tagged "Location" "type" Location.cases
  toValue
    | .method c m => .inl (c, m, ())
    | .source f l c => .inr (.inl (f, l.toFin, c.toFin, ()))
    | .file p => .inr (.inr (.inl (p, ())))
  ofValue
    | .inl (c, m, ()) => .method c m
    | .inr (.inl (f, l, c, ())) => .source f (.ofFin l) (.ofFin c)
    | .inr (.inr (.inl (p, ()))) => .file p
  ofValue_toValue l := by cases l <;> rfl

/-- Findings. Without evidence, none is written. -/
def Finding.codec : Codec Finding where
  shape := .record "Finding" (.ofList
    [ ("rule_id", .required, .text), ("severity", .required, Severity.codec.shape),
      ("location", .required, Location.codec.shape), ("message", .required, .text),
      ("evidence", .optional, .list .text) ])
  toValue f := (f.ruleId, Severity.codec.toValue f.severity, Location.codec.toValue f.location,
    f.message, if f.evidence.isEmpty then none else some f.evidence, ())
  ofValue
    | (id, severity, location, message, evidence, ()) =>
      { ruleId := id, severity := Severity.codec.ofValue severity
        location := Location.codec.ofValue location, message := message
        evidence := Option.getD evidence [] }
  ofValue_toValue f := by
    obtain ⟨id, severity, location, message, evidence⟩ := f
    cases evidence <;> simp [Severity.codec.ofValue_toValue, Location.codec.ofValue_toValue] <;> rfl

/-- An issue as JSON. Issues are only written. -/
def Issue.toJson (i : Issue) : Json := .object
  [ ("id", .string i.id), ("summary", .string i.summary), ("explanation", .string i.explanation),
    ("category", .string i.category.text), ("priority", .number i.priority),
    ("default_severity", .string i.defaultSeverity.text) ]

/-- The catalogue of issues as JSON. -/
def Issue.catalogueJson : Json := .array (Issue.catalogue.map Issue.toJson)

end AndroidAudit
