import AndroidAudit.Audit.Units
import AndroidAudit.Document.Codec

/-!
# Code under audit in documents
-/

namespace AndroidAudit

open Document

/-- The kinds of instructions. -/
def Instruction.cases : List Case :=
  [ ⟨"label", "Label", []⟩,
    ⟨"line", "Line", [⟨"line", .optional, .nullable (.number .half)⟩]⟩,
    ⟨"push_zero", "PushZero", []⟩,
    ⟨"push_null", "PushNull", []⟩,
    ⟨"allocate_array", "AllocateArray", [⟨"element_type", .required, .plain .text⟩]⟩,
    ⟨"return_reference", "ReturnReference", []⟩,
    ⟨"return_void", "ReturnVoid", []⟩,
    ⟨"other", "Other", [⟨"opcode", .optional, .plain .text⟩]⟩ ]

/-- Instructions, told apart by their kind. A line note without a line writes none. -/
def Instruction.codec : Codec Instruction where
  shape := .tagged "Instruction" "kind" Instruction.cases
  toValue
    | .label => .inl ()
    | .line none => .inr (.inl (none, ()))
    | .line (some n) => .inr (.inl (some (some n.toFin), ()))
    | .pushZero => .inr (.inr (.inl ()))
    | .pushNull => .inr (.inr (.inr (.inl ())))
    | .allocateArray t => .inr (.inr (.inr (.inr (.inl (t, ())))))
    | .returnReference => .inr (.inr (.inr (.inr (.inr (.inl ())))))
    | .returnVoid => .inr (.inr (.inr (.inr (.inr (.inr (.inl ()))))))
    | .other o => .inr (.inr (.inr (.inr (.inr (.inr (.inr (.inl (some o, ()))))))))
  ofValue
    | .inl () => .label
    | .inr (.inl (some (some n), ())) => .line (some (.ofFin n))
    | .inr (.inl (some none, ())) => .line none
    | .inr (.inl (none, ())) => .line none
    | .inr (.inr (.inl ())) => .pushZero
    | .inr (.inr (.inr (.inl ()))) => .pushNull
    | .inr (.inr (.inr (.inr (.inl (t, ()))))) => .allocateArray t
    | .inr (.inr (.inr (.inr (.inr (.inl ()))))) => .returnReference
    | .inr (.inr (.inr (.inr (.inr (.inr (.inl ())))))) => .returnVoid
    | .inr (.inr (.inr (.inr (.inr (.inr (.inr (.inl (o, ())))))))) => .other (Option.getD o "")
  ofValue_toValue i := by
    cases i with
    | line n => cases n <;> rfl
    | _ => rfl

/-- Methods. -/
def MethodBody.codec : Codec MethodBody where
  shape := .record "MethodBody" (.ofList
    [ ("name", .required, .text), ("declaring_type", .optional, .text),
      ("instructions", .optional, (Codec.list Instruction.codec).shape) ])
  toValue m := (m.name, some m.declaringType,
    some ((Codec.list Instruction.codec).toValue m.instructions), ())
  ofValue
    | (name, type, instructions, ()) =>
      ⟨name, Option.getD type "",
        (Option.map (Codec.list Instruction.codec).ofValue instructions).getD []⟩
  ofValue_toValue m := by
    simp [(Codec.list Instruction.codec).ofValue_toValue]
    rfl

/-- Classes. -/
def ClassUnit.codec : Codec ClassUnit where
  shape := .record "ClassUnit" (.ofList
    [ ("name", .required, .text), ("interfaces", .optional, .list .text),
      ("methods", .optional, (Codec.list MethodBody.codec).shape) ])
  toValue c := (c.name, some c.interfaces, some ((Codec.list MethodBody.codec).toValue c.methods), ())
  ofValue
    | (name, interfaces, methods, ()) =>
      ⟨name, Option.getD interfaces [],
        (Option.map (Codec.list MethodBody.codec).ofValue methods).getD []⟩
  ofValue_toValue c := by
    simp [(Codec.list MethodBody.codec).ofValue_toValue]
    rfl

/-- Positions in source files. -/
def SourceLocation.codec : Codec SourceLocation where
  shape := .record "SourceLocation" (.ofList
    [ ("file", .required, .text), ("line", .optional, .number .half),
      ("column", .optional, .number .half) ])
  toValue l := (l.file, some l.line.toFin, some l.column.toFin, ())
  ofValue
    | (file, line, column, ()) =>
      ⟨file, (Option.map UInt32.ofFin line).getD 0, (Option.map UInt32.ofFin column).getD 0⟩
  ofValue_toValue _ := rfl

/-- Calls. -/
def CallSite.codec : Codec CallSite where
  shape := .record "ResolvedCallSite" (.ofList
    [ ("class", .optional, .nullableText), ("method", .optional, .nullableText),
      ("location", .required, SourceLocation.codec.shape) ])
  toValue s := (some s.className, some s.method, SourceLocation.codec.toValue s.location, ())
  ofValue
    | (className, method, location, ()) =>
      ⟨Option.getD className none, Option.getD method none, SourceLocation.codec.ofValue location⟩
  ofValue_toValue s := by
    simp [SourceLocation.codec.ofValue_toValue]
    rfl

/-- Types. -/
def TypeRecord.codec : Codec TypeRecord where
  shape := .record "TypeRecord" (.ofList
    [("name", .required, .text), ("superclass", .optional, .nullableText)])
  toValue r := (r.name, some r.superclass, ())
  ofValue
    | (name, superclass, ()) => ⟨name, Option.getD superclass none⟩
  ofValue_toValue _ := rfl

/-- What an audit is given besides files. -/
def AnalysisUnits.codec : Codec AnalysisUnits where
  shape := .record "AnalysisUnits" (.ofList
    [ ("classes", .optional, (Codec.list ClassUnit.codec).shape),
      ("types", .optional, (Codec.list TypeRecord.codec).shape),
      ("call_sites", .optional, (Codec.list CallSite.codec).shape) ])
  toValue u := (some ((Codec.list ClassUnit.codec).toValue u.classes),
    some ((Codec.list TypeRecord.codec).toValue u.types),
    some ((Codec.list CallSite.codec).toValue u.callSites), ())
  ofValue
    | (classes, types, sites, ()) =>
      ⟨(Option.map (Codec.list ClassUnit.codec).ofValue classes).getD [],
        (Option.map (Codec.list TypeRecord.codec).ofValue types).getD [],
        (Option.map (Codec.list CallSite.codec).ofValue sites).getD []⟩
  ofValue_toValue u := by
    simp [(Codec.list ClassUnit.codec).ofValue_toValue, (Codec.list TypeRecord.codec).ofValue_toValue,
      (Codec.list CallSite.codec).ofValue_toValue]

end AndroidAudit
